import AdaptiveVM.Random.ChaCha
import AdaptiveVM.Value

/-!
A stream of operands: mostly small integers, now and then a quarter or a short text.

What the numbers are drawn with is a matter of the generator. The one that seeds make gets a number
below `n` from the high half of the product of `n` with a random word; a word whose low half would
favour some results is passed over.
-/

namespace AdaptiveVM.Random

/-- How numbers below a bound and coins are made of words. -/
structure Sampler where
  below32 : Words → Nat → Nat × Words
  below64 : Words → Nat → Nat × Words
  coin : Words → Bool × Words
  below32_lt : ∀ ws n, 0 < n → (below32 ws n).1 < n
  below64_lt : ∀ ws n, 0 < n → (below64 ws n).1 < n

structure Generator where
  sampler : Sampler
  words : Words

namespace Generator

/-- One operand in ten is a multiple of a quarter, one in ten a text, the others integers. -/
def operand (g : Generator) : Value × Generator :=
  let (pick, ws) := g.sampler.below32 g.words 10
  if pick = 0 then
    let (n, ws) := g.sampler.below32 ws 100
    (.float (Float.ofNat n / 4.0), { g with words := ws })
  else if pick = 1 then
    let (heads, ws) := g.sampler.coin ws
    (.str (if heads then "a" else "bc"), { g with words := ws })
  else
    let (n, ws) := g.sampler.below64 ws 100
    (.int (Int64.ofNat n), { g with words := ws })

end Generator

/-! ### The generator that seeds make -/

namespace Sampler

variable {next : Words → Nat × Words} {bits n : Nat}

/-- The largest low half that is accepted for numbers below `n` from words of `bits` bits. -/
def zone (bits n : Nat) : Nat := (n <<< (bits - (Nat.log2 n + 1))) - 1

/-- A number below `n`, after passing over at most `tries` words. -/
def belowFrom (next : Words → Nat × Words) (bits n : Nat) (ws : Words) : Nat → Nat × Words
  | 0 =>
    let (w, ws) := next ws
    ((w * n) >>> bits, ws)
  | tries + 1 =>
    let (w, ws) := next ws
    if w * n % (1 <<< bits) ≤ zone bits n then ((w * n) >>> bits, ws)
    else belowFrom next bits n ws tries

/-- More words in a row than any seeded stream passes over; the bound is there to make the search
end, and the word after it is taken as it is. -/
def patience : Nat := 4096

/-- The high half of a product with a word. -/
theorem high_lt {w : Nat} (hw : w < 1 <<< bits) (hn : 0 < n) : (w * n) >>> bits < n := by
  rw [Nat.one_shiftLeft] at hw
  rw [Nat.shiftRight_eq_div_pow]
  exact Nat.div_lt_of_lt_mul (Nat.mul_lt_mul_of_pos_right hw hn)

theorem belowFrom_lt (hnext : ∀ ws, (next ws).1 < 1 <<< bits) (hn : 0 < n) (ws : Words)
    (tries : Nat) : (belowFrom next bits n ws tries).1 < n := by
  induction tries generalizing ws with
  | zero => exact high_lt (hnext ws) hn
  | succ tries ih =>
    rw [belowFrom]
    dsimp only
    split
    · exact high_lt (hnext ws) hn
    · exact ih _

/-- Numbers are high halves, and coins are fair. -/
def fair : Sampler where
  below32 ws n := belowFrom Words.word32 32 n ws patience
  below64 ws n := belowFrom Words.word64 64 n ws patience
  coin ws :=
    let (w, ws) := ws.word64
    (w < 0x8000000000000000, ws)
  below32_lt ws _ hn := belowFrom_lt Words.word32_lt hn ws patience
  below64_lt ws _ hn := belowFrom_lt Words.word64_lt hn ws patience

end Sampler

def Generator.ofSeed (seed : UInt64) : Generator := ⟨.fair, .ofSeed seed⟩

/-- A stream of operands: a generator, or a sequence given by its terms and how many of them
have been taken. -/
inductive Source where
  | seeded (generator : Generator)
  | listed (term : Nat → Value) (taken : Nat)

namespace Source

instance : Inhabited Source := ⟨.listed (fun _ => .none) 0⟩

def ofSeed (seed : UInt64) : Source := .seeded (.ofSeed seed)

/-- The next operand. -/
def draw : Source → Value × Source
  | .seeded g =>
    let (v, g) := g.operand
    (v, .seeded g)
  | .listed term taken => (term taken, .listed term (taken + 1))

end Source

end AdaptiveVM.Random
