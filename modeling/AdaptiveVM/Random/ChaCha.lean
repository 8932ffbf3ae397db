/-!
A seeded stream of 32-bit words: the ChaCha block function with twelve rounds over a counter,
under a key that a 64-bit linear generator spreads the seed into.
-/

namespace AdaptiveVM.Random

def rotateLeft (x : UInt32) (n : UInt32) : UInt32 := (x <<< n) ||| (x >>> (32 - n))

/-- A quarter round on four of the sixteen words. -/
def quarterRound (s : Array UInt32) (i j k l : Nat) : Array UInt32 :=
  let a := s.getD i 0 + s.getD j 0
  let d := rotateLeft (s.getD l 0 ^^^ a) 16
  let c := s.getD k 0 + d
  let b := rotateLeft (s.getD j 0 ^^^ c) 12
  let a := a + b
  let d := rotateLeft (d ^^^ a) 8
  let c := c + d
  let b := rotateLeft (b ^^^ c) 7
  (((s.setIfInBounds i a).setIfInBounds j b).setIfInBounds k c).setIfInBounds l d

/-- The columns of the square of words, then its diagonals. -/
def doubleRound (s : Array UInt32) : Array UInt32 :=
  let s := quarterRound s 0 4 8 12
  let s := quarterRound s 1 5 9 13
  let s := quarterRound s 2 6 10 14
  let s := quarterRound s 3 7 11 15
  let s := quarterRound s 0 5 10 15
  let s := quarterRound s 1 6 11 12
  let s := quarterRound s 2 7 8 13
  quarterRound s 3 4 9 14

/-- Six double rounds. -/
def rounds (s : Array UInt32) : Array UInt32 := Nat.repeat doubleRound 6 s

/-- The words every block starts from. -/
def sigma : List UInt32 := [0x61707865, 0x3320646e, 0x79622d32, 0x6b206574]

/-- The sixteen words of the block with the given number. -/
def block (key : List UInt32) (number : UInt64) : List UInt32 :=
  let start := sigma ++ key ++ [number.toUInt32, (number >>> 32).toUInt32, 0, 0]
  List.zipWith (· + ·) (rounds start.toArray).toList start

/-- The key words for a seed, one from each state of the linear generator. -/
def keyWords (state : UInt64) : Nat → List UInt32
  | 0 => []
  | n + 1 =>
    let state := state * 6364136223846793005 + 11634580027462260723
    let word := (((state >>> 18) ^^^ state) >>> 27).toUInt32
    let turn := (state >>> 59).toUInt32
    rotateLeft word (32 - turn) :: keyWords state n

/-- A stream of words from some word on: the rest of the current block, and the number of the next
one. Whatever the blocks are, they make a stream. -/
structure Words where
  blocks : UInt64 → List UInt32
  block : UInt64 := 0
  pending : List UInt32 := []

namespace Words

def ofSeed (seed : UInt64) : Words := { blocks := Random.block (keyWords seed 8) }

def word32 (ws : Words) : Nat × Words :=
  match ws.pending with
  | w :: rest => (w.toNat, { ws with pending := rest })
  | [] =>
    match ws.blocks ws.block with
    | w :: rest => (w.toNat, { ws with block := ws.block + 1, pending := rest })
    | [] => (0, ws)

/-- Two words, the low one first. -/
def word64 (ws : Words) : Nat × Words :=
  let (low, ws) := ws.word32
  let (high, ws) := ws.word32
  ((high <<< 32) + low, ws)

theorem word32_lt (ws : Words) : ws.word32.1 < 1 <<< 32 := by
  unfold word32
  split
  · exact UInt32.toNat_lt _
  · split
    · exact UInt32.toNat_lt _
    · exact Nat.pos_of_ne_zero (by decide)

theorem word64_lt (ws : Words) : ws.word64.1 < 1 <<< 64 := by
  have hlow := ws.word32_lt
  have hhigh := ws.word32.2.word32_lt
  unfold word64
  dsimp only
  omega

end Words

end AdaptiveVM.Random
