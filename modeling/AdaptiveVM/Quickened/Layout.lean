import AdaptiveVM.Error
import AdaptiveVM.Quickened.Member
import AdaptiveVM.Quickened.Word

/-!
Quickening: the static stream copied into one that can adapt.

Every instruction that heads a family becomes the adaptive member of the family. A site at
position `p` with operand `o` owns the cache words from `p / 2 + o` on, and a cursor runs along
the stream so that no two sites share a word. Where the distance would not fit the operand
byte, the static instruction stays.
-/

namespace AdaptiveVM

/-- The form of a unit that adapts: its instructions and the words they remember things in. -/
structure Quickened where
  instrs : Array QuickInstr
  cache : Array UInt64

namespace Quickened

/-- What an instruction becomes when the words below `cursor` are taken, and the cursor after
it. -/
def place (position cursor : Nat) (i : Instr) : QuickInstr × Nat :=
  match i.op.family? with
  | none => (.plain i, cursor)
  | some family =>
    if family.entries = 0 then (⟨.adaptive family, 0⟩, cursor)
    else
      let base := max cursor (position / 2)
      if base - position / 2 ≤ 255 then
        (⟨.adaptive family, (base - position / 2).toUInt8⟩, base + family.entries)
      else (.plain i, cursor)

/-- The stream from a position on, and the cursor at its end. -/
def layoutFrom (position cursor : Nat) : List Instr → List QuickInstr × Nat
  | [] => ([], cursor)
  | i :: rest =>
    let (quick, cursor) := place position cursor i
    let (quicks, final) := layoutFrom (position + 1) cursor rest
    (quick :: quicks, final)

/-- The quickened stream of some code, and how many words it needs. -/
def layout (code : Array Instr) : List QuickInstr × Nat := layoutFrom 0 0 code.toList

/-- The bytes an instruction and a word count for. -/
def instrBytes : Nat := 3

def wordBytes : Nat := 8

/-- The bytes a stream and its words take. -/
def footprint (instrs words : Nat) : Nat := instrs * instrBytes + words * wordBytes

def memorySize (q : Quickened) : Nat := footprint q.instrs.size q.cache.size

/-- The instruction at a position of the stream. -/
def instrAt (q : Quickened) (position : Nat) : QuickInstr := q.instrs.getD position default

/-- Where the words of an instruction at a position start. -/
def base (position : Nat) (i : QuickInstr) : Nat := position / 2 + i.arg.toNat

/-- The words of the site at a position, as the first one and the one after the last. -/
def cacheRange? (q : Quickened) (position : Nat) : Option (Nat × Nat) :=
  match q.instrs[position]? with
  | none => none
  | some i =>
    match i.op.family? with
    | none => none
    | some family =>
      if family.entries = 0 then none
      else some (base position i, base position i + family.entries)

/-- A word of the site at a position. -/
def word (q : Quickened) (position slot : Nat) : UInt64 :=
  q.cache.getD (base position (q.instrAt position) + slot) 0

def setWord (q : Quickened) (position slot : Nat) (w : UInt64) : Quickened :=
  let i := base position (q.instrAt position) + slot
  { q with cache := q.cache.setIfInBounds i w }

/-- The first word of the site at a position. -/
def entryAt (q : Quickened) (position : Nat) : Entry := .unpack (q.word position 0)

def setEntry (q : Quickened) (position : Nat) (e : Entry) : Quickened :=
  q.setWord position 0 e.pack

/-- The second word of the site at a position. -/
def versionsAt (q : Quickened) (position : Nat) : VersionPair := .unpack (q.word position 1)

def setVersions (q : Quickened) (position : Nat) (v : VersionPair) : Quickened :=
  q.setWord position 1 v.pack

/-- Gives every site with words the operand of its static instruction to remember. -/
def seedFrom (q : Quickened) (position : Nat) : List Instr → Quickened
  | [] => q
  | i :: rest =>
    if (q.cacheRange? position).isSome then
      seedFrom (q.setEntry position { arg := i.arg }) (position + 1) rest
    else seedFrom q (position + 1) rest

/-- The quickened form of some code, before anything has been learnt. -/
def ofCode (code : Array Instr) : Quickened :=
  let (instrs, words) := layout code
  seedFrom { instrs := instrs.toArray, cache := Array.replicate words 0 } 0 code.toList

/-- Quickens some code if the result fits a number of bytes. -/
def quicken (code : Array Instr) (limit : Nat) : Except Limit Quickened :=
  let requested := footprint code.size (layout code).2
  if limit < requested then .error (.memory requested limit) else .ok (ofCode code)

end Quickened

end AdaptiveVM
