import AdaptiveVM.Token

/-!
Cache words: what a site remembers, in 64 bits.

The first word of a site holds, from the low bits up, the operand of the static instruction, a
counter, a slot index and a version token; the second holds two more tokens.
-/

namespace AdaptiveVM

/-- The first word of a site. -/
structure Entry where
  /-- The operand of the static instruction. -/
  arg : UInt8
  /-- Executions while the site is adaptive, confidence while it is specialized. -/
  counter : UInt8 := 0
  /-- The slot of a namespace, or the position of a field. -/
  index : UInt16 := 0
  version : Token := 0
  deriving DecidableEq

namespace Entry

def pack (e : Entry) : UInt64 :=
  e.arg.toUInt64 ||| (e.counter.toUInt64 <<< 8) ||| (e.index.toUInt64 <<< 16) |||
    (e.version.toUInt64 <<< 32)

def unpack (w : UInt64) : Entry :=
  { arg := w.toUInt8
    counter := (w >>> 8).toUInt8
    index := (w >>> 16).toUInt16
    version := (w >>> 32).toUInt32 }

end Entry

/-- The second word of a site. -/
structure VersionPair where
  first : Token := 0
  second : Token := 0
  deriving DecidableEq

namespace VersionPair

def pack (v : VersionPair) : UInt64 := v.first.toUInt64 ||| (v.second.toUInt64 <<< 32)

def unpack (w : UInt64) : VersionPair :=
  { first := w.toUInt32
    second := (w >>> 32).toUInt32 }

end VersionPair

end AdaptiveVM
