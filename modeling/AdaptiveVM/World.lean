import AdaptiveVM.Heap
import AdaptiveVM.Quickened.Site

/-!
The world a machine works on: the heap, and beside each code unit what executions have learnt
about it. The heap alone decides what a program computes.
-/

namespace AdaptiveVM

/-- What is kept beside a code unit: how warm it is, and its quickened form once it has one. -/
structure Attachment where
  /-- Frame entries and backward jumps counted so far. -/
  warmup : UInt32 := 0
  quickened : Option Quickened := none

namespace Attachment

instance : Inhabited Attachment := ⟨{}⟩

/-- One more tick; the count stops at the largest word. -/
def tick (a : Attachment) : Attachment :=
  { a with warmup := if a.warmup = 0xffffffff then a.warmup else a.warmup + 1 }

/-- Starts the count over. -/
def cool (a : Attachment) : Attachment := { a with warmup := 0 }

/-- The unit now runs in the given form. -/
def install (a : Attachment) (q : Quickened) : Attachment := { a with quickened := some q }

/-- Quickens the unit whose code is given, unless that has been done. -/
def quicken (a : Attachment) (code : Array Instr) (limit : Nat) : Except Limit Unit × Attachment :=
  match a.quickened with
  | some _ => (.ok (), a)
  | none =>
    match Quickened.quicken code limit with
    | .ok q => (.ok (), a.install q)
    | .error e => (.error e, a)

/-- An event at a site of the quickened form. -/
def apply (a : Attachment) (position : Nat) (family : Family) (event : SiteEvent) : Attachment :=
  { a with quickened := a.quickened.map fun q => q.apply position family event }

end Attachment

structure World where
  heap : Heap := {}
  /-- One attachment for every code unit of the heap. -/
  attachments : Array Attachment := #[]

namespace World

instance : Inhabited World := ⟨{}⟩

def attachmentAt (w : World) (u : Nat) : Attachment := w.attachments.getD u default

/-- Adds a code unit that has never been executed. -/
def newUnit (w : World) (u : CodeUnit) : Nat × World :=
  let (id, heap) := w.heap.newUnit u
  (id, { heap, attachments := w.attachments.push {} })

/-- Quickens a unit at the host's request, and says why if that was not possible. -/
def tryQuicken (w : World) (u limit : Nat) : Except Limit Unit × World :=
  let out := (w.attachmentAt u).quicken (w.heap.unitAt u).instrs limit
  (out.1, { w with attachments := w.attachments.setIfInBounds u out.2 })

/-- The world in which a unit is quickened, for a host that gives up at a failure. -/
def quicken (w : World) (u limit : Nat) : Except Limit World :=
  let out := w.tryQuicken u limit
  out.1.map fun _ => out.2

end World

end AdaptiveVM
