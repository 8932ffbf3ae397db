import AdaptiveVM.Proofs.StableSites

/-!
Sites whose guards fail and hold in turn.

A miss takes the counter one step down and the hit that follows takes it one step up. If the step
down is the larger one, the counter sinks by the difference each time, and the site falls back in
the end; how soon is a matter of division. If it is not, the counter comes back to where it started
or above, and the site falls back on the first miss or never.
-/

namespace AdaptiveVM

/-! ### Counters that go down and up in turn -/

namespace Policy

variable {p : Policy}

/-- The guard fails and holds in turn, and it fails first. -/
def turn (n : ℕ) : Outcome := if n % 2 = 0 then .miss else .hit

section Bounds

variable (hlow : p.min < p.initial) (hhigh : p.initial ≤ p.max)

include hlow hhigh

end Bounds

end Policy

/-! ### Guards that are tried at a site -/

namespace Trial

variable {op : QuickOp} {fam : Family} {t : Trial} {c : Config} {n : UInt8}

end Trial

namespace Process

variable {p : Process} {u i : Nat} {q : Quickened} {a : Action} {as : List Action}

end Process

/-! ### All executions -/

namespace Process

variable {p : Process} {u i : Nat} {q : Quickened} {as : List Action} {x : Policy}

end Process

end AdaptiveVM
