import AdaptiveVM.Proofs.Isolation

/-!
How many misses in a row a specialized site survives.

A miss takes the counter one step towards its lower bound, and the site falls back when it gets
there. So the number of misses is the distance divided by the step, rounded up, and a configuration
is accepted only if from the upper bound that is no more than what a fresh site has to spare. A
counter that another configuration has left behind can be anywhere, but one miss brings it between
the bounds.
-/

namespace AdaptiveVM

/-! ### Counters as numbers -/

lemma toNat_clamp {low high : UInt8} (a : UInt8) (h : low ≤ high) :
    (clamp a low high).toNat = max low.toNat (min a.toNat high.toNat) := by
  have hle := UInt8.le_iff_toNat_le.mp h
  unfold clamp
  split
  · next hlow =>
    have := UInt8.lt_iff_toNat_lt.mp hlow
    omega
  · next hlow =>
    have hlow' := UInt8.le_iff_toNat_le.mp (UInt8.not_lt.mp hlow)
    split
    · next hhigh =>
      have := UInt8.lt_iff_toNat_lt.mp hhigh
      omega
    · next hhigh =>
      have := UInt8.le_iff_toNat_le.mp (UInt8.not_lt.mp hhigh)
      omega

namespace Policy

variable {p : Policy} {n : UInt8}

end Policy

/-! ### What is accepted -/

namespace Config

variable {c : Config}

/-- All that is asked of a configuration apart from how soon a site falls back. -/
structure Orderly (c : Config) : Prop where
  threshold : 2 ≤ c.specializeThreshold
  low : c.counterMin < c.counterInitial
  high : c.counterInitial ≤ c.counterMax
  hitStep : c.hitStep ≠ 0
  missStep : c.missStep ≠ 0
  depth : c.maxFrameDepth ≠ 0

lemma toNat_missesFromMax (hstep : c.missStep ≠ 0) : c.missesFromMax.toNat =
    (c.counterMax.toNat - c.counterMin.toNat) ⌈/⌉ c.missStep.toNat := by
  have hpos : 0 < c.missStep.toNat := UInt8.lt_iff_toNat_lt.mp (UInt8.pos_iff_ne_zero.mpr hstep)
  have hmax := c.counterMax.toNat_lt
  have hfits : (c.counterMax.toNat - c.counterMin.toNat + c.missStep.toNat - 1) /
      c.missStep.toNat < 256 := by
    rw [Nat.div_lt_iff_lt_mul hpos]
    omega
  rw [missesFromMax, Nat.ceilDiv_eq_add_pred_div]
  exact Nat.mod_eq_of_lt hfits

/-- **What is accepted**: a configuration whose sites fall back from the upper bound within as many
misses as a fresh one has to spare. -/
theorem fault?_eq_none_iff : c.fault? = none ↔ c.Orderly ∧
    (c.counterMax.toNat - c.counterMin.toNat) ⌈/⌉ c.missStep.toNat ≤
      c.counterInitial.toNat - c.counterMin.toNat := by
  unfold fault?
  by_cases hthreshold : c.specializeThreshold < 2
  · simp only [hthreshold, if_true, reduceCtorEq, false_iff]
    exact fun h => UInt8.not_lt.mpr h.1.threshold hthreshold
  by_cases hlow : c.counterInitial ≤ c.counterMin
  · simp only [hthreshold, hlow, if_true, if_false, reduceCtorEq, false_iff]
    exact fun h => UInt8.not_le.mpr h.1.low hlow
  by_cases hhigh : c.counterMax < c.counterInitial
  · simp only [hthreshold, hlow, hhigh, if_true, if_false, reduceCtorEq, false_iff]
    exact fun h => UInt8.not_lt.mpr h.1.high hhigh
  by_cases hsteps : c.hitStep = 0 ∨ c.missStep = 0
  · simp only [hthreshold, hlow, hhigh, hsteps, if_true, if_false, reduceCtorEq, false_iff]
    exact fun h => hsteps.elim h.1.hitStep h.1.missStep
  obtain ⟨hhit, hmiss⟩ := not_or.mp hsteps
  have hspare : (c.counterInitial - c.counterMin).toNat =
      c.counterInitial.toNat - c.counterMin.toNat :=
    UInt8.toNat_sub_of_le _ _ (UInt8.le_of_lt (UInt8.not_le.mp hlow))
  have hsoon : c.counterInitial - c.counterMin < c.missesFromMax ↔
      ¬ (c.counterMax.toNat - c.counterMin.toNat) ⌈/⌉ c.missStep.toNat ≤
        c.counterInitial.toNat - c.counterMin.toNat := by
    rw [UInt8.lt_iff_toNat_lt, hspare, toNat_missesFromMax hmiss, Nat.not_le]
  by_cases hlate : c.counterInitial - c.counterMin < c.missesFromMax
  · simp only [hthreshold, hlow, hhigh, hsteps, hlate, if_true, if_false, reduceCtorEq, false_iff]
    exact fun h => hsoon.mp hlate h.2
  by_cases hdepth : c.maxFrameDepth = 0
  · simp only [hthreshold, hlow, hhigh, hsteps, hlate, hdepth, if_true, if_false, reduceCtorEq,
      false_iff]
    exact fun h => h.1.depth hdepth
  · simp only [hthreshold, hlow, hhigh, hsteps, hlate, hdepth, if_false, true_iff]
    have horderly : c.Orderly :=
      ⟨UInt8.not_lt.mp hthreshold, UInt8.not_le.mp hlow, UInt8.not_lt.mp hhigh, hhit, hmiss, hdepth⟩
    exact ⟨horderly, not_not.mp fun hc => hlate (hsoon.mpr hc)⟩

lemma validate_eq_ok_iff : c.validate = .ok c ↔ c.fault? = none := by
  unfold validate
  rcases c.fault? with _ | f <;> simp

end Config

/-! ### Misses of a site -/

/-- The guard was tried and failed. -/
def SiteEvent.isMiss : SiteEvent → Bool
  | .missed _ | .fellBack => true
  | _ => false

lemma FamilyStats.miss_record (s : FamilyStats) (ev : SiteEvent) :
    decide (s.miss < (s.record ev).miss) = ev.isMiss := by
  cases ev <;> simp [record, SiteEvent.isMiss]

namespace Trial

variable {op : QuickOp} {fam : Family} {t : Trial} {c : Config} {n : UInt8}

end Trial

namespace Process

variable {p : Process} {u i : Nat} {q : Quickened} {a : Action} {as : List Action}

/-- The site that an action executes has missed its guard, as the counts of its family tell. -/
def missed (p : Process) (a : Action) : Bool :=
  match p.execution? a with
  | some ⟨k, _, some fam⟩ =>
    decide (((p.vmAt k).stats.family fam).miss < (((p.perform a).vmAt k).stats.family fam).miss)
  | _ => false

/-- The execution of a site, if the action is one: the policy of the interpreter, and whether the
guard was missed. -/
def strike? (p : Process) (u i : Nat) (a : Action) : Option (Policy × Bool) :=
  (p.visit? a).bind fun w =>
    if w.unit = u ∧ w.position = i then some ((p.vmAt w.vm).config.policy, p.missed a) else none

/-- All executions of a site along some actions. -/
def strikes (p : Process) (u i : Nat) : List Action → List (Policy × Bool)
  | [] => []
  | a :: as => (p.strike? u i a).toList ++ (p.perform a).strikes u i as

end Process

lemma Quickened.state?_of_family {q : Quickened} {i : Nat} {fam : Family}
    (hfam : (q.instrAt i).op.family? = some fam) :
    q.state? i = some (if (q.instrAt i).op.isAdaptive then .adaptive (q.counter i)
      else .specialized (q.counter i)) := by
  unfold state?
  split
  · next hop =>
    rw [hop] at hfam
    cases hfam
  · split <;> rfl

namespace Process

end Process

end AdaptiveVM
