import AdaptiveVM.Listing
import AdaptiveVM.Proofs.Process

/-!
The ledger of an interpreter.

What an interpreter has counted about a family can be read off the sites of the units that it alone
executes: each attempt to specialize has taken as many executions as the threshold says, the rest
stands on the counters of adaptive sites, and each success is a specialized site or one that has
fallen back. One event keeps the books balanced, since it moves the counts and a single site
together; so does everything else, since it moves neither.
-/

namespace AdaptiveVM

/-! ### Tallies of sites -/

/-- The executions that an adaptive site of a family has counted. -/
def executions (family : Family) (op : QuickOp) (counter : UInt8) : Nat :=
  if op.family? = some family ∧ op.isAdaptive = true then counter.toNat else 0

/-- One for a specialized site of a family. -/
def specialized (family : Family) (op : QuickOp) (_counter : UInt8) : Nat :=
  if op.family? = some family ∧ op.isAdaptive = false then 1 else 0

/-- A weight, by member and counter, summed over a stream. -/
def Quickened.tally (q : Quickened) (weight : QuickOp → UInt8 → Nat) : Nat :=
  ∑ p ∈ Finset.range q.instrs.size, weight (q.instrAt p).op (q.counter p)

def Attachment.tally (x : Attachment) (weight : QuickOp → UInt8 → Nat) : Nat :=
  match x.quickened with
  | some q => q.tally weight
  | none => 0

/-- A weight summed over the streams of some of the units. -/
def tally (own : Nat → Bool) (a : Array Attachment) (weight : QuickOp → UInt8 → Nat) : Nat :=
  ∑ u ∈ Finset.range a.size with own u = true, (a.getD u default).tally weight

/-- A weight that a site has only once something has happened to it. -/
structure Unearned (weight : QuickOp → UInt8 → Nat) : Prop where
  plain : ∀ op n, weight (.plain op) n = 0
  adaptive : ∀ family, weight (.adaptive family) 0 = 0

lemma executions_unearned (family : Family) : Unearned (executions family) where
  plain op n := by simp [executions, QuickOp.family?]
  adaptive f := by simp [executions]

lemma specialized_unearned (family : Family) : Unearned (specialized family) where
  plain op n := by simp [specialized, QuickOp.family?]
  adaptive f := by simp [specialized, Quickened.isAdaptive_adaptive]

/-- Two sums that differ in one summand. -/
lemma sum_change {s : Finset Nat} {p : Nat} (hp : p ∈ s) {f g : Nat → Nat}
    (h : ∀ k, k ≠ p → g k = f k) : ∑ k ∈ s, g k + f p = ∑ k ∈ s, f k + g p := by
  have hrest : ∑ k ∈ s.erase p, g k = ∑ k ∈ s.erase p, f k :=
    Finset.sum_congr rfl fun k hk => h k (Finset.ne_of_mem_erase hk)
  have hg := Finset.sum_erase_add s g hp
  have hf := Finset.sum_erase_add s f hp
  omega

namespace Quickened

variable {q : Quickened} {p : Nat} {fam : Family} {ev : SiteEvent}
  {weight : QuickOp → UInt8 → Nat}

/-- A site starts counting at zero, wherever it keeps its counter. -/
lemma counter_ofCode {code : Array Instr} {f : Family}
    (h : ((ofCode code).instrAt p).op = .adaptive f) : (ofCode code).counter p = 0 := by
  have hfam : ((ofCode code).instrAt p).op.family? = some f := by rw [h, family_adaptive]
  obtain ⟨i, hi, hf⟩ := (erasesTo_ofCode code).getElem?_of_family hfam
  by_cases h0 : f.entries = 0
  · have hown : (ofCode code).hasEntries p = false := by
      rw [hasEntries_of_family hfam, h0]
      rfl
    rw [counter, hown, instrAt_ofCode hi, place_of_entries_zero hf h0]
    rfl
  · have hown : (ofCode code).hasEntries p = true := by
      rw [hasEntries_of_family hfam, decide_eq_true (Nat.pos_of_ne_zero h0)]
    rw [counter, if_pos hown, entryAt_ofCode hi hown]

lemma tally_ofCode (hw : Unearned weight) (code : Array Instr) :
    (ofCode code).tally weight = 0 := by
  refine Finset.sum_eq_zero fun p hp => ?_
  have hlt : p < code.size := by simpa using hp
  rcases instrAt_ofCode_cases (Array.getElem?_eq_getElem hlt) with hi | ⟨f, arg, -, hi⟩
  · rw [hi]
    exact hw.plain _ _
  · have hop : ((ofCode code).instrAt p).op = .adaptive f := by rw [hi]
    rw [counter_ofCode hop, hop]
    exact hw.adaptive f

/-- An event changes one summand. -/
lemma tally_apply (weight : QuickOp → UInt8 → Nat) (hq : q.Laid)
    (h : (q.instrAt p).op.family? = some fam) (hev : ev.Fits fam) :
    (q.apply p fam ev).tally weight + weight (q.instrAt p).op (q.counter p) =
      q.tally weight + weight (ev.member fam (q.instrAt p).op) ev.counter := by
  have htouch := apply_touches h hev
  have hchange := sum_change (Finset.mem_range.mpr (lt_size_of_family h))
    (f := fun k => weight (q.instrAt k).op (q.counter k))
    (g := fun k => weight ((q.apply p fam ev).instrAt k).op ((q.apply p fam ev).counter k))
    fun k hk => by rw [htouch.instr k hk, htouch.counter hq hk]
  rw [op_apply h, counter_apply hq h hev] at hchange
  rw [tally, tally, htouch.size]
  exact hchange

end Quickened

section Tally

variable {own : Nat → Bool} {a a' : Array Attachment} {u : Nat} {q : Quickened}
  {weight : QuickOp → UInt8 → Nat}

lemma lt_size_of_quickened (hq : (a.getD u default).quickened = some q) : u < a.size := by
  by_contra hc
  rw [getD_of_size_le (by omega)] at hq
  cases hq

/-- Only the units that are looked at matter. -/
lemma tally_congr (hsize : a.size ≤ a'.size)
    (h : ∀ u, own u = true →
      (a'.getD u default).tally weight = (a.getD u default).tally weight) :
    tally own a' weight = tally own a weight := by
  have hsub : (Finset.range a.size).filter (own · = true) ⊆
      (Finset.range a'.size).filter (own · = true) :=
    Finset.filter_subset_filter _ (Finset.range_mono hsize)
  unfold tally
  rw [← Finset.sum_subset hsub fun u hu hnot => ?_]
  · exact Finset.sum_congr rfl fun u hu => h u (Finset.mem_filter.mp hu).2
  · -- a unit that was not there had nothing to count
    have hown := (Finset.mem_filter.mp hu).2
    have hout : a.size ≤ u := by
      by_contra hc
      exact hnot (Finset.mem_filter.mpr ⟨Finset.mem_range.mpr (by omega), hown⟩)
    rw [h u hown, getD_of_size_le hout]
    rfl

/-- One unit changes. -/
lemma tally_modify (weight : QuickOp → UInt8 → Nat) (hu : u < a.size) (hown : own u = true)
    (f : Attachment → Attachment) :
    tally own (a.modify u f) weight + (a.getD u default).tally weight =
      tally own a weight + (f (a.getD u default)).tally weight := by
  have hmem : u ∈ (Finset.range a.size).filter (own · = true) :=
    Finset.mem_filter.mpr ⟨Finset.mem_range.mpr hu, hown⟩
  have hchange := sum_change hmem
    (f := fun k => (a.getD k default).tally weight)
    (g := fun k => ((a.modify u f).getD k default).tally weight)
    fun k hk => by rw [getD_modify, if_neg (fun hc => hk hc.1.symm)]
  rw [getD_modify, if_pos ⟨rfl, hu⟩] at hchange
  rw [tally, tally, Array.size_modify]
  exact hchange

/-- One site of one unit changes. -/
lemma tally_visit (weight : QuickOp → UInt8 → Nat) (hown : own u = true)
    (hq : (a.getD u default).quickened = some q) (hlaid : q.Laid) {p : Nat} {fam : Family}
    {ev : SiteEvent} (hop : (q.instrAt p).op.family? = some fam) (hev : ev.Fits fam) :
    tally own (a.modify u (·.apply p fam ev)) weight + weight (q.instrAt p).op (q.counter p) =
      tally own a weight + weight (ev.member fam (q.instrAt p).op) ev.counter := by
  have hold : (a.getD u default).tally weight = q.tally weight := by rw [Attachment.tally, hq]
  have hnew : ((a.getD u default).apply p fam ev).tally weight =
      (q.apply p fam ev).tally weight := by
    rw [Attachment.tally, Attachment.apply, hq]
    rfl
  have hunit := tally_modify weight (lt_size_of_quickened hq) hown (·.apply p fam ev)
  have hstream := Quickened.tally_apply weight hlaid hop hev
  rw [hold, hnew] at hunit
  omega

end Tally

/-! ### One family -/

/-- All refusals, whatever their reason. -/
def RefusalCounts.total (c : RefusalCounts) : Nat := (Refusal.all.map c.get).sum

lemma RefusalCounts.total_bump (c : RefusalCounts) (reason : Refusal) :
    (c.bump reason).total = c.total + 1 := by
  cases reason <;> simp [total, Refusal.all, bump, get] <;> omega

/-- The counts of a family balance, given the threshold, what its adaptive sites have counted, how
many of its sites are specialized, and how often its sites have been executed. -/
structure FamilyStats.Balances (s : FamilyStats) (threshold counted sites visits : Nat) : Prop where
  adaptive : s.adaptive = threshold * (s.success + s.failure) + counted
  success : s.success = s.deopt + sites
  refused : s.refusals.total = s.failure
  visits : s.adaptive + s.hit + s.miss = visits

namespace FamilyStats.Balances

variable {s : FamilyStats} {threshold counted sites visits : Nat}

lemma record_counted (hb : s.Balances threshold counted sites visits) (n : UInt8) :
    (s.record (.counted n)).Balances threshold (counted + 1) sites (visits + 1) where
  adaptive := by
    show s.adaptive + 1 = threshold * (s.success + s.failure) + (counted + 1)
    rw [hb.adaptive]
    omega
  success := hb.success
  refused := hb.refused
  visits := by
    show s.adaptive + 1 + s.hit + s.miss = visits + 1
    have := hb.visits
    omega

/-- The execution that reaches the threshold is the last of those the site has counted. -/
lemma record_specialized {n : Nat} (hb : s.Balances threshold (counted + n) sites visits)
    (hn : n + 1 = threshold) (op : QuickOp) (attempt : Attempt) (c : UInt8) :
    (s.record (.specialized op attempt c)).Balances threshold counted (sites + 1) (visits + 1) where
  adaptive := by
    have hmul : threshold * (s.success + 1 + s.failure) =
        threshold * (s.success + s.failure) + threshold := by ring
    show s.adaptive + 1 = threshold * (s.success + 1 + s.failure) + counted
    rw [hb.adaptive, hmul]
    omega
  success := by
    show s.success + 1 = s.deopt + (sites + 1)
    rw [hb.success]
    omega
  refused := hb.refused
  visits := by
    show s.adaptive + 1 + s.hit + s.miss = visits + 1
    have := hb.visits
    omega

lemma record_refused {n : Nat} (hb : s.Balances threshold (counted + n) sites visits)
    (hn : n + 1 = threshold) (reason : Refusal) (attempt : Attempt) :
    (s.record (.refused reason attempt)).Balances threshold counted sites (visits + 1) where
  adaptive := by
    have hmul : threshold * (s.success + (s.failure + 1)) =
        threshold * (s.success + s.failure) + threshold := by ring
    show s.adaptive + 1 = threshold * (s.success + (s.failure + 1)) + counted
    rw [hb.adaptive, hmul]
    omega
  success := hb.success
  refused := by
    show (s.refusals.bump reason).total = s.failure + 1
    rw [RefusalCounts.total_bump, hb.refused]
  visits := by
    show s.adaptive + 1 + s.hit + s.miss = visits + 1
    have := hb.visits
    omega

lemma record_hit (hb : s.Balances threshold counted sites visits) (c : UInt8) :
    (s.record (.hit c)).Balances threshold counted sites (visits + 1) where
  adaptive := hb.adaptive
  success := hb.success
  refused := hb.refused
  visits := by
    show s.adaptive + (s.hit + 1) + s.miss = visits + 1
    have := hb.visits
    omega

lemma record_missed (hb : s.Balances threshold counted sites visits) (c : UInt8) :
    (s.record (.missed c)).Balances threshold counted sites (visits + 1) where
  adaptive := hb.adaptive
  success := hb.success
  refused := hb.refused
  visits := by
    show s.adaptive + s.hit + (s.miss + 1) = visits + 1
    have := hb.visits
    omega

lemma record_fellBack (hb : s.Balances threshold counted (sites + 1) visits) :
    (s.record .fellBack).Balances threshold counted sites (visits + 1) where
  adaptive := hb.adaptive
  success := by
    show s.success = s.deopt + 1 + sites
    rw [hb.success]
    omega
  refused := hb.refused
  visits := by
    show s.adaptive + s.hit + (s.miss + 1) = visits + 1
    have := hb.visits
    omega

end FamilyStats.Balances

/-! ### One event -/

section Event

variable {s : FamilyStats} {counted counted' sites sites' visits : Nat} {op : QuickOp}
  {fam : Family} {c : Config} {n : UInt8} {t : Trial}

lemma executions_of_adaptive (hop : op.family? = some fam) (ha : op.isAdaptive = true) (n : UInt8) :
    executions fam op n = n.toNat ∧ specialized fam op n = 0 := by
  simp [executions, specialized, hop, ha]

lemma executions_of_specialized (hop : op.family? = some fam) (ha : op.isAdaptive = false)
    (n : UInt8) : executions fam op n = 0 ∧ specialized fam op n = 1 := by
  simp [executions, specialized, hop, ha]

lemma executions_of_ne (hop : op.family? ≠ some fam) (n : UInt8) :
    executions fam op n = 0 ∧ specialized fam op n = 0 := by
  simp [executions, specialized, hop]

/-- A site that an event leaves adaptive counts below the threshold. -/
lemma Trial.event_low (hfit : t.Fits op fam) (hpos : 0 < c.specializeThreshold)
    (ha : ((t.event c n).member fam op).isAdaptive = true) :
    (t.event c n).counter < c.specializeThreshold := by
  cases t with
  | adaptive attempt =>
    rcases Trial.event_adaptive_cases c n attempt with
      ⟨hlt, he⟩ | ⟨-, ⟨op', hv, he⟩ | ⟨reason, -, he⟩⟩
    · rw [he]
      exact hlt
    · rw [he] at ha
      exact absurd (ha.symm.trans (hfit.2.member op' hv).2) (by decide)
    · rw [he]
      exact hpos
  | guarded holds =>
    rcases Trial.event_guarded_cases c n holds with ⟨-, he⟩ | ⟨-, -, he⟩ | ⟨-, -, he⟩
    · rw [he] at ha
      exact absurd (ha.symm.trans hfit) (by decide)
    · rw [he] at ha
      exact absurd (ha.symm.trans hfit) (by decide)
    · rw [he]
      exact hpos

lemma QuickOp.eq_adaptive_of_isAdaptive {op : QuickOp} (h : op.isAdaptive = true) :
    ∃ family, op = .adaptive family := by
  cases op with
  | plain op => cases h
  | loadGlobal member =>
    cases member with
    | adaptive => exact ⟨.loadGlobal, rfl⟩
    | _ => cases h
  | loadAttr member =>
    cases member with
    | adaptive => exact ⟨.loadAttr, rfl⟩
    | _ => cases h
  | call member =>
    cases member with
    | adaptive => exact ⟨.call, rfl⟩
    | _ => cases h
  | binaryAdd member =>
    cases member with
    | adaptive => exact ⟨.binaryAdd, rfl⟩
    | _ => cases h

/-- No adaptive site has counted as far as the threshold. -/
def Quickened.Below (q : Quickened) (threshold : UInt8) : Prop :=
  ∀ p, (q.instrAt p).op.isAdaptive = true → q.counter p < threshold

lemma Quickened.below_ofCode (code : Array Instr) {threshold : UInt8} (hpos : 0 < threshold) :
    (ofCode code).Below threshold := by
  intro p ha
  obtain ⟨f, hop⟩ := QuickOp.eq_adaptive_of_isAdaptive ha
  rw [counter_ofCode hop]
  exact hpos

lemma Quickened.Below.apply {q : Quickened} {p : Nat} (hb : q.Below c.specializeThreshold)
    (hq : q.Laid) (hop : (q.instrAt p).op.family? = some fam) (hfit : t.Fits (q.instrAt p).op fam)
    (hpos : 0 < c.specializeThreshold) :
    (q.apply p fam (t.event c n)).Below c.specializeThreshold := by
  intro p' ha
  have hev : (t.event c n).Fits fam := Trial.event_fits hfit
  have htouch := apply_touches hop hev
  by_cases hp : p' = p
  · subst hp
    rw [counter_apply hq hop hev]
    rw [op_apply hop] at ha
    exact Trial.event_low hfit hpos ha
  · rw [htouch.counter hq hp]
    rw [htouch.instr p' hp] at ha
    exact hb p' ha

/-- An adaptive site that counts below the threshold makes an attempt just when it reaches it. -/
lemma toNat_saturatingAdd_one (hn : n < c.specializeThreshold) :
    (saturatingAdd n 1).toNat = n.toNat + 1 := by
  have hlt : n.toNat < c.specializeThreshold.toNat := UInt8.lt_iff_toNat_lt.mp hn
  have hbyte := c.specializeThreshold.toNat_lt
  unfold saturatingAdd
  rw [if_neg (by simp; omega), UInt8.toNat_add]
  simp
  omega

/-- **An event is entered on both sides**: what a family counts, and what its sites hold. -/
theorem FamilyStats.Balances.record
    (hb : s.Balances c.specializeThreshold.toNat counted sites visits)
    (hop : op.family? = some fam) (hfit : t.Fits op fam)
    (hlow : op.isAdaptive = true → n < c.specializeThreshold)
    (hcounted : counted' + executions fam op n =
      counted + executions fam ((t.event c n).member fam op) (t.event c n).counter)
    (hsites : sites' + specialized fam op n =
      sites + specialized fam ((t.event c n).member fam op) (t.event c n).counter) :
    (s.record (t.event c n)).Balances c.specializeThreshold.toNat counted' sites'
      (visits + 1) := by
  cases t with
  | adaptive attempt =>
    have hnext := toNat_saturatingAdd_one (hlow hfit.1)
    obtain ⟨hex, hsp⟩ := executions_of_adaptive hop hfit.1 n
    rcases Trial.event_adaptive_cases c n attempt with
      ⟨-, he⟩ | ⟨hle, ⟨op', hv, he⟩ | ⟨reason, hv, he⟩⟩
    · obtain ⟨hex', hsp'⟩ := executions_of_adaptive hop hfit.1 (saturatingAdd n 1)
      rw [he] at hcounted hsites ⊢
      simp only [SiteEvent.member, SiteEvent.counter, hex, hsp, hex', hsp'] at hcounted hsites
      obtain rfl : counted' = counted + 1 := by omega
      obtain rfl : sites' = sites := by omega
      exact hb.record_counted _
    · obtain ⟨hop', ha'⟩ := hfit.2.member op' hv
      obtain ⟨hex', hsp'⟩ := executions_of_specialized hop' ha' c.policy.initial
      rw [he] at hcounted hsites ⊢
      simp only [SiteEvent.member, SiteEvent.counter, hex, hsp, hex', hsp'] at hcounted hsites
      obtain rfl : counted = counted' + n.toNat := by omega
      obtain rfl : sites' = sites + 1 := by omega
      refine hb.record_specialized ?_ _ _ _
      have := UInt8.le_iff_toNat_le.mp hle
      have := UInt8.lt_iff_toNat_lt.mp (hlow hfit.1)
      omega
    · obtain ⟨hex', hsp'⟩ := executions_of_adaptive hop hfit.1 0
      rw [he] at hcounted hsites ⊢
      simp only [SiteEvent.member, SiteEvent.counter, hex, hsp, hex', hsp'] at hcounted hsites
      obtain rfl : counted = counted' + n.toNat := by simp at hcounted; omega
      obtain rfl : sites' = sites := by omega
      refine hb.record_refused ?_ _ _
      have := UInt8.le_iff_toNat_le.mp hle
      have := UInt8.lt_iff_toNat_lt.mp (hlow hfit.1)
      omega
  | guarded holds =>
    obtain ⟨hex, hsp⟩ := executions_of_specialized hop hfit n
    rcases Trial.event_guarded_cases c n holds with ⟨-, he⟩ | ⟨-, -, he⟩ | ⟨-, -, he⟩
    · obtain ⟨hex', hsp'⟩ := executions_of_specialized hop hfit (c.policy.hit n)
      rw [he] at hcounted hsites ⊢
      simp only [SiteEvent.member, SiteEvent.counter, hex, hsp, hex', hsp'] at hcounted hsites
      obtain rfl : counted' = counted := by omega
      obtain rfl : sites' = sites := by omega
      exact hb.record_hit _
    · obtain ⟨hex', hsp'⟩ := executions_of_specialized hop hfit (c.policy.miss n)
      rw [he] at hcounted hsites ⊢
      simp only [SiteEvent.member, SiteEvent.counter, hex, hsp, hex', hsp'] at hcounted hsites
      obtain rfl : counted' = counted := by omega
      obtain rfl : sites' = sites := by omega
      exact hb.record_missed _
    · obtain ⟨hex', hsp'⟩ := executions_of_adaptive (Quickened.family_adaptive fam)
        (Quickened.isAdaptive_adaptive fam) 0
      rw [he] at hcounted hsites ⊢
      simp only [SiteEvent.member, SiteEvent.counter, hex, hsp, hex', hsp'] at hcounted hsites
      obtain rfl : counted' = counted := by simpa using hcounted
      obtain rfl : sites = sites' + 1 := by omega
      exact hb.record_fellBack

end Event

/-! ### One interpreter -/

/-- An execution of a site of a family by one interpreter. -/
def Execution.counts (v : Nat) (family : Family) (e : Execution) : Bool :=
  e.vm == v && e.site == some family

/-- The books of an interpreter balance against the sites of the units it owns, which all stay below
the threshold. -/
structure Balanced (own : Nat → Bool) (a : Array Attachment) (vm : Vm) (visits : Family → Nat) :
    Prop where
  positive : 0 < vm.config.specializeThreshold
  low : ∀ u, own u = true → ∀ q, (a.getD u default).quickened = some q →
    q.Below vm.config.specializeThreshold
  books : ∀ family, (vm.stats.family family).Balances vm.config.specializeThreshold.toNat
    (tally own a (executions family)) (tally own a (specialized family)) (visits family)

/-- Where nothing has been counted, every adaptive site stands at zero. -/
lemma counter_eq_zero_of_tally {own : Nat → Bool} {a : Array Attachment} {u p : Nat}
    {q : Quickened} (h : ∀ family, tally own a (executions family) = 0) (hown : own u = true)
    (hq : (a.getD u default).quickened = some q) (ha : (q.instrAt p).op.isAdaptive = true) :
    q.counter p = 0 := by
  obtain ⟨f, hop⟩ := QuickOp.eq_adaptive_of_isAdaptive ha
  have hfam : (q.instrAt p).op.family? = some f := by rw [hop, Quickened.family_adaptive]
  have hu := lt_size_of_quickened hq
  have hunit := Finset.sum_eq_zero_iff.mp (h f) u
    (Finset.mem_filter.mpr ⟨Finset.mem_range.mpr hu, hown⟩)
  rw [Attachment.tally, hq] at hunit
  have hsite := Finset.sum_eq_zero_iff.mp hunit p
    (Finset.mem_range.mpr (Quickened.lt_size_of_family hfam))
  rw [(executions_of_adaptive hfam ha _).1] at hsite
  exact UInt8.toNat_inj.mp hsite

/-- A valid configuration asks for more than one execution. -/
lemma Config.specializeThreshold_pos {c : Config} (h : c.fault? = none) :
    0 < c.specializeThreshold := by
  have hlow : ¬ c.specializeThreshold < 2 := by
    intro hc
    simp [Config.fault?, hc] at h
  rw [UInt8.lt_iff_toNat_lt] at hlow ⊢
  simp at hlow ⊢
  omega

namespace Balanced

variable {own : Nat → Bool} {a : Array Attachment} {vm : Vm} {visits : Family → Nat} {u p : Nat}
  {q : Quickened} {fam : Family} {t : Trial}

/-- The interpreter executes a site of a unit it owns. -/
lemma visit (hb : Balanced own a vm visits) (hown : own u = true)
    (hq : (a.getD u default).quickened = some q) {code : Array Instr} (her : q.ErasesTo code)
    {h : Heap} {cu : CodeUnit} (hf : Machine.Finds h cu q p fam t) :
    Balanced own (Machine.visit a vm u p fam t).1 (Machine.visit a vm u p fam t).2
      fun family => visits family + if family = fam then 1 else 0 := by
  have hop := hf.family
  have hfit := hf.fits
  have hlow := hb.low u hown q hq
  have hcounter : Machine.counterAt a u p = q.counter p := by rw [Machine.counterAt, hq]
  have hev : (t.event vm.config (q.counter p)).Fits fam := Trial.event_fits hfit
  have htally (weight : QuickOp → UInt8 → Nat) := tally_visit weight hown hq her.laid hop hev
  unfold Machine.visit
  dsimp only
  rw [hcounter]
  refine ⟨hb.positive, fun u' hown' q' hq' => ?_, fun family => ?_⟩
  · show q'.Below vm.config.specializeThreshold
    rw [getD_modify] at hq'
    split at hq'
    · next hc =>
      obtain ⟨rfl, -⟩ := hc
      rw [Attachment.apply, hq] at hq'
      cases hq'
      exact hlow.apply her.laid hop hfit hb.positive
    · exact hb.low u' hown' q' hq'
  · show ((vm.stats.record fam _).family family).Balances vm.config.specializeThreshold.toNat _ _ _
    rw [Stats.family_record]
    split
    · next hfam =>
      subst hfam
      exact (hb.books family).record hop hfit (hlow p) (htally _) (htally _)
    · next hfam =>
      -- the site is none of this family
      have hne : some fam ≠ some family := fun hc => hfam (Option.some.inj hc).symm
      obtain ⟨hex, hsp⟩ := executions_of_ne (hop.trans_ne hne) (q.counter p)
      obtain ⟨hex', hsp'⟩ := executions_of_ne ((hev.member _ hop).trans_ne hne)
        (t.event vm.config (q.counter p)).counter
      have hcounted := htally (executions family)
      have hsites := htally (specialized family)
      rw [hex, hex', Nat.add_zero, Nat.add_zero] at hcounted
      rw [hsp, hsp', Nat.add_zero, Nat.add_zero] at hsites
      rw [hcounted, hsites]
      exact hb.books family

/-- Another interpreter executes a site, of a unit that this one does not own. -/
lemma modify_other (hb : Balanced own a vm visits) (hown : own u = false)
    (f : Attachment → Attachment) : Balanced own (a.modify u f) vm visits := by
  have hsame (u' : Nat) (hown' : own u' = true) :
      (a.modify u f).getD u' default = a.getD u' default := by
    rw [getD_modify, if_neg]
    rintro ⟨rfl, -⟩
    rw [hown] at hown'
    cases hown'
  have htally (weight : QuickOp → UInt8 → Nat) :
      tally own (a.modify u f) weight = tally own a weight :=
    tally_congr (by simp) fun u' hown' => by rw [hsame u' hown']
  refine ⟨hb.positive, fun u' hown' q hq => ?_, fun family => ?_⟩
  · rw [hsame u' hown'] at hq
    exact hb.low u' hown' q hq
  · rw [htally, htally]
    exact hb.books family

/-- Nothing has been counted yet, neither in the books nor on a site. -/
lemma of_zero (hpos : 0 < vm.config.specializeThreshold) (hstats : vm.stats = {})
    (hcounted : ∀ family, tally own a (executions family) = 0)
    (hsites : ∀ family, tally own a (specialized family) = 0)
    (hvisits : ∀ family, visits family = 0) : Balanced own a vm visits := by
  refine ⟨hpos, fun u hown q hq p ha => ?_, fun family => ?_⟩
  · rw [counter_eq_zero_of_tally hcounted hown hq ha]
    exact hpos
  · rw [hstats, hcounted, hsites, hvisits]
    cases family <;> exact ⟨rfl, rfl, rfl, rfl⟩

/-- An interpreter that has counted nothing has left nothing on its sites. -/
lemma zero_of_stats (hb : Balanced own a vm visits) (hstats : vm.stats = {}) (family : Family) :
    tally own a (executions family) = 0 ∧ tally own a (specialized family) = 0 ∧
      visits family = 0 := by
  have hbooks := hb.books family
  have hzero : vm.stats.family family = {} := by
    rw [hstats]
    cases family <;> rfl
  rw [hzero] at hbooks
  have hadaptive : 0 = _ * (0 + 0) + tally own a (executions family) := hbooks.adaptive
  have hsuccess : 0 = 0 + tally own a (specialized family) := hbooks.success
  have hvisits : 0 + 0 + 0 = visits family := hbooks.visits
  omega

variable {p p' : Process} {v : Nat}

/-- Nothing happens to sites and counts. -/
lemma calm (hb : Balanced own p.world.attachments (p.vmAt v) visits) (hc : p.Calm p' v) :
    Balanced own p'.world.attachments (p'.vmAt v) visits := by
  have htally {weight : QuickOp → UInt8 → Nat} (hw : Unearned weight) :
      tally own p'.world.attachments weight = tally own p.world.attachments weight := by
    refine tally_congr hc.size fun u _ => ?_
    unfold Attachment.tally
    rcases hc.quickened u with hsame | ⟨hnone, code, hsome⟩
    · rw [show (p'.world.attachments.getD u default).quickened = _ from hsame]
      rfl
    · rw [show (p'.world.attachments.getD u default).quickened = _ from hsome,
        show (p.world.attachments.getD u default).quickened = _ from hnone]
      exact Quickened.tally_ofCode hw code
  rcases hc.vm with ⟨htune, hcounts⟩ | ⟨hnew, hzero, hvalid⟩
  · have hthreshold : (p'.vmAt v).config.tuning.specializeThreshold =
        (p.vmAt v).config.tuning.specializeThreshold := by rw [htune]
    replace hthreshold : (p'.vmAt v).config.specializeThreshold =
        (p.vmAt v).config.specializeThreshold := hthreshold
    refine ⟨by rw [hthreshold]; exact hb.positive, fun u hown q hq => ?_, fun family => ?_⟩
    · rw [hthreshold]
      rcases hc.quickened u with hsame | ⟨-, code, hsome⟩
      · exact hb.low u hown q (hsame.symm.trans hq)
      · cases hsome.symm.trans hq
        exact Quickened.below_ofCode code hb.positive
    · rw [hthreshold, hcounts, htally (executions_unearned family),
        htally (specialized_unearned family)]
      exact hb.books family
  · -- a new interpreter, which begins with empty books
    have hold := hb.zero_of_stats (by rw [hnew]; rfl)
    refine of_zero (Config.specializeThreshold_pos hvalid) hzero (fun family => ?_)
      (fun family => ?_) fun family => (hold family).2.2
    · rw [htally (executions_unearned family), (hold family).1]
    · rw [htally (specialized_unearned family), (hold family).2.1]

lemma congr_visits {visits' : Family → Nat} (hb : Balanced own a vm visits)
    (h : ∀ family, visits' family = visits family) : Balanced own a vm visits' := by
  rw [funext h]
  exact hb

/-- What an action executes is entered on both sides, if whoever executes a unit owns it. -/
lemma perform (hp : p.world.Sound) (hb : Balanced own p.world.attachments (p.vmAt v) visits)
    (a : Action) (ha : a ≠ .resetStats v)
    (hown : ∀ e ∈ (p.execution? a).toList, e.vm = v ↔ own e.unit = true) :
    Balanced own (p.perform a).world.attachments ((p.perform a).vmAt v) fun family =>
      visits family + (p.execution? a).toList.countP (Execution.counts v family) := by
  rcases p.perform_cases hp a v ha with
    ⟨hnone, hcalm⟩ | ⟨k, u, position, q, fam, t, he, hk, hq, hf, hcalm⟩
  · refine (hb.calm hcalm).congr_visits fun family => ?_
    rw [List.countP_eq_zero.mpr fun e hmem => ?_, Nat.add_zero]
    simp [Execution.counts, hnone e (Option.mem_toList.mp hmem)]
  · rw [he] at hown ⊢
    have howner : k = v ↔ own u = true := hown ⟨k, u, some fam⟩ (by simp)
    by_cases hkv : k = v
    · subst hkv
      have hvisit : Balanced own (p.visited k u position fam t).world.attachments
          ((p.visited k u position fam t).vmAt k)
          fun family => visits family + if family = fam then 1 else 0 := by
        rw [Process.vmAt_visited, if_pos ⟨rfl, hk⟩]
        exact hb.visit (howner.mp rfl) hq (hp.streams u q hq).erases hf
      refine (hvisit.calm hcalm).congr_visits fun family => ?_
      by_cases hfam : family = fam
      · simp [Execution.counts, hfam]
      · simp [Execution.counts, hfam, Ne.symm hfam]
    · have hother : own u = false := by simpa [hkv] using howner
      have hvisit : Balanced own (p.visited k u position fam t).world.attachments
          ((p.visited k u position fam t).vmAt v) visits := by
        rw [Process.vmAt_visited, if_neg fun hc => hkv hc.1, Process.visited, Machine.visit]
        dsimp only
        exact hb.modify_other hother _
      refine (hvisit.calm hcalm).congr_visits fun family => ?_
      simp [Execution.counts, hkv]

/-- **The books balance along every sequence of actions.** -/
theorem after (hp : p.world.Sound) (hb : Balanced own p.world.attachments (p.vmAt v) visits)
    (as : List Action) (hreset : .resetStats v ∉ as)
    (hown : ∀ e ∈ p.history as, e.vm = v ↔ own e.unit = true) :
    Balanced own (p.after as).world.attachments ((p.after as).vmAt v) fun family =>
      visits family + (p.history as).countP (Execution.counts v family) := by
  induction as generalizing p visits with
  | nil => exact hb
  | cons a as ih =>
    have hstep := hb.perform hp a (fun hc => hreset (hc ▸ List.mem_cons_self))
      fun e he => hown e (List.mem_append_left _ he)
    have hrest := ih (Process.perform_sound hp a) hstep
      (fun hc => hreset (List.mem_cons_of_mem _ hc)) fun e he => hown e (List.mem_append_right _ he)
    refine hrest.congr_visits fun family => ?_
    rw [Process.history, List.countP_append, Nat.add_assoc]

/-- At first there is nothing to balance. -/
lemma empty (own : Nat → Bool) (v : Nat) :
    Balanced own ({} : Process).world.attachments (({} : Process).vmAt v) fun _ => 0 := by
  have hpos : 0 < (default : Vm).config.specializeThreshold := by decide
  exact of_zero hpos rfl (fun _ => rfl) (fun _ => rfl) fun _ => rfl

end Balanced

/-! ### The ledger in a report -/

namespace Report

/-- The part of a report at the end of a path of keys. -/
def at? (r : Report) : List String → Option Report
  | [] => some r
  | key :: path =>
    match r with
    | .record fields => (fields.lookup key).bind (at? · path)
    | _ => none

/-- What the numbers of a record add up to. -/
def sum : Report → Nat
  | .record fields => (fields.map fun
    | (_, .number n) => n
    | _ => 0).sum
  | _ => 0

end Report

/-- Reasons that have not come up are left out, which changes no sum. -/
lemma sum_filter_ne_zero (c : RefusalCounts) (rs : List Refusal) :
    (((rs.filter fun r => c.get r ≠ 0).map fun r => (r.name, Report.number (c.get r))).map fun
      | (_, .number n) => n
      | _ => 0).sum = (rs.map c.get).sum := by
  induction rs with
  | nil => rfl
  | cons r rs ih =>
    by_cases hr : c.get r = 0
    · simpa [hr] using ih
    · simpa [hr] using ih

lemma Stats.report_family (s : Stats) (family : Family) (path : List String) :
    s.report.at? ("families" :: family.name :: path) = (s.family family).report.at? path := by
  cases family <;> rfl

lemma FamilyStats.report_failures (s : FamilyStats) :
    (s.report.at? ["failures"]).map Report.sum = some s.refusals.total := by
  have hperm : Refusal.byName.Perm Refusal.all := by decide
  have hsum : (Refusal.byName.map s.refusals.get).sum = s.refusals.total :=
    (hperm.map s.refusals.get).sum_eq
  rw [← hsum, ← sum_filter_ne_zero]
  rfl

namespace Process

/-- **The ledger balances**: at every point of every history in which an interpreter and no other
executes the units `own`, and in which its counts are not reset, they balance against the sites of
these units and against what it has executed, and so does a report of them. -/
theorem ledger_balances (as : List Action) (v : Nat) (own : Nat → Bool) (family : Family)
    (hreset : .resetStats v ∉ as)
    (hown : ∀ e ∈ ({} : Process).history as, e.vm = v ↔ own e.unit = true) :
    let p := ({} : Process).after as
    let s := (p.vmAt v).stats.family family
    s.adaptive = (p.vmAt v).config.specializeThreshold.toNat * (s.success + s.failure) +
        tally own p.world.attachments (executions family) ∧
      s.success = s.deopt + tally own p.world.attachments (specialized family) ∧
      (Refusal.all.map s.refusals.get).sum = s.failure ∧
      (p.vmAt v).stats.report.at? ["families", family.name, "failure"] = some (.number s.failure) ∧
      ((p.vmAt v).stats.report.at? ["families", family.name, "failures"]).map Report.sum =
        some s.failure ∧
      s.adaptive + s.hit + s.miss =
        (({} : Process).history as).countP fun e => e.vm == v && e.site == some family := by
  have hbalanced := (Balanced.empty own v).after World.sound_empty as hreset hown
  obtain ⟨hadaptive, hsuccess, hrefused, hvisits⟩ := hbalanced.books family
  refine ⟨hadaptive, hsuccess, hrefused, ?_, ?_, ?_⟩
  · rw [Stats.report_family]
    rfl
  · rw [Stats.report_family, FamilyStats.report_failures, hrefused]
  · rw [hvisits, Nat.zero_add]
    rfl

/-- Beside another interpreter, on a unit that is specialized and then run where it misses. -/
theorem ledger_balances_missing :
    let p := ({} : Process).after
      (doubling ++ runFor 4 1 1 ⟨3, "texts"⟩ ++ runFor 4 0 0 ⟨3, "texts"⟩)
    let s := (p.vmAt 0).stats.family .binaryAdd
    s.miss = 1 ∧
      s.adaptive = (p.vmAt 0).config.specializeThreshold.toNat * (s.success + s.failure) +
        tally (· == 0) p.world.attachments (executions .binaryAdd) ∧
      s.success = s.deopt + tally (· == 0) p.world.attachments (specialized .binaryAdd) := by
  have hbooks := ledger_balances
    (doubling ++ runFor 4 1 1 ⟨3, "texts"⟩ ++ runFor 4 0 0 ⟨3, "texts"⟩) 0 (· == 0) .binaryAdd
    (by simp [doubling, runFor]) (by decide +kernel)
  exact ⟨by decide +kernel, hbooks.1, hbooks.2.1⟩

end Process

end AdaptiveVM
