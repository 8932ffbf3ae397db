import AdaptiveVM.Proofs.Deoptimization
import AdaptiveVM.Proofs.Equivariance
import AdaptiveVM.Proofs.Looks

/-!
Stable sites specialize, and stay specialized.

A site whose executions all see the same look counts them until there are enough, and then takes the
member for the look. From then on the guard holds every time, and the counter rises to its upper
bound and stays there. Only what happens to the namespaces of the look between two executions
matters, and of that only whether a name is added or removed.
-/

namespace AdaptiveVM

/-! ### What a step sees -/

/-- What is seen does not depend on the stream that the operand is read from. -/
lemma Machine.Faces.look?_eq {h : Heap} {u : CodeUnit} {q : Quickened} {p : Nat} {s : Sight}
    {fam : Family} {t : Trial} {i : Instr} (hf : Faces h u q p s fam t)
    (hq : q.ErasesTo u.instrs) (hi : u.instr? p = some i) :
    s.look? h u i.arg = s.look? h u (q.entryAt p).arg := by
  have harg (hown : q.hasEntries p = true) : (q.entryAt p).arg = i.arg := hq.arg_entryAt hi hown
  have hfam := hf.finds.family
  have hentries := Quickened.hasEntries_of_family hfam
  cases hf with
  | loadGlobal globals builtins op name => rw [harg (hentries.trans (by decide))]
  | loadAttr receiver op name => rw [harg (hentries.trans (by decide))]
  | call callee op => rw [harg (hentries.trans (by decide))]
  | binaryAdd left right op => rfl

namespace Machine

/-- The look of what the next step sees. -/
def look? (m : Machine) : Option Look :=
  match m.frames with
  | [] => none
  | f :: _ => ((m.heap.unitAt f.unit).instr? f.position).bind fun i =>
      (f.sight? m.vm.builtins i).bind fun s => s.look? m.heap (m.heap.unitAt f.unit) i.arg

/-- The site that is executed faces what the frame shows. -/
lemma Visits.looks {m : Machine} {f : Frame} {q : Quickened} {fam : Family} {t : Trial}
    (hw : World.Sound ⟨m.heap, m.attachments⟩) (hv : m.Visits f q fam t) :
    ∃ s, Faces m.heap (m.heap.unitAt f.unit) q f.position s fam t ∧
      m.look? = s.look? m.heap (m.heap.unitAt f.unit) (q.entryAt f.position).arg := by
  obtain ⟨i, s, hi, hsight, hfaces⟩ := hv.faces
  obtain ⟨rest, hframes⟩ := List.head?_eq_some_iff.mp hv.frame
  refine ⟨s, hfaces, ?_⟩
  simp only [look?, hframes, hi, hsight, Option.bind_some]
  exact hfaces.look?_eq (hw.streams f.unit q hv.stream).erases hi

end Machine

/-! ### What a site holds -/

/-- A member without words has no tokens to compare. -/
lemma QuickOp.compares_of_entries {op : QuickOp} {fam : Family} (hop : op.family? = some fam)
    (hfam : fam.entries = 0) (e : Entry) (v : VersionPair) : op.compares e v = [] := by
  cases fam with
  | binaryAdd =>
    cases op <;> cases hop
    rfl
  | _ => cases hfam

lemma QuickOp.compares_counter (op : QuickOp) (e : Entry) (v : VersionPair) (n : UInt8) :
    op.compares { e with counter := n } v = op.compares e v := by
  rcases op with op | member | member | member | member
  · rfl
  all_goals cases member <;> rfl

namespace Quickened

variable {q q' : Quickened} {h h' : Heap} {p i : Nat} {fam : Family} {ev : SiteEvent} {L : Look}

/-- The tokens that the guard of a site compares. -/
def compares (q : Quickened) (i : Nat) : List Token :=
  (q.instrAt i).op.compares (q.entryAt i) (q.versionsAt i)

/-- The site is as it was. -/
structure Rests (q q' : Quickened) (i : Nat) : Prop where
  op : (q'.instrAt i).op = (q.instrAt i).op
  counter : q'.counter i = q.counter i
  compares : q'.compares i = q.compares i

lemma Touches.rests (ht : Touches q q' p) (hq : q.Laid) (hne : i ≠ p) : Rests q q' i where
  op := by rw [ht.instr i hne]
  counter := ht.counter hq hne
  compares := by
    rw [Quickened.compares, Quickened.compares, ht.instr i hne]
    rcases hfam : (q.instrAt i).op.family? with _ | fam
    · rcases hop : (q.instrAt i).op with op | member | member | member | member
      · rfl
      all_goals
        rw [hop] at hfam
        cases hfam
    by_cases hentries : fam.entries = 0
    · rw [QuickOp.compares_of_entries hfam hentries, QuickOp.compares_of_entries hfam hentries]
    · have hown : q.hasEntries i = true := by
        rw [hasEntries_of_family hfam, decide_eq_true (by omega)]
      rw [ht.entryAt hq hne hown, ht.versionsAt hq hne hown]

/-- After an event a site compares what an attempt has written, or what it compared before. -/
lemma compares_apply (hq : q.Laid) (hfam : (q.instrAt p).op.family? = some fam)
    (hev : ev.Fits fam) : (q.apply p fam ev).compares p =
      (ev.member fam (q.instrAt p).op).compares
        (ev.attempt?.elim (q.entryAt p) (·.entry (q.entryAt p)))
        (ev.attempt?.elim (q.versionsAt p) (·.pair (q.versionsAt p))) := by
  have hmember : (ev.member fam (q.instrAt p).op).family? = some fam := hev.member _ hfam
  rw [compares, op_apply hfam]
  by_cases hentries : fam.entries = 0
  · rw [QuickOp.compares_of_entries hmember hentries, QuickOp.compares_of_entries hmember hentries]
  · have hown : q.hasEntries p = true := by
      rw [hasEntries_of_family hfam, decide_eq_true (by omega)]
    rw [entryAt_apply hq hfam hev hown, versionsAt_apply hq hfam hev hown,
      QuickOp.compares_counter]
    rcases ev.attempt? with _ | t <;> rfl

/-- The site compares the tokens of a look, and it has them all. -/
structure Knows (q : Quickened) (i : Nat) (h : Heap) (L : Look) : Prop where
  tokens : q.compares i = L.tokens h
  there : (0 : Token) ∉ L.tokens h

lemma Knows.advances (hk : q.Knows i h L) (ha : h.Advances h')
    (hkeys : ∀ n ∈ L.names, (h'.namespaceAt n).contains = (h.namespaceAt n).contains) :
    q.Knows i h' L := by
  have hsame : L.tokens h' = L.tokens h := L.tokens_advances ha hkeys hk.there
  exact ⟨hk.tokens.trans hsame.symm, hsame ▸ hk.there⟩

lemma Rests.knows (hr : q.Rests q' i) (hk : q.Knows i h L) : q'.Knows i h L :=
  ⟨hr.compares.trans hk.tokens, hk.there⟩

end Quickened

/-! ### Counters -/

namespace Policy

variable {p : Policy} {n : UInt8}

lemma toNat_hit (h : p.min < p.max) (n : UInt8) :
    (p.hit n).toNat = p.min.toNat ⊔ (n.toNat + p.hitStep.toNat) ⊓ p.max.toNat := by
  have hmax := p.max.toNat_lt
  rw [hit, toNat_clamp _ (UInt8.le_of_lt h), saturatingAdd]
  split
  · rw [show (255 : UInt8).toNat = 255 from rfl]
    omega
  · rw [UInt8.toNat_add, Nat.mod_eq_of_lt (by omega)]

/-- One hit more in a row, starting between the bounds. -/
lemma toNat_hit_of_hits {j : Nat} (hlow : p.min < p.initial) (hhigh : p.initial ≤ p.max)
    (hn : n.toNat = p.max.toNat ⊓ (p.initial.toNat + j * p.hitStep.toNat)) :
    (p.hit n).toNat = p.max.toNat ⊓ (p.initial.toNat + (j + 1) * p.hitStep.toNat) := by
  have hlow' := UInt8.lt_iff_toNat_lt.mp hlow
  have hhigh' := UInt8.le_iff_toNat_le.mp hhigh
  rw [toNat_hit (UInt8.lt_of_lt_of_le hlow hhigh), hn, Nat.succ_mul]
  generalize j * p.hitStep.toNat = steps
  omega

end Policy

namespace Trial

variable {c : Config} {n : UInt8} {attempt : Attempt} {k : Nat}

lemma event_tuning (t : Trial) (c : Config) (n : UInt8) : t.event c.tuning n = t.event c n := rfl

/-- An execution is counted as long as there are too few. -/
lemma event_waits (attempt : Attempt) (hn : n.toNat = k)
    (hk : k + 1 < c.specializeThreshold.toNat) :
    (adaptive attempt).event c n = .counted (saturatingAdd n 1) ∧
      (saturatingAdd n 1).toNat = k + 1 := by
  have hnext : (saturatingAdd n 1).toNat = n.toNat + 1 :=
    toNat_saturatingAdd_one (c := c) (UInt8.lt_iff_toNat_lt.mpr (by omega))
  refine ⟨?_, by omega⟩
  rcases event_adaptive_cases c n attempt with ⟨-, he⟩ | ⟨hle, -⟩
  · exact he
  · have hle' := UInt8.le_iff_toNat_le.mp hle
    omega

/-- The last execution that was waited for is an attempt. -/
lemma event_specializes {op : QuickOp} (hn : n.toNat = k)
    (hk : k + 1 = c.specializeThreshold.toNat) (hv : attempt.verdict = .ok op) :
    (adaptive attempt).event c n = .specialized op attempt c.policy.initial := by
  have hnext : (saturatingAdd n 1).toNat = n.toNat + 1 :=
    toNat_saturatingAdd_one (c := c) (UInt8.lt_iff_toNat_lt.mpr (by omega))
  rcases event_adaptive_cases c n attempt with ⟨hlt, -⟩ | ⟨-, ⟨op', hv', he⟩ | ⟨reason, hv', -⟩⟩
  · have hlt' := UInt8.lt_iff_toNat_lt.mp hlt
    omega
  · cases hv.symm.trans hv'
    exact he
  · cases hv.symm.trans hv'

end Trial

/-! ### One execution -/

namespace Quickened

variable {q : Quickened} {h : Heap} {u : CodeUnit} {i k : Nat} {c : Config} {L : Look} {s : Sight}
  {fam : Family} {t : Trial}

/-- Where a site stands after a number of executions that have all seen one look. -/
structure Stands (q : Quickened) (i : Nat) (c : Config) (L : Look) (k : Nat) : Prop where
  early : k < c.specializeThreshold.toNat →
    (q.instrAt i).op.isAdaptive = true ∧ (q.counter i).toNat = k
  late : c.specializeThreshold.toNat ≤ k → (q.instrAt i).op = L.member ∧
    (q.counter i).toNat = min c.counterMax.toNat
      (c.counterInitial.toNat + (k - c.specializeThreshold.toNat) * c.hitStep.toNat)

lemma Rests.stands {q' : Quickened} (hr : q.Rests q' i) (hs : q.Stands i c L k) :
    q'.Stands i c L k := by
  refine ⟨fun hk => ?_, fun hk => ?_⟩
  · rw [hr.op, hr.counter]
    exact hs.early hk
  · rw [hr.op, hr.counter]
    exact hs.late hk

/-- **One execution** of a site that sees the look again. -/
theorem Stands.execute (hs : q.Stands i c L k) (hvalid : c.fault? = none) (hh : h.Labelled)
    (hlast : h.tokens.Lasting) (hq : q.Sound h u) (hf : Machine.Faces h u q i s fam t)
    (hl : s.look? h u (q.entryAt i).arg = some L)
    (hknows : c.specializeThreshold.toNat ≤ k → q.Knows i h L) :
    (q.apply i fam (t.event c (q.counter i))).Stands i c L (k + 1) ∧
      (c.specializeThreshold.toNat ≤ k + 1 →
        (q.apply i fam (t.event c (q.counter i))).Knows i h L) ∧
      (t.event c (q.counter i)).isMiss = false := by
  have hlaid : q.Laid := hq.erases.laid
  have hfam := hf.finds.family
  have hev : (t.event c (q.counter i)).Fits fam := Trial.event_fits hf.finds.fits
  have hop : ((q.apply i fam (t.event c (q.counter i))).instrAt i).op = _ := op_apply hfam
  have hcounter := counter_apply hlaid hfam hev
  have hcompares := compares_apply hlaid hfam hev
  have hz : (0 : Token) ∉ L.tokens h := Look.zero_not_mem_tokens hh hlast hl
  obtain ⟨hlow, hhigh⟩ := c.bounds_of_valid hvalid
  by_cases hk : k < c.specializeThreshold.toNat
  · -- it is adaptive still, and has seen the look to the end now, or not yet
    obtain ⟨hadaptive, hcount⟩ := hs.early hk
    obtain ⟨attempt, rfl, hrecords⟩ := hf.attempts hl hz hadaptive
    by_cases hnext : k + 1 < c.specializeThreshold.toNat
    · obtain ⟨he, hval⟩ := Trial.event_waits attempt hcount hnext
      rw [he] at hop hcounter ⊢
      refine ⟨⟨fun _ => ⟨?_, ?_⟩, fun hle => absurd hle (by omega)⟩,
        fun hle => absurd hle (by omega), rfl⟩
      · rw [hop]
        exact hadaptive
      · rw [hcounter]
        exact hval
    · have he := Trial.event_specializes (c := c) hcount (by omega) hrecords.verdict
      rw [he] at hop hcounter hcompares ⊢
      refine ⟨⟨fun hlt => absurd hlt hnext, fun _ => ⟨hop, ?_⟩⟩, fun _ => ⟨?_, hz⟩, rfl⟩
      · have hhigh' := UInt8.le_iff_toNat_le.mp hhigh
        rw [hcounter, show k + 1 - c.specializeThreshold.toNat = 0 by omega]
        show c.counterInitial.toNat = _
        omega
      · rw [hcompares]
        exact hrecords.tokens _ _
  · -- it has the member for the look, and the guard holds
    have hle : c.specializeThreshold.toNat ≤ k := by omega
    obtain ⟨hmember, hcount⟩ := hs.late hle
    have hknows := hknows hle
    obtain rfl := hf.hits hl hh hq hmember (by rw [← hmember]; exact hknows.tokens)
    have he : (Trial.guarded true).event c (q.counter i) = .hit (c.policy.hit (q.counter i)) := rfl
    rw [he] at hop hcounter hcompares ⊢
    refine ⟨⟨fun hlt => absurd hlt (by omega), fun _ => ⟨hop.trans hmember, ?_⟩⟩,
      fun _ => ⟨hcompares.trans hknows.tokens, hz⟩, rfl⟩
    rw [hcounter, show k + 1 - c.specializeThreshold.toNat =
      k - c.specializeThreshold.toNat + 1 by omega]
    exact Policy.toNat_hit_of_hits hlow hhigh hcount

end Quickened

/-! ### Executions of one site -/

/-- One execution of a site: the settings of the interpreter apart from its mode, and the look of
what it saw, if that had one. -/
structure Sighting where
  config : Config
  look : Option Look
  deriving DecidableEq

namespace Process

variable {p : Process} {u i : Nat} {q : Quickened} {a : Action} {as : List Action}

/-- The execution of a site, if the action is one. -/
def sighting? (p : Process) (u i : Nat) (a : Action) : Option Sighting :=
  (p.visit? a).bind fun w =>
    if w.unit = u ∧ w.position = i then
      some ⟨(p.vmAt w.vm).config.tuning, p.machine?.bind Machine.look?⟩
    else none

/-- All executions of a site along some actions. -/
def sightings (p : Process) (u i : Nat) : List Action → List Sighting
  | [] => []
  | a :: as => (p.sighting? u i a).toList ++ (p.perform a).sightings u i as

lemma sightings_of_none (hnone : p.sighting? u i a = none) (as : List Action) :
    p.sightings u i (a :: as) = (p.perform a).sightings u i as := by
  rw [sightings, hnone]
  rfl

lemma sightings_of_some {x : Sighting} (hx : p.sighting? u i a = some x) (as : List Action) :
    p.sightings u i (a :: as) = x :: (p.perform a).sightings u i as := by
  rw [sightings, hx]
  rfl

/-- An action that executes a site is a step of the machine that is going on. -/
lemma runs_of_visit {w : Visit} (hw : p.visit? a = some w) :
    a = .step ∧ ∃ r rest x, p.runs = r :: rest ∧ p.vms[r.vm]? = some x ∧
      Machine.site? ⟨p.world.heap, p.world.attachments, x, r.frames⟩ ≠ none := by
  cases a with
  | step =>
    unfold visit? at hw
    rcases hruns : p.runs with _ | ⟨r, rest⟩
    · simp only [hruns, reduceCtorEq] at hw
    rcases hx : p.vms[r.vm]? with _ | x
    · simp only [machine?, hruns, hx, Option.map_none, reduceCtorEq] at hw
    refine ⟨rfl, r, rest, x, rfl, hx, fun hc => ?_⟩
    simp only [machine?, hruns, hx, Option.map_some, hc, Option.map_none, Option.bind_fun_none,
      reduceCtorEq] at hw
  | _ => cases hw

/-- **What an action does to a site**: nothing, unless it executes it, and then what it sees decides
the event. -/
lemma perform_sighting (hp : p.world.Sound) (hq : (p.world.attachmentAt u).quickened = some q)
    (i : Nat) (a : Action) :
    (p.sighting? u i a = none ∧ p.strike? u i a = none ∧
      ∃ q', ((p.perform a).world.attachmentAt u).quickened = some q' ∧ q.Rests q' i) ∨
      ∃ k s fam t, Machine.Faces p.world.heap (p.world.heap.unitAt u) q i s fam t ∧
        p.sighting? u i a = some ⟨(p.vmAt k).config.tuning,
          s.look? p.world.heap (p.world.heap.unitAt u) (q.entryAt i).arg⟩ ∧
        p.strike? u i a = some ((p.vmAt k).config.policy,
          (t.event (p.vmAt k).config (q.counter i)).isMiss) ∧
        ((p.perform a).world.attachmentAt u).quickened =
          some (q.apply i fam (t.event (p.vmAt k).config (q.counter i))) := by
  have hlaid : q.Laid := (hp.streams u q hq).erases.laid
  have hnone (hother : ∀ w, p.visit? a = some w → ¬ (w.unit = u ∧ w.position = i)) :
      p.sighting? u i a = none ∧ p.strike? u i a = none := by
    rcases hw : p.visit? a with _ | w
    · simp only [sighting?, strike?, hw, Option.bind_none, and_self]
    · simp only [sighting?, strike?, hw, Option.bind_some, if_neg (hother w hw), and_self]
  rcases perform_stream hp a hq with
    ⟨hother, hafter⟩ | ⟨k, i', fam, t, he, hf, hvisit, hafter, -⟩
  · obtain ⟨hsighting, hstrike⟩ := hnone fun w hw hc => hother w hw hc.1
    exact .inl ⟨hsighting, hstrike, q, hafter, rfl, rfl, rfl⟩
  by_cases hi : i' = i
  swap
  · obtain ⟨hsighting, hstrike⟩ := hnone fun w hw hc => by
      cases hvisit.symm.trans hw
      exact hi hc.2
    have htouch := Quickened.apply_touches hf.family
      (Trial.event_fits (c := (p.vmAt k).config) (n := q.counter i') hf.fits)
    exact .inl ⟨hsighting, hstrike, _, hafter, htouch.rests hlaid (Ne.symm hi)⟩
  subst hi
  obtain ⟨rfl, r, rest, x, hruns, hx, hsite⟩ := runs_of_visit hvisit
  obtain ⟨f, q', fam', t', hv⟩ := (Machine.step_cases _ hp).resolve_left fun hc => hsite hc.1
  obtain ⟨s, hfaces, hlook⟩ := hv.looks hp
  obtain ⟨he', hvisit', hstreams, hstats⟩ := step_of_visits hruns hx hv
  -- it is the site that was asked for
  have hsame := Option.some.inj (hvisit.symm.trans hvisit')
  rw [Visit.mk.injEq] at hsame
  obtain ⟨rfl, rfl, rfl, -⟩ := hsame
  obtain rfl : q' = q := Option.some.inj (hv.stream.symm.trans hq)
  refine .inr ⟨r.vm, s, fam', t', hfaces, ?_, ?_, ?_⟩
  · rw [sighting?, hvisit', Option.bind_some, if_pos ⟨rfl, rfl⟩]
    simp only [machine?, hruns, hx, Option.map_some, Option.bind_some, hlook]
  · rw [strike?, hvisit', Option.bind_some, if_pos ⟨rfl, rfl⟩]
    simp only [missed, he', hstats, FamilyStats.miss_record]
  · refine hstreams.keeps ?_
    rw [quickened_visited hq, if_pos rfl]

/-! ### All executions -/

/-- The action adds no name to a namespace and removes none from it. -/
def KeepsNames (p : Process) (a : Action) (n : Nat) : Prop :=
  ((p.perform a).world.heap.namespaceAt n).contains = (p.world.heap.namespaceAt n).contains

/-- From the first execution of a site to the last, no name is added to any of the namespaces and
none is removed; so many executions have come before. -/
def NamesRest (p : Process) (u i seen : Nat) (names : List Nat) (as : List Action) : Prop :=
  ∀ before a after, as = before ++ a :: after →
    0 < seen + (p.sightings u i before).length →
    0 < ((p.after before).sightings u i (a :: after)).length →
    ∀ n ∈ names, (p.after before).KeepsNames a n

namespace NamesRest

variable {names : List Nat} {seen : Nat}

lemma head (hr : p.NamesRest u i seen names (a :: as)) (hseen : 0 < seen)
    (hmore : 0 < (p.sightings u i (a :: as)).length) : ∀ n ∈ names, p.KeepsNames a n :=
  hr [] a as rfl (Nat.add_pos_left hseen _) hmore

lemma tail (hr : p.NamesRest u i seen names (a :: as)) :
    (p.perform a).NamesRest u i (seen + (p.sighting? u i a).toList.length) names as := by
  intro before a' after has hbefore
  refine hr (a :: before) a' after (by rw [has]; rfl) ?_
  rw [sightings, List.length_append]
  omega

/-- Where the index of a namespace stays the same from one moment to the next, its names rest. -/
lemma of_index {n : Nat} (seen : Nat)
    (hindex : ∀ j < as.length, ((p.after (as.take (j + 1))).world.heap.namespaceAt n).index =
      ((p.after (as.take j)).world.heap.namespaceAt n).index) :
    p.NamesRest u i seen [n] as := by
  rintro before a after rfl - - n' hn'
  obtain rfl : n' = n := List.mem_singleton.mp hn'
  have hstep := hindex before.length (by simp)
  rw [List.take_left, List.take_length_add_append, List.take_one, List.head?_cons] at hstep
  have hafter : p.after (before ++ [a]) = (p.after before).perform a := by
    rw [Process.after, List.foldl_append]
    rfl
  rw [Option.toList_some, hafter] at hstep
  funext key
  rw [Namespace.contains, Namespace.contains, Namespace.indexOf?, Namespace.indexOf?, hstep]

end NamesRest

variable {c : Config} {L : Look} {k : Nat}

/-- **Any number of executions**: where the site stands follows from how many there are. -/
lemma stands_after (hvalid : c.fault? = none) (hp : p.world.Sound) (hh : p.world.heap.Labelled)
    (hq : (p.world.attachmentAt u).quickened = some q) (hs : q.Stands i c L k)
    (hseen : ∀ x ∈ p.sightings u i as, x = ⟨c.tuning, some L⟩)
    (hknows : c.specializeThreshold.toNat ≤ k → 0 < (p.sightings u i as).length →
      q.Knows i p.world.heap L)
    (hnames : p.NamesRest u i k L.names as)
    (hlast : (p.after as).world.heap.tokens.Lasting) :
    (∃ q', ((p.after as).world.attachmentAt u).quickened = some q' ∧
      q'.Stands i c L (k + (p.sightings u i as).length)) ∧
      ∀ s ∈ p.strikes u i as, s.2 = false := by
  induction as generalizing p q k with
  | nil => exact ⟨⟨q, hq, hs⟩, fun s hmem => absurd hmem List.not_mem_nil⟩
  | cons a as ih =>
    have hp' := perform_sound hp a
    have hh' := hh.becomes (perform_becomes p a)
    have hadvances := (perform_changes p a).advances
    have hlast' : p.world.heap.tokens.Lasting := lasting_of_after hp (a :: as) hlast
    have hthreshold : 2 ≤ c.specializeThreshold.toNat :=
      UInt8.le_iff_toNat_le.mp (Config.fault?_eq_none_iff.mp hvalid).1.threshold
    have htail := hnames.tail
    rcases perform_sighting hp hq i a with
      ⟨hnone, hstrike, q', hq', hrests⟩ | ⟨v, s, fam, t, hf, hsighting, hstrike, hq'⟩
    · -- something else happens, and nothing to the names if the site is executed again
      have hsame := sightings_of_none hnone as
      rw [hsame] at hseen hknows ⊢
      rw [hnone] at htail
      rw [strikes, hstrike]
      refine ih hp' hh' hq' (hrests.stands hs) hseen (fun hk hmore => ?_) htail hlast
      exact (hrests.knows (hknows hk hmore)).advances hadvances
        (hnames.head (by omega) (by rw [hsame]; exact hmore))
    · -- the site is executed, and sees the look
      have hsame := sightings_of_some hsighting as
      rw [hsame] at hseen hknows ⊢
      rw [hsighting] at htail
      obtain ⟨htuning, hl⟩ := Sighting.mk.inj (hseen _ List.mem_cons_self)
      have hevent (n : UInt8) : t.event (p.vmAt v).config n = t.event c n := by
        rw [← Trial.event_tuning, htuning, Trial.event_tuning]
      rw [hevent] at hstrike hq'
      obtain ⟨hstands, hmarked, hhit⟩ := hs.execute hvalid hh hlast' (hp.streams u q hq) hf hl
        fun hk => hknows hk (Nat.succ_pos _)
      obtain ⟨⟨q', hend, hstands'⟩, hrest⟩ := ih hp' hh' hq' hstands
        (fun x hx => hseen x (List.mem_cons_of_mem _ hx))
        (fun hk hmore => (hmarked hk).advances hadvances
          (hnames.head (by omega) (by rw [hsame]; exact Nat.succ_pos _))) htail hlast
      refine ⟨⟨q', hend, ?_⟩, fun s hmem => ?_⟩
      · rw [List.length_cons, ← Nat.add_assoc, Nat.add_right_comm]
        exact hstands'
      · rw [strikes, hstrike] at hmem
        rcases List.mem_append.mp hmem with hhere | hthere
        · rw [Option.mem_toList] at hhere
          cases hhere
          exact hhit
        · exact hrest s hthere

end Process

lemma Quickened.state?_of_isAdaptive {q : Quickened} {i : Nat}
    (ha : (q.instrAt i).op.isAdaptive = true) : q.state? i = some (.adaptive (q.counter i)) := by
  unfold state?
  split
  · next hop =>
    rw [hop] at ha
    cases ha
  · rw [if_pos ha]

lemma Look.isSpecialized_member (L : Look) :
    L.member.family?.isSome = true ∧ L.member.isAdaptive = false := by
  cases L <;> exact ⟨rfl, rfl⟩

namespace Process

/-- **Stable sites specialize, and stay specialized.** A fresh site whose executions all see one
look, while no name is added to the namespaces of the look or removed, counts up to the threshold;
from then on it has the member that comes first for what it sees, and never misses. -/
theorem stable_sites_specialize (c : Config) (hvalid : c.validate = .ok c) (as bs : List Action)
    (u i : Nat) (q : Quickened) (L : Look) :
    let p := ({} : Process).after as
    let executions := (p.sightings u i bs).length
    (p.world.attachmentAt u).quickened = some q → q.state? i = some (.adaptive 0) →
    (∀ x ∈ p.sightings u i bs, x = ⟨c.tuning, some L⟩) → p.NamesRest u i 0 L.names bs →
    (p.after bs).world.heap.tokens.Lasting →
    (∃ q', ((p.after bs).world.attachmentAt u).quickened = some q' ∧
      (executions < c.specializeThreshold.toNat →
        ∃ n, q'.state? i = some (.adaptive n) ∧ n.toNat = executions) ∧
      (c.specializeThreshold.toNat ≤ executions → (q'.instrAt i).op = L.member ∧
        ∃ n, q'.state? i = some (.specialized n) ∧ n.toNat = min c.counterMax.toNat
          (c.counterInitial.toNat +
            (executions - c.specializeThreshold.toNat) * c.hitStep.toNat))) ∧
      ∀ s ∈ p.strikes u i bs, s.2 = false := by
  intro p executions hq hfresh hseen hnames hlast
  have hfault : c.fault? = none := Config.validate_eq_ok_iff.mp hvalid
  have hthreshold := UInt8.lt_iff_toNat_lt.mp (c.specializeThreshold_pos hfault)
  obtain ⟨hadaptive, hzero⟩ := Quickened.state?_eq_adaptive hfresh
  have hstart : q.Stands i c L 0 :=
    ⟨fun _ => ⟨hadaptive, by rw [hzero]; rfl⟩, fun hle => absurd hle (Nat.not_le.mpr hthreshold)⟩
  obtain ⟨⟨q', hend, hstands⟩, hhits⟩ := stands_after hfault (after_sound World.sound_empty as)
    (Heap.Labelled.empty.becomes (after_becomes {} as)) hq hstart hseen
    (fun hle => absurd hle (Nat.not_le.mpr hthreshold)) hnames hlast
  rw [Nat.zero_add] at hstands
  refine ⟨⟨q', hend, fun hlt => ?_, fun hle => ?_⟩, hhits⟩
  · obtain ⟨ha, hcount⟩ := hstands.early hlt
    exact ⟨_, Quickened.state?_of_isAdaptive ha, hcount⟩
  · obtain ⟨hop, hcount⟩ := hstands.late hle
    obtain ⟨hfam, ha⟩ := L.isSpecialized_member
    obtain ⟨fam, hfam⟩ := Option.isSome_iff_exists.mp hfam
    have hstate := Quickened.state?_of_family (q := q') (i := i) (by rw [hop, hfam])
    rw [hop, ha] at hstate
    exact ⟨hop, _, hstate, hcount⟩

/-- A unit that reads an attribute of the class of an instance is quickened. -/
def quickensReader : List Action := readsClassAttribute.take 7 ++ [.quicken 0 1000]

/-- It is executed four times. In between the attribute is given another value, there is another
instance in place of the first one, and the module binds another name. -/
def readsOn : List Action :=
  runFor 3 0 0 ⟨1, "main"⟩ ++
  [.request (.assign 2 "k" (.int 9)), .request (.instantiate ⟨0, "C"⟩)] ++
  runFor 3 0 0 ⟨1, "main"⟩ ++
  [.request (.assign 1 "o" (.inst ⟨1, "C"⟩)), .request (.assign 1 "other" (.int 8))] ++
  runFor 3 0 0 ⟨1, "main"⟩ ++ runFor 3 0 0 ⟨1, "main"⟩

theorem stable_sites_specialize_class_attribute :
    let c : Config := { warmupThreshold := 1, specializeThreshold := 2 }
    let p := ({} : Process).after quickensReader
    let L : Look := .classAttribute (p.world.heap.shapeOf ⟨0, "C"⟩).id 2
    c.validate = .ok c ∧ p.sightings 0 1 readsOn = List.replicate 4 ⟨c.tuning, some L⟩ ∧
      p.NamesRest 0 1 0 L.names readsOn ∧ (p.after readsOn).world.heap.tokens.Lasting ∧
      ∃ q, ((p.after readsOn).world.attachmentAt 0).quickened = some q ∧
        (q.instrAt 1).op = .loadAttr .cls ∧
        ∃ n, q.state? 1 = some (.specialized n) ∧ n.toNat = 6 := by
  intro c p L
  have hvalid : c.validate = .ok c := by decide
  have hrun : (p.world.attachmentAt 0).quickened.map (fun q => q.state? 1) =
      some (some (.adaptive 0)) := by decide +kernel
  have hsightings : p.sightings 0 1 readsOn = List.replicate 4 ⟨c.tuning, some L⟩ := by
    decide +kernel
  have hnames : p.NamesRest 0 1 0 L.names readsOn :=
    NamesRest.of_index (n := 2) 0 (by decide +kernel)
  have hlast : (p.after readsOn).world.heap.tokens.Lasting := by
    intro k
    cases k <;> decide +kernel
  have hseen : ∀ x ∈ p.sightings 0 1 readsOn, x = ⟨c.tuning, some L⟩ := by
    rw [hsightings]
    exact fun x hx => List.eq_of_mem_replicate hx
  have hcount : (p.sightings 0 1 readsOn).length = 4 := by rw [hsightings]; rfl
  obtain ⟨q, hq, hfresh⟩ := Option.map_eq_some_iff.mp hrun
  obtain ⟨⟨q', hend, -, hlate⟩, -⟩ := stable_sites_specialize c hvalid quickensReader readsOn 0 1 q
    L hq hfresh hseen hnames hlast
  obtain ⟨hop, n, hstate, hn⟩ := hlate (by rw [hcount]; decide)
  refine ⟨hvalid, hsightings, hnames, hlast, q', hend, hop, n, hstate, ?_⟩
  rw [hn, hcount]
  rfl

end Process

end AdaptiveVM
