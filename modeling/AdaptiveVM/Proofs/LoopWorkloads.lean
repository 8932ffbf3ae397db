import AdaptiveVM.Proofs.FirstRun
import AdaptiveVM.Proofs.Instances
import AdaptiveVM.Proofs.Loops
import AdaptiveVM.Proofs.Process

/-!
The workloads that loop.

Each of them counts up to its number of iterations, and what it computes along the way can be said
for every number of rounds. The same value comes out whether sites specialize, miss their guards and
fall back or not; memory for quickened units and room for frames are all that a run can lack.
-/

namespace AdaptiveVM

open Operation (whole Fits)
open Assembler (Line)

/-! ### Steps of short programs -/

namespace Machine

variable {c : Config} {b g : Ref .mod} {depth : Nat} {a a' : Array Attachment} {vm : Vm}
  {f : Frame} {rest : List Frame} {lines callee : List Line} {h : Heap} {Q : Machine → Prop}
  {t : Machine}

/-- Steps of one unit. -/
lemma stays_within {u : Nat} (hlength : lines.length ≤ 255) (h : Heap)
    (hr : (h.unitAt u).Renders lines) (f₁ f₂ : Frame) (_ : f₁.unit = u) (hf : f₂.unit = u)
    (_ : ∀ arg, lines[f₁.position]? ≠ some (.op .call arg)) :
    Stays c ⟨h, a, .tracer c b depth, f₁ :: rest⟩ ⟨h, a, .tracer c b depth, f₂ :: rest⟩ :=
  stays_of_renders rfl (hf ▸ hr) hlength

/-- A walk within one unit. -/
lemma Leads.within {f' : Frame} {k : Nat} (hquick : f.quick = false)
    (hr : (h.unitAt f.unit).Renders lines) (hlength : lines.length ≤ 255)
    (hw : f.walk lines h b k = some f')
    (ht : Leads (Stays c) (LimitExcused c) Q ⟨h, a, .tracer c b depth, f' :: rest⟩) :
    Leads (Stays c) (LimitExcused c) Q ⟨h, a, .tracer c b depth, f :: rest⟩ :=
  .walk (Vm.plain_tracer c b depth) hquick hr (stays_within hlength h hr) hw ht

/-- A call of a function that walks to its return. -/
lemma Leads.callLinked {name : String} {argc i : UInt8} {r : Ref .function} {fn : Function}
    {args below stack : List Value} {v : Value} {locals : Array (Option Value)} {k p : Nat}
    (hdepth : depth < 512) (hquick : f.quick = false) (hr : (h.unitAt f.unit).Renders lines)
    (hlines : lines.length ≤ 255) (hk : Workload.Linked h g name argc callee r fn)
    (hcallee : callee.length ≤ 255) (hl : lines[f.position]? = some (.op .call argc))
    (hpop : f.popMany? argc.toNat = some (args, .function r :: below))
    (hwalk : (Frame.resting fn.unit g (Binding.slots (max 0 argc).toNat args) 0).walk callee h b k =
      some ⟨fn.unit, g, locals, v :: stack, p, false⟩)
    (hret : callee[p]? = some (.op .ret i))
    (ht : Leads (Stays c) (LimitExcused c) Q
      ⟨h, a, .tracer c b depth, ({ f with stack := below }.push v).advance :: rest⟩) :
    Leads (Stays c) (LimitExcused c) Q ⟨h, a, .tracer c b depth, f :: rest⟩ := by
  have hvm := Vm.plain_tracer c b
  have hr' := hk.code.renders
  refine .callFunction (hvm depth) hquick hr hl hpop hk.function hk.code.argcount (fun hfull => ?_)
    (stays_of_renders rfl hr' hcallee) fun _ => ?_
  · refine ⟨?_, _, rfl⟩
    rintro ⟨-, hroomy⟩
    have hle : c.maxFrameDepth ≤ depth := hfull
    have hdefault : 512 ≤ c.maxFrameDepth := hroomy
    omega
  · rw [hk.code.nlocals, hk.globals]
    show Leads _ _ _ ⟨h, a, .tracer c b (depth + 1), _⟩
    refine .within rfl hr' hcallee hwalk ?_
    exact .ret (hvm depth) rfl hr' hret rfl (stays_of_renders rfl hr hlines) ht

end Machine

namespace Workload

open Machine (standing Leads Stays LimitExcused Returns)

/-- A workload that is expected to return a number is built and delivers the number, unless there is
no such integer: then it is refused. -/
def Settles (build : Build Workload) (w : World) (c : Config) (title : String) (n : Int64)
    (k : Int) : Prop :=
  if Fits k then Delivers build w c (whole k)
  else ∃ w', build.on w = (.error (.config (.tooManyIterations title n)), w')

lemma on_expect {title : String} {n : Int64} {k : Int} (hk : Fits k) (w : World) :
    (expect (result? title n k)).on w = (.ok (whole k), w) := by
  rw [result?, Operation.fit?_of_fits hk]
  rfl

lemma on_expect_unfit {title : String} {n : Int64} {k : Int} (hk : ¬ Fits k) (w : World) :
    (expect (result? title n k)).on w = (.error (.config (.tooManyIterations title n)), w) := by
  rw [result?, Operation.fit?_eq_none hk]
  rfl

/-! ### A stable call -/

namespace CallSite

/-- The sum of the first natural numbers. -/
def gauss (i : Nat) : Int := (i : Int) * (i - 1) / 2

lemma gauss_succ (i : Nat) : gauss (i + 1) = gauss i + i := by
  have hsplit : ((i + 1 : Nat) : Int) * ((i + 1 : Nat) - 1) = (i : Int) * (i - 1) + i * 2 := by
    push_cast
    ring
  rw [gauss, hsplit, Int.add_mul_ediv_right _ _ (by decide), gauss]

lemma gauss_nonneg (i : Nat) : 0 ≤ gauss i := by
  induction i with
  | zero => decide
  | succ i ih =>
    rw [gauss_succ]
    omega

lemma gauss_mono {i j : Nat} (hij : i ≤ j) : gauss i ≤ gauss j := by
  induction hij with
  | refl => exact le_rfl
  | step _ ih =>
    rw [Nat.succ_eq_add_one, gauss_succ]
    omega

lemma total_eq (n : Int64) : total n = gauss n.toInt.toNat := by
  have hmax : max n.toInt 0 = n.toInt.toNat := (Int.ofNat_toNat _).symm
  rw [total, gauss, hmax]
  generalize n.toInt.toNat = k
  cases k with
  | zero => rfl
  | succ k => rw [max_eq_left (by omega)]

variable {h : Heap} {u : Nat} {g b : Ref .mod} {n : Int64} {r : Ref .function} {fn : Function}
  {c : Config} {w : World} {Q : Machine → Prop} {x y z : Value}

lemma length_program (n : Int64) : (program n).length ≤ 255 := by
  show 20 ≤ 255
  decide

/-- One round adds the counter to the total, by a call. -/
lemma leads_round (hp : (h.unitAt u).Renders (program n)) (hk : Linked h g "add" 2 add r fn)
    (hadd : Operation.add y x = .ok z)
    (ht : Leads (Stays c) (LimitExcused c) Q
      (standing #[] (.tracer c b 1) [] u g h #[some x, some z] 13)) :
    Leads (Stays c) (LimitExcused c) Q
      (standing #[] (.tracer c b 1) [] u g h #[some x, some y] 8) := by
  have hload : (Frame.resting u g #[some x, some y] 8).walk (program n) h b 3 =
      some ⟨u, g, #[some x, some y], [x, y, .function r], 11, false⟩ := by
    rw [Frame.resting, Frame.walk_loadGlobal rfl hk.loadGlobal, Frame.walk_loadFast rfl rfl,
      Frame.walk_loadFast rfl rfl]
    rfl
  have hcallee : (Frame.resting fn.unit g #[some y, some x] 0).walk add h b 3 =
      some ⟨fn.unit, g, #[some y, some x], [z], 3, false⟩ := by
    rw [Frame.resting, Frame.walk_loadFast rfl rfl, Frame.walk_loadFast rfl rfl,
      Frame.walk_compute rfl rfl hadd]
    rfl
  have hstore : Frame.walk (program n) h b 1 ⟨u, g, #[some x, some y], [z], 12, false⟩ =
      some (.resting u g #[some x, some z] 13) := by
    rw [Frame.walk_storeFast rfl (by simp)]
    rfl
  refine .within rfl hp (length_program n) hload ?_
  refine .callLinked (by decide) rfl hp (length_program n) hk (by decide) rfl rfl hcallee rfl ?_
  exact .within rfl hp (length_program n) hstore ht

/-- The program adds up all numbers below its bound. -/
theorem leads (hp : (h.unitAt u).Renders (program n)) (hk : Linked h g "add" 2 add r fn)
    (hfits : Fits (gauss n.toInt.toNat)) :
    Leads (Stays c) (LimitExcused c) (Returns (whole (gauss n.toInt.toNat)))
      (standing #[] (.tracer c b 1) [] u g h (Binding.slots 2 []) 0) := by
  have hvm := Vm.plain_tracer c b 1
  have hrange := Operation.fits_toInt n
  have hbelow {i : Nat} (hi : i ≤ n.toInt.toNat) : Fits (gauss i) := by
    have hlow := gauss_nonneg i
    have hhigh := (gauss_mono hi).trans hfits.2
    constructor <;> omega
  have hinit : (Frame.resting u g (Binding.slots 2 []) 0).walk (program n) h b 2 =
      some (.resting u g #[none, some (whole 0)] 2) := rfl
  refine .within rfl hp (length_program n) hinit ?_
  refine Leads.countedLoop hvm (PlacedAt.middle _ _ _)
    (I := fun i h' locals => h' = h ∧ locals = #[some (whole i), some (whole (gauss i))])
    (by decide) ?_ ?_ (Machine.stays_within (length_program n)) ?_ (by simp) hp ⟨rfl, rfl⟩ ?_
  · rintro i _ _ ⟨rfl, rfl⟩
    exact hp
  · rintro i _ _ ⟨rfl, rfl⟩
    rfl
  · rintro i _ _ hi ⟨rfl, rfl⟩
    have hadd : Operation.add (whole (gauss i)) (whole i) = .ok (whole (gauss (i + 1))) := by
      rw [gauss_succ]
      refine Operation.add_whole (hbelow (by omega)) ⟨by omega, by have := hrange.2; omega⟩ ?_
      rw [← gauss_succ]
      exact hbelow (by omega)
    exact leads_round hp hk hadd (.here ⟨_, _, rfl, hp, rfl, rfl, rfl⟩)
  · rintro _ _ ⟨rfl, rfl⟩
    refine .within (k := 1) rfl hp (length_program n) rfl ?_
    exact .here (Machine.returns_line hvm rfl hp rfl rfl)

theorem settles (hw : w.Sound) (hdepth : c.maxFrameDepth ≠ 0) (n : Int64) :
    Settles (callSite n) w c "call_site" (max n 0) (total n) := by
  obtain ⟨w', g, hw', hon, r, fn, -, -, hlinked⟩ :=
    exists_linked hw "call_site" "add" 2 add (by decide) (by decide)
  obtain ⟨u, hassemble, hu⟩ := exists_assembled "<call_site>" 0 2 (program n)
    ((length_program n).trans (by decide)) (List.all_eq_true.mp rfl)
  unfold Settles
  split
  · next hfits =>
    refine delivers_of_leads hw' (g := g) ?_ hu (length_program n) hdepth ?_
    · unfold callSite
      rw [hon, Build.on_bind, Build.on_code hassemble]
      dsimp only
      rw [Build.on_bind, on_expect hfits]
      exact ⟨_, rfl, rfl, rfl, rfl⟩
    · rw [total_eq] at hfits ⊢
      exact leads (hu.launched w') (hlinked u hu.checked) hfits
  · next hunfit =>
    refine ⟨(w'.newUnit u).2, ?_⟩
    unfold callSite
    rw [hon, Build.on_bind, Build.on_code hassemble]
    dsimp only
    rw [Build.on_bind, on_expect_unfit hunfit]

end CallSite

/-! ### A global hidden halfway -/

/-- A function stays where it is when another name is bound. -/
lemma Linked.assign {h : Heap} {g : Ref .mod} {name key : String} {params : UInt8}
    {callee : List Line} {r : Ref .function} {fn : Function}
    (hk : Linked h g name params callee r fn) (hkey : name ≠ key) (v : Value) :
    Linked (h.assign g.id key v) g name params callee r fn := by
  have hunits : (h.assign g.id key v).units = h.units := (h.assign_develops g.id key v).units
  have hfunctions : (h.assign g.id key v).functions = h.functions := by
    unfold Heap.assign
    split <;> rfl
  refine ⟨hk.bound.assign hkey g.id v, ?_, hk.globals, ?_⟩
  · rw [Heap.functionAt, hfunctions, ← Heap.functionAt, hk.function]
  · rw [Heap.unitAt, hunits, ← Heap.unitAt]
    exact hk.code

namespace ShadowedGlobal

variable {h : Heap} {u : Nat} {g b : Ref .mod} {n : Int64} {r : Ref .function} {fn : Function}
  {c : Config} {w : World} {Q : Machine → Prop} {x v : Value} {y : Option Value} {i : Nat}
  {locals : Array (Option Value)}

lemma length_program (n : Int64) : (program n).length ≤ 255 := by
  show 23 ≤ 255
  decide

/-- What holds before a round: the name is found, and once the module binds it, the probe has seen
the module's value. -/
structure Ready (h : Heap) (u : Nat) (g b : Ref .mod) (n : Int64) (r : Ref .function)
    (fn : Function) (i : Nat) (locals : Array (Option Value)) : Prop where
  program : (h.unitAt u).Renders (program n)
  linked : Linked h g "probe" 0 probe r fn
  found : ∃ v, Operation.loadGlobal (h.namespaceAt g.id) (h.namespaceAt b.id) "abs" = .ok v
  slots : ∃ y, locals = #[some (whole i), y] ∧ (50 < i → y = some (.int 99))

/-- The probe is called, and what it returns is stored. -/
lemma leads_probe (hp : (h.unitAt u).Renders (program n)) (hk : Linked h g "probe" 0 probe r fn)
    (hv : Operation.loadGlobal (h.namespaceAt g.id) (h.namespaceAt b.id) "abs" = .ok v)
    (ht : Leads (Stays c) (LimitExcused c) Q
      (standing #[] (.tracer c b 1) [] u g h #[some x, some v] 16)) :
    Leads (Stays c) (LimitExcused c) Q (standing #[] (.tracer c b 1) [] u g h #[some x, y] 13) := by
  have hload : (Frame.resting u g #[some x, y] 13).walk (program n) h b 1 =
      some ⟨u, g, #[some x, y], [.function r], 14, false⟩ := by
    rw [Frame.resting, Frame.walk_loadGlobal rfl hk.loadGlobal]
    rfl
  have hcallee : (Frame.resting fn.unit g #[] 0).walk probe h b 1 =
      some ⟨fn.unit, g, #[], [v], 1, false⟩ := by
    rw [Frame.resting, Frame.walk_loadGlobal rfl hv]
    rfl
  have hstore : Frame.walk (program n) h b 1 ⟨u, g, #[some x, y], [v], 15, false⟩ =
      some (.resting u g #[some x, some v] 16) := by
    rw [Frame.walk_storeFast rfl (by simp)]
    rfl
  refine .within rfl hp (length_program n) hload ?_
  refine .callLinked (by decide) rfl hp (length_program n) hk (by decide) rfl rfl hcallee rfl ?_
  exact .within rfl hp (length_program n) hstore ht

/-- One round, in which the module may come to bind the name. -/
lemma leads_round (hi : (i : Int) < n.toInt) (hr : Ready h u g b n r fn i locals)
    (ht : ∀ h' v, Ready h' u g b n r fn (i + 1) #[some (whole (i + 1)), some v] →
      Leads (Stays c) (LimitExcused c) Q
        (standing #[] (.tracer c b 1) [] u g h' #[some (whole i), some v] 16)) :
    Leads (Stays c) (LimitExcused c) Q (standing #[] (.tracer c b 1) [] u g h locals 6) := by
  obtain ⟨hp, hk, ⟨v, hv⟩, y, rfl, hseen⟩ := hr
  have hrange := Operation.fits_toInt n
  have hlt : Operation.lessThan (whole i) (.int stableRuns) =
      .ok (.bool (decide ((i : Int) < 50))) :=
    Operation.lessThan_whole (k := 50) ⟨by omega, by have := hrange.2; omega⟩ ⟨by decide, by decide⟩
  have htest : (Frame.resting u g #[some (whole i), y] 6).walk (program n) h b 4 =
      some (.resting u g #[some (whole i), y] (if (i : Int) < 50 then 10 else 11)) := by
    rw [Frame.resting, Frame.walk_loadFast rfl rfl, Frame.walk_const rfl,
      Frame.walk_compute rfl rfl hlt, Frame.walk_jumpIfFalse rfl]
    simp only [Value.isTruthy, decide_eq_true_eq]
    rfl
  refine .within rfl hp (length_program n) htest ?_
  by_cases hearly : (i : Int) < 50
  · rw [if_pos hearly]
    have hskip : (Frame.resting u g #[some (whole i), y] 10).walk (program n) h b 1 =
        some (.resting u g #[some (whole i), y] 13) := rfl
    refine .within rfl hp (length_program n) hskip ?_
    refine leads_probe hp hk hv (ht h v ⟨hp, hk, ⟨v, hv⟩, _, rfl, fun hlate => ?_⟩)
    omega
  · rw [if_neg hearly]
    -- the module binds the name, and from now on the probe finds that binding
    have hconst : (Frame.resting u g #[some (whole i), y] 11).walk (program n) h b 1 =
        some ⟨u, g, #[some (whole i), y], [.int 99], 12, false⟩ := rfl
    have hunits : (h.assign g.id "abs" (.int 99)).units = h.units :=
      (h.assign_develops g.id "abs" (.int 99)).units
    have hp' : ((h.assign g.id "abs" (.int 99)).unitAt u).Renders (program n) := by
      rw [Heap.unitAt, hunits, ← Heap.unitAt]
      exact hp
    have hk' := hk.assign (show "probe" ≠ "abs" by decide) (.int 99)
    have hfound : Operation.loadGlobal ((h.assign g.id "abs" (.int 99)).namespaceAt g.id)
        ((h.assign g.id "abs" (.int 99)).namespaceAt b.id) "abs" = .ok (.int 99) := by
      obtain ⟨m, hm, -⟩ := hk.bound
      have hbinds : (h.assign g.id "abs" (.int 99)).Binds g.id "abs" (.int 99) := hm.binds_assign ..
      rw [Operation.loadGlobal, hbinds.get?]
    refine .within rfl hp (length_program n) hconst ?_
    refine .line (Vm.plain_tracer c b 1) rfl hp rfl rfl rfl
      (Machine.stays_of_renders rfl hp' (length_program n)) ?_
    exact leads_probe hp' hk' hfound (ht _ _ ⟨hp', hk', ⟨_, hfound⟩, _, rfl, fun _ => rfl⟩)

/-- The last rounds see the value of the module. -/
theorem leads (hr : (h.unitAt u).Renders (program n)) (hk : Linked h g "probe" 0 probe r fn)
    (hfound : ∃ v, Operation.loadGlobal (h.namespaceAt g.id) (h.namespaceAt b.id) "abs" = .ok v)
    (hn : 50 < n.toInt) :
    Leads (Stays c) (LimitExcused c) (Returns (.int 99))
      (standing #[] (.tracer c b 1) [] u g h (Binding.slots 2 []) 0) := by
  have hvm := Vm.plain_tracer c b 1
  refine Leads.countedLoop hvm (PlacedAt.middle [] _ _)
    (I := fun i h' locals => Ready h' u g b n r fn i locals)
    (by decide) (fun i h' locals hI => hI.program) ?_ (Machine.stays_within (length_program n)) ?_
    (by decide) hr ⟨hr, hk, hfound, none, rfl, by omega⟩ ?_
  · rintro i h' locals ⟨-, -, -, y, rfl, -⟩
    rfl
  · intro i h' locals hi hI
    obtain ⟨-, -, -, y, rfl, -⟩ := id hI
    exact leads_round hi hI fun h' v hI' => .here ⟨h', _, rfl, hI'.program, rfl, hI'⟩
  · rintro h' locals ⟨hp, -, -, y, rfl, hy⟩
    obtain rfl := hy (by omega)
    refine .within (k := 1) rfl hp (length_program n) rfl ?_
    exact .here (Machine.returns_line hvm rfl hp rfl rfl)

theorem delivers (hw : w.Sound) (hdepth : c.maxFrameDepth ≠ 0) (n : Int64) :
    Delivers (shadowedGlobal n) w c (.int 99) := by
  obtain ⟨w', g, hw', hon, r, fn, -, -, hlinked⟩ :=
    exists_linked hw "shadowed_global" "probe" 0 probe (by decide) (by decide)
  obtain ⟨u, hassemble, hu⟩ := exists_assembled "<shadowed_global>" 0 2
    (program (max n (stableRuns + 1))) ((length_program _).trans (by decide))
    (List.all_eq_true.mp rfl)
  refine delivers_of_leads hw' (g := g) ?_ hu (length_program _) hdepth ?_
  · unfold shadowedGlobal
    rw [hon, Build.on_bind, Build.on_code hassemble]
    exact ⟨_, rfl, rfl, rfl, rfl⟩
  · refine leads (hu.launched w') (hlinked u hu.checked) ?_ ?_
    · have hbuiltin := w'.launch_bound u (show "abs" ∈ Builtins.table.map Prod.fst by decide)
      unfold Operation.loadGlobal
      split
      · exact ⟨_, rfl⟩
      · obtain ⟨v, hv⟩ := hbuiltin
        exact ⟨v, by rw [hv]⟩
    · show 50 < (if n ≤ 51 then (51 : Int64) else n).toInt
      split
      · decide
      · next hlt =>
        have hlt := Int64.lt_iff_toInt_lt.mp (Int64.not_le.mp hlt)
        have h51 : (51 : Int64).toInt = 51 := by decide
        omega

end ShadowedGlobal

/-! ### Alternating operands -/

namespace AlternatingAdd

variable {h : Heap} {u : Nat} {g b : Ref .mod} {n : Int64} {c : Config} {w : World} {i : Nat}

lemma length_program (n : Int64) : (program n).length ≤ 255 := by
  show 29 ≤ 255
  decide

/-- The operand of a round. -/
def operand (i : Nat) : Value := if i % 2 = 0 then .int 1 else .str "s"

/-- What has been computed last before a round. -/
def computed : Nat → Value
  | 0 => .none
  | i + 1 => if i % 2 = 0 then .int 2 else .str "ss"

lemma operand_add_two (i : Nat) : operand (i + 2) = operand i := by
  rw [operand, operand, Nat.add_mod_right]

lemma add_operand (i : Nat) : Operation.add (operand i) (operand i) = .ok (computed (i + 1)) := by
  rw [operand, computed]
  split
  · rfl
  · rfl

lemma computed_toNat (k : Int) :
    computed k.toNat = if k ≤ 0 then .none else if k % 2 = 1 then .int 2 else .str "ss" := by
  by_cases hk : k ≤ 0
  · rw [if_pos hk, Int.toNat_of_nonpos hk]
    rfl
  · obtain ⟨j, hj⟩ : ∃ j, k.toNat = j + 1 := ⟨k.toNat - 1, by omega⟩
    have hodd : j % 2 = 0 ↔ k % 2 = 1 := by omega
    rw [if_neg hk, hj, computed]
    simp only [hodd]

lemma expected_eq (n : Int64) : expected n = computed n.toInt.toNat := by
  have hzero : n ≤ 0 ↔ n.toInt ≤ 0 := Int64.le_iff_toInt_le
  rw [computed_toNat, expected]
  by_cases hn : n.toInt ≤ 0
  · rw [if_pos hn, if_pos (hzero.mpr hn)]
  · have hodd : n % 2 = 1 ↔ n.toInt % 2 = 1 := by
      rw [← Int64.toInt_inj, Int64.toInt_mod, Int.tmod_eq_emod_of_nonneg (by omega)]
      rfl
    rw [if_neg hn, if_neg (mt hzero.mp hn)]
    simp only [hodd]

/-- One round doubles an operand and lets the two operands take turns. -/
lemma walk_round (i : Nat) (x : Value) (tmp last : Option Value) :
    (Frame.resting u g #[some x, some (operand i), some (operand (i + 1)), tmp, last] 12).walk
        (program n) h b 10 =
      some (.resting u g #[some x, some (operand (i + 1)), some (operand (i + 2)),
        some (operand i), some (computed (i + 1))] 22) := by
  rw [Frame.resting, Frame.walk_loadFast rfl rfl, Frame.walk_dup rfl,
    Frame.walk_compute rfl rfl (add_operand i), Frame.walk_storeFast rfl (by simp),
    Frame.walk_loadFast rfl rfl, Frame.walk_storeFast rfl (by simp), Frame.walk_loadFast rfl rfl,
    Frame.walk_storeFast rfl (by simp), Frame.walk_loadFast rfl rfl,
    Frame.walk_storeFast rfl (by simp), operand_add_two]
  rfl

theorem leads (hp : (h.unitAt u).Renders (program n)) :
    Leads (Stays c) (LimitExcused c) (Returns (computed n.toInt.toNat))
      (standing #[] (.tracer c b 1) [] u g h (Binding.slots 5 []) 0) := by
  have hvm := Vm.plain_tracer c b 1
  have hinit : (Frame.resting u g (Binding.slots 5 []) 0).walk (program n) h b 6 =
      some (.resting u g #[none, some (operand 0), some (operand 1), none, some .none] 6) := rfl
  refine .within rfl hp (length_program n) hinit ?_
  refine Leads.countedLoop hvm (PlacedAt.middle _ _ _)
    (I := fun i h' locals => h' = h ∧ ∃ tmp, locals =
      #[some (whole i), some (operand i), some (operand (i + 1)), tmp, some (computed i)])
    (by decide) ?_ ?_ (Machine.stays_within (length_program n)) ?_ (by simp) hp ⟨rfl, none, rfl⟩ ?_
  · rintro i _ _ ⟨rfl, tmp, rfl⟩
    exact hp
  · rintro i _ _ ⟨rfl, tmp, rfl⟩
    rfl
  · rintro i _ _ hi ⟨rfl, tmp, rfl⟩
    refine .within rfl hp (length_program n) (walk_round i (whole i) tmp (some (computed i))) ?_
    exact .here ⟨_, _, rfl, hp, rfl, rfl, _, rfl⟩
  · rintro _ _ ⟨rfl, tmp, rfl⟩
    refine .within (k := 1) rfl hp (length_program n) rfl ?_
    exact .here (Machine.returns_line hvm rfl hp rfl rfl)

theorem delivers (hw : w.Sound) (hdepth : c.maxFrameDepth ≠ 0) (n : Int64) :
    Delivers (alternatingAdd n) w c (expected n) := by
  obtain ⟨u, hassemble, hu⟩ := exists_assembled "<alternating_add>" 0 5 (program n)
    ((length_program n).trans (by decide)) (List.all_eq_true.mp rfl)
  have hextends := World.serve_extends w (r := .newModule "alternating_add") rfl
  refine delivers_of_leads (hextends.sound hw) (g := ⟨w.heap.namespaces.size, "alternating_add"⟩)
    ?_ hu (length_program n) hdepth ?_
  · unfold alternatingAdd
    rw [Build.on_bind, Build.on_newModule]
    dsimp only
    rw [Build.on_bind, Build.on_code hassemble]
    exact ⟨_, rfl, rfl, rfl, rfl⟩
  · rw [expected_eq]
    exact leads (hu.launched _)

end AlternatingAdd

end Workload

/-! ### Attributes -/

namespace Heap

variable {h : Heap} {o : Ref .inst} {c : Ref .cls} {names : List String} {values : List Value}

/-- An instance has fields, in the order of their names. -/
structure Shows (h : Heap) (o : Ref .inst) (c : Ref .cls) (names : List String)
    (values : List Value) : Prop where
  there : o.id < h.instances.size
  cls : (h.instanceAt o).cls = c
  placed : (h.instanceAt o).shape < h.shapes.size
  keys : (h.shapeOf o).keys = names.toArray
  fields : (h.instanceAt o).fields = values.toArray

lemma shows_instantiate (hroot : (h.classAt c).root < h.shapes.size) (hh : h.Shaped) :
    (h.instantiate c).2.Shows (h.instantiate c).1 c [] [] := by
  have hat : (h.instantiate c).2.instanceAt (h.instantiate c).1 =
      { cls := c, shape := (h.classAt c).root } := by
    show (h.instances.push _).getD h.instances.size default = _
    rw [getD_push, if_pos rfl]
  refine ⟨?_, ?_, ?_, ?_, ?_⟩
  · show h.instances.size < (h.instances.push _).size
    rw [Array.size_push]
    exact Nat.lt_succ_self _
  · rw [hat]
  · rw [hat]
    exact hroot
  · rw [shapeOf, hat]
    exact (hh.roots c.id).2
  · rw [hat]

/-- The next shape has the new name last. -/
lemma keys_extendShape (hh : h.Shaped) {s : Nat} (hs : s < h.shapes.size) (key : String) :
    (h.extendShape s key).1 < (h.extendShape s key).2.shapes.size ∧
      ((h.extendShape s key).2.shapeAt (h.extendShape s key).1).keys =
        (h.shapeAt s).keys.push key := by
  rcases extendShape_cases h s key with ⟨next, hn, he⟩ | ⟨-, he⟩ | ⟨hle, -⟩
  · rw [he]
    exact hh.transitions s (key, next) (mem_of_next? hn)
  · rw [he]
    refine ⟨?_, ?_⟩
    · show h.shapes.size < ((h.newShape _).2.shapes.modify s _).size
      rw [Array.size_modify, size_shapes_newShape]
      exact Nat.lt_succ_self _
    · show (((h.newShape _).2.shapes.modify s _).getD h.shapes.size default).keys = _
      rw [getD_modify, if_neg (by omega)]
      exact congrArg Shape.keys ((shapeAt_newShape ..).trans (if_pos rfl))
  · omega

lemma classes_setField (h : Heap) (o : Ref .inst) (key : String) (v : Value) :
    (h.setField o key v).classes = h.classes := by
  unfold setField
  split
  · rfl
  · show (h.extendShape _ key).2.classes = h.classes
    rcases extendShape_cases h (h.instanceAt o).shape key with ⟨next, -, he⟩ | ⟨-, he⟩ | ⟨-, he⟩
    · rw [he]
    · rw [he]
      rfl
    · rw [he]

lemma Shows.field? (hs : h.Shows o c names values) (key : String) :
    h.field? o key = (names.findIdx? (· == key)).bind fun i => values[i]? := by
  rw [Heap.field?, Shape.indexOf?, hs.keys, hs.fields, List.findIdx?_toArray]
  simp only [List.getElem?_toArray]

/-- A new field comes last. -/
lemma Shows.setField (hs : h.Shows o c names values) (hh : h.Shaped) {key : String}
    (hkey : key ∉ names) (v : Value) :
    (h.setField o key v).Shows o c (names ++ [key]) (values ++ [v]) := by
  have hnone : (h.shapeOf o).indexOf? key = none := by
    rw [Shape.indexOf?, hs.keys, List.findIdx?_toArray, List.findIdx?_eq_none_iff]
    intro k hk
    exact beq_eq_false_iff_ne.mpr fun he => hkey (he ▸ hk)
  obtain ⟨hplaced, hkeys⟩ := keys_extendShape hh hs.placed key
  have hsame := Shaped.instances_extendShape h (h.instanceAt o).shape key
  have hat : (h.setField o key v).instanceAt o =
      (h.instanceAt o).grow (h.extendShape (h.instanceAt o).shape key).1 v := by
    rw [setField_of_none hnone, instanceAt]
    dsimp only
    rw [hsame, getD_modify, if_pos ⟨rfl, hs.there⟩]
    rfl
  have hshapes : (h.setField o key v).shapes =
      (h.extendShape (h.instanceAt o).shape key).2.shapes := by
    rw [setField_of_none hnone]
  refine ⟨?_, ?_, ?_, ?_, ?_⟩
  · rw [setField_of_none hnone]
    dsimp only
    rw [Array.size_modify, hsame]
    exact hs.there
  · rw [hat]
    exact hs.cls
  · rw [hat, hshapes]
    exact hplaced
  · rw [shapeOf, hat, shapeAt, hshapes, ← List.push_toArray, ← hs.keys]
    exact hkeys
  · rw [hat, ← List.push_toArray, ← hs.fields]
    rfl

end Heap

namespace Workload.Attributes

open Machine (standing Leads Stays LimitExcused Returns)

variable {h : Heap} {u : Nat} {g b r : Ref .mod} {o : Ref .inst} {n : Int64} {c : Config}
  {w : World}

lemma length_program (n : Int64) : (program n).length ≤ 255 := by
  show 38 ≤ 255
  decide

/-- What a round reads: the fields, the shared attribute and the setting that it adds up. -/
structure RoundReads (h : Heap) (g b : Ref .mod) (o : Ref .inst) (r : Ref .mod) : Prop where
  x : Operation.loadAttr h (.inst o) "x" = .ok (whole 1)
  y : Operation.loadAttr h (.inst o) "y" = .ok (whole 2)
  scale : Operation.loadAttr h (.inst o) "scale" = .ok (whole 3)
  config : Operation.loadGlobal (h.namespaceAt g.id) (h.namespaceAt b.id) "config" =
    .ok (.mod r)
  step : Operation.loadAttr h (.mod r) "step" = .ok (whole 1)

/-- One round adds seven. -/
lemma walk_round (hs : RoundReads h g b o r) (x : Value) {k : Int} (hlow : 0 ≤ k)
    (hk : Fits (k + 7)) :
    (Frame.resting u g #[some x, some (whole k), some (.inst o)] 17).walk (program n) h b 14 =
      some (.resting u g #[some x, some (whole (k + 7)), some (.inst o)] 31) := by
  have hhigh := hk.2
  have hadd (j m s : Int) (hj : 0 ≤ j) (hm : 0 ≤ m) (hle : s ≤ 7) (hsum : j + m = s) :
      Operation.add (whole (k + j)) (whole m) = .ok (whole (k + s)) := by
    rw [← hsum, ← Int.add_assoc]
    exact Operation.add_whole ⟨by omega, by omega⟩ ⟨by omega, by omega⟩ ⟨by omega, by omega⟩
  have h1 : Operation.add (whole k) (whole 1) = .ok (whole (k + 1)) := by
    simpa using hadd 0 1 1 (by decide) (by decide) (by decide) rfl
  have h2 := hadd 1 2 3 (by decide) (by decide) (by decide) rfl
  have h3 := hadd 3 3 6 (by decide) (by decide) (by decide) rfl
  have h4 := hadd 6 1 7 (by decide) (by decide) (by decide) rfl
  rw [Frame.resting, Frame.walk_loadFast rfl rfl, Frame.walk_loadFast rfl rfl,
    Frame.walk_loadAttr rfl hs.x, Frame.walk_compute rfl rfl h1, Frame.walk_loadFast rfl rfl,
    Frame.walk_loadAttr rfl hs.y, Frame.walk_compute rfl rfl h2, Frame.walk_loadFast rfl rfl,
    Frame.walk_loadAttr rfl hs.scale, Frame.walk_compute rfl rfl h3,
    Frame.walk_loadGlobal rfl hs.config, Frame.walk_loadAttr rfl hs.step,
    Frame.walk_compute rfl rfl h4, Frame.walk_storeFast rfl (by simp)]
  rfl

lemma renders_setField {lines : List Line} (hr : (h.unitAt u).Renders lines) (o : Ref .inst)
    (key : String) (v : Value) : ((h.setField o key v).unitAt u).Renders lines := by
  rw [Heap.unitAt, (h.setField_develops o key v).units, ← Heap.unitAt]
  exact hr

/-- The loop adds seven for every round. -/
lemma leads_loop (hr : (h.unitAt u).Renders (program n)) (hs : RoundReads h g b o r)
    (hfits : Fits (7 * n.toInt.toNat)) :
    Leads (Stays c) (LimitExcused c) (Returns (whole (7 * n.toInt.toNat)))
      (standing #[] (.tracer c b 1) [] u g h #[none, some (whole 0), some (.inst o)] 11) := by
  have hvm := Vm.plain_tracer c b 1
  refine Leads.countedLoop hvm (PlacedAt.middle _ _ _)
    (I := fun i h' locals => h' = h ∧
      locals = #[some (whole i), some (whole (7 * i)), some (.inst o)])
    (by decide) ?_ ?_ (Machine.stays_within (length_program n)) ?_ (by simp) hr ⟨rfl, rfl⟩ ?_
  · rintro i _ _ ⟨rfl, rfl⟩
    exact hr
  · rintro i _ _ ⟨rfl, rfl⟩
    rfl
  · rintro i _ _ hi ⟨rfl, rfl⟩
    have hnext : Fits (7 * i + 7) := ⟨by omega, by have := hfits.2; omega⟩
    have hseven : (7 * (i + 1 : Nat) : Int) = 7 * i + 7 := by omega
    refine .within rfl hr (length_program n) (walk_round hs (whole i) (by omega) hnext) ?_
    refine .here ⟨_, _, rfl, hr, rfl, rfl, ?_⟩
    rw [hseven]
    rfl
  · rintro _ _ ⟨rfl, rfl⟩
    refine .within (k := 1) rfl hr (length_program n) rfl ?_
    exact .here (Machine.returns_line hvm rfl hr rfl rfl)

/-- The instance is stored and takes its two fields. -/
lemma leads_fields {Q : Machine → Prop} (hr : (h.unitAt u).Renders (program n))
    (ht : Leads (Stays c) (LimitExcused c) Q (standing #[] (.tracer c b 1) [] u g
      ((h.setField o "x" (whole 1)).setField o "y" (whole 2))
      #[none, some (whole 0), some (.inst o)] 11)) :
    Leads (Stays c) (LimitExcused c) Q
      ⟨h, #[], .tracer c b 1, [⟨u, g, Binding.slots 3 [], [.inst o], 2, false⟩]⟩ := by
  have hvm := Vm.plain_tracer c b 1
  have hr₁ := renders_setField hr o "x" (whole 1)
  have hr₂ := renders_setField hr₁ o "y" (whole 2)
  have hx : Frame.walk (program n) h b 3 ⟨u, g, Binding.slots 3 [], [.inst o], 2, false⟩ =
      some ⟨u, g, #[none, none, some (.inst o)], [.inst o, whole 1], 5, false⟩ := rfl
  have hy : Frame.walk (program n) (h.setField o "x" (whole 1)) b 2
      ⟨u, g, #[none, none, some (.inst o)], [], 6, false⟩ =
      some ⟨u, g, #[none, none, some (.inst o)], [.inst o, whole 2], 8, false⟩ := rfl
  have hzero : Frame.walk (program n) ((h.setField o "x" (whole 1)).setField o "y" (whole 2)) b 2
      ⟨u, g, #[none, none, some (.inst o)], [], 9, false⟩ =
      some (.resting u g #[none, some (whole 0), some (.inst o)] 11) := rfl
  refine .within rfl hr (length_program n) hx ?_
  refine .line hvm rfl hr rfl rfl rfl (Machine.stays_of_renders rfl hr₁ (length_program n)) ?_
  refine .within rfl hr₁ (length_program n) hy ?_
  refine .line hvm rfl hr₁ rfl rfl rfl (Machine.stays_of_renders rfl hr₂ (length_program n)) ?_
  exact .within rfl hr₂ (length_program n) hzero ht

/-- A class that a module binds, with the attribute that its instances share. -/
structure PointClass (h : Heap) (g : Ref .mod) (p : Ref .cls) : Prop where
  shaped : h.Shaped
  there : p.id < h.classes.size
  root : (h.classAt p).root < h.shapes.size
  scale : h.Binds (h.classAt p).attributes "scale" (whole 3)
  point : h.Binds g.id "Point" (.cls p)

/-- What the program finds in its module, in a class and in another module. -/
structure PointModule (h : Heap) (g : Ref .mod) (p : Ref .cls) (r : Ref .mod) : Prop
    extends PointClass h g p where
  config : h.Binds g.id "config" (.mod r)
  step : h.Binds r.id "step" (whole 1)

/-- An instance that has its two fields can be read in every round. -/
lemma PointModule.roundReads {p : Ref .cls} (hs : PointModule h g p r) (b : Ref .mod) :
    RoundReads (((h.instantiate p).2.setField (h.instantiate p).1 "x" (whole 1)).setField
      (h.instantiate p).1 "y" (whole 2)) g b (h.instantiate p).1 r := by
  have hshaped := hs.shaped.instantiate p
  have hempty := Heap.shows_instantiate hs.root hs.shaped
  have hone := hempty.setField hshaped (show "x" ∉ [] by decide) (whole 1)
  have htwo := hone.setField (hshaped.setField ..) (show "y" ∉ ["x"] by decide) (whole 2)
  have hnames := (Heap.setField_names ((h.instantiate p).2.setField (h.instantiate p).1 "x"
    (whole 1)) (h.instantiate p).1 "y" (whole 2)).2.trans (Heap.setField_names ..).2
  have hclasses := (Heap.classes_setField ((h.instantiate p).2.setField (h.instantiate p).1 "x"
    (whole 1)) (h.instantiate p).1 "y" (whole 2)).trans (Heap.classes_setField ..)
  have hattributes (h' : Heap) (hc : h'.classes = h.classes) :
      h'.attributesOf p = h'.namespaceAt (h.classAt p).attributes := by
    rw [Heap.attributesOf, Heap.classAt, hc]
    rfl
  refine ⟨?_, ?_, ?_, ?_, ?_⟩
  · rw [Operation.loadAttr, Operation.attribute?, htwo.field?]
    rfl
  · rw [Operation.loadAttr, Operation.attribute?, htwo.field?]
    rfl
  · rw [Operation.loadAttr, Operation.attribute?, htwo.field?, htwo.cls, hattributes _ hclasses]
    simp only [(hs.scale.of_eq hnames).get?]
    rfl
  · rw [Operation.loadGlobal, (hs.config.of_eq hnames).get?]
  · rw [Operation.loadAttr, Operation.attribute?, (hs.step.of_eq hnames).get?]

/-- The program makes an instance and goes on to its loop. -/
theorem leads {p : Ref .cls} (hr : (h.unitAt u).Renders (program n)) (hs : PointModule h g p r)
    (hfits : Fits (7 * n.toInt.toNat)) :
    Leads (Stays c) (LimitExcused c) (Returns (whole (7 * n.toInt.toNat)))
      (standing #[] (.tracer c b 1) [] u g h (Binding.slots 3 []) 0) := by
  have hload : (Frame.resting u g (Binding.slots 3 []) 0).walk (program n) h b 1 =
      some ⟨u, g, Binding.slots 3 [], [.cls p], 1, false⟩ := by
    rw [Frame.resting, Frame.walk_loadGlobal (v := .cls p) rfl]
    · rfl
    · rw [Operation.loadGlobal, hs.point.get?]
  have hr₁ : ((h.instantiate p).2.unitAt u).Renders (program n) := hr
  refine .within rfl hr (length_program n) hload ?_
  refine .line (Vm.plain_tracer c b 1) rfl hr rfl rfl rfl
    (Machine.stays_of_renders rfl hr₁ (length_program n)) ?_
  refine leads_fields hr₁ (leads_loop ?_ (hs.roundReads b) hfits)
  exact renders_setField (renders_setField hr₁ ..) ..

/-- The class stays as it is in worlds that extend this one, if its two names stay bound. -/
lemma PointClass.extend {w' : World} {p : Ref .cls} (hf : PointClass w.heap g p) (hw' : w'.Sound)
    (he : World.Extends w w')
    (hbinds : ∀ n key v, key ∈ ["scale", "Point"] → w.heap.Binds n key v →
      w'.heap.Binds n key v) : PointClass w'.heap g p := by
  have hclass : w'.heap.classAt p = w.heap.classAt p := he.classes.same p.id hf.there
  refine ⟨hw'.heap.shaped, hf.there.trans_le he.classes.size, ?_, ?_,
    hbinds _ _ _ (by decide) hf.point⟩
  · rw [hclass]
    exact hf.root.trans_le he.shapes.size
  · rw [hclass]
    exact hbinds _ _ _ (by decide) hf.scale

lemma PointModule.launch {p : Ref .cls} (hs : PointModule w.heap g p r) (hw : w.Sound)
    {u : CodeUnit} (hu : u.Checked) : PointModule (w.launch u).heap g p r := by
  have hlaunch := w.launch_extends hu
  have hpoint := hs.toPointClass.extend (hlaunch.sound hw) hlaunch
    fun _ _ _ _ hb => World.launch_binds hb u
  exact ⟨hpoint, World.launch_binds hs.config u, World.launch_binds hs.step u⟩

lemma classAt_newClass (w : World) (name : String) :
    (w.serve (.newClass name)).heap.classAt ⟨w.heap.classes.size, name⟩ =
        ⟨w.heap.namespaces.size, w.heap.shapes.size⟩ ∧
      w.heap.classes.size < (w.serve (.newClass name)).heap.classes.size ∧
      w.heap.shapes.size < (w.serve (.newClass name)).heap.shapes.size := by
  refine ⟨?_, ?_, ?_⟩
  · show (w.heap.classes.push _).getD w.heap.classes.size default = _
    rw [getD_push, if_pos rfl]
  · show w.heap.classes.size < (w.heap.classes.push _).size
    rw [Array.size_push]
    exact Nat.lt_succ_self _
  · show w.heap.shapes.size < (w.heap.shapes.push _).size
    rw [Array.size_push]
    exact Nat.lt_succ_self _

open Build in
/-- The class is built in a new module, and then what uses it. -/
lemma exists_pointClass (hw : w.Sound) :
    ∃ (w' : World) (g : Ref .mod) (p : Ref .cls), w'.Sound ∧ PointClass w'.heap g p ∧
      ∀ {α : Type} (k : Ref .mod → Build α),
        Build.on (do
          let globals ← newModule "attributes"
          let point ← onHeap (·.newClass "Point")
          onHeap fun h => ((), h.assign (h.classAt point).attributes "scale" (.int 3))
          assign globals.id "Point" (.cls point)
          k globals) w = (k g).on w' := by
  obtain ⟨g, hgdef⟩ : ∃ g : Ref .mod, g = ⟨w.heap.namespaces.size, "attributes"⟩ := ⟨_, rfl⟩
  obtain ⟨w₁, h₁⟩ : ∃ w₁, w₁ = w.serve (.newModule "attributes") := ⟨_, rfl⟩
  obtain ⟨p, hpdef⟩ : ∃ p : Ref .cls, p = ⟨w₁.heap.classes.size, "Point"⟩ := ⟨_, rfl⟩
  obtain ⟨w₂, h₂⟩ : ∃ w₂, w₂ = w₁.serve (.newClass "Point") := ⟨_, rfl⟩
  obtain ⟨w₃, h₃⟩ : ∃ w₃, w₃ = w₂.serve (.assign (w₂.heap.classAt p).attributes "scale" (.int 3)) :=
    ⟨_, rfl⟩
  obtain ⟨w₄, h₄⟩ : ∃ w₄, w₄ = w₃.serve (.assign g.id "Point" (.cls p)) := ⟨_, rfl⟩
  have hfirst : World.Extends w w₂ := by
    rw [h₂, h₁]
    exact (World.serve_extends _ rfl).trans (World.serve_extends _ rfl)
  have hlater : World.Extends w₂ w₄ := by
    rw [h₄, h₃]
    exact (World.serve_extends _ rfl).trans (World.serve_extends _ rfl)
  have hw₄ := hlater.sound (hfirst.sound hw)
  obtain ⟨hclass, hthere, hroot⟩ := classAt_newClass w₁ "Point"
  rw [← h₂, ← hpdef] at hclass
  have hthere : p.id < w₂.heap.classes.size := by
    rw [hpdef, h₂]
    exact hthere
  rw [← h₂] at hroot
  have hsame : w₄.heap.classAt p = w₂.heap.classAt p := hlater.classes.same p.id hthere
  -- each binding comes from the request that makes it
  have hg : w₁.heap.Has g.id [] := by
    rw [h₁, hgdef]
    exact w.heap.has_opened (r := .newModule "attributes") rfl
  have hattributes : w₂.heap.Has (w₂.heap.classAt p).attributes [] := by
    rw [hclass, h₂]
    exact w₁.heap.has_opened (r := .newClass "Point") rfl
  have hscale : w₃.heap.Binds (w₂.heap.classAt p).attributes "scale" (.int 3) := by
    rw [h₃]
    exact hattributes.binds_assign ..
  refine ⟨w₄, g, p, hw₄, ⟨hw₄.heap.shaped, hthere.trans_le hlater.classes.size, ?_, ?_, ?_⟩,
    fun k => ?_⟩
  · rw [hsame, hclass]
    exact hroot.trans_le hlater.shapes.size
  · rw [hsame, h₄, World.heap_serve]
    exact hscale.assign (by decide) g.id (.cls p)
  · simp only [h₄, h₃, h₂, World.heap_serve]
    exact ((hg.serve (.newClass "Point")).serve _).binds_assign ..
  · rw [on_bind, on_newModule, ← h₁, ← hgdef]
    dsimp only
    rw [on_bind, on_newClass, ← h₂, ← hpdef]
    dsimp only
    rw [on_bind, on_assignClass, ← h₃]
    dsimp only
    rw [on_bind, on_assign, ← h₄]

open Build in
/-- Beside the class another module is built, and then what uses both. -/
lemma PointClass.exists_pointModule {p : Ref .cls} (hf : PointClass w.heap g p) (hw : w.Sound) :
    ∃ (w' : World) (r : Ref .mod), w'.Sound ∧ PointModule w'.heap g p r ∧
      ∀ {α : Type} (k : Build α),
        Build.on (do
          let config ← newModule "config"
          assign config.id "step" (.int 1)
          assign g.id "config" (.mod config)
          k) w = k.on w' := by
  obtain ⟨r, hrdef⟩ : ∃ r : Ref .mod, r = ⟨w.heap.namespaces.size, "config"⟩ := ⟨_, rfl⟩
  obtain ⟨w₁, h₁⟩ : ∃ w₁, w₁ = w.serve (.newModule "config") := ⟨_, rfl⟩
  obtain ⟨w₂, h₂⟩ : ∃ w₂, w₂ = w₁.serve (.assign r.id "step" (.int 1)) := ⟨_, rfl⟩
  obtain ⟨w₃, h₃⟩ : ∃ w₃, w₃ = w₂.serve (.assign g.id "config" (.mod r)) := ⟨_, rfl⟩
  have hlater : World.Extends w w₃ := by
    rw [h₃, h₂, h₁]
    exact ((World.serve_extends _ rfl).trans (World.serve_extends _ rfl)).trans
      (World.serve_extends _ rfl)
  have hw₃ := hlater.sound hw
  have hpoint : PointClass w₃.heap g p := by
    refine hf.extend hw₃ hlater fun n key v hkey hb => ?_
    have hne : key ≠ "step" ∧ key ≠ "config" := by
      rcases List.mem_pair.mp hkey with rfl | rfl <;> decide
    simp only [h₃, h₂, h₁, World.heap_serve]
    exact ((hb.newModule "config").assign hne.1 r.id (.int 1)).assign hne.2 g.id (.mod r)
  have hr : w₁.heap.Has r.id [] := by
    rw [h₁, hrdef]
    exact w.heap.has_opened (r := .newModule "config") rfl
  have hstep : w₂.heap.Binds r.id "step" (.int 1) := by
    rw [h₂]
    exact hr.binds_assign ..
  refine ⟨w₃, r, hw₃, ⟨hpoint, ?_, ?_⟩, fun k => ?_⟩
  · obtain ⟨m, hm, -⟩ := hf.point
    simp only [h₃, h₂, h₁, World.heap_serve]
    exact ((hm.serve (.newModule "config")).serve _).binds_assign ..
  · rw [h₃, World.heap_serve]
    exact hstep.assign (by decide) g.id (.mod r)
  · rw [on_bind, on_newModule, ← h₁, ← hrdef]
    dsimp only
    rw [on_bind, on_assign, ← h₂]
    dsimp only
    rw [on_bind, on_assign, ← h₃]

theorem settles (hw : w.Sound) (hdepth : c.maxFrameDepth ≠ 0) (n : Int64) :
    Settles (attributes n) w c "attributes" n (7 * max n.toInt 0) := by
  obtain ⟨w₁, g, p, hw₁, hpoint, hclass⟩ := exists_pointClass hw
  obtain ⟨w', r, hw', hs, hconfig⟩ := hpoint.exists_pointModule hw₁
  obtain ⟨u, hassemble, hu⟩ := exists_assembled "<attributes>" 0 3 (program n)
    ((length_program n).trans (by decide)) (List.all_eq_true.mp rfl)
  have hmax : max n.toInt 0 = n.toInt.toNat := (Int.ofNat_toNat _).symm
  unfold Settles
  split
  · next hfits =>
    refine delivers_of_leads hw' (g := g) ?_ hu (length_program n) hdepth ?_
    · unfold attributes
      rw [hclass, hconfig, Build.on_bind, Build.on_code hassemble]
      dsimp only
      rw [Build.on_bind, on_expect hfits]
      exact ⟨_, rfl, rfl, rfl, rfl⟩
    · rw [hmax] at hfits ⊢
      exact leads (hu.launched w') (hs.launch hw' hu.checked) hfits
  · next hunfit =>
    refine ⟨(w'.newUnit u).2, ?_⟩
    unfold attributes
    rw [hclass, hconfig, Build.on_bind, Build.on_code hassemble]
    dsimp only
    rw [Build.on_bind, on_expect_unfit hunfit]

end Workload.Attributes

/-! ### All of them -/

namespace Workload

/-- **Loops compute what is expected of them.** After any history, and with any valid configuration,
a loop workload is built unless the number that it is to return is too large; its first run ends,
with that value or, where limits are lower than by default, at a limit. In particular no sum on the
way is too large, since such a sum would end the run with a fault. -/
theorem loops_return_expected (as : List Action) (c : Config) (hc : c.fault? = none) (n : Int64) :
    let w := (({} : Process).after as).world
    let k := max n.toInt 0
    Settles (callSite n) w c "call_site" (max n 0) (k * (k - 1) / 2) ∧
      Delivers (shadowedGlobal n) w c (.int 99) ∧
      Delivers (alternatingAdd n) w c
        (if n.toInt ≤ 0 then .none else if n.toInt % 2 = 1 then .int 2 else .str "ss") ∧
      Settles (attributes n) w c "attributes" n (7 * k) := by
  intro w k
  have hw : w.Sound := Process.after_sound World.sound_empty as
  have hdepth := c.maxFrameDepth_ne_zero hc
  have htotal : k * (k - 1) / 2 = CallSite.total n := by
    rw [CallSite.total_eq, CallSite.gauss, Int.ofNat_toNat]
  refine ⟨?_, ShadowedGlobal.delivers hw hdepth n, ?_, Attributes.settles hw hdepth n⟩
  · rw [htotal]
    exact CallSite.settles hw hdepth n
  · rw [← AlternatingAdd.computed_toNat, ← AlternatingAdd.expected_eq]
    exact AlternatingAdd.delivers hw hdepth n

/-- The largest sum of a loop that is an integer, and the first one that is not. -/
theorem loops_return_expected_bounds :
    ({} : Config).fault? = none ∧
      Delivers (callSite 4294967296) {} {} (.int 9223372034707292160) ∧
      (∃ w', (callSite 4294967297).on {} =
        (.error (.config (.tooManyIterations "call_site" 4294967297)), w')) ∧
      Delivers (alternatingAdd 4294967297) {} {} (.int 2) ∧
      Delivers (attributes 4294967297) {} {} (.int 30064771079) := by
  have hvalid : ({} : Config).fault? = none := by decide
  have hlow := loops_return_expected [] {} hvalid 4294967296
  have hhigh := loops_return_expected [] {} hvalid 4294967297
  refine ⟨hvalid, ?_, ?_, hhigh.2.2.1, ?_⟩
  · have hsettles := hlow.1
    rw [Settles, if_pos (by decide +kernel)] at hsettles
    exact hsettles
  · have hsettles := hhigh.1
    rw [Settles, if_neg (by decide +kernel)] at hsettles
    exact hsettles
  · have hsettles := hhigh.2.2.2
    rw [Settles, if_pos (by decide +kernel)] at hsettles
    exact hsettles

end Workload

end AdaptiveVM
