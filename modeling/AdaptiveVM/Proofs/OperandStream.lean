import AdaptiveVM.Proofs.CallLog
import AdaptiveVM.Proofs.Loops
import AdaptiveVM.Proofs.Process

/-!
The workload that takes its operands from a stream.

Every round takes the next operand by a call of a builtin, and adds it to itself. So the calls of a
run and the operands of the stream are in step: there is one call for every round, it is made while
the counter has the number of the round, and it answers with the operand of that number. In the end
just as many operands have been taken as there were rounds, and the last one has been doubled. All
this holds of any sequence of operands of the kinds that generators have, and they have no others.
-/

namespace AdaptiveVM

open Operation (whole Fits)
open Assembler (Line)

/-! ### Operands -/

namespace Random

/-- The operands of the stream: natural numbers below a hundred, quarters of them, and two texts. -/
inductive Drawable : Value → Prop where
  | int {k : Nat} (hk : k < 100) : Drawable (.int (Int64.ofNat k))
  | quarters {k : Nat} (hk : k < 100) : Drawable (.float (Float.ofNat k / 4.0))
  | text {s : String} (hs : s ∈ ["a", "bc"]) : Drawable (.str s)

/-- Generators have operands of these kinds only. -/
lemma Generator.operand_drawable (g : Generator) : Drawable g.operand.1 := by
  unfold operand
  dsimp only
  split
  · exact .quarters (g.sampler.below32_lt _ _ (by decide))
  · split
    · refine .text ?_
      split
      · decide
      · decide
    · exact .int (g.sampler.below64_lt _ _ (by decide))

namespace Source

/-- The stream after some operands have been taken. -/
def after (s : Source) : Nat → Source
  | 0 => s
  | k + 1 => (s.after k).draw.2

/-- The operand that is taken after some others. -/
def nth (s : Source) (k : Nat) : Value := (s.after k).draw.1

lemma after_draw (s : Source) (k : Nat) : s.draw.2.after k = s.after (k + 1) := by
  induction k with
  | zero => rfl
  | succ k ih =>
    rw [after, ih]
    rfl

lemma nth_draw (s : Source) (k : Nat) : s.draw.2.nth k = s.nth (k + 1) := by
  rw [nth, after_draw, nth]

/-- Of a sequence, the operands are its terms. -/
lemma after_listed (term : Nat → Value) (taken k : Nat) :
    (listed term taken).after k = .listed term (taken + k) := by
  induction k with
  | zero => rfl
  | succ k ih =>
    rw [after, ih]
    rfl

lemma nth_listed (term : Nat → Value) (taken k : Nat) :
    (listed term taken).nth k = term (taken + k) := by
  rw [nth, after_listed]
  rfl

lemma after_seeded (g : Generator) (k : Nat) : ∃ g', (seeded g).after k = .seeded g' := by
  induction k with
  | zero => exact ⟨g, rfl⟩
  | succ k ih =>
    obtain ⟨g', hg'⟩ := ih
    refine ⟨g'.operand.2, ?_⟩
    rw [after, hg']
    rfl

lemma nth_seeded_drawable (g : Generator) (k : Nat) : Drawable ((seeded g).nth k) := by
  obtain ⟨g', hg'⟩ := after_seeded g k
  rw [nth, hg']
  exact g'.operand_drawable

end Source

end Random

open AdaptiveVM.Random (Generator Source Drawable)

/-- A value added to itself, if it can be. -/
def Operation.double (x : Value) : Value := (add x x).toOption.getD .none

lemma Operation.add_self {x : Value} (hx : Drawable x) : add x x = .ok (double x) := by
  suffices h : ∃ v, add x x = .ok v by
    obtain ⟨v, hv⟩ := h
    rw [double, hv]
    rfl
  cases hx with
  | @int k hk =>
    have hint : Int64.ofNat k = Int64.ofInt k := (Int64.ofInt_eq_ofNat).symm
    rw [hint]
    exact ⟨_, add_whole (j := k) (k := k) ⟨by omega, by omega⟩ ⟨by omega, by omega⟩
      ⟨by omega, by omega⟩⟩
  | quarters => exact ⟨_, rfl⟩
  | text => exact ⟨_, rfl⟩

/-! ### Builtins and streams stay -/

/-- Builtins and streams have been added, and those that were there are as they were. -/
structure Heap.Keeps (h h' : Heap) : Prop where
  builtins : Grown h.builtins h'.builtins
  sources : Grown h.sources h'.sources

namespace Heap.Keeps

variable {h h' h'' : Heap}

lemma trans (a : Keeps h h') (b : Keeps h' h'') : Keeps h h'' :=
  ⟨a.builtins.trans b.builtins, a.sources.trans b.sources⟩

lemma serve (h : Heap) {r : Request} (hr : r.adds) : Keeps h (h.serve r) := by
  cases r with
  | extendShape shape key => cases hr
  | setField o key value => cases hr
  | newBuiltin name arity procedure => exact ⟨.push _ _, .refl _⟩
  | newSource source => exact ⟨.refl _, .push _ _⟩
  | newFunction unit globals defaults =>
    dsimp only [Heap.serve]
    split <;> exact ⟨.refl _, .refl _⟩
  | assign n key value =>
    dsimp only [Heap.serve, Heap.assign]
    split <;> exact ⟨.refl _, .refl _⟩
  | remove n key =>
    dsimp only [Heap.serve, Heap.remove]
    split <;> exact ⟨.refl _, .refl _⟩
  | _ => exact ⟨.refl _, .refl _⟩

lemma launch (w : World) (u : CodeUnit) : Keeps w.heap (w.launch u).heap := by
  have hunit : Keeps w.heap (w.newUnit u).2.heap := ⟨.refl _, .refl _⟩
  rw [World.launch_heap]
  generalize Builtins.table = ts
  exact Builtins.installAll_keeps (fun h' _ hr hk => hk.trans (.serve h' hr)) ts hunit

end Heap.Keeps

namespace Workload

namespace Polymorphic

open Machine (standing LeadsCalling ReturnsIn)

/-! ### What comes out -/

variable {source : Source}

/-- What the program holds after some rounds. -/
def held (source : Source) : Nat → Value
  | 0 => .none
  | k + 1 => Operation.double (source.nth k)

lemma replay_eq (hdraws : ∀ k, Drawable (source.nth k)) (last : Value) (k : Nat) :
    replay source last k = .ok (if k = 0 then last else held source k) := by
  induction k generalizing source last with
  | zero => rfl
  | succ k ih =>
    have hadd : Operation.add source.draw.1 source.draw.1 = .ok (Operation.double (source.nth 0)) :=
      Operation.add_self (hdraws 0)
    have hlater (j : Nat) : Drawable (source.draw.2.nth j) := by
      rw [Source.nth_draw]
      exact hdraws (j + 1)
    rw [replay]
    dsimp only
    rw [hadd]
    dsimp only
    rw [ih hlater, if_neg (Nat.succ_ne_zero k)]
    cases k with
    | zero => rfl
    | succ k => rw [if_neg (Nat.succ_ne_zero k), held, held, Source.nth_draw]

/-! ### The builtin -/

/-- A module binds the builtin that takes operands from a stream. -/
structure Tap (h : Heap) (g : Ref .mod) (r : Ref .builtin) (id : Nat) (source : Source) :
    Prop where
  bound : h.Binds g.id "operand" (.builtin r)
  builtin : ∃ token, h.builtins[r.id]? =
    some { arity := some 0, id := token, procedure := .draw id }
  source : h.sources[id]? = some source

namespace Tap

variable {h h' : Heap} {g b : Ref .mod} {r : Ref .builtin} {id : Nat}

lemma keep (ht : Tap h g r id source) (hk : h.Keeps h')
    (hbinds : h'.Binds g.id "operand" (.builtin r)) : Tap h' g r id source := by
  obtain ⟨token, htoken⟩ := ht.builtin
  exact ⟨hbinds, ⟨token, hk.builtins.getElem? htoken⟩, hk.sources.getElem? ht.source⟩

lemma loadGlobal (ht : Tap h g r id source) :
    Operation.loadGlobal (h.namespaceAt g.id) (h.namespaceAt b.id) "operand" =
      .ok (.builtin r) := by
  rw [Operation.loadGlobal, ht.bound.get?]

/-- A call takes an operand. -/
lemma invoke (ht : Tap h g r id source) :
    h.invoke r [] =
      (.ok source.draw.1, { h with sources := h.sources.setIfInBounds id source.draw.2 }) := by
  obtain ⟨token, htoken⟩ := ht.builtin
  have hbuiltin : h.builtinAt r = { arity := some 0, id := token, procedure := .draw id } := by
    rw [Heap.builtinAt, Array.getD_eq_getD_getElem?, htoken]
    rfl
  have hsource : h.sources.getD id default = source := by
    rw [Array.getD_eq_getD_getElem?, ht.source]
    rfl
  have harity : (h.builtinAt r).arity = some 0 := by rw [hbuiltin]
  rw [Heap.invoke_exact harity rfl, hbuiltin]
  simp only [Heap.perform, hsource]

lemma drawn (ht : Tap h g r id source) :
    Tap { h with sources := h.sources.setIfInBounds id source.draw.2 } g r id source.draw.2 := by
  refine ⟨ht.bound.of_eq rfl, ht.builtin, ?_⟩
  have hlt : id < h.sources.size := (Array.getElem?_eq_some_iff.mp ht.source).1
  exact Array.getElem?_setIfInBounds_self_of_lt hlt

end Tap

/-! ### The rounds -/

variable {h : Heap} {u id i k : Nat} {g b : Ref .mod} {r : Ref .builtin} {n : Int64} {c : Config}
  {Q : Machine → Prop} {log : List BuiltinCall} {x : Value} {y : Option Value} {w : World}

lemma length_program (n : Int64) : (program n).length ≤ 255 := by
  show 20 ≤ 255
  decide

/-- The calls of some rounds: in each of them, the next operand is taken. -/
def draws (r : Ref .builtin) (source : Source) (i k : Nat) : List BuiltinCall :=
  (List.range' i k).map fun (j : Nat) => ⟨r, some (whole j), some (source.nth j)⟩

/-- The body of the loop takes an operand and doubles it. -/
lemma leads_round (hp : (h.unitAt u).Renders (program n)) (htap : Tap h g r id source)
    (hdraw : Drawable source.draw.1)
    (ht : LeadsCalling c Q log
      (standing #[] (.tracer c b 1) [] u g
        { h with sources := h.sources.setIfInBounds id source.draw.2 }
        #[some x, some (Operation.double source.draw.1)] 13)) :
    LeadsCalling c Q (⟨r, some x, some source.draw.1⟩ :: log)
      (standing #[] (.tracer c b 1) [] u g h #[some x, y] 8) := by
  have hload : (Frame.resting u g #[some x, y] 8).walk (program n) h b 1 =
      some ⟨u, g, #[some x, y], [.builtin r], 9, false⟩ := by
    rw [Frame.resting, Frame.walk_loadGlobal rfl htap.loadGlobal]
    rfl
  have hpop : Frame.popMany? ⟨u, g, #[some x, y], [.builtin r], 9, false⟩ (0 : UInt8).toNat =
      some ([], [.builtin r]) := rfl
  have hdouble (h : Heap) :
      Frame.walk (program n) h b 3 ⟨u, g, #[some x, y], [source.draw.1], 10, false⟩ =
        some (.resting u g #[some x, some (Operation.double source.draw.1)] 13) := by
    rw [Frame.walk_dup rfl, Frame.walk_compute rfl rfl (Operation.add_self hdraw),
      Frame.walk_storeFast rfl (by simp)]
    rfl
  refine .walk rfl hp (length_program n) hload ?_
  refine .call rfl hp (length_program n) rfl hpop htap.invoke rfl ?_
  exact .walk rfl hp (length_program n) (hdouble _) ht

lemma placed (n : Int64) :
    PlacedAt (program n) 2 (countedLoop 2 0 n
      [.name .loadGlobal "operand", .op .call 0, .op .dup 0, .op .binaryAdd 0,
       .op .storeFast 1]) :=
  .middle _ _ _

/-- The rounds that are left, by their number. Before a round as many operands have been taken as
the counter says, so the round takes the operand of its own number. -/
lemma leads_rounds (hdraws : ∀ k, Drawable (source.nth k)) (hi : n.toInt.toNat = i + k)
    (hp : (h.unitAt u).Renders (program n)) (htap : Tap h g r id (source.after i)) :
    LeadsCalling c
      (ReturnsIn (held source n.toInt.toNat)
        fun h => h.sources[id]? = some (source.after n.toInt.toNat))
      (draws r source i k)
      (standing #[] (.tracer c b 1) [] u g h #[some (whole i), some (held source i)] 4) := by
  have hrange := Operation.fits_toInt n
  induction k generalizing i h with
  | zero =>
    have hin : Fits i := ⟨by omega, by have := hrange.2; omega⟩
    have htest : (Frame.resting u g #[some (whole i), some (held source i)] 4).walk (program n) h b
        4 = _ := walk_test (placed n) (by decide) rfl hin
    rw [if_neg (by omega)] at htest
    have hlast : (Frame.resting u g #[some (whole i), some (held source i)] 18).walk (program n) h b
        1 = some ⟨u, g, #[some (whole i), some (held source i)], [held source i], 19, false⟩ := rfl
    refine .walk rfl hp (length_program n) htest ?_
    refine .walk rfl hp (length_program n) hlast ?_
    rw [hi]
    exact .here (Machine.returnsIn_line (Vm.plain_tracer c b 1) rfl hp rfl rfl htap.source)
  | succ k ih =>
    have hin : Fits i := ⟨by omega, by have := hrange.2; omega⟩
    have hnext : Fits (i + 1) := ⟨by omega, by have := hrange.2; omega⟩
    have htest : (Frame.resting u g #[some (whole i), some (held source i)] 4).walk (program n) h b
        4 = _ := walk_test (placed n) (by decide) rfl hin
    rw [if_pos (by omega)] at htest
    have hagain (h : Heap) :
        (Frame.resting u g #[some (whole i), some (held source (i + 1))] 13).walk (program n) h b
          5 = _ := walk_again (placed n) (by decide) rfl hnext
    refine .walk rfl hp (length_program n) htest ?_
    refine leads_round hp htap (hdraws i) ?_
    refine .walk rfl hp (length_program n) (hagain _) ?_
    exact ih (by omega) hp htap.drawn

/-- The program takes as many operands as its bound says. -/
theorem leads (hdraws : ∀ k, Drawable (source.nth k)) (hp : (h.unitAt u).Renders (program n))
    (htap : Tap h g r id source) :
    LeadsCalling c
      (ReturnsIn (held source n.toInt.toNat)
        fun h => h.sources[id]? = some (source.after n.toInt.toNat))
      (draws r source 0 n.toInt.toNat)
      (standing #[] (.tracer c b 1) [] u g h (Binding.slots 2 []) 0) := by
  have hinit : (Frame.resting u g (Binding.slots 2 []) 0).walk (program n) h b 4 =
      some (.resting u g #[some (whole 0), some .none] 4) := rfl
  refine .walk rfl hp (length_program n) hinit ?_
  exact leads_rounds hdraws (Nat.zero_add _).symm hp htap

/-! ### The workload -/

open Build in
/-- The module of the workload comes to bind its builtin. -/
lemma exists_tap (hw : w.Sound) (source : Source) :
    ∃ (w' : World) (g : Ref .mod) (r : Ref .builtin) (id : Nat), w'.Sound ∧
      Tap w'.heap g r id source ∧
      ∀ {α : Type} (k : Ref .mod → Build α),
        (newModule "polymorphic" >>= fun g => onHeap (·.newSource source) >>= fun id =>
          onHeap (·.newBuiltin "operand" (some 0) (.draw id)) >>= fun operand =>
            assign g.id "operand" (.builtin operand) >>= fun _ => k g).on w = (k g).on w' := by
  let w₁ := w.serve (.newModule "polymorphic")
  let w₂ := w₁.serve (.newSource source)
  let w₃ := w₂.serve (.newBuiltin "operand" (some 0) (.draw w₁.heap.sources.size))
  let g : Ref .mod := ⟨w.heap.namespaces.size, "polymorphic"⟩
  let r : Ref .builtin := ⟨w₂.heap.builtins.size, "operand"⟩
  have hopened : w₁.heap.Has g.id [] := w.heap.has_opened (r := .newModule "polymorphic") rfl
  have hhas : w₃.heap.Has g.id [] :=
    (hopened.serve (.newSource source)).serve
      (.newBuiltin "operand" (some 0) (.draw w₁.heap.sources.size))
  have hextends : World.Extends w (w₃.serve (.assign g.id "operand" (.builtin r))) :=
    (((World.serve_extends w rfl).trans (World.serve_extends w₁ rfl)).trans
      (World.serve_extends w₂ rfl)).trans (World.serve_extends w₃ rfl)
  have hkeeps := Heap.Keeps.serve w₃.heap (r := .assign g.id "operand" (.builtin r)) rfl
  refine ⟨w₃.serve (.assign g.id "operand" (.builtin r)), g, r, w₁.heap.sources.size,
    hextends.sound hw, ⟨hhas.binds_assign .., ?_, ?_⟩, fun k => ?_⟩
  · exact ⟨_, hkeeps.builtins.getElem? Array.getElem?_push_size⟩
  · exact hkeeps.sources.getElem? Array.getElem?_push_size
  · rw [on_bind, on_newModule]
    dsimp only
    rw [on_bind, on_newSource]
    dsimp only
    rw [on_bind, on_newBuiltin]
    dsimp only
    rw [on_bind, on_assign]

end Polymorphic

open Polymorphic in
/-- The workload is built over a stream, and its first run by a new interpreter takes one operand in
every round. It returns what the workload expects, which is the double of the last operand, or
nothing if there are no rounds, and leaves the rest of the stream. -/
def Consumes (build : Build Workload) (w : World) (c : Config) (n : Int64) (source : Source) :
    Prop :=
  let rounds := n.toInt.toNat
  ∃ wl w' r id, build.on w = (.ok wl, w') ∧ Tap w'.heap wl.globals r id source ∧
    (if n ≤ 0 then wl.expected = .none
      else Operation.add (source.nth (rounds - 1)) (source.nth (rounds - 1)) = .ok wl.expected) ∧
    (wl.firstRun c w').EndsCalling (draws r source 0 rounds) fun e =>
      e.result = .ok wl.expected ∧ e.heap.sources[id]? = some (source.after rounds)

namespace Polymorphic

variable {source : Source} {n : Int64} {c : Config} {w : World}

/-- What the workload expects. -/
lemma held_toNat (hdraws : ∀ k, Drawable (source.nth k)) (n : Int64) :
    if n ≤ 0 then held source n.toInt.toNat = .none
    else Operation.add (source.nth (n.toInt.toNat - 1)) (source.nth (n.toInt.toNat - 1)) =
      .ok (held source n.toInt.toNat) := by
  have hsign : n ≤ 0 ↔ n.toInt ≤ 0 := Int64.le_iff_toInt_le
  split
  · next hn =>
    rw [Int.toNat_of_nonpos (hsign.mp hn)]
    rfl
  · next hn =>
    rw [hsign] at hn
    obtain ⟨k, hk⟩ : ∃ k, n.toInt.toNat = k + 1 := ⟨n.toInt.toNat - 1, by omega⟩
    rw [hk]
    exact Operation.add_self (hdraws k)

theorem consumes (hw : w.Sound) (hroomy : c.Roomy) (hdraws : ∀ k, Drawable (source.nth k))
    (n : Int64) : Consumes (polymorphicOn n source) w c n source := by
  obtain ⟨w', g, r, id, hw', htap, hon⟩ := exists_tap hw source
  obtain ⟨u, hassemble, hu⟩ := exists_assembled "<polymorphic>" 0 2 (program n)
    ((length_program n).trans (by decide)) (List.all_eq_true.mp rfl)
  have hreplay : replay source .none n.toInt.toNat = .ok (held source n.toInt.toNat) := by
    rw [replay_eq hdraws]
    split
    · next hzero => rw [hzero, held]
    · rfl
  have hbuild : ∃ wl : Workload, (polymorphicOn n source).on w = (.ok wl, (w'.newUnit u).2) ∧
      wl.unit = w'.heap.units.size ∧ wl.globals = g ∧
      wl.expected = held source n.toInt.toNat := by
    unfold polymorphicOn
    rw [hon, Build.on_bind, Build.on_code hassemble]
    dsimp only
    rw [hreplay]
    exact ⟨_, rfl, rfl, rfl, rfl⟩
  obtain ⟨wl, hwl, hunit, rfl, hexpected⟩ := hbuild
  have hnew : w'.heap.Keeps (w'.newUnit u).2.heap := ⟨.refl _, .refl _⟩
  refine ⟨wl, (w'.newUnit u).2, r, id, hwl, htap.keep hnew (htap.bound.of_eq rfl), ?_, ?_⟩
  · rw [hexpected]
    exact held_toNat hdraws n
  · have hat := w'.launch_unit u
    rw [firstRun_newUnit, hunit, hexpected]
    refine Machine.start_endsCalling
      (P := fun h => h.sources[id]? = some (source.after n.toInt.toNat))
      ((w'.launch_extends hu.checked).sound hw') hroomy ?_ ?_ ?_
    · rw [hat, hu.argcount]
    · rw [hat, hu.renders.size]
      exact length_program n
    · rw [hat, hu.nlocals]
      exact leads hdraws (hu.launched w')
        (htap.keep (Heap.Keeps.launch w' u) (World.launch_binds htap.bound u))

end Polymorphic

/-- **The stream is consumed draw for draw.** Over any sequence of operands of the kinds that
generators have, and over what any generator has, the first run takes one operand in every round, as
long as the limits are at least the default ones; and a seed stands for a generator. -/
theorem operands_drawn_once_a_round (as : List Action) (c : Config) (hroomy : c.Roomy) (n : Int64) :
    let w := (({} : Process).after as).world
    (∀ source : Source, (∀ k, Drawable (source.nth k)) →
        Consumes (polymorphicOn n source) w c n source) ∧
      (∀ g : Generator, (∀ k, Drawable ((Source.seeded g).nth k)) ∧
        Consumes (polymorphicOn n (.seeded g)) w c n (.seeded g)) ∧
      ∀ seed : UInt64, ∃ g : Generator, Source.ofSeed seed = .seeded g ∧
        polymorphic n seed = polymorphicOn n (.seeded g) := by
  intro w
  have hw : w.Sound := Process.after_sound World.sound_empty as
  refine ⟨fun source hdraws => Polymorphic.consumes hw hroomy hdraws n, fun g => ?_,
    fun seed => ⟨.ofSeed seed, rfl, rfl⟩⟩
  have hdraws := Source.nth_seeded_drawable g
  exact ⟨hdraws, Polymorphic.consumes hw hroomy hdraws n⟩

/-- A number, three quarters, and then texts. -/
def Polymorphic.mixed : Nat → Value
  | 0 => .int 7
  | 1 => .float (Float.ofNat 3 / 4.0)
  | _ => .str "bc"

/-- Three rounds over operands of all kinds. -/
theorem operands_drawn_once_a_round_mixed :
    ({} : Config).Roomy ∧ ∃ wl w' r,
      (polymorphicOn 3 (.listed Polymorphic.mixed 0)).on {} = (.ok wl, w') ∧
      (wl.firstRun {} w').EndsCalling
        [⟨r, some (.int 0), some (.int 7)⟩,
          ⟨r, some (.int 1), some (.float (Float.ofNat 3 / 4.0))⟩,
          ⟨r, some (.int 2), some (.str "bc")⟩]
        fun e => e.result = .ok (.str "bcbc") := by
  have hroomy : ({} : Config).Roomy := ⟨le_rfl, le_rfl⟩
  have hdraws (k : Nat) : Drawable ((Source.listed Polymorphic.mixed 0).nth k) := by
    rw [Source.nth_listed, Nat.zero_add]
    match k with
    | 0 => exact .int (k := 7) (by decide)
    | 1 => exact .quarters (by decide)
    | _ + 2 => exact .text (by decide)
  obtain ⟨wl, w', r, id, hon, -, hv, n, e, hrun, hcalls, hresult, -⟩ :=
    (operands_drawn_once_a_round [] {} hroomy 3).1 _ hdraws
  have hexpected : wl.expected = .str "bcbc" := by
    rw [if_neg (by decide)] at hv
    exact (Except.ok.inj hv).symm
  exact ⟨hroomy, wl, w', r, hon, n, e, hrun, hcalls, hexpected ▸ hresult⟩

end Workload

end AdaptiveVM
