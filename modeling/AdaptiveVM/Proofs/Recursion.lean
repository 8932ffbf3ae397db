import AdaptiveVM.Proofs.FirstRun
import AdaptiveVM.Proofs.Loops
import AdaptiveVM.Proofs.Process
import AdaptiveVM.Proofs.SteadyCalls
import Mathlib.Data.Nat.Fib.Basic

/-!
The workload that calls itself.

Its frames share one unit, so every frame rewrites the stream that its callers are in the middle of.
The value is followed as for any program, by induction on the argument; the frames that an argument
needs can be counted exactly, because the deepest chain of calls goes down by one each time. All
calls call the same function, so none of them misses.
-/

namespace AdaptiveVM

open Operation (whole Fits)
open Assembler (Line)

/-! ### Runs that call one function -/

namespace Machine

variable {c : Config} {w : World} {us : List Nat} {u : Nat} {g b : Ref .mod} {v : Value}
  {r : Ref .function} {E : Error → Prop} {P : Prop} {m : Machine}

lemma callsOnly_of_traced {a : Array Attachment} {s : Stats}
    (h : (m.traced a s).CallsOnly us r) : m.CallsOnly us r := by
  intro f hf
  have htraced : (m.traced a s).frames.head? = some f.traced := by
    show (m.frames.map Frame.traced).head? = some f.traced
    rw [List.head?_map, hf]
    rfl
  exact h f.traced htraced

/-- The step goes on in a short unit, leaves the heap alone, and calls a function if any. -/
structure Recurs (c : Config) (us : List Nat) (r : Ref .function) (h : Heap) (t t' : Machine) :
    Prop where
  stays : Stays c t t'
  calls : t.CallsOnly us r
  heap : t'.heap = h

/-- Units without a stream have no site that could miss. -/
lemma steady_of_fresh (hfresh : ∀ u ∈ us, (w.attachments.getD u default).quickened = none)
    (c : Config) (b : Ref .mod) :
    Steady us w.heap r w.attachments { config := c, builtins := b } := by
  refine ⟨fun u hu q hq => ?_, rfl, rfl⟩
  rw [hfresh u hu] at hq
  cases hq

/-- The first run of a unit that calls one function, whose units are new: when it returns, no call
has missed. -/
theorem start_steady (hw : w.Sound) (hdepth : c.maxFrameDepth ≠ 0)
    (hmem : ({} : Config).memoryLimit ≤ c.memoryLimit) (hargs : (w.heap.unitAt u).argcount = 0)
    (hsize : (w.heap.unitAt u).instrs.size ≤ 255)
    (hfresh : ∀ u ∈ us, (w.attachments.getD u default).quickened = none)
    (hl : Leads (Recurs c us r w.heap) E (fun t => P ∧ t.CallsOnly us r ∧ Returns v t)
      (standing #[] (.tracer c b 1) [] u g w.heap
        (Binding.slots (w.heap.unitAt u).nlocals.toNat []) 0)) :
    (start w { config := c, builtins := b } u g).Ends fun e =>
      (P ∧ e.result = .ok v ∧ (e.vm.stats.family .call).miss = 0 ∧
        (e.vm.stats.family .call).deopt = 0) ∨ ∃ x, E x ∧ e.result = .error x := by
  have hshadows := start_shadows (b := b) (g := g) hdepth hargs
  refine hl.ends_of_shadows
    (J := fun m => World.Sound ⟨m.heap, m.attachments⟩ ∧ m.heap = w.heap ∧
      Steady us w.heap r m.attachments m.vm)
    (fun _ hm => hm.1) ?_ ?_ ⟨?_, ?_⟩ hshadows (fun m hm => ?_) ?_
  · rintro m m' ⟨hsound, hheap, hsteady⟩ hstep hrecurs
    have hsteady' := Steady.step hsound (hheap ▸ hsteady) (callsOnly_of_traced hrecurs.calls)
    rw [hstep, hheap] at hsteady'
    exact ⟨sound_of_step hsound hstep, hrecurs.heap, hsteady'⟩
  · rintro m ⟨hsound, hheap, hsteady⟩ ⟨hp, hcalls, hreturns⟩
    have hsteady' := Steady.step hsound (hheap ▸ hsteady) (callsOnly_of_traced hcalls)
    obtain ⟨m', hm'⟩ := returned_of_returns hsound hreturns
    rw [hm'] at hsteady'
    refine ends_of_step ?_
    rw [hm']
    exact ends_returned (.inl ⟨hp, rfl, hsteady'.miss, hsteady'.deopt⟩)
  · intro e x hx he
    exact .inr ⟨x, hx, he⟩
  -- there is the memory for every stream, so no run ends for want of it
  · intro m t f rest e requested limit _ hrecurs hframes hstarves he
    have hlimit : m.vm.config.memoryLimit = c.memoryLimit := hrecurs.stays.1
    have hlt := hstarves.memory_lt (hrecurs.stays.2 f (by rw [hframes]; rfl))
    omega
  · have hquiet := quiet_of_start hm
    refine ⟨hw.quiet hquiet, ?_, (steady_of_fresh hfresh c b).quiet hquiet⟩
    rw [hm] at hshadows
    cases hshadows with
    | same eq => exact congrArg heap (Progress.running.inj eq)
    | starved failed => cases failed
  · intro f rest e requested limit hframes hstarves he
    obtain ⟨rfl, -⟩ := List.cons.inj hframes
    have hlt := hstarves.memory_lt hsize
    omega

variable {h : Heap} {a : Array Attachment} {vm : Vm} {f : Frame} {rest : List Frame}
  {lines : List Line} {Q : Machine → Prop} {depth : Nat}

lemma callsOnly_of_renders (hr : (h.unitAt f.unit).Renders lines) (hu : f.unit ∈ us)
    (hcall : ∀ arg, lines[f.position]? = some (.op .call arg) →
      ∃ args below, f.popMany? arg.toNat = some (args, .function r :: below)) :
    CallsOnly us r ⟨h, a, vm, f :: rest⟩ := by
  intro f' hf
  obtain rfl : f = f' := Option.some.inj hf
  exact ⟨hu, fun i hi hop => hcall _ (hr.line_of_call hi hop)⟩

/-- A walk within one unit. -/
lemma Leads.recurs_walk {f' : Frame} {k : Nat} (hquick : f.quick = false)
    (hr : (h.unitAt f.unit).Renders lines) (hlength : lines.length ≤ 255) (hu : f.unit ∈ us)
    (hw : f.walk lines h b k = some f')
    (ht : Leads (Recurs c us r h) E Q ⟨h, a, .tracer c b depth, f' :: rest⟩) :
    Leads (Recurs c us r h) E Q ⟨h, a, .tracer c b depth, f :: rest⟩ := by
  refine .walk (Vm.plain_tracer c b depth) hquick hr (fun f₁ f₂ h₁ h₂ hcall => ?_) hw ht
  refine ⟨stays_of_renders rfl (h₂ ▸ hr) hlength, ?_, rfl⟩
  refine callsOnly_of_renders (h₁ ▸ hr) (h₁ ▸ hu) fun arg hl => ?_
  exact absurd hl (hcall arg)

end Machine

namespace Workload.Recursion

open Machine (standing Leads Returns Recurs stays_of_renders)

/-! ### The numbers -/

lemma fibPair_eq (k : Nat) :
    fibPair k = (Int64.ofInt (Nat.fib k), Int64.ofInt (Nat.fib (k + 1))) := by
  induction k with
  | zero => rfl
  | succ k ih =>
    rw [fibPair, ih, Nat.fib_add_two, Nat.cast_add, Int64.ofInt_add]

lemma argument_eq (n : Int64) :
    argument n = Int64.ofInt (max 0 (min n.toInt 25)).toNat := by
  have hzero : n < 0 ↔ n.toInt < 0 := Int64.lt_iff_toInt_lt
  have hmax : maxArgument < n ↔ 25 < n.toInt := Int64.lt_iff_toInt_lt
  unfold argument
  split_ifs with hneg hlarge
  · rw [hzero] at hneg
    rw [show (max 0 (min n.toInt 25)).toNat = 0 by omega]
    rfl
  · rw [hmax] at hlarge
    rw [show (max 0 (min n.toInt 25)).toNat = 25 by omega]
    rfl
  · rw [hzero] at hneg
    rw [hmax] at hlarge
    rw [show ((max 0 (min n.toInt 25)).toNat : Int) = n.toInt by omega, Int64.ofInt_toInt]

lemma fits_fib {k : Nat} (hk : k ≤ 25) : Fits (Nat.fib k) := by
  have hle : Nat.fib k ≤ Nat.fib 25 := Nat.fib_mono hk
  have hlast : Nat.fib 25 = 75025 := by decide +kernel
  constructor <;> omega

lemma fits_small {k : Nat} (hk : k ≤ 25) : Fits k := by
  constructor <;> omega

lemma fst_fibPair {k : Nat} (hle : k ≤ 25) :
    (fibPair (Int64.ofInt k).toInt.toNat).1 = Int64.ofInt (Nat.fib k) := by
  rw [Operation.toInt_ofInt (fits_small hle), Int.toNat_natCast, fibPair_eq]

/-! ### The function -/

variable {h : Heap} {g b : Ref .mod} {r : Ref .function} {fn : Function} {c : Config}
  {us : List Nat} {E : Error → Prop} {Q : Machine → Prop} {caller : Frame} {rest : List Frame}
  {d k : Nat}

/-- A call of the function, from one of the units. -/
lemma leads_call {lines : List Line} {f : Frame} {below : List Value} {v : Value}
    (hk : Linked h g "fib" 1 fib r fn) (hr : (h.unitAt f.unit).Renders lines) (hu : f.unit ∈ us)
    (hquick : f.quick = false) (hl : lines[f.position]? = some (.op .call 1))
    (hstack : f.stack = v :: .function r :: below)
    (hfull : c.maxFrameDepth ≤ d → E (.limit (.depth (d + 1) c.maxFrameDepth)))
    (ht : d < c.maxFrameDepth → Leads (Recurs c us r h) E Q
      (standing #[] (.tracer c b (d + 1)) ({ f with stack := below } :: rest) fn.unit g h
        #[some v] 0)) :
    Leads (Recurs c us r h) E Q ⟨h, #[], .tracer c b d, f :: rest⟩ := by
  have hpop : f.popMany? (1 : UInt8).toNat = some ([v], .function r :: below) := by
    rw [Frame.popMany?, hstack]
    rfl
  refine .callFunction (Vm.plain_tracer c b d) hquick hr hl hpop hk.function hk.code.argcount hfull
    ⟨stays_of_renders rfl hk.code.renders (by decide), ?_, rfl⟩ fun hroom => ?_
  · refine Machine.callsOnly_of_renders hr hu fun arg hl' => ?_
    cases hl.symm.trans hl'
    exact ⟨_, _, hpop⟩
  · rw [hk.code.nlocals, hk.globals]
    exact ht (not_le.mp hroom)

/-- The function returns to a caller in a short unit. -/
lemma leads_ret {locals : Array (Option Value)} {p : Nat} {v : Value}
    (hk : Linked h g "fib" 1 fib r fn) (hfn : fn.unit ∈ us)
    (hcaller : (h.unitAt caller.unit).instrs.size ≤ 255) (hp : fib[p]? = some (.op .ret 0))
    (ht : Leads (Recurs c us r h) E Q
      ⟨h, #[], .tracer c b d, (caller.push v).advance :: rest⟩) :
    Leads (Recurs c us r h) E Q
      ⟨h, #[], .tracer c b (d + 1), ⟨fn.unit, g, locals, [v], p, false⟩ :: caller :: rest⟩ := by
  have hr := hk.code.renders
  refine .ret (Vm.plain_tracer c b d) rfl hr hp rfl ⟨⟨rfl, fun f hf => ?_⟩, ?_, rfl⟩ ht
  · obtain rfl := Option.some.inj hf
    exact hcaller
  · refine Machine.callsOnly_of_renders hr hfn fun arg hl => ?_
    cases hp.symm.trans hl

lemma int_one : Value.int 1 = whole 1 := rfl

lemma int_two : Value.int 2 = whole 2 := rfl

/-- Small numbers are told from others. -/
lemma walk_test (u : Nat) (hle : k ≤ 25) :
    (Frame.resting u g #[some (whole k)] 0).walk fib h b 4 =
      some (.resting u g #[some (whole k)] (if k < 2 then 4 else 6)) := by
  have hless : Operation.lessThan (whole k) (.int 2) = .ok (.bool (decide ((k : Int) < 2))) := by
    rw [int_two]
    exact Operation.lessThan_whole (fits_small hle) (by decide)
  rw [Frame.resting, Frame.walk_loadFast rfl rfl, Frame.walk_const rfl,
    Frame.walk_compute rfl rfl hless, Frame.walk_jumpIfFalse rfl]
  simp [Value.isTruthy, Frame.walk, Frame.resting]

/-- Before the first call, for the number below. -/
lemma walk_first (hk : Linked h g "fib" 1 fib r fn) (u : Nat) (hle : k + 2 ≤ 25) :
    (Frame.resting u g #[some (whole (k + 2 : Nat))] 6).walk fib h b 4 =
      some ⟨u, g, #[some (whole (k + 2 : Nat))], [whole (k + 1 : Nat), .function r], 10,
        false⟩ := by
  have hsub : Operation.sub (whole (k + 2 : Nat)) (.int 1) = .ok (whole (k + 1 : Nat)) := by
    rw [int_one, show ((k + 1 : Nat) : Int) = (k + 2 : Nat) - 1 by omega]
    exact Operation.sub_whole (fits_small hle) (by decide) (by constructor <;> omega)
  rw [Frame.resting, Frame.walk_loadGlobal rfl hk.loadGlobal, Frame.walk_loadFast rfl rfl,
    Frame.walk_const rfl, Frame.walk_compute rfl rfl hsub]
  rfl

/-- Before the second call, for the number below that one. -/
lemma walk_second (hk : Linked h g "fib" 1 fib r fn) (u : Nat) (hle : k + 2 ≤ 25) (x : Value) :
    Frame.walk fib h b 4 ⟨u, g, #[some (whole (k + 2 : Nat))], [x], 11, false⟩ =
      some ⟨u, g, #[some (whole (k + 2 : Nat))], [whole k, .function r, x], 15, false⟩ := by
  have hsub : Operation.sub (whole (k + 2 : Nat)) (.int 2) = .ok (whole k) := by
    rw [int_two, show (k : Int) = (k + 2 : Nat) - 2 by omega]
    exact Operation.sub_whole (fits_small hle) (by decide) (by constructor <;> omega)
  rw [Frame.walk_loadGlobal rfl hk.loadGlobal, Frame.walk_loadFast rfl rfl, Frame.walk_const rfl,
    Frame.walk_compute rfl rfl hsub]
  rfl

/-- After both calls. -/
lemma walk_sum (u : Nat) (hle : k + 2 ≤ 25) (locals : Array (Option Value)) :
    Frame.walk fib h b 1
        ⟨u, g, locals, [whole (Nat.fib k), whole (Nat.fib (k + 1))], 16, false⟩ =
      some ⟨u, g, locals, [whole (Nat.fib (k + 2))], 17, false⟩ := by
  have hsum : (Nat.fib (k + 2) : Int) = Nat.fib (k + 1) + Nat.fib k := by
    rw [Nat.fib_add_two]
    omega
  have hadd : Operation.add (whole (Nat.fib (k + 1))) (whole (Nat.fib k)) =
      .ok (whole (Nat.fib (k + 2))) := by
    rw [hsum]
    refine Operation.add_whole (fits_fib (by omega)) (fits_fib (by omega)) ?_
    rw [← hsum]
    exact fits_fib hle
  rw [Frame.walk_compute rfl rfl hadd]
  rfl

/-- A call for a number returns its Fibonacci number if there is room for as many frames above the
caller's as the number says. Otherwise the first calls go down until there is no room. -/
theorem leads_fib (hk : Linked h g "fib" 1 fib r fn) (hfn : fn.unit ∈ us) (hle : k ≤ 25)
    (hcaller : (h.unitAt caller.unit).instrs.size ≤ 255) (hd : d < c.maxFrameDepth)
    (hfull : c.maxFrameDepth < d + k →
      E (.limit (.depth (c.maxFrameDepth + 1) c.maxFrameDepth)))
    (ht : d + k ≤ c.maxFrameDepth → Leads (Recurs c us r h) E Q
      ⟨h, #[], .tracer c b d, (caller.push (whole (Nat.fib k))).advance :: rest⟩) :
    Leads (Recurs c us r h) E Q
      (standing #[] (.tracer c b (d + 1)) (caller :: rest) fn.unit g h #[some (whole k)] 0) := by
  have hr := hk.code.renders
  have hlength : fib.length ≤ 255 := by decide
  have hsize : (h.unitAt fn.unit).instrs.size ≤ 255 := by rw [hr.size]; exact hlength
  induction k using Nat.strong_induction_on generalizing d caller rest Q with
  | _ k ih =>
  refine .recurs_walk rfl hr hlength hfn (walk_test fn.unit hle) ?_
  obtain hsmall | ⟨j, rfl⟩ : k < 2 ∨ ∃ j, k = j + 2 := by
    rcases Nat.lt_or_ge k 2 with hlt | hge
    · exact .inl hlt
    · exact .inr ⟨k - 2, by omega⟩
  · rw [if_pos hsmall]
    have hfib : Nat.fib k = k := by
      interval_cases k <;> rfl
    rw [hfib] at ht
    refine .recurs_walk (k := 1) rfl hr hlength hfn rfl ?_
    exact leads_ret hk hfn hcaller rfl (ht (by omega))
  · rw [if_neg (by omega)]
    refine .recurs_walk rfl hr hlength hfn (walk_first hk fn.unit hle) ?_
    -- frames run out in the first call or not at all: the second one goes less deep
    refine leads_call hk hr hfn rfl rfl rfl (fun hlast => ?_) fun hroom => ?_
    · have hd : d + 1 = c.maxFrameDepth := by omega
      rw [hd]
      exact hfull (by omega)
    refine ih (j + 1) (by omega) (by omega) hsize hroom (fun hlast => hfull (by omega))
      fun henough => ?_
    refine .recurs_walk rfl hr hlength hfn (walk_second hk fn.unit hle _) ?_
    refine leads_call hk hr hfn rfl rfl rfl (fun hlast => by omega) fun _ => ?_
    refine ih j (by omega) (by omega) hsize hroom (fun hlast => by omega) fun _ => ?_
    refine .recurs_walk rfl hr hlength hfn (walk_sum fn.unit hle _) ?_
    exact leads_ret hk hfn hcaller rfl (ht (by omega))

/-! ### The program -/

/-- The program calls the function once. Its frame is the first, and a call needs one frame even for
the numbers that need no further calls. -/
theorem leads {u : Nat} (hp : (h.unitAt u).Renders (program (Int64.ofInt k))) (hu : u ∈ us)
    (hk : Linked h g "fib" 1 fib r fn) (hfn : fn.unit ∈ us) (hle : k ≤ 25)
    (hdepth : c.maxFrameDepth ≠ 0) :
    Leads (Recurs c us r h)
      (fun x => c.maxFrameDepth < max 2 (k + 1) ∧
        x = .limit (.depth (c.maxFrameDepth + 1) c.maxFrameDepth))
      (fun t => max 2 (k + 1) ≤ c.maxFrameDepth ∧ t.CallsOnly us r ∧
        Returns (whole (Nat.fib k)) t)
      (standing #[] (.tracer c b 1) [] u g h (Binding.slots 0 []) 0) := by
  have hlength : (program (Int64.ofInt k)).length ≤ 255 := by
    show 4 ≤ 255
    decide
  have hload : (Frame.resting u g (Binding.slots 0 []) 0).walk (program (Int64.ofInt k)) h b 2 =
      some ⟨u, g, Binding.slots 0 [], [whole k, .function r], 2, false⟩ := by
    rw [Frame.resting, Frame.walk_loadGlobal rfl hk.loadGlobal, Frame.walk_const rfl]
    rfl
  refine .recurs_walk rfl hp hlength hu hload ?_
  refine leads_call hk hp hu rfl rfl rfl (fun hlast => ⟨by omega, ?_⟩) fun hroom => ?_
  · rw [show c.maxFrameDepth = 1 by omega]
  refine leads_fib hk hfn hle ?_ hroom (fun hlast => ⟨by omega, rfl⟩) fun henough => ?_
  · show (h.unitAt u).instrs.size ≤ 255
    rw [hp.size]
    exact hlength
  refine .here ⟨by omega, ?_, Machine.returns_line (Vm.plain_tracer c b 1) rfl hp rfl rfl⟩
  exact Machine.callsOnly_of_renders hp hu fun arg hl => by cases hl

/-- The first run of the program, when neither it nor the function has run before. -/
theorem firstRun_ends {wl : Workload} {w : World} {u : CodeUnit} (hw : w.Sound)
    (hunit : wl.unit = w.heap.units.size)
    (hu : Assembled u 0 0 (program (Int64.ofInt k)))
    (hk : Linked (w.launch u).heap wl.globals "fib" 1 fib r fn) (hlt : fn.unit < w.attachments.size)
    (hnew : (w.attachments.getD fn.unit default).quickened = none) (hle : k ≤ 25)
    (hdepth : c.maxFrameDepth ≠ 0) (hmem : ({} : Config).memoryLimit ≤ c.memoryLimit) :
    (wl.firstRun c (w.newUnit u).2).Ends fun e =>
      if max 2 (k + 1) ≤ c.maxFrameDepth then
        e.result = .ok (whole (Nat.fib k)) ∧ (e.vm.stats.family .call).miss = 0 ∧
          (e.vm.stats.family .call).deopt = 0
      else e.result = .error (.limit (.depth (c.maxFrameDepth + 1) c.maxFrameDepth)) := by
  have hlaunch := w.launch_extends hu.checked
  have hat := w.launch_unit u
  have hsize : ((w.launch u).heap.unitAt w.heap.units.size).instrs.size ≤ 255 := by
    rw [hat, hu.renders.size]
    show 4 ≤ 255
    decide
  have hfresh : ∀ v ∈ [w.heap.units.size, fn.unit],
      ((w.launch u).attachments.getD v default).quickened = none := by
    intro v hv
    rcases List.mem_pair.mp hv with rfl | rfl
    · exact World.launch_fresh hw u
    · rw [hlaunch.attachments.same _ hlt]
      exact hnew
  have hleads := leads (c := c) (b := w.launchBuiltins) (hu.launched w)
    (List.mem_pair.mpr (.inl rfl)) hk (List.mem_pair.mpr (.inr rfl)) hle hdepth
  rw [firstRun_newUnit, hunit]
  obtain ⟨m, e, hrun, hends⟩ := Machine.start_steady (hlaunch.sound hw) hdepth hmem
    (by rw [hat, hu.argcount]) hsize hfresh (by rw [hat, hu.nlocals]; exact hleads)
  refine ⟨m, e, hrun, ?_⟩
  rcases hends with ⟨henough, hresult⟩ | ⟨x, ⟨hshort, rfl⟩, hresult⟩
  · rw [if_pos henough]
    exact hresult
  · rw [if_neg (by omega)]
    exact hresult

end Workload.Recursion

namespace Workload

/-- **Recursion computes Fibonacci numbers through the unit that it re-enters.** The first run
returns the number exactly if there is room for all frames, and fails for want of room otherwise.
Where it returns, no call site has missed its guard or has fallen back. -/
theorem recursion_returns_fib (as : List Action) (c : Config) (hc : c.fault? = none)
    (hmem : ({} : Config).memoryLimit ≤ c.memoryLimit) (n : Int64) :
    let w := (({} : Process).after as).world
    let k := (max 0 (min n.toInt 25)).toNat
    ∃ wl w', (recursion n).on w = (.ok wl, w') ∧ wl.expected = .int (Int64.ofInt (Nat.fib k)) ∧
      (wl.firstRun c w').Ends fun e =>
        if max 2 (k + 1) ≤ c.maxFrameDepth then
          e.result = .ok wl.expected ∧ (e.vm.stats.family .call).miss = 0 ∧
            (e.vm.stats.family .call).deopt = 0
        else e.result = .error (.limit (.depth (c.maxFrameDepth + 1) c.maxFrameDepth)) := by
  intro w k
  have hw : w.Sound := Process.after_sound World.sound_empty as
  have hle : k ≤ 25 := by omega
  obtain ⟨w', g, hw', hon, r, fn, hlt, hnew, hlinked⟩ :=
    exists_linked hw "recursion" "fib" 1 Recursion.fib (by decide) (by decide)
  obtain ⟨u, hassemble, hu⟩ := exists_assembled "<recursion>" 0 0
    (Recursion.program (Int64.ofInt k)) (show 4 ≤ 256 by decide) (List.all_eq_true.mp rfl)
  have hbuild : ∃ wl : Workload, (recursion n).on w = (.ok wl, (w'.newUnit u).2) ∧
      wl.unit = w'.heap.units.size ∧ wl.globals = g ∧ wl.expected = whole (Nat.fib k) := by
    unfold recursion
    rw [Recursion.argument_eq n]
    dsimp only
    rw [hon, Build.on_bind, Build.on_code hassemble]
    exact ⟨_, rfl, rfl, rfl, congrArg Value.int (Recursion.fst_fibPair hle)⟩
  obtain ⟨wl, hbuilt, hunit, rfl, hexpected⟩ := hbuild
  refine ⟨wl, _, hbuilt, hexpected, ?_⟩
  rw [hexpected]
  exact Recursion.firstRun_ends hw' hunit hu (hlinked u hu.checked) hlt hnew hle
    (c.maxFrameDepth_ne_zero hc) hmem

/-- The largest argument, with just enough room for its frames and with one frame less. -/
theorem recursion_returns_fib_bounds :
    (({ maxFrameDepth := 26 } : Config).fault? = none ∧
      ({} : Config).memoryLimit ≤ ({ maxFrameDepth := 26 } : Config).memoryLimit ∧
      ∃ wl w', (recursion 100).on {} = (.ok wl, w') ∧ wl.expected = .int 75025 ∧
        (wl.firstRun { maxFrameDepth := 26 } w').Ends fun e =>
          e.result = .ok wl.expected ∧ (e.vm.stats.family .call).miss = 0 ∧
            (e.vm.stats.family .call).deopt = 0) ∧
    (({ maxFrameDepth := 25 } : Config).fault? = none ∧
      ∃ wl w', (recursion 100).on {} = (.ok wl, w') ∧
        (wl.firstRun { maxFrameDepth := 25 } w').Ends fun e =>
          e.result = .error (.limit (.depth 26 25))) := by
  have henough : ({ maxFrameDepth := 26 } : Config).fault? = none := by decide
  have hshort : ({ maxFrameDepth := 25 } : Config).fault? = none := by decide
  have hargument : (max 0 (min (100 : Int64).toInt 25)).toNat = 25 := by decide
  have hfib : Nat.fib 25 = 75025 := by decide +kernel
  constructor
  · obtain ⟨wl, w', hon, hexpected, m, e, hrun, hend⟩ :=
      recursion_returns_fib [] _ henough le_rfl 100
    rw [hargument, hfib] at hexpected
    rw [hargument, if_pos (by decide)] at hend
    exact ⟨henough, le_rfl, wl, w', hon, hexpected, m, e, hrun, hend⟩
  · obtain ⟨wl, w', hon, -, m, e, hrun, hend⟩ := recursion_returns_fib [] _ hshort le_rfl 100
    rw [hargument, if_neg (by decide)] at hend
    exact ⟨hshort, wl, w', hon, m, e, hrun, hend⟩

end Workload

end AdaptiveVM
