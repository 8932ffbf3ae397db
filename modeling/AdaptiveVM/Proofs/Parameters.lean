import AdaptiveVM.Proofs.Safety

/-!
Which local slot holds what when a call begins.

Arguments come first, and a parameter without one takes the default that stands as far from the end;
slots beyond the parameters hold nothing. A function may have more defaults than parameters, and the
surplus ones at the front are never used. Calls that give just enough arguments have a shorter way,
and it fills the slots alike.
-/

namespace AdaptiveVM

namespace Binding

/-! ### Arithmetic that can fail -/

/-- Subtraction that fails below zero. -/
def minus? (a b : Nat) : Option Nat := if b ≤ a then some (a - b) else none

/-- The values from a place on. It fails for a place beyond the end. -/
def from? (values : List Value) (place : Nat) : Option (List Value) :=
  if place ≤ values.length then some (values.drop place) else none

/-- The local slots for a call, found by arithmetic that can fail. -/
def checkedBind? (name : String) (argcount nlocals : Nat) (defaults args : List Value) :
    Option (Except Fault (Array (Option Value))) := do
  let least ← minus? argcount (min defaults.length argcount)
  if argcount < args.length ∨ args.length < least then
    let expected :=
      if least = argcount then toString argcount
      else toString least ++ " to " ++ toString argcount
    some (.error (.arityMismatch name expected args.length))
  else
    let missing ← minus? argcount args.length
    let skipped ← minus? defaults.length missing
    let taken ← from? defaults skipped
    some (.ok (slots nlocals (args ++ taken)))

variable {name : String} {argcount nlocals : Nat} {defaults args values : List Value}
  {locals : Array (Option Value)} {i : Nat}

lemma minus?_of_le {a b : Nat} (h : b ≤ a) : minus? a b = some (a - b) := if_pos h

/-- The call gives too many arguments or too few. -/
def Misfits (argcount defaults given : Nat) : Prop :=
  argcount < given ∨ given < argcount - min defaults argcount

lemma bind_of_misfits (h : Misfits argcount defaults.length args.length) :
    bind name argcount nlocals defaults args =
      .error (.arityMismatch name (expected argcount defaults.length) args.length) :=
  if_pos h

lemma bind_of_fits (h : ¬ Misfits argcount defaults.length args.length) :
    bind name argcount nlocals defaults args = .ok (slots nlocals
      (args ++ defaults.drop (defaults.length - (argcount - args.length)))) :=
  if_neg h

lemma bind_eq_ok (h : bind name argcount nlocals defaults args = .ok locals) :
    ¬ Misfits argcount defaults.length args.length ∧ locals = slots nlocals
      (args ++ defaults.drop (defaults.length - (argcount - args.length))) := by
  by_cases hfit : Misfits argcount defaults.length args.length
  · cases (bind_of_misfits hfit).symm.trans h
  · cases (bind_of_fits hfit).symm.trans h
    exact ⟨hfit, rfl⟩

lemma bind_eq_error {cause : Fault} (h : bind name argcount nlocals defaults args = .error cause) :
    Misfits argcount defaults.length args.length ∧
      cause = .arityMismatch name (expected argcount defaults.length) args.length := by
  by_cases hfit : Misfits argcount defaults.length args.length
  · cases (bind_of_misfits hfit).symm.trans h
    exact ⟨hfit, rfl⟩
  · cases (bind_of_fits hfit).symm.trans h

/-- **Nothing fails** on the way to the slots, however many defaults there are. -/
theorem checkedBind?_eq (name : String) (argcount nlocals : Nat) (defaults args : List Value) :
    checkedBind? name argcount nlocals defaults args =
      some (bind name argcount nlocals defaults args) := by
  unfold checkedBind?
  rw [minus?_of_le (Nat.min_le_right ..)]
  by_cases h : Misfits argcount defaults.length args.length
  · rw [bind_of_misfits h]
    exact if_pos h
  · rw [bind_of_fits h]
    refine (if_neg h).trans ?_
    obtain ⟨hmost, hleast⟩ := not_or.mp h
    -- what is missing is among the defaults
    have hmissing : argcount - args.length ≤ defaults.length := by omega
    rw [minus?_of_le (Nat.not_lt.mp hmost)]
    simp only [Option.bind_eq_bind, Option.bind_some, minus?_of_le hmissing]
    rw [from?, if_pos (Nat.sub_le ..)]
    rfl

/-! ### Slots one by one -/

lemma getElem?_slots (hi : i < nlocals) : (slots nlocals values)[i]? = some values[i]? := by
  rw [slots, List.getElem?_toArray]
  by_cases hlt : i < values.length
  · rw [List.getElem?_append_left (by simp only [List.length_map, List.length_take]; omega),
      List.getElem?_map, List.getElem?_take_of_lt hi, List.getElem?_eq_getElem hlt]
    rfl
  · have hnone : values[i]? = none := List.getElem?_eq_none (by omega)
    rw [List.getElem?_append_right (by simp only [List.length_map, List.length_take]; omega),
      List.getElem?_replicate, if_pos (by simp only [List.length_map, List.length_take]; omega),
      hnone]

/-- What a local slot is to hold: an argument, or the default that stands as far from the end as the
parameter does, or nothing. -/
def held (argcount : Nat) (defaults args : List Value) (i : Nat) : Option Value :=
  if i < args.length then args[i]?
  else if i < argcount then defaults[defaults.length + i - argcount]?
  else none

/-- Parameters, arguments and the defaults that are taken end at the same place. -/
lemma getElem?_append_drop (h : ¬ Misfits argcount defaults.length args.length) (i : Nat) :
    (args ++ defaults.drop (defaults.length - (argcount - args.length)))[i]? =
      held argcount defaults args i := by
  obtain ⟨hmost, hleast⟩ := not_or.mp h
  unfold held
  split
  · next hi => exact List.getElem?_append_left hi
  · next hi =>
    rw [List.getElem?_append_right (Nat.not_lt.mp hi), List.getElem?_drop]
    split
    · next hlt =>
      have hplace : defaults.length - (argcount - args.length) + (i - args.length) =
          defaults.length + i - argcount := by omega
      rw [hplace]
    · next hge => exact List.getElem?_eq_none (by omega)

/-- **Every slot** of a call that is accepted. -/
theorem getElem?_bind (h : bind name argcount nlocals defaults args = .ok locals)
    (hi : i < nlocals) : locals[i]? = some (held argcount defaults args i) := by
  obtain ⟨hfit, rfl⟩ := bind_eq_ok h
  rw [getElem?_slots hi, getElem?_append_drop hfit]

/-- A parameter without an argument has a default. -/
lemma held_default (hfit : ¬ Misfits argcount defaults.length args.length)
    (hgiven : args.length ≤ i) (hi : i < argcount) :
    ∃ v, defaults[defaults.length + i - argcount]? = some v ∧
      held argcount defaults args i = some v := by
  obtain ⟨-, hleast⟩ := not_or.mp hfit
  have hplace : defaults.length + i - argcount < defaults.length := by omega
  refine ⟨_, List.getElem?_eq_getElem hplace, ?_⟩
  rw [held, if_neg (by omega), if_pos hi, List.getElem?_eq_getElem hplace]

end Binding

namespace Machine

lemma call_of_bound {m : Machine} {f : Ref .function} {args : List Value}
    {locals : Array (Option Value)}
    (hb : Binding.bind f.name (m.heap.unitAt (m.heap.functionAt f).unit).argcount.toNat
      (m.heap.unitAt (m.heap.functionAt f).unit).nlocals.toNat (m.heap.functionAt f).defaults
      args = .ok locals) : m.call (.function f) args =
      m.enter (m.heap.functionAt f).unit (m.heap.functionAt f).globals locals := by
  simp only [call, hb]

lemma call_of_refused {m : Machine} {f : Ref .function} {args : List Value} {cause : Fault}
    (hb : Binding.bind f.name (m.heap.unitAt (m.heap.functionAt f).unit).argcount.toNat
      (m.heap.unitAt (m.heap.functionAt f).unit).nlocals.toNat (m.heap.functionAt f).defaults
      args = .error cause) : m.call (.function f) args = m.fault cause := by
  simp only [call, hb]

/-- **Arguments are bound to parameters.** A call is refused just when it has more arguments than
there are parameters, or fewer than there are without a default. Otherwise the frame has the
arguments in its slots, then the defaults counted from the end, and nothing beyond the parameters.
-/
theorem arguments_bound (name : String) (calls : List Assembler.Call) (u : CodeUnit) (m : Machine)
    (f : Ref .function) (args : List Value) (hu : (Assembler.written name calls).build = .ok u)
    (hf : m.heap.unitAt (m.heap.functionAt f).unit = u) :
    let fn := m.heap.functionAt f
    let params := u.argcount.toNat
    let bound := Binding.bind f.name params u.nlocals.toNat fn.defaults args
    Binding.checkedBind? f.name params u.nlocals.toNat fn.defaults args = some bound ∧
    ((∃ cause, bound = .error cause) ↔
      params < args.length ∨ args.length < params - min fn.defaults.length params) ∧
    (∀ cause, bound = .error cause →
      cause = .arityMismatch f.name (Binding.expected params fn.defaults.length) args.length ∧
        cause.kind = .type ∧ m.call (.function f) args = m.fault cause) ∧
    (∀ locals, bound = .ok locals →
      locals.size = u.nlocals.toNat ∧ params ≤ locals.size ∧
      (∀ i, (hi : i < args.length) → locals[i]? = some (some args[i])) ∧
      (∀ i, args.length ≤ i → i < params → ∃ v,
        fn.defaults[fn.defaults.length + i - params]? = some v ∧ locals[i]? = some (some v)) ∧
      (∀ i, params ≤ i → i < locals.size → locals[i]? = some none) ∧
      m.call (.function f) args = m.enter fn.unit fn.globals locals) ∧
    (args.length = params →
      bound = .ok (Binding.slots u.nlocals.toNat args) ∧
        m.enterExact f args = m.enter fn.unit fn.globals (Binding.slots u.nlocals.toNat args) ∧
        m.enterExact f args = m.call (.function f) args) := by
  subst hf
  intro fn params bound
  have hroom : params ≤ (m.heap.unitAt fn.unit).nlocals.toNat := by
    obtain ⟨hargs, hlocals⟩ := Assembler.build_declared hu
    have hle := Assembler.written_roomy name calls
    rw [← hargs, ← hlocals] at hle
    exact UInt8.le_iff_toNat_le.mp hle
  refine ⟨Binding.checkedBind?_eq .., ?_, fun cause hb => ?_, fun locals hb => ?_, fun hl => ?_⟩
  · exact ⟨fun ⟨cause, hb⟩ => (Binding.bind_eq_error hb).1,
      fun hfit => ⟨_, Binding.bind_of_misfits hfit⟩⟩
  · obtain ⟨-, rfl⟩ := Binding.bind_eq_error hb
    exact ⟨rfl, rfl, call_of_refused hb⟩
  · have hsize := Binding.size_of_bind hb
    have hfit := (Binding.bind_eq_ok hb).1
    have hmost : args.length ≤ params := Nat.not_lt.mp (not_or.mp hfit).1
    refine ⟨hsize, hroom.trans_eq hsize.symm, fun i hi => ?_, fun i hgiven hi => ?_,
      fun i hparams hi => ?_, call_of_bound hb⟩
    · rw [Binding.getElem?_bind hb (hi.trans_le (hmost.trans hroom)), Binding.held, if_pos hi,
        List.getElem?_eq_getElem hi]
    · obtain ⟨v, hv, hheld⟩ := Binding.held_default hfit hgiven hi
      exact ⟨v, hv, by rw [Binding.getElem?_bind hb (hi.trans_le hroom), hheld]⟩
    · rw [Binding.getElem?_bind hb (hi.trans_eq hsize), Binding.held, if_neg (by omega),
        if_neg (by omega)]
  · refine ⟨?_, rfl, (call_function_exact m f hl).symm⟩
    show Binding.bind f.name params _ fn.defaults args = _
    rw [← hl, Binding.bind_exact]

/-- A function with two parameters, three local slots and three defaults, the first of which is one
too many, is called with one argument and with three. -/
theorem arguments_bound_surplus :
    let u : CodeUnit := { name := "f", instrs := #[⟨.ret, 0⟩], argcount := 2, nlocals := 3 }
    let defaults : List Value := [.int 10, .int 20, .int 30]
    let m : Machine :=
      ⟨{ units := #[u], functions := #[{ defaults }] }, #[{}], default, []⟩
    (Assembler.written "f" [.params 2, .locals 3, .emitOp .ret]).build = .ok u ∧
      m.heap.unitAt (m.heap.functionAt ⟨0, "f"⟩).unit = u ∧
      m.call (.function ⟨0, "f"⟩) [.int 1] =
        m.enter 0 ⟨0, ""⟩ #[some (.int 1), some (.int 30), none] ∧
      m.call (.function ⟨0, "f"⟩) [.int 1, .int 2, .int 3] =
        m.fault (.arityMismatch "f" "0 to 2" 3) := by
  intro u defaults m
  have hu : (Assembler.written "f" [.params 2, .locals 3, .emitOp .ret]).build = .ok u := by cbv
  have hone := arguments_bound "f" _ u m ⟨0, "f"⟩ [.int 1] hu rfl
  have hthree := arguments_bound "f" _ u m ⟨0, "f"⟩ [.int 1, .int 2, .int 3] hu rfl
  refine ⟨hu, rfl, ?_, ?_⟩
  · obtain ⟨-, -, -, -, -, hcall⟩ := hone.2.2.2.1 #[some (.int 1), some (.int 30), none] rfl
    exact hcall
  · have hexpected : Binding.expected 2 3 = "0 to 2" := by decide +kernel
    obtain ⟨cause, hb⟩ := hthree.2.1.mpr (.inl (by decide))
    obtain ⟨rfl, -, hcall⟩ := hthree.2.2.1 cause hb
    rw [← hexpected]
    exact hcall

end Machine

end AdaptiveVM
