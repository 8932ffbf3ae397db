import AdaptiveVM.Proofs.Lockstep
import AdaptiveVM.Proofs.Process

/-!
Processes do not depend on what tokens came before them.

A process starts where an earlier one has left the token sources. Nothing that its host is told, no
count and no site depends on where that was: the same actions lead to twin processes, for any starts
of the four sources, as long as the sources last.
-/

namespace AdaptiveVM

/-! ### What a host is told -/

inductive Reply where
  /-- There is nothing to tell, or the execution goes on. -/
  | done
  /-- What has been made is at this place. -/
  | made (place : Nat)
  | object (value : Value)
  | removed (value : Option Value)
  | refused (e : Error)
  | ended (result : Except Error Value)

def Heap.reply (h : Heap) : Request → Reply
  | .newModule name => .object (.mod (h.newModule name).1)
  | .newClass name => .object (.cls (h.newClass name).1)
  | .instantiate cls => .object (.inst (h.instantiate cls).1)
  | .newShape => .made (h.newShape #[]).1
  | .extendShape shape key => .made (h.extendShape shape key).1
  | .newFunction unit globals defaults =>
    if unit < h.units.size then .object (.function (h.newFunction unit globals defaults).1)
    else .done
  | .newBuiltin name arity procedure => .object (.builtin (h.newBuiltin name arity procedure).1)
  | .newSource source => .made (h.newSource source).1
  | .assign .. => .done
  | .remove names key => .removed (h.remove names key).1
  | .setField .. => .done

def Progress.reply : Progress → Reply
  | .running _ => .done
  | .returned _ v => .ended (.ok v)
  | .failed _ e => .ended (.error e)

namespace Process

/-- What the host is told when an action is performed. -/
def reply (p : Process) : Action → Reply
  | .request r => p.world.heap.reply r
  | .addUnit code =>
    match code.build with
    | .ok _ => .made p.world.heap.units.size
    | .error cause => .refused (.code cause)
  | .quicken unit limit =>
    match (p.world.tryQuicken unit limit).1 with
    | .ok _ => .done
    | .error cause => .refused (.limit cause)
  | .newVm config =>
    match config.validate with
    | .ok _ => .made p.vms.size
    | .error cause => .refused (.config cause)
  | .setMode .. => .done
  | .resetStats _ => .done
  | .watch .. => .done
  | .invoke vm invocation =>
    match p.vms[vm]? with
    | some x => (invocation.start p.world x).reply
    | none => .done
  | .step =>
    match p.machine? with
    | some m => m.step.reply
    | none => .done

/-- What the host is told along some actions. -/
def replies (p : Process) : List Action → List Reply
  | [] => []
  | a :: as => p.reply a :: (p.perform a).replies as

/-- A process that has done nothing yet, in which tokens go on from given sources. -/
def fresh (t : Tokens) : Process := { world := { heap := { tokens := t } } }

end Process

/-! ### Twin processes -/

/-- Processes in the same state, on twin worlds. -/
inductive Process.Twin (d : TokenKind → ℤ) : Process → Process → Prop where
  | mk {h h' : Heap} {a a' : Array Attachment} (heap : h.Twin d h')
      (attachments : Paired (Attachment.Twin d) a a') (vms : Array Vm) (runs : List Run) :
      Twin d ⟨⟨h, a⟩, vms, runs⟩ ⟨⟨h', a'⟩, vms, runs⟩

section

variable {d : TokenKind → ℤ} {h h' : Heap} {a a' : Array Attachment}

lemma Heap.Twin.serve (ht : h.Twin d h') (r : Request) (hl : (h.serve r).tokens.Lasting)
    (hl' : (h'.serve r).tokens.Lasting) :
    h'.reply r = h.reply r ∧ (h.serve r).Twin d (h'.serve r) := by
  cases r with
  | newModule name =>
    obtain ⟨hplace, htwin⟩ := ht.newNamespace hl hl'
    exact ⟨congrArg (fun n => Reply.object (.mod ⟨n, name⟩)) hplace, htwin⟩
  | newClass name =>
    obtain ⟨hplace, htwin⟩ := ht.newClass name hl hl'
    exact ⟨congrArg (fun c => Reply.object (.cls c)) hplace, htwin⟩
  | instantiate cls =>
    obtain ⟨hplace, htwin⟩ := ht.instantiate cls
    exact ⟨congrArg (fun o => Reply.object (.inst o)) hplace, htwin⟩
  | newShape =>
    obtain ⟨hplace, htwin⟩ := ht.newShape #[] hl hl'
    exact ⟨congrArg Reply.made hplace, htwin⟩
  | extendShape shape key =>
    obtain ⟨hplace, htwin⟩ := ht.extendShape shape key hl hl'
    exact ⟨congrArg Reply.made hplace, htwin⟩
  | newFunction unit globals defaults =>
    simp only [Heap.serve, Heap.reply] at hl hl' ⊢
    rw [ht.units] at hl' ⊢
    by_cases hu : unit < h.units.size
    · simp only [if_pos hu] at hl hl' ⊢
      obtain ⟨hplace, htwin⟩ := ht.newFunction unit globals defaults hl hl'
      exact ⟨congrArg (fun f => Reply.object (.function f)) hplace, htwin⟩
    · simp only [if_neg hu]
      exact ⟨trivial, ht⟩
  | newBuiltin name arity procedure =>
    obtain ⟨hplace, htwin⟩ := ht.newBuiltin name arity procedure hl hl'
    exact ⟨congrArg (fun b => Reply.object (.builtin b)) hplace, htwin⟩
  | newSource source =>
    obtain ⟨hplace, htwin⟩ := ht.newSource source
    exact ⟨congrArg Reply.made hplace, htwin⟩
  | assign names key value => exact ⟨rfl, ht.assign names key value hl hl'⟩
  | remove names key =>
    obtain ⟨hvalue, htwin⟩ := ht.remove names key hl hl'
    exact ⟨congrArg Reply.removed hvalue, htwin⟩
  | setField object key value => exact ⟨rfl, ht.setField object key value hl hl'⟩

lemma Invocation.start_twin (hh : h.Twin d h') (ha : Paired (Attachment.Twin d) a a') (vm : Vm)
    (i : Invocation) : (i.start ⟨h, a⟩ vm).Twin d (i.start ⟨h', a'⟩ vm) := by
  have hidle : (Machine.idle ⟨h, a⟩ vm).Twin d (Machine.idle ⟨h', a'⟩ vm) := .mk hh ha vm []
  cases i with
  | run unit globals =>
    unfold start Machine.start
    dsimp only
    rw [hh.unitAt]
    split
    · exact Machine.fail_twin hidle _
    · exact Machine.enter_twin hidle _ _ _
  | call callee args => exact Machine.call_twin hidle callee args

/-- Quickening at the host's request goes well for both, or is refused for the same reason. -/
lemma Attachment.Twin.quicken {x x' : Attachment} (hx : x.Twin d x') (code : Array Instr)
    (limit : Nat) :
    (x'.quicken code limit).1 = (x.quicken code limit).1 ∧
      (x.quicken code limit).2.Twin d (x'.quicken code limit).2 := by
  unfold Attachment.quicken
  rcases hq : x.quickened with _ | q
  · have hnone : x'.quickened = none := by
      rw [← Option.isNone_iff_eq_none, ← Option.not_isSome, hx.isSome_quickened, hq]
      rfl
    rw [hnone]
    dsimp only
    rcases hr : Quickened.quicken code limit with cause | q
    · exact ⟨rfl, hx⟩
    · unfold Quickened.quicken at hr
      dsimp only at hr
      split at hr
      · cases hr
      · cases hr
        exact ⟨rfl, hx.install code⟩
  · obtain ⟨q', hq', -⟩ := hx.exists_stream hq
    rw [hq']
    exact ⟨rfl, hx⟩

lemma Progress.Twin.reply_eq {out out' : Progress} (hout : out.Twin d out') :
    out'.reply = out.reply := by
  cases hout <;> rfl

lemma Progress.Twin.settle {out out' : Progress} (hout : out.Twin d out') (w w' : World)
    (vms : Array Vm) (runs : List Run) (k : Nat) (rest : List Run) :
    (Process.settle ⟨w, vms, runs⟩ k rest out).Twin d
      (Process.settle ⟨w', vms, runs⟩ k rest out') := by
  cases hout with
  | running machine => cases machine with | mk hh ha vm frames => exact .mk hh ha _ _
  | returned machine v => cases machine with | mk hh ha vm frames => exact .mk hh ha _ _
  | failed machine e => cases machine with | mk hh ha vm frames => exact .mk hh ha _ _

end

namespace Process

variable {d : TokenKind → ℤ} {p p' : Process}

lemma newVm_twin {h h' : Heap} {a a' : Array Attachment} (hh : h.Twin d h')
    (ha : Paired (Attachment.Twin d) a a') (hw : h.WellFormed) (hw' : h'.WellFormed)
    (config : Config) (vms : Array Vm) (runs : List Run)
    (hl : (Vm.create config h).2.tokens.Lasting) (hl' : (Vm.create config h').2.tokens.Lasting) :
    Twin d ⟨⟨(Vm.create config h).2, a⟩, vms.push (Vm.create config h).1, runs⟩
      ⟨⟨(Vm.create config h').2, a'⟩, vms.push (Vm.create config h').1, runs⟩ := by
  have hinstall := Builtins.install_twin hh hw hw'
  unfold Vm.create at hl hl' ⊢
  generalize Builtins.install h = made at hinstall hl ⊢
  generalize Builtins.install h' = made' at hinstall hl' ⊢
  obtain ⟨hplace, htwin⟩ := hinstall hl hl'
  dsimp only
  rw [hplace]
  exact .mk htwin ha _ runs

/-- **An action keeps processes twins**, and its host is told the same. -/
theorem perform_twin (hp : p.Twin d p') (hs : p.world.Sound) (hs' : p'.world.Sound) (x : Action)
    (hl : (p.perform x).world.heap.tokens.Lasting)
    (hl' : (p'.perform x).world.heap.tokens.Lasting) :
    p'.reply x = p.reply x ∧ (p.perform x).Twin d (p'.perform x) := by
  obtain @⟨h, h', a, a', hh, ha, vms, runs⟩ := hp
  cases x with
  | request r =>
    obtain ⟨hreply, htwin⟩ := hh.serve r hl hl'
    exact ⟨hreply, .mk htwin ha vms runs⟩
  | addUnit code =>
    simp only [reply, perform]
    rcases code.build with cause | u
    · exact ⟨rfl, .mk hh ha vms runs⟩
    · refine ⟨congrArg (fun units => Reply.made (Array.size units)) hh.units, ?_⟩
      exact .mk (hh.newUnit u).2 (ha.push ⟨rfl, .none⟩) vms runs
  | quicken unit limit =>
    simp only [reply, perform, World.tryQuicken, World.attachmentAt]
    rw [hh.unitAt]
    obtain ⟨hanswer, htwin⟩ := (ha.each unit).quicken (h.unitAt unit).instrs limit
    rw [hanswer]
    exact ⟨rfl, .mk hh (ha.set unit htwin) vms runs⟩
  | newVm config =>
    dsimp only [reply, perform] at hl hl' ⊢
    rcases hc : config.validate with cause | config'
    · exact ⟨rfl, .mk hh ha vms runs⟩
    · rw [hc] at hl hl'
      exact ⟨rfl, newVm_twin hh ha hs.heap hs'.heap config' vms runs hl hl'⟩
  | setMode vm mode => exact ⟨rfl, .mk hh ha _ runs⟩
  | resetStats vm => exact ⟨rfl, .mk hh ha _ runs⟩
  | watch vm observed => exact ⟨rfl, .mk hh ha _ runs⟩
  | invoke vm invocation =>
    simp only [reply, perform]
    rcases vms[vm]? with _ | x
    · exact ⟨rfl, .mk hh ha vms runs⟩
    · have hout := invocation.start_twin hh ha x
      exact ⟨hout.reply_eq, hout.settle _ _ vms runs vm runs⟩
  | step =>
    dsimp only [reply, perform, machine?] at hl hl' ⊢
    rcases runs with _ | ⟨r, rest⟩
    · exact ⟨rfl, .mk hh ha vms []⟩
    dsimp only at hl hl' ⊢
    rcases hx : vms[r.vm]? with _ | x
    · exact ⟨rfl, .mk hh ha vms _⟩
    · rw [hx] at hl hl'
      have hout := Machine.step_twin (.mk hh ha x r.frames) hs hl hl'
      exact ⟨hout.reply_eq, hout.settle _ _ vms _ r.vm rest⟩

/-- A source that lasts beyond an action has lasted up to it. -/
lemma lasting_of_perform (hs : p.world.Sound) (x : Action)
    (hl : (p.perform x).world.heap.tokens.Lasting) : p.world.heap.tokens.Lasting := by
  cases x with
  | request r => exact (p.world.heap.serve_develops r).lasting hs.heap hl
  | addUnit code =>
    dsimp only [perform] at hl
    split at hl
    · exact hl
    · exact hl
  | quicken unit limit => exact hl
  | newVm config =>
    dsimp only [perform] at hl
    split at hl
    · next config' _ => exact (Vm.create_develops config' p.world.heap).lasting hs.heap hl
    · exact hl
  | setMode vm mode => exact hl
  | resetStats vm => exact hl
  | watch vm observed => exact hl
  | invoke vm invocation =>
    dsimp only [perform] at hl
    split at hl
    · next x _ => exact (invocation.start_quiet p.world x).heap.lasting hs.heap hl
    · exact hl
  | step =>
    dsimp only [perform] at hl
    split at hl
    · next m _ hm =>
      obtain ⟨hheap, hatt⟩ := machine?_eq_some hm
      have hm : World.Sound ⟨m.heap, m.attachments⟩ := by
        rw [hheap, hatt]
        exact hs
      rw [← hheap]
      rcases m.step_cases hm with ⟨-, hquiet⟩ | ⟨f, q, fam, t, hvisit⟩
      · exact hquiet.heap.lasting (hheap ▸ hs.heap) hl
      · exact hvisit.quiet.heap.lasting (hheap ▸ hs.heap) hl
    · exact hl

lemma lasting_of_after (hs : p.world.Sound) (as : List Action)
    (hl : (p.after as).world.heap.tokens.Lasting) : p.world.heap.tokens.Lasting := by
  induction as generalizing p with
  | nil => exact hl
  | cons x as ih => exact lasting_of_perform hs x (ih (perform_sound hs x) hl)

/-- **Twin processes stay twins** along all actions, and their hosts are told the same. -/
theorem after_twin (hp : p.Twin d p') (hs : p.world.Sound) (hs' : p'.world.Sound)
    (as : List Action) (hl : (p.after as).world.heap.tokens.Lasting)
    (hl' : (p'.after as).world.heap.tokens.Lasting) :
    p'.replies as = p.replies as ∧ (p.after as).Twin d (p'.after as) := by
  induction as generalizing p p' with
  | nil => exact ⟨rfl, hp⟩
  | cons x as ih =>
    have hnext := perform_sound hs x
    have hnext' := perform_sound hs' x
    obtain ⟨hreply, htwin⟩ := perform_twin hp hs hs' x (lasting_of_after hnext as hl)
      (lasting_of_after hnext' as hl')
    obtain ⟨hreplies, hafter⟩ := ih htwin hnext hnext' hl hl'
    exact ⟨congrArg₂ List.cons hreply hreplies, hafter⟩

/-- **Tokens are only compared.** Two processes with token sources of their own, in which the same
happens, tell the host the same and count the same; the objects, and what specialized members have
stored, differ in nothing but tokens, by as much as the sources did at the start. -/
theorem token_equivariant (t t' : Tokens) (ht : ∀ k, (t.source k).upcoming ≠ 0)
    (ht' : ∀ k, (t'.source k).upcoming ≠ 0) (as : List Action)
    (hl : ((fresh t).after as).world.heap.tokens.Lasting)
    (hl' : ((fresh t').after as).world.heap.tokens.Lasting) :
    let d (k : TokenKind) : ℤ := (t'.source k).upcoming.toNat - (t.source k).upcoming.toNat
    let p := (fresh t).after as
    let p' := (fresh t').after as
    (fresh t').replies as = (fresh t).replies as ∧ p'.vms = p.vms ∧ p'.runs = p.runs ∧
      p'.world.heap.blank = p.world.heap.blank ∧
      ∀ u, (p.world.attachmentAt u).Twin d (p'.world.attachmentAt u) := by
  intro d p p'
  have hstart : (fresh t).Twin d (fresh t') := by
    refine .mk (Heap.twin_empty fun k => ⟨ht k, ht' k, ?_⟩) ⟨rfl, fun _ => ⟨rfl, .none⟩⟩ _ _
    exact (add_sub_cancel _ _).symm
  obtain ⟨hreplies, htwin⟩ :=
    after_twin hstart (World.sound_tokens t) (World.sound_tokens t') as hl hl'
  refine ⟨hreplies, ?_⟩
  change p.Twin d p' at htwin
  generalize p = x at htwin ⊢
  generalize p' = x' at htwin ⊢
  obtain @⟨h, h', a, a', hh, ha, vms, runs⟩ := htwin
  exact ⟨rfl, rfl, hh.blank_eq, ha.each⟩

/-- The first load of a global remembers the keys of its module, as a token that is so much further
on as the source of such tokens was at the start. -/
theorem token_equivariant_doubling :
    let t : Tokens := {}
    let t' : Tokens := { keys := ⟨1000⟩, functions := ⟨50⟩, builtins := ⟨7⟩, shapes := ⟨3⟩ }
    let p := (fresh t).after doubling
    let p' := (fresh t').after doubling
    (fresh t').replies doubling = (fresh t).replies doubling ∧
      ∃ q q', (p.world.attachmentAt 0).quickened = some q ∧
        (p'.world.attachmentAt 0).quickened = some q' ∧
        (q.instrAt 0).op = .loadGlobal .mod ∧
        Token.Shifted 999 (q.versionsAt 0).first (q'.versionsAt 0).first := by
  intro t t' p p'
  obtain ⟨hreplies, -, -, -, hunits⟩ := token_equivariant t t' (fun k => by cases k <;> decide)
    (fun k => by cases k <;> decide) doubling (fun k => by cases k <;> decide +kernel)
    (fun k => by cases k <;> decide +kernel)
  have hop : ((p.world.attachmentAt 0).quickened.map fun q => (q.instrAt 0).op) =
      some (.loadGlobal .mod) := by
    decide +kernel
  obtain ⟨q, hq, hop⟩ := Option.map_eq_some_iff.mp hop
  obtain ⟨q', hq', hstream⟩ := (hunits 0).exists_stream hq
  have hwords := hstream.guards 0 (by rw [Quickened.hasEntries_eq, hop]; rfl) (by rw [hop]; rfl)
  rw [hop] at hwords
  obtain ⟨⟨-, hfirst⟩, -⟩ := List.forall₂_cons.mp hwords.tokens
  exact ⟨hreplies, q, q', hq, hq', hop, hfirst⟩

end Process

end AdaptiveVM
