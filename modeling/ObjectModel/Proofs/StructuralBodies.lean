import ObjectModel.Proofs.DataflowCycles
import ObjectModel.Proofs.Termination

/-!
# Structural bodies

Constants, instantiations, lists and erased types pass their operands on as they are
(`Instr.IsStructural`). In a table of such bodies no instruction needs the value of another one,
whatever refers to whatever: at most one demand waits at a time (`Session.Flat`), and it is never one
for a binding in progress. So a request comes to a value or to the limit on instances
(`Evaluator.instantiateName_structural`).
-/

set_option autoImplicit false

namespace ObjectModel

/-- An instruction that needs the value of no operand. An instantiation has a class of the table and
an argument for each of its parameters. -/
def Instr.IsStructural (t : ClassTable) : Instr → Prop
  | .constant _ => True
  | .object target args => ∃ cls ∈ t.lookup? target, args.length = cls.params.length
  | .list _ _ => True
  | .any _ => True
  | _ => False

instance (t : ClassTable) (i : Instr) : Decidable (i.IsStructural t) := by
  cases i <;> unfold Instr.IsStructural <;> infer_instance

/-- All bodies of a table are structural. -/
def ClassTable.IsStructural (t : ClassTable) : Prop :=
  ∀ c ∈ t.classes, ∀ i ∈ c.instrs, i.IsStructural t

instance (t : ClassTable) : Decidable t.IsStructural :=
  inferInstanceAs (Decidable (∀ c ∈ t.classes, ∀ i ∈ c.instrs, i.IsStructural t))

variable {env : Environment} {start : ℕ} {s s' : Session}

/-- What a structural instruction asks for: a node, or an instantiation that its table admits. -/
inductive Request.IsDirect (env : Environment) : Request → Prop
  | produce (n : Node) : IsDirect env (.produce n)
  | create {target : Name} {args : List ValueId} {cls : ClassDef} :
      env.classes.lookup? target = some cls → args.length = cls.params.length →
      IsDirect env (.create target args)

theorem Frame.Starts.isDirect {f : Frame} {i : Instr} {req : Request} (h : f.Starts env i req)
    (hi : i.IsStructural env.classes) : req.IsDirect env := by
  cases h with
  | constant l => exact .produce _
  | object hids =>
    obtain ⟨cls, hcls, hlength⟩ := hi
    exact .create hcls ((mapM_eq_some_iff.1 hids).length_eq.symm.trans hlength)
  | list _ => exact .produce _
  | any _ => exact .produce _
  | _ => exact hi.elim

namespace Session

/-! ## The chain of demands -/

/-- At most one demand waits, and its instruction is not started yet. -/
inductive Flat (s : Session) : Prop
  | idle : s.chain.entries = [] → Flat s
  | single {a : Activation} : s.chain.entries = [a] → a.work = .start → Flat s

theorem Flat.length_le (h : s.Flat) : s.chain.entries.length ≤ 1 := by
  cases h with
  | idle hchain => rw [hchain]; exact Nat.zero_le 1
  | single hchain _ => rw [hchain]; exact le_rfl

/-- With a flat chain nothing is waited for. -/
theorem Flat.work_eq_start (h : s.Flat) {top : Activation} {rest : List Activation}
    (hchain : s.chain.entries = top :: rest) : top.work = .start ∧ rest = [] := by
  cases h with
  | idle hnil =>
    rw [hnil] at hchain
    cases hchain
  | single hsingle hwork =>
    rw [hsingle] at hchain
    cases hchain
    exact ⟨hwork, rfl⟩

/-- What a structural instruction asks for is served at once. -/
theorem flat_of_serve {top : Activation} {req : Request} (hchain : s.chain.entries = [top])
    (hreq : req.IsDirect env) (h : (s.counted top).serve env req = .running s') : s'.Flat := by
  have hsettle : ∀ (r : Session) (t : ValueId), r.chain = (s.counted top).chain →
      (r.settle t).Flat := by
    intro r t hr
    have hentries : r.chain.entries = [top] := by rw [hr, chain_counted, hchain]
    exact .idle (chain_settle hentries t)
  rcases serve_running h with ⟨task, focus, rfl, -⟩ | ⟨n, -, rfl⟩ | ⟨id, rfl, -⟩ |
    ⟨target, args, c, -, -, rfl⟩
  · cases hreq
  · exact hsettle _ _ rfl
  · cases hreq
  · cases c with
    | known object => exact hsettle _ _ rfl
    | fresh frame key fields => exact hsettle _ _ rfl

/-- An instantiation of a class of the table with an argument for each parameter is refused at the
limit on instances only. -/
theorem instanceLimit_of_creation {target : Name} {args : List ValueId} {cls : ClassDef}
    {e : Failure} (hargs : ∀ id ∈ args, id.index < s.nodes.size)
    (hcls : env.classes.lookup? target = some cls) (hlength : args.length = cls.params.length)
    (h : s.creation env target args = .error e) :
    ∃ max, env.limits.instances = some max ∧ e = .error (.ofKind (.instanceLimit max)) := by
  rcases creation_eq_error hargs h with ⟨hnone, -⟩ | ⟨cls', hcls', hne, -⟩ |
    ⟨_, _, max, -, -, -, -, hmax, -, rfl⟩
  · rw [hcls] at hnone
    cases hnone
  · rw [hcls] at hcls'
    cases hcls'
    exact absurd hlength hne
  · exact ⟨max, hmax, rfl⟩

section Structural

variable (htable : env.classes.IsStructural)
include htable

/-- An activation that starts in a structural table asks for nothing that it would wait for. -/
theorem Sound.isDirect (h : Sound env start s) {top : Activation} {req : Request}
    (hwork : top.work = .start) (hreq : Asks env s top req) : req.IsDirect env := by
  cases hreq with
  | start _ hf hi =>
    have hi := Array.mem_of_getElem? hi
    have hcls := (ClassTable.of_lookup?_eq_some (h.layout.known hf)).1
    exact (Frame.starts_start (h.layout.params_size hf) hi).isDirect (htable _ hcls _ hi)
  | resume hwork' _ _ _ =>
    rw [hwork] at hwork'
    cases hwork'

/-- A step keeps the chain flat: it adds the only demand, or it serves that one. -/
theorem Flat.transition (hflat : s.Flat) (h : Sound env start s) (ht : Transition env s s') :
    s'.Flat := by
  -- Whatever an activation that waits would do is not done.
  have hwait : ∀ {top : Activation} {rest : List Activation} {task : Task} {focus : ValueId}
      {unwrapped : ℕ}, s.chain.entries = top :: rest → top.work = .await task focus unwrapped →
        s'.Flat := by
    intro top rest task focus unwrapped hchain hwork
    rw [(hflat.work_eq_start hchain).1] at hwork
    cases hwork
  cases ht with
  | pass hchain _ _ => exact .idle hchain
  | skip hchain _ _ _ _ => exact .idle hchain
  | next hchain _ _ _ hdemand =>
    obtain ⟨f, chain, -, hentries, rfl⟩ := demand_running hdemand
    exact .single (hentries.trans (congrArg _ hchain)) rfl
  | demand hchain hwork _ _ => exact hwait hchain hwork
  | follow hchain hwork _ => exact hwait hchain hwork
  | unwrap hchain hwork _ _ _ => exact hwait hchain hwork
  | serve hchain hreq hserve =>
    obtain ⟨hwork, rfl⟩ := hflat.work_eq_start hchain
    exact flat_of_serve hchain (h.isDirect htable hwork hreq) hserve

/-- The chain of an evaluation that starts without demands is flat all the time. -/
theorem Flat.reaches (hflat : s.Flat) (h : Sound env start s) (hr : Reaches env s s') :
    s'.Flat :=
  (hr.induct (I := fun r => Sound env start r ∧ r.Flat)
    (fun _ _ hr ht => ⟨(hr.1.transition ht).2, hr.2.transition htable hr.1 ht⟩) ⟨h, hflat⟩).2

/-- A step that gives up has reached the limit on instances, unless no demand is allowed. -/
theorem Flat.instanceLimit_of_stopped (hflat : s.Flat) (h : Sound env start s)
    (hdepth : env.limits.depth ≠ some 0) {e : Failure} (hstep : s.step env = .stopped e s') :
    ∃ max, env.limits.instances = some max ∧ e = .error (.ofKind (.instanceLimit max)) := by
  cases hflat with
  | idle hchain =>
    -- Without demands there is nothing to stop at but a limit of no demands.
    cases h.step_stops hstep with
    | depth hpush =>
      obtain ⟨max, hmax, hle, -⟩ := DemandChain.push_eq_error hpush
      rw [s.chain.depth_eq, hchain, List.length_nil, Nat.le_zero] at hle
      exact absurd (hle ▸ hmax) hdepth
    | cycle hchain' _ _ =>
      rw [hchain] at hchain'
      cases hchain'
    | request hchain' _ =>
      rw [hchain] at hchain'
      cases hchain'
    | creation hchain' _ _ =>
      rw [hchain] at hchain'
      cases hchain'
  | @single top hchain hwork =>
    obtain ⟨req, hreq, heq⟩ := h.step_of_start hchain hwork
    rw [heq] at hstep
    have hdirect := h.isDirect htable hwork hreq
    rcases serve_stopped hstep with rfl | ⟨target, args, rfl, hc⟩
    · cases hdirect
    · have hargs : ∀ id ∈ args, id.index < (s.counted top).nodes.size := by
        intro id hid
        rw [nodes_counted]
        exact (h.safe hchain hreq id hid).lt h.layout.start_le
      cases hdirect with
      | create hcls hlength => exact instanceLimit_of_creation hargs hcls hlength hc

end Structural

end Session

/-! ## Requests -/

namespace Evaluator

variable {e : Evaluator} {w w₁ : Workspace} {n : Name} {params : List (Option Value)}
  {p : Preparation}

section
variable (hdepth : e.limits.depth ≠ some 0) (htable : (w.table e.table).IsStructural)
  (hprepare : e.prepare w n params = (w₁, .ok p))
  (hargs : ∀ id ∈ p.args, id.index < p.nodes.size)
include hdepth htable hprepare hargs

/-- A request that fails once its parameters are checked has reached the limit on instances. -/
theorem instanceLimit_of_instantiateName {steps : ℕ} {err : EvalError}
    (h : (e.instantiateName w n params steps).2 = .error (.error err)) :
    ∃ max, e.limits.instances = some max ∧ err = .ofKind (.instanceLimit max) := by
  have hp := prepare_eq_ok hprepare
  rw [← hp.limits] at hdepth ⊢
  rw [← hp.classes] at htable
  cases hc : Session.creation p.env { nodes := p.nodes } n p.args with
  | error f =>
    rw [instantiateName_of_prepare hprepare, Environment.evaluate, Environment.complete,
      Session.createObject, hc] at h
    cases h
    obtain ⟨cls, hcls, hlength⟩ := exists_args_length hprepare
    rw [← hp.classes] at hcls
    obtain ⟨max, hmax, heq⟩ := Session.instanceLimit_of_creation hargs hcls hlength hc
    exact ⟨max, hmax, Failure.error.inj heq⟩
  | ok c =>
    obtain ⟨f₀, -, hopens⟩ := Environment.opens_of_creation hc
    have hsound := hopens.sound hp.nodes
    obtain ⟨s, hr, ⟨final, -, heq⟩ | ⟨f, final, hstep, heq⟩⟩ :=
      Session.Ends.last ⟨steps, runFor_of_instantiateName hprepare hopens h⟩
    · cases heq
    · cases heq
      have hflat := (Session.Flat.idle hopens.chain).reaches htable hsound hr
      obtain ⟨max, hmax, heq⟩ :=
        hflat.instanceLimit_of_stopped htable (hsound.reaches hr).2 hdepth hstep
      exact ⟨max, hmax, Failure.error.inj heq⟩

end

/-- In a table of structural bodies a request with checked parameters has a result with enough steps,
or it reaches the limit on instances, unless no demand is allowed at all. Fewer steps are no other
error, and at most one demand waits in every state of the evaluation. -/
theorem instantiateName_structural {max : ℕ} (hmax : e.limits.instances = some max)
    (hdepth : e.limits.depth ≠ some 0) (htable : (w.table e.table).IsStructural) (hw : w.Built)
    (hparams : ∀ v, some v ∈ params → w.Holds v)
    (hprepare : e.prepare w n params = (w₁, .ok p)) :
    (∃ bound w' r, (∀ steps, bound ≤ steps → e.instantiateName w n params steps = (w', r)) ∧
      ((∃ v, r = .ok v) ∨ r = .error (.error (.ofKind (.instanceLimit max))))) ∧
    (∀ {steps : ℕ} {err : EvalError},
      (e.instantiateName w n params steps).2 = .error (.error err) →
        err = .ofKind (.instanceLimit max)) ∧
    ∀ {f₀ : Frame} {s₀ s : Session}, p.env.Opens p.nodes n p.args f₀ s₀ →
      Session.Reaches p.env s₀ s → s.chain.entries.length ≤ 1 := by
  have hargs := args_lt_of_prepare hw.whole hparams hprepare
  have herror : ∀ {steps : ℕ} {err : EvalError},
      (e.instantiateName w n params steps).2 = .error (.error err) →
        err = .ofKind (.instanceLimit max) := by
    intro steps err h
    obtain ⟨max', hmax', rfl⟩ :=
      instanceLimit_of_instantiateName hdepth htable hprepare hargs h
    rw [hmax] at hmax'
    cases hmax'
    rfl
  refine ⟨?_, herror, fun hopens hr => ?_⟩
  · obtain ⟨bound, w', r, hr, hend⟩ := exists_instantiateName_eq hmax hw.whole hparams
    refine ⟨bound, w', r, hr, ?_⟩
    rcases hend with hok | ⟨err, rfl⟩
    · exact Or.inl hok
    · have hbound := hr bound le_rfl
      rw [herror (congrArg Prod.snd hbound)]
      exact Or.inr rfl
  · have hp := prepare_eq_ok hprepare
    rw [← hp.classes] at htable
    exact ((Session.Flat.idle hopens.chain).reaches htable (hopens.sound hp.nodes) hr).length_le

end Evaluator

namespace Sample

/-- A class with a list that contains itself, a spoke and an erased type that wraps itself. -/
def hub : ClassDef where
  interner := ⟨0⟩
  name := ⟨1⟩
  params := []
  fields := [⟨⟨2⟩, .any⟩]
  instrs := #[.list .any [.instr 0, .instr 1, .instr 2], .object ⟨3⟩ [.instr 0], .any (.instr 2)]
  yields := [.instr 0]
  valid := ⟨by decide, by decide, by decide, by decide, rfl, by decide⟩

/-- A class with a hub and its parameter. -/
def spoke : ClassDef where
  interner := ⟨0⟩
  name := ⟨3⟩
  params := [⟨⟨2⟩, .any⟩]
  fields := [⟨⟨2⟩, .any⟩]
  instrs := #[.list .any [.instr 1, .param 0], .object ⟨1⟩ []]
  yields := [.instr 0]
  valid := ⟨by decide, by decide, by decide, by decide, rfl, by decide⟩

def wheelTable : ClassTable where
  interner := ⟨0⟩
  classes := [hub, spoke]
  names_nodup := by decide
  interner_eq := by decide

def wheel : Workspace :=
  ((["Hub", "item", "Spoke"].foldl (fun w s => (w.intern ⟨0⟩ s).2)
    (Workspace.addInterner {}).2).addTable wheelTable).2

/-- An evaluator that lets one demand wait at a time. -/
def turning (instances : ℕ) : Evaluator :=
  { table := ⟨0⟩, limits := { depth := some 1, instances := some instances } }

def wheelPreparation (instances : ℕ) : Preparation where
  env :=
    { classes := wheelTable, names := wheel.tableNames ⟨0⟩
      limits := { depth := some 1, instances := some instances } }
  nodes := #[]
  args := []

theorem built_wheel : wheel.Built :=
  .addTable _ (.intern _ _ (.intern _ _ (.intern _ _ (.addInterner .empty))))

/-- Everything in a hub refers to itself or to what refers to the hub. Two instances are enough for
it, and with one of them its evaluation stops at that limit. -/
theorem hub_structural :
    ((turning 2).limits.depth ≠ some 0 ∧ wheelTable.IsStructural ∧ wheel.Built) ∧
    (∃ w v, (turning 2).instantiateName wheel ⟨1⟩ [] 30 = (w, .ok v)) ∧
    (∃ bound w r, (∀ steps, bound ≤ steps →
      (turning 2).instantiateName wheel ⟨1⟩ [] steps = (w, r)) ∧
        ((∃ v, r = .ok v) ∨ r = .error (.error (.ofKind (.instanceLimit 2))))) ∧
    ∃ err, ((turning 1).instantiateName wheel ⟨1⟩ [] 30).2 = .error (.error err) ∧
      err = .ofKind (.instanceLimit 1) := by
  have hdepth : ∀ instances, (turning instances).limits.depth ≠ some 0 := by
    intro instances h
    cases h
  have htable : ∀ instances, (wheel.table (turning instances).table).IsStructural := by
    intro instances
    show wheelTable.IsStructural
    decide
  have hprepare : ∀ instances, (turning instances).prepare wheel ⟨1⟩ [] =
      (wheel, .ok (wheelPreparation instances)) := fun _ => rfl
  have hparams : ∀ v, some v ∈ [] → wheel.Holds v := fun _ hv => nomatch hv
  refine ⟨⟨hdepth 2, htable 2, built_wheel⟩, ?_, ?_, ?_⟩
  · have hok : ((turning 2).instantiateName wheel ⟨1⟩ [] 30).2.isOk = true := by decide +kernel
    exact exists_of_isOk hok
  · exact (Evaluator.instantiateName_structural rfl (hdepth 2) (htable 2) built_wheel hparams
      (hprepare 2)).1
  · have herror : ((turning 1).instantiateName wheel ⟨1⟩ [] 30).2 =
        .error (.error (.ofKind (.instanceLimit 1))) := by
      decide +kernel
    exact ⟨_, herror, (Evaluator.instantiateName_structural rfl (hdepth 1) (htable 1) built_wheel
      hparams (hprepare 1)).2.1 herror⟩

end Sample

end ObjectModel
