import ObjectModel.Proofs.Intake.Discovery
import ObjectModel.Proofs.TaskFailures

/-!
# The shape of errors

What the error of a request looks like, whatever the request was (`EvalError.Shaped`): its kind
decides how many notes it has and whether it has a cause. Only a failed integer operator has one,
the failure of the operator itself, and it is wrapped once however long the chain of demands is. An
operand that is no integer is no failure of the operator (`Evaluator.errors_shaped`).
-/

set_option autoImplicit false

namespace ObjectModel

/-! ## Shapes -/

/-- How many notes an error of this kind has. -/
def ErrorKind.NoteCount : ErrorKind → Nat → Prop
  | .parameterTypeMismatch _, count => count = 1
  | .dataflowCycle _, count => 2 ≤ count ∧ count ≤ 5
  | _, count => count = 0

/-- Errors of this kind have neither notes nor a cause. -/
def ErrorKind.IsBare : ErrorKind → Prop
  | .integerOperationFailed => False
  | .parameterTypeMismatch _ => False
  | .dataflowCycle _ => False
  | _ => True

namespace EvalError

/-- The message is that of the kind, exactly a failed integer operation has a cause, which is an
arithmetic failure and nothing else, and the kind tells the number of notes. -/
structure Shaped (e : EvalError) : Prop where
  message : e.message = e.kind.message
  cause_iff : (∃ c, e.cause? = some c) ↔ e.kind = .integerOperationFailed
  cause : ∀ c, e.cause? = some c →
    c.kind.IsArithmetic ∧ c.message = c.kind.message ∧ c.notes = [] ∧ c.cause? = none
  notes : e.kind.NoteCount e.notes.length

variable {e : EvalError}

/-- An error without a cause is shaped if it has the message and the notes of its kind. -/
theorem shaped_of_causes_eq_nil (hmessage : e.message = e.kind.message) (hcauses : e.causes = [])
    (hkind : e.kind ≠ .integerOperationFailed) (hnotes : e.kind.NoteCount e.notes.length) :
    e.Shaped := by
  have hcause : e.cause? = none := by rw [cause?, hcauses]
  refine ⟨hmessage, ⟨?_, fun h => absurd h hkind⟩, ?_, hnotes⟩
  all_goals simp [hcause]

/-- An error that is nothing but its kind is shaped, if neither notes nor a cause belong to it. -/
theorem shaped_ofKind {kind : ErrorKind} (h : kind.IsBare) : (ofKind kind).Shaped := by
  refine shaped_of_causes_eq_nil rfl rfl ?_ ?_
  · rintro rfl
    exact h
  · cases kind with
    | parameterTypeMismatch param => exact absurd h not_false
    | dataflowCycle cls => exact absurd h not_false
    | _ => rfl

/-- The error is nothing but its kind, to which neither notes nor a cause belong. -/
def IsBare (e : EvalError) : Prop := ∃ kind : ErrorKind, kind.IsBare ∧ e = ofKind kind

theorem isBare_ofKind {kind : ErrorKind} (h : kind.IsBare) : (ofKind kind).IsBare := ⟨kind, h, rfl⟩

theorem IsBare.shaped (h : e.IsBare) : e.Shaped := by
  obtain ⟨kind, hkind, rfl⟩ := h
  exact shaped_ofKind hkind

theorem shaped_integerOperationFailed {kind : ErrorKind} (h : kind.IsArithmetic) :
    (integerOperationFailed (ofKind kind)).Shaped where
  message := rfl
  cause_iff := ⟨fun _ => rfl, fun _ => ⟨_, rfl⟩⟩
  cause := by
    intro c hc
    cases hc
    exact ⟨h, rfl, rfl, rfl⟩
  notes := rfl

/-- The errors of instructions are shaped. -/
theorem Reported.shaped (h : e.Reported) : e.Shaped := by
  cases h with
  | mismatch expected got => exact shaped_ofKind trivial
  | field name => exact shaped_ofKind trivial
  | unknown op => exact shaped_ofKind trivial
  | arithmetic hkind => exact shaped_integerOperationFailed hkind

end EvalError

/-! ## Parameters -/

section Parameters

variable {w w' : Workspace} {target : TableId} {e : EvalError}

theorem Workspace.isBare_of_translateClass {source : Option TableId} {n : Name}
    (h : w.translateClass target source n = .error e) : e.IsBare := by
  rcases Workspace.translateClass_eq_error h with ⟨-, rfl⟩ | ⟨t, -, -, -, rfl⟩
  all_goals exact EvalError.isBare_ofKind trivial

theorem not_copiesOf_eq_error {copies : Index Value ValueId} {source : Arena} {g : GraphId}
    {ids : List ValueId} : copiesOf copies source g ids ≠ .error (.error e) := by
  intro h
  rw [copiesOf] at h
  split at h <;> cases h

theorem isBare_of_copyNode {copies : Index Value ValueId} {g : GraphId} {n : Node}
    (h : copyNode w target copies g n = (w', .error (.error e))) : e.IsBare := by
  cases n with
  | literal l => cases h
  | object cls fields =>
    cases hcls : w.translateClass target (w.graph g).table cls with
    | error e' =>
      simp only [copyNode, hcls, Prod.mk.injEq] at h
      cases h.2
      exact Workspace.isBare_of_translateClass hcls
    | ok c =>
      cases hids : copiesOf copies (w.graph g).nodes g (Node.object cls fields).children with
      | error f =>
        simp only [copyNode, hcls, hids, Prod.mk.injEq] at h
        cases h.2
        exact absurd hids not_copiesOf_eq_error
      | ok ids =>
        simp only [copyNode, hcls, hids, Prod.mk.injEq] at h
        cases h.2
  | list elem elements =>
    cases hids : copiesOf copies (w.graph g).nodes g (Node.list elem elements).children with
    | error f =>
      simp only [copyNode, hids, Prod.mk.injEq] at h
      cases h.2
      exact absurd hids not_copiesOf_eq_error
    | ok ids =>
      simp only [copyNode, hids, Prod.mk.injEq] at h
      cases h.2
  | any payload =>
    cases hids : copiesOf copies (w.graph g).nodes g (Node.any payload).children with
    | error f =>
      simp only [copyNode, hids, Prod.mk.injEq] at h
      cases h.2
      exact absurd hids not_copiesOf_eq_error
    | ok ids =>
      simp only [copyNode, hids, Prod.mk.injEq, bind, Except.bind] at h
      split at h <;> cases h.2
  | binding slot state =>
    cases h
    exact EvalError.isBare_ofKind trivial

theorem isBare_of_copyNodes {copies : Index Value ValueId} {g : GraphId} {ids : List ValueId}
    {nodes : Arena} (h : copyNodes target copies g ids w nodes = (w', .error (.error e))) :
    e.IsBare := by
  induction ids generalizing w nodes with
  | nil => cases h
  | cons id rest ih =>
    rw [copyNodes] at h
    split at h
    · cases h
    · split at h
      · exact ih h
      · rename_i hcopy
        cases h
        exact isBare_of_copyNode hcopy

/-- A value was copied for a declaration that does not accept its type. -/
inductive Intake.Mistyped (target : TableId) (w' : Workspace) (decl : Decl) (v : Value) : Ty → Prop
  | intro {w : Workspace} {intake intake' : Intake} {id : ValueId} :
      Intake.add target w intake v = (w', .ok (id, intake')) →
      decl.type.accepts (intake'.runtimeType id) = false →
      Mistyped target w' decl v (intake'.runtimeType id)

/-- A parameter is refused with a bare error, or for its type, which a note tells beside the one
that is declared. -/
theorem Intake.addParams_eq_error {intake : Intake} {ps : List (Decl × Value)}
    (h : Intake.addParams target ps w intake = (w', .error (.error e))) :
    e.IsBare ∨ ∃ p ∈ ps, ∃ found, Mistyped target w' p.1 p.2 found ∧
      e = .parameterTypeMismatch ((w'.tableNames target).text p.1.name)
        (p.1.type.render (w'.tableNames target)) (found.render (w'.tableNames target)) := by
  induction ps generalizing w intake with
  | nil => cases h
  | cons p rest ih =>
    obtain ⟨decl, v⟩ := p
    rcases addParams_cons_eq_error h with
      hadd | ⟨w₁, id, intake₁, hadd, ⟨-, hrest⟩ | ⟨hrefused, rfl, he⟩⟩
    · exact Or.inl (isBare_of_copyNodes (add_eq_error hadd))
    · rcases ih hrest with hbare | ⟨p, hp, hmistyped⟩
      · exact Or.inl hbare
      · exact Or.inr ⟨p, List.mem_cons_of_mem _ hp, hmistyped⟩
    · cases he
      exact Or.inr ⟨_, List.mem_cons_self, _, .intro hadd hrefused, rfl⟩

/-- A request that is not prepared has a bare error, or one of its parameters is refused. -/
theorem Evaluator.prepare_eq_error {ev : Evaluator} {n : Name} {params : List (Option Value)}
    (h : ev.prepare w n params = (w', .error (.error e))) :
    e.IsBare ∨ ∃ c present, (w.table ev.table).lookup? n = some c ∧
      params.length = c.params.length ∧ presentParams c.params params = .ok present ∧
      Intake.addParams ev.table present w {} = (w', .error (.error e)) := by
  rw [prepare] at h
  split at h
  · cases h
    exact Or.inl (EvalError.isBare_ofKind trivial)
  · rename_i c hc
    split at h
    · cases h
      exact Or.inl (EvalError.isBare_ofKind trivial)
    · rename_i hlength
      split at h
      · cases h
        exact Or.inl (EvalError.isBare_ofKind trivial)
      · rename_i present hpresent
        split at h
        · rename_i hadd
          cases h
          exact Or.inr ⟨c, present, hc, not_not.1 hlength, hpresent, hadd⟩
        · cases h

/-- A request is refused with a shaped error, in particular for the type of a parameter: one note
tells both types. -/
theorem Evaluator.shaped_of_prepare {ev : Evaluator} {n : Name} {params : List (Option Value)}
    (h : ev.prepare w n params = (w', .error (.error e))) : e.Shaped := by
  rcases prepare_eq_error h with hbare | ⟨c, present, -, -, -, hadd⟩
  · exact hbare.shaped
  · rcases Intake.addParams_eq_error hadd with hbare | ⟨p, -, found, -, rfl⟩
    · exact hbare.shaped
    · exact EvalError.shaped_of_causes_eq_nil rfl rfl (fun h => nomatch h) rfl

end Parameters

/-! ## Evaluations -/

namespace Session

variable {env : Environment} {start : Nat} {s : Session} {e : EvalError}

/-- An instantiation is refused with a bare error. -/
theorem isBare_of_creation {target : Name} {args : List ValueId}
    (h : s.creation env target args = .error (.error e)) : e.IsBare := by
  rw [creation] at h
  split at h
  · cases h
    exact EvalError.isBare_ofKind trivial
  · split at h
    · cases h
      exact EvalError.isBare_ofKind trivial
    · split at h
      · cases h
      · split at h
        · cases h
        · split at h
          · cases h
            exact EvalError.isBare_ofKind trivial
          · dsimp only at h
            split at h <;> cases h

/-- The error of a cycle has one note of its own and one for each of the four most recent demands,
of which there is at least one: that of the activation which met the cycle. -/
theorem shaped_of_cycleFailure {top : Activation} {rest : List Activation}
    (hchain : s.chain.entries = top :: rest) {slot : Slot} {f : Frame}
    (hf : s.frames[slot.frame]? = some f) (h : s.cycleFailure env slot = .error e) : e.Shaped := by
  rw [cycleFailure_eq hf] at h
  cases h
  refine EvalError.shaped_of_causes_eq_nil rfl rfl (fun h => nomatch h) ?_
  have hdepth : s.chain.depth = rest.length + 1 := by
    rw [s.chain.depth_eq, hchain, List.length_cons]
  show 2 ≤ List.length _ ∧ List.length _ ≤ 5
  rw [List.length_cons, List.length_map, List.length_take, List.length_map, hchain,
    List.length_cons, hdepth]
  omega

theorem Sound.shaped_of_stops (h : Sound env start s) (hs : Stops env s (.error e)) :
    e.Shaped := by
  generalize hfail : Failure.error e = failure at hs
  cases hs with
  | cycle hchain _ hn =>
    obtain ⟨f, hf⟩ := h.exists_frame hn
    exact shaped_of_cycleFailure hchain hf hfail.symm
  | depth hpush =>
    cases hfail
    obtain ⟨max, -, -, rfl⟩ := DemandChain.push_eq_error hpush
    exact EvalError.shaped_ofKind trivial
  | request hchain hreq =>
    cases hfail
    exact (h.reported hreq).shaped
  | creation hchain hreq hc =>
    cases hfail
    exact (isBare_of_creation hc).shaped

/-- A run that fails comes to a session that stops. -/
theorem Sound.exists_stops (h : Sound env start s) (hrun : s.Ends env (.error (.error e))) :
    ∃ last, Sound env start last ∧ Stops env last (.error e) := by
  obtain ⟨last, hreach, ⟨final, -, heq⟩ | ⟨f, final, hstep, heq⟩⟩ := hrun.last
  · cases heq
  · cases heq
    have hlast := (h.reaches hreach).2
    exact ⟨last, hlast, hlast.step_stops hstep⟩

end Session

/-! ## Integer operands -/

namespace Arena

variable {a : Arena} {lhs rhs x : ValueId}

/-- The first of two operands that is no integer. -/
inductive Misfit (a : Arena) (lhs rhs : ValueId) : ValueId → Prop
  | left : (∀ i, a.node? lhs ≠ some (.literal (.int i))) → Misfit a lhs rhs lhs
  | right {l : IntLit} : a.node? lhs = some (.literal (.int l)) →
      (∀ i, a.node? rhs ≠ some (.literal (.int i))) → Misfit a lhs rhs rhs

theorem intAt_eq_error_iff {e : EvalError} :
    a.intAt x = .error e ↔ (∀ i, a.node? x ≠ some (.literal (.int i))) ∧
      e = .ofKind (.typeMismatch "integer" (a.kind x)) := by
  constructor
  · intro h
    refine ⟨fun i hn => ?_, intAt_eq_error h⟩
    rw [intAt_eq_ok_iff.2 hn] at h
    cases h
  · rintro ⟨hn, rfl⟩
    rw [intAt]
    split
    · rename_i i hi
      exact absurd hi (hn i)
    · rfl

theorem Misfit.fails (h : a.Misfit lhs rhs x) (env : Environment) (op : IntOp) :
    (Task.right op lhs).Fails env a rhs (.ofKind (.typeMismatch "integer" (a.kind x))) := by
  cases h with
  | left hl => exact .left (intAt_eq_error_iff.2 ⟨hl, rfl⟩)
  | right hl hr => exact .right (intAt_eq_ok_iff.2 hl) (intAt_eq_error_iff.2 ⟨hr, rfl⟩)

end Arena

/-- Nothing but an integer operator asks for an integer. -/
theorem Task.Fails.misfit {env : Environment} {a : Arena} {v : ValueId} {task : Task}
    {e : EvalError} {got : String} (h : task.Fails env a v e)
    (hk : e.kind = .typeMismatch "integer" got) :
    ∃ op lhs x, task = .right op lhs ∧ a.Misfit lhs v x ∧ got = a.kind x := by
  have hkind : ∀ {kind : ErrorKind}, e = .ofKind kind → kind = .typeMismatch "integer" got := by
    intro kind he
    rw [he] at hk
    exact hk
  -- Only an operator expects an integer: a projection expects an object, a concatenation lists.
  cases h with
  | field hfield =>
    rcases Arena.fieldAt_eq_error hfield with he | he
    · exact absurd (ErrorKind.typeMismatch.inj (hkind he)).1 (by decide)
    · cases hkind he
  | list hlist =>
    obtain ⟨id, -, he⟩ := Arena.listsAt_eq_error hlist
    exact absurd (ErrorKind.typeMismatch.inj (hkind he)).1 (by decide)
  | concat hls hconcat =>
    obtain ⟨l, l', he⟩ := TypedList.concat_eq_error (Arena.listsAt_ne_nil hls) hconcat
    exact absurd (ErrorKind.typeMismatch.inj (hkind he)).1 (l.outline_ne (by decide))
  | @left op lhs _ hl =>
    obtain ⟨hl, he⟩ := Arena.intAt_eq_error_iff.1 hl
    exact ⟨op, lhs, lhs, rfl, .left hl, (ErrorKind.typeMismatch.inj (hkind he)).2.symm⟩
  | @right op lhs l _ hl hr =>
    obtain ⟨hr, he⟩ := Arena.intAt_eq_error_iff.1 hr
    exact ⟨op, lhs, v, rfl, .right (Arena.intAt_eq_ok_iff.1 hl) hr,
      (ErrorKind.typeMismatch.inj (hkind he)).2.symm⟩
  | operator hl hr happly =>
    obtain ⟨kind, -, he⟩ := IntOp.apply_eq_error happly
    rw [he] at hk
    cases hk

namespace Session

variable {env : Environment} {start : Nat} {s : Session}

/-- The most recent activation is at an integer operator, and both operands are there. -/
inductive Operates (s : Session) (op : IntOp) (lhs rhs : ValueId) : Prop
  | intro {top : Activation} {rest : List Activation} {unwrapped : Nat} {n : Node} :
      s.chain.entries = top :: rest → top.work = .await (.right op lhs) rhs unwrapped →
      s.nodes.node? rhs = some n → n.isBinding = false →
      (∀ p, n = .any p → s.nodes.size < unwrapped) → Operates s op lhs rhs

variable {op : IntOp} {lhs rhs x : ValueId}

theorem operates_iff_faces : s.Operates op lhs rhs ↔ s.Faces (.right op lhs) rhs := by
  constructor
  · rintro ⟨hchain, hwork, hn, hb, hany⟩
    exact .intro hchain hwork hn hb fun p hp h => absurd h.2 (Nat.not_le.2 (hany p hp))
  · rintro ⟨hchain, hwork, hn, hb, hany⟩
    exact .intro hchain hwork hn hb fun p hp => Nat.lt_of_not_le fun hle => hany p hp ⟨rfl, hle⟩

/-- An operand that is no integer stops the session with a type mismatch. -/
theorem Operates.step_of_misfit (h : s.Operates op lhs rhs) (hx : s.nodes.Misfit lhs rhs x)
    (env : Environment) : ∃ s', s.step env =
      .stopped (.error (.ofKind (.typeMismatch "integer" (s.nodes.kind x)))) s' :=
  (operates_iff_faces.1 h).step_of_fails (hx.fails env op)

/-- A session that stops for want of an integer is at an integer operator. -/
theorem Stops.operates {e : EvalError} {got : String} (h : Stops env s (.error e))
    (hk : e.kind = .typeMismatch "integer" got) (hs : Sound env start s) :
    ∃ op lhs rhs x, s.Operates op lhs rhs ∧ s.nodes.Misfit lhs rhs x ∧ got = s.nodes.kind x := by
  obtain ⟨task, v, hfaces, hfails⟩ := h.fails hk hs
  obtain ⟨op, lhs, x, rfl, hx, hgot⟩ := hfails.misfit hk
  exact ⟨op, lhs, v, x, operates_iff_faces.2 hfaces, hx, hgot⟩

end Session

/-! ## Requests -/

namespace Evaluator

variable {e : Evaluator} {w w₁ : Workspace} {n : Name} {params : List (Option Value)} {steps : Nat}
  {err : EvalError}

/-- Why a request fails: it is not prepared, its class is not instantiated, or the evaluation stops.
The workspace stays as the preparation leaves it. -/
theorem instantiateName_eq_error
    (h : e.instantiateName w n params steps = (w₁, .error (.error err))) :
    e.prepare w n params = (w₁, .error (.error err)) ∨
      ∃ p, e.prepare w n params = (w₁, .ok p) ∧
        (Session.creation p.env { nodes := p.nodes } n p.args = .error (.error err) ∨
          ∃ start s, Session.Sound p.env start s ∧ Session.Stops p.env s (.error err)) := by
  rw [instantiateName] at h
  split at h
  · rename_i hprepare
    cases h
    exact Or.inl hprepare
  · rename_i w₂ p hprepare
    have hnodes := (prepare_eq_ok hprepare).nodes
    rw [Environment.evaluate] at h
    cases hcomplete : p.env.complete p.nodes n p.args steps with
    | error f =>
      simp only [hcomplete, bind, Except.bind] at h
      cases h
      refine Or.inr ⟨p, hprepare, ?_⟩
      rcases Environment.complete_eq_error hcomplete with hc | ⟨f₀, s₀, hopens, hrun | hrun⟩
      · exact Or.inl hc
      · obtain ⟨last, hlast, hstops⟩ := (hopens.sound hnodes).exists_stops ⟨steps, hrun⟩
        exact Or.inr ⟨_, last, hlast, hstops⟩
      · cases hrun.2
    | ok r =>
      -- What an evaluation leaves behind is sealed, so nothing fails after it.
      obtain ⟨root, s⟩ := r
      obtain ⟨f₀, s₀, hopens, -, hrun⟩ := Environment.complete_eq_ok_iff.1 hcomplete
      have hwhole := (hopens.ends hnodes ⟨steps, hrun⟩).2.whole
      simp only [hcomplete, hwhole.sealed, bind, Except.bind, pure, Except.pure] at h
      cases h

theorem shaped_of_instantiateName
    (h : (e.instantiateName w n params steps).2 = .error (.error err)) : err.Shaped := by
  rcases instantiateName_eq_error (Prod.ext rfl h) with
    hprepare | ⟨p, -, hc | ⟨start, s, hsound, hstops⟩⟩
  · exact shaped_of_prepare hprepare
  · exact (Session.isBare_of_creation hc).shaped
  · exact hsound.shaped_of_stops hstops

theorem shaped_of_instantiate {cls : String}
    (h : (e.instantiate w cls params).2 = .error (.error err)) : err.Shaped := by
  rw [instantiate] at h
  split at h
  · cases h
    exact EvalError.shaped_ofKind trivial
  · exact shaped_of_instantiateName h

theorem shaped_of_mem_instantiateAll {requests : List Instantiation}
    (h : .error (.error err) ∈ (e.instantiateAll requests w).2) : err.Shaped := by
  induction requests generalizing w with
  | nil => cases h
  | cons r rest ih =>
    rcases List.mem_cons.1 h with h | h
    · exact shaped_of_instantiate h.symm
    · exact ih h

/-- Every error of a request has the shape of its kind, whatever workspace, class and parameters the
request is made with. A request fails with a type mismatch for want of an integer exactly if its
evaluation comes to an integer operator with an operand that is none; that error has no cause. -/
theorem errors_shaped :
    (∀ {e : Evaluator} {w : Workspace} {n : Name} {params : List (Option Value)} {steps : Nat}
      {err : EvalError}, (e.instantiateName w n params steps).2 = .error (.error err) →
        err.Shaped) ∧
    (∀ {e : Evaluator} {w : Workspace} {cls : String} {params : List (Option Value)}
      {err : EvalError}, (e.instantiate w cls params).2 = .error (.error err) → err.Shaped) ∧
    (∀ {e : Evaluator} {w : Workspace} {requests : List Instantiation} {err : EvalError},
      .error (.error err) ∈ (e.instantiateAll requests w).2 → err.Shaped) ∧
    ∀ {e : Evaluator} {w w₁ : Workspace} {n : Name} {params : List (Option Value)}
      {p : Preparation} {f₀ : Frame} {s₀ : Session}, e.prepare w n params = (w₁, .ok p) →
        p.env.Opens p.nodes n p.args f₀ s₀ →
      (∀ {s : Session} {op : IntOp} {lhs rhs x : ValueId}, Session.Reaches p.env s₀ s →
        s.Operates op lhs rhs → s.nodes.Misfit lhs rhs x →
          ∃ m err, err.kind = .typeMismatch "integer" (s.nodes.kind x) ∧ err.cause? = none ∧
            ∀ steps ≥ m, e.instantiateName w n params steps = (w₁, .error (.error err))) ∧
      ∀ {steps : Nat} {err : EvalError} {got : String},
        (e.instantiateName w n params steps).2 = .error (.error err) →
          err.kind = .typeMismatch "integer" got → ∃ s op lhs rhs x,
            Session.Reaches p.env s₀ s ∧ s.Operates op lhs rhs ∧ s.nodes.Misfit lhs rhs x ∧
              got = s.nodes.kind x := by
  refine ⟨shaped_of_instantiateName, shaped_of_instantiate, shaped_of_mem_instantiateAll, ?_⟩
  intro e w w₁ n params p f₀ s₀ hprepare hopens
  constructor
  · intro s op lhs rhs x hreach hop hx
    obtain ⟨s', hstep⟩ := hop.step_of_misfit hx p.env
    obtain ⟨m, hm⟩ := hreach.ends ⟨1, by rw [Session.runFor, hstep]⟩
    refine ⟨m, .ofKind (.typeMismatch "integer" (s.nodes.kind x)), rfl, rfl, fun steps hle => ?_⟩
    refine instantiateName_of_runFor hprepare hopens ?_
    rw [Session.runFor_of_le hle hm]
    rfl
  · intro steps err got h hk
    obtain ⟨s, hr, ⟨final, -, heq⟩ | ⟨f, final, hstep, heq⟩⟩ :=
      Session.Ends.last ⟨steps, runFor_of_instantiateName hprepare hopens h⟩
    · cases heq
    · cases heq
      have hs := ((hopens.sound (prepare_eq_ok hprepare).nodes).reaches hr).2
      obtain ⟨op, lhs, rhs, x, hop, hx, hgot⟩ := (hs.step_stops hstep).operates hk hs
      exact ⟨s, op, lhs, rhs, x, hr, hop, hx, hgot⟩

end Evaluator

namespace Sample

/-- A class that shifts one to the left by an amount. -/
def shift (amount : Literal) : ClassDef where
  interner := ⟨0⟩
  name := ⟨1⟩
  params := []
  fields := [⟨⟨2⟩, .any⟩]
  instrs := #[.binary .shl (.instr 1) (.instr 2), .constant (.int ⟨1, 8, .signed⟩),
    .constant amount]
  yields := [.instr 0]
  valid := ⟨by simp, by simp, by simp [Instr.operands, LocalRef.InRange], by simp, rfl,
    by simp [LocalRef.InRange]⟩

def shiftTable (amount : Literal) : ClassTable where
  interner := ⟨0⟩
  classes := [shift amount]
  names_nodup := by simp
  interner_eq := by simp [shift]

/-- A workspace with the table of the class. -/
def shifting (amount : Literal) : Workspace :=
  ((["Shift", "result"].foldl (fun w s => (w.intern ⟨0⟩ s).2) (Workspace.addInterner {}).2).addTable
    (shiftTable amount)).2

def shiftPreparation (amount : Literal) : Preparation where
  env :=
    { classes := shiftTable amount, names := (shifting amount).tableNames ⟨0⟩, limits := {} }
  nodes := #[]
  args := []

/-- A shift by minus one fails in the operator, which is the cause of the error. A shift by a truth
value fails before it, and without a cause: the second operand is no integer. -/
theorem shift_errors :
    (∃ err, (evaluator.instantiateName (shifting (.int ⟨-1, 8, .signed⟩)) ⟨1⟩ [] 20).2 =
      .error (.error err) ∧ err.kind = .integerOperationFailed ∧ err.Shaped) ∧
    ∃ m err, err.kind = .typeMismatch "integer" "bool" ∧ err.cause? = none ∧
      ∀ steps ≥ m, evaluator.instantiateName (shifting (.bool true)) ⟨1⟩ [] steps =
        (shifting (.bool true), .error (.error err)) := by
  constructor
  · have hresult : (evaluator.instantiateName (shifting (.int ⟨-1, 8, .signed⟩)) ⟨1⟩ [] 20).2 =
        .error (.error
          (.integerOperationFailed (.ofKind (.negativeShiftAmount "integer.shl")))) := by
      decide +kernel
    exact ⟨_, hresult, rfl, Evaluator.errors_shaped.1 hresult⟩
  · have hprepare : evaluator.prepare (shifting (.bool true)) ⟨1⟩ [] =
        (shifting (.bool true), .ok (shiftPreparation (.bool true))) := rfl
    have hresult : (evaluator.instantiateName (shifting (.bool true)) ⟨1⟩ [] 20).2 =
        .error (.error (.ofKind (.typeMismatch "integer" "bool"))) := by
      decide +kernel
    have hcreation : Session.creation (shiftPreparation (.bool true)).env { nodes := #[] } ⟨1⟩ [] =
        .ok (.fresh { cls := shift (.bool true), params := #[], base := 0 } ⟨⟨1⟩, []⟩ [⟨0⟩]) := rfl
    obtain ⟨f₀, -, hopens⟩ := Environment.opens_of_creation hcreation
    obtain ⟨hmismatch, hoperand⟩ := Evaluator.errors_shaped.2.2.2 hprepare hopens
    obtain ⟨s, op, lhs, rhs, x, hr, hop, hx, hgot⟩ := hoperand hresult rfl
    obtain ⟨m, err, hkind, hcause, hm⟩ := hmismatch hr hop hx
    exact ⟨m, err, hgot ▸ hkind, hcause, hm⟩

end Sample

end ObjectModel
