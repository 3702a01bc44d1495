import ObjectModel.Proofs.Instantiation
import ObjectModel.Proofs.Intake.Discovery
import ObjectModel.Proofs.Session.Stop

/-!
# No internal failure

In a workspace that was built by the calls of its interface alone (`Workspace.Built`) every position
of every graph stands for a value. So a request whose parameters are values of such graphs reads
nothing out of range, neither while the parameters are copied nor in any state of the evaluation
(`Session.InRange`), and it fails with an error of its own kind if it fails at all
(`Evaluator.instantiateName_error_specific`).
-/

set_option autoImplicit false

namespace ObjectModel

/-! ## Workspaces in use -/

namespace Workspace

/-- A value of a graph of the workspace. -/
def Holds (w : Workspace) (v : Value) : Prop := (w.graph v.graph).nodes.IsValue v.id

/-- A workspace after some calls: interners, class tables and standalone values are added, strings
are interned, and classes are instantiated with parameters that the workspace holds. -/
inductive Built : Workspace → Prop
  | empty : Built {}
  | addInterner {w : Workspace} : Built w → Built w.addInterner.2
  | intern {w : Workspace} (id : InternerId) (s : String) : Built w → Built (w.intern id s).2
  | addTable {w : Workspace} (t : ClassTable) : Built w → Built (w.addTable t).2
  | addLiteral {w : Workspace} (l : Literal) : Built w → Built (w.addLiteral l).2
  | addLiterals {w : Workspace} (elem : Ty) (ls : List Literal) : Built w →
      Built (w.addLiterals elem ls).2
  | instantiateName {w : Workspace} (e : Evaluator) (n : Name) (params : List (Option Value))
      (steps : Nat) : Built w → (∀ v, some v ∈ params → w.Holds v) →
      Built (e.instantiateName w n params steps).1

/-- Every position of every graph stands for a value. -/
def Whole (w : Workspace) : Prop := ∀ g, (w.graph g).nodes.Whole

end Workspace

theorem Arena.SelfContained.whole {a : Arena} (h : a.SelfContained) : a.Whole where
  resolved := by
    intro id slot state hn
    have := h.value hn
    cases this
  children := h.children

namespace Graph

theorem node?_ofLiteral {l : Literal} {id : ValueId} {n : Node}
    (h : (ofLiteral l).nodes.node? id = some n) : n = .literal l := by
  rcases Arena.eq_or_of_node?_push (a := #[]) h with ⟨-, rfl⟩ | h
  · rfl
  · simp [Arena.node?] at h

theorem node?_ofLiterals {elem : Ty} {ls : List Literal} {id : ValueId} {n : Node}
    (h : (ofLiterals elem ls).nodes.node? id = some n) :
    (∃ l, n = .literal l) ∨ n = .list elem ((List.range ls.length).map ValueId.mk) := by
  rcases Arena.eq_or_of_node?_push h with ⟨-, rfl⟩ | h
  · exact Or.inr rfl
  · rw [Arena.node?, List.getElem?_toArray, List.getElem?_map] at h
    obtain ⟨l, -, rfl⟩ := Option.map_eq_some_iff.1 h
    exact Or.inl ⟨l, rfl⟩

theorem whole_ofLiteral (l : Literal) : (ofLiteral l).nodes.Whole := by
  refine ⟨fun h => ?_, fun h c hc => ?_⟩
  · cases node?_ofLiteral h
  · cases node?_ofLiteral h
    cases hc

theorem whole_ofLiterals (elem : Ty) (ls : List Literal) : (ofLiterals elem ls).nodes.Whole := by
  refine ⟨fun h => ?_, fun h c hc => ?_⟩
  · rcases node?_ofLiterals h with ⟨l, hl⟩ | hl <;> cases hl
  · rcases node?_ofLiterals h with ⟨l, rfl⟩ | rfl
    · cases hc
    · obtain ⟨i, hi, rfl⟩ := List.mem_map.1 hc
      have := List.mem_range.1 hi
      show i < Array.size (Array.push _ _)
      rw [Array.size_push, List.size_toArray, List.length_map]
      omega

end Graph

namespace Workspace

variable {w w' : Workspace}

theorem Whole.keeps (h : w.Whole) (hw : w.Keeps w') : w'.Whole := by
  intro g
  rw [hw.graph]
  exact h g

/-- A graph that is added is the only one that is new. -/
theorem graph_push (w : Workspace) (g : Graph) (id : GraphId) :
    Workspace.graph { w with graphs := w.graphs.push g } id = g ∨
      Workspace.graph { w with graphs := w.graphs.push g } id = w.graph id := by
  rw [graph, Array.getElem?_push]
  split
  · exact Or.inl rfl
  · exact Or.inr rfl

/-- A graph that is added may be any that is whole. -/
theorem Whole.push (h : w.Whole) {g : Graph} (hg : g.nodes.Whole) :
    Whole { w with graphs := w.graphs.push g } := by
  intro id
  rcases w.graph_push g id with heq | heq
  all_goals rw [heq]
  · exact hg
  · exact h id

end Workspace

theorem Evaluator.prepare_keeps (e : Evaluator) (w : Workspace) (n : Name)
    (params : List (Option Value)) : w.Keeps (e.prepare w n params).1 := by
  rw [prepare]
  split
  · exact .refl w
  · split
    · exact .refl w
    · split
      · exact .refl w
      · rename_i present _
        have hk := Workspace.Keeps.addParams e.table present w {}
        split
        · rename_i w₁ f heq
          rw [heq] at hk
          exact hk
        · rename_i w₁ args intake heq
          rw [heq] at hk
          exact hk

/-- A request leaves the workspace with the names that its parameters brought along and, if it
succeeds, with one more graph. -/
theorem Evaluator.workspace_instantiateName (e : Evaluator) (w : Workspace) (n : Name)
    (params : List (Option Value)) (steps : Nat) :
    ∃ w₁, w.Keeps w₁ ∧ ((e.instantiateName w n params steps).1 = w₁ ∨
      ∃ p f s₀ s, e.prepare w n params = (w₁, .ok p) ∧ p.env.Opens p.nodes n p.args f s₀ ∧
        s₀.Ends p.env (.ok s) ∧ (e.instantiateName w n params steps).1 =
          { w₁ with
            graphs := w₁.graphs.push
              { nodes := s.nodes.finish, table := some e.table, stats := s.stats } }) := by
  have hkeeps := e.prepare_keeps w n params
  -- Only a request that succeeds adds a graph; what its parameters bring along stays in both cases.
  cases hresult : (e.instantiateName w n params steps).2 with
  | error f =>
    rw [instantiateName] at hresult ⊢
    split
    · rename_i w₁ f' heq
      rw [heq] at hkeeps
      exact ⟨w₁, hkeeps, Or.inl rfl⟩
    · rename_i w₁ p heq
      rw [heq] at hkeeps hresult
      dsimp only at hresult
      split
      · exact ⟨w₁, hkeeps, Or.inl rfl⟩
      · rename_i g root heval
        rw [heval] at hresult
        cases hresult
  | ok v =>
    have hok : e.instantiateName w n params steps =
        ((e.instantiateName w n params steps).1, .ok v) := by
      rw [← hresult]
    obtain ⟨w₁, p, root, s, nodes, hp, hcomplete, hsealed, hadd⟩ := instantiateName_eq_ok_iff.1 hok
    obtain ⟨f, s₀, hopens, -, hrun⟩ := Environment.complete_eq_ok_iff.1 hcomplete
    have hwhole := (hopens.ends (prepare_eq_ok hp).nodes ⟨steps, hrun⟩).2.whole
    rw [hwhole.sealed] at hsealed
    cases hsealed
    rw [hp] at hkeeps
    exact ⟨w₁, hkeeps, Or.inr ⟨p, f, s₀, s, hp, hopens, ⟨steps, hrun⟩,
      (congrArg Prod.snd hadd).symm⟩⟩

/-- A request adds a whole graph, or none. -/
theorem Workspace.Whole.instantiateName {w : Workspace} (h : w.Whole) (e : Evaluator) (n : Name)
    (params : List (Option Value)) (steps : Nat) :
    (e.instantiateName w n params steps).1.Whole := by
  obtain ⟨w₁, hkeeps, heq | ⟨p, f, s₀, s, hp, hopens, hends, heq⟩⟩ :=
    e.workspace_instantiateName w n params steps
  · rw [heq]
    exact h.keeps hkeeps
  · rw [heq]
    have hdone := (hopens.ends (Evaluator.prepare_eq_ok hp).nodes hends).2
    exact (h.keeps hkeeps).push hdone.whole.finish

/-- In a workspace in use every position of every graph stands for a value. -/
theorem Workspace.Built.whole {w : Workspace} (h : w.Built) : w.Whole := by
  induction h with
  | empty =>
    intro g
    exact Arena.selfContained_empty.whole
  | addInterner _ ih => exact ih
  | intern _ _ _ ih => exact ih
  | addTable _ _ ih => exact ih
  | addLiteral l _ ih => exact ih.push (Graph.whole_ofLiteral l)
  | addLiterals elem ls _ ih => exact ih.push (Graph.whole_ofLiterals elem ls)
  | instantiateName e n params steps _ _ ih => exact ih.instantiateName e n params steps

/-! ## States in range -/

/-- Every index that an evaluation reads in this state is in range. -/
structure Session.InRange (s : Session) : Prop where
  /-- Each local that a class has is there in its frames. -/
  locals : ∀ {k : Nat} {f : Frame}, s.frames[k]? = some f → ∀ {r : LocalRef},
    r.InRange f.cls.params.length f.cls.instrs.size →
      ∃ id, f.local? r = some id ∧ id.index < s.nodes.size
  object : ∀ {k : Nat} {f : Frame}, s.frames[k]? = some f → f.object.index < s.nodes.size
  children : ∀ {id : ValueId} {n : Node}, s.nodes.node? id = some n →
    ∀ c ∈ n.children, c.index < s.nodes.size
  /-- A binding has the instruction of a frame, and a value of its own arena if it names one. -/
  binding : ∀ {id : ValueId} {slot : Slot} {state : BindingState},
    s.nodes.node? id = some (.binding slot state) → (∃ f i, s.Located slot f i) ∧
      ∀ t, state = .resolved t → t.index < s.nodes.size
  waiting : ∀ a ∈ s.chain.entries, (∃ f i, s.Located a.slot f i) ∧
    a.binding.index < s.nodes.size ∧ ∀ p ∈ a.work.positions, p.index < s.nodes.size
  memo : ∀ {key : MemoKey} {o : ValueId}, s.memo.get? key = some o → o.index < s.nodes.size

theorem Session.Sound.inRange {env : Environment} {start : Nat} {s : Session}
    (h : s.Sound env start) : s.InRange where
  locals := by
    intro k f hf r hr
    obtain ⟨id, hid⟩ := Frame.exists_local? (h.layout.params_size hf) hr
    exact ⟨id, hid, (h.layout.isLocal hf hid).lt h.layout.start_le⟩
  object := by
    intro k f hf
    obtain ⟨fields, -, hobj⟩ := h.layout.object hf
    exact Arena.node?_lt hobj
  children := h.layout.children
  binding := by
    intro id slot state hn
    refine ⟨Session.Located.of_binding h.layout hn, ?_⟩
    rintro t rfl
    exact (h.layout.resolved hn).lt
  waiting := by
    intro a ha
    have hn := h.waiting a ha
    exact ⟨Session.Located.of_binding h.layout hn, Arena.node?_lt hn, h.positions a ha⟩
  memo := by
    intro key o ho
    obtain ⟨k, f, hf, rfl, -⟩ := h.memoized.origin ho
    obtain ⟨fields, -, hobj⟩ := h.layout.object hf
    exact Arena.node?_lt hobj

/-! ## Requests -/

namespace Evaluator

variable {e : Evaluator} {w w₁ : Workspace} {n : Name} {params : List (Option Value)} {steps : Nat}

/-- The parameters that are present are parameters of the request. -/
theorem mem_of_presentParams {decls : List Decl} {present : List (Decl × Value)}
    (h : presentParams decls params = .ok present) : ∀ p ∈ present, some p.2 ∈ params := by
  -- Declarations and parameters are gone through together, as the check does.
  induction decls generalizing params present with
  | nil =>
    rw [presentParams] at h
    · cases h
      simp
    · simp
    · simp
  | cons decl decls ih =>
    cases params with
    | nil =>
      cases h
      simp
    | cons v vs =>
      cases v with
      | none => cases h
      | some v =>
        rw [presentParams] at h
        cases hrest : presentParams decls vs with
        | error d =>
          rw [hrest] at h
          cases h
        | ok rest =>
          rw [hrest] at h
          cases h
          intro p hp
          rcases List.mem_cons.1 hp with rfl | hp
          · exact List.mem_cons_self
          · exact List.mem_cons_of_mem _ (ih hrest p hp)

variable (hw : w.Whole) (hparams : ∀ v, some v ∈ params → w.Holds v)

include hw hparams

/-- The check of the parameters fails with an error of its own kind. -/
theorem prepare_error_specific {f : Failure} (h : e.prepare w n params = (w₁, .error f)) :
    ∃ err : EvalError, f = .error err ∧ err.Specific := by
  rw [prepare] at h
  split at h
  · cases h
    exact ⟨_, rfl, fun _ hm => by cases hm⟩
  · split at h
    · cases h
      exact ⟨_, rfl, fun _ hm => by cases hm⟩
    · split at h
      · cases h
        exact ⟨_, rfl, fun _ hm => by cases hm⟩
      · rename_i present hpresent
        split at h
        · rename_i w₂ f' hadd
          cases h
          refine (Intake.complete_empty w).addParams_error_specific (fun p hp => ?_) hadd
          exact ⟨hw _, (hparams _ (mem_of_presentParams hpresent p hp)).lt⟩
        · cases h

/-- The copies of the parameters are positions of the arena. -/
theorem args_lt_of_prepare {p : Preparation} (h : e.prepare w n params = (w₁, .ok p)) :
    ∀ id ∈ p.args, id.index < p.nodes.size := by
  obtain ⟨cls, present, intake, -, -, hpresent, hadd, hnodes, -⟩ := exists_addParams h
  rw [hnodes]
  refine ((Intake.complete_empty w).addParams_lt Intake.inOrder_empty (fun p hp => ?_) hadd).1
  exact ⟨hw _, (hparams _ (mem_of_presentParams hpresent p hp)).lt⟩

omit hw hparams

/-- A request whose parameters are values of a workspace in use fails with an error of its own kind,
never with a message only, unless its evaluation takes more steps than it may; and in every state of
its evaluation all indices are in range. -/
theorem instantiateName_error_specific (hw : w.Built)
    (hparams : ∀ v, some v ∈ params → w.Holds v) :
    (∀ {f : Failure}, (e.instantiateName w n params steps).2 = .error f →
      (∃ err : EvalError, f = .error err ∧ ∀ message, err.kind ≠ .custom message) ∨
        ∃ w₁ p f₀ s₀, e.prepare w n params = (w₁, .ok p) ∧
          p.env.Opens p.nodes n p.args f₀ s₀ ∧ s₀.runFor p.env steps = none ∧ f = .exhausted) ∧
    ∀ {w₁ : Workspace} {p : Preparation} {f₀ : Frame} {s₀ s : Session},
      e.prepare w n params = (w₁, .ok p) → p.env.Opens p.nodes n p.args f₀ s₀ →
        Session.Reaches p.env s₀ s → s.InRange := by
  constructor
  · intro f hf
    rw [instantiateName] at hf
    split at hf
    · rename_i w₁ f' hprepare
      cases hf
      exact Or.inl (prepare_error_specific hw.whole hparams hprepare)
    · rename_i w₁ p hprepare
      have hnodes := (prepare_eq_ok hprepare).nodes
      have hargs := args_lt_of_prepare hw.whole hparams hprepare
      rw [Environment.evaluate] at hf
      cases hcomplete : p.env.complete p.nodes n p.args steps with
      | error f' =>
        simp only [hcomplete, bind, Except.bind] at hf
        cases hf
        -- An evaluation fails in its first instantiation, in a step, or by running out of steps.
        rcases Environment.complete_eq_error hcomplete with hc | ⟨f₀, s₀, hopens, hrun | hrun⟩
        · exact Or.inl (Session.specific_of_creation hargs hc)
        · exact Or.inl ((hopens.sound hnodes).specific_of_ends ⟨steps, hrun⟩)
        · exact Or.inr ⟨w₁, p, f₀, s₀, hprepare, hopens, hrun.1, hrun.2⟩
      | ok r =>
        -- Whatever an evaluation leaves behind can be sealed.
        obtain ⟨root, s⟩ := r
        obtain ⟨f₀, s₀, hopens, -, hrun⟩ := Environment.complete_eq_ok_iff.1 hcomplete
        have hwhole := (hopens.ends hnodes ⟨steps, hrun⟩).2.whole
        simp only [hcomplete, hwhole.sealed, bind, Except.bind, pure, Except.pure] at hf
        cases hf
  · intro w₁ p f₀ s₀ s hprepare hopens hreach
    exact ((hopens.sound (prepare_eq_ok hprepare).nodes).reaches hreach).2.inRange

end Evaluator

namespace Sample

/-- The workspace of the example with a truth value. -/
def stocked : Workspace := (workspace.addLiteral (.bool true)).2

def truth : Value := (workspace.addLiteral (.bool true)).1

theorem built_stocked : stocked.Built :=
  .addLiteral _ (.addTable _ (.intern _ _ (.intern _ _ (.intern _ _ (.intern _ _ (.intern _ _
    (.addInterner .empty)))))))

theorem holds_truth : stocked.Holds truth :=
  ⟨.literal (.bool true), rfl, rfl⟩

/-- Boxing the truth value never fails with a message only. -/
theorem box_ne_custom : stocked.Built ∧ (∀ v, some v ∈ [some truth] → stocked.Holds v) ∧
    ∀ message, (evaluator.instantiateName stocked ⟨1⟩ [some truth]).2 ≠
      .error (.error (.custom message)) := by
  have hparams : ∀ v, some v ∈ [some truth] → stocked.Holds v := by
    intro v hv
    cases List.mem_singleton.1 hv
    exact holds_truth
  refine ⟨built_stocked, hparams, fun message hresult => ?_⟩
  rcases (Evaluator.instantiateName_error_specific built_stocked hparams).1 hresult with
    ⟨err, herr, hspecific⟩ | ⟨_, _, _, _, -, -, -, hexhausted⟩
  · cases herr
    exact hspecific message rfl
  · cases hexhausted

end Sample

end ObjectModel
