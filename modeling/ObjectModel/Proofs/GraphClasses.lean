import ObjectModel.Proofs.Safety
import ObjectModel.Proofs.Intake.Classes
import ObjectModel.Proofs.Session.Builders

/-!
# The classes of a graph's objects

In a workspace in use a graph with objects has a table (`Workspace.Built.table_of_object`), and its
objects are of classes of that table (`Workspace.Built.classed`).
-/

set_option autoImplicit false

namespace ObjectModel

/-- The copies of the parameters of a request are objects of classes of its table. -/
theorem Evaluator.classesIn_of_prepare {e : Evaluator} {w w₁ : Workspace} (hw : w.Classed)
    {n : Name} {params : List (Option Value)} {p : Preparation}
    (h : e.prepare w n params = (w₁, .ok p)) :
    p.nodes.ClassesIn (w.table e.table) := by
  obtain ⟨cls, present, intake, -, -, -, hadd, hnodes, -⟩ := exists_addParams h
  rw [hnodes]
  refine Intake.classesIn_addParams hw ?_ hadd
  intro id cls fields hn
  exact absurd (Arena.node?_lt hn) (Nat.not_lt_zero _)

/-- An object that an evaluation leaves behind is a copy of its parameters, or that of a frame. -/
theorem Environment.Opens.exists_of_object {env : Environment} {nodes : Arena} {target : Name}
    {args : List ValueId} {f : Frame} {s₀ s : Session} (h : env.Opens nodes target args f s₀)
    (hnodes : nodes.SelfContained) (hends : s₀.Ends env (.ok s)) {id : ValueId} {cls : Name}
    {values : List ValueId} (hn : s.nodes.finish.node? id = some (.object cls values)) :
    (∃ fields, nodes.node? id = some (.object cls fields) ∧
        values = fields.map s.nodes.resolve) ∨
      ∃ (k : ℕ) (g : Frame), s.frames[k]? = some g ∧ g.object = id := by
  obtain ⟨hreach, -⟩ := h.ends hnodes hends
  obtain ⟨m, hm, hmap⟩ := Arena.exists_of_node?_finish hn
  cases m with
  | object cls' fields =>
    cases hmap
    by_cases hlt : id.index < nodes.size
    · rw [h.imported hnodes hreach hlt] at hm
      exact Or.inl ⟨fields, hm, rfl⟩
    · exact Or.inr (((h.builders hnodes).reaches (h.sound hnodes) hreach).objects
        (Nat.le_of_not_lt hlt) hm)
  | _ => cases hmap

/-- The objects that an evaluation leaves behind are of classes of its table, if the copies of its
parameters are. -/
theorem Environment.Opens.classesIn {env : Environment} {nodes : Arena} {target : Name}
    {args : List ValueId} {f : Frame} {s₀ s : Session} (h : env.Opens nodes target args f s₀)
    (hnodes : nodes.SelfContained) (hclasses : nodes.ClassesIn env.classes)
    (hends : s₀.Ends env (.ok s)) : s.nodes.finish.ClassesIn env.classes := by
  obtain ⟨-, hdone⟩ := h.ends hnodes hends
  intro id cls values hn
  rcases h.exists_of_object hnodes hends hn with ⟨fields, hcopy, -⟩ | ⟨k, g, hg, rfl⟩
  · exact hclasses id cls fields hcopy
  · obtain ⟨_, -, hobj⟩ := hdone.sound.layout.object hg
    cases Option.some.inj (hn.symm.trans (Arena.node?_finish_of_eq_some hobj))
    exact ⟨g.cls, hdone.sound.layout.known hg⟩

namespace Workspace

variable {w : Workspace}

/-- A graph may be added if its objects are of classes of its table. -/
theorem Classed.push (h : w.Classed) {g : Graph}
    (hg : ∀ t, g.table = some t → g.nodes.ClassesIn (w.table t)) :
    Classed { w with graphs := w.graphs.push g } := by
  intro id t ht
  rcases w.graph_push g id with heq | heq
  all_goals rw [heq] at ht ⊢
  · exact hg t ht
  · exact h id t ht

/-- A table may be added: the tables that graphs belong to are there already. -/
theorem Classed.addTable (h : w.Classed) (t : ClassTable) : (w.addTable t).2.Classed := by
  intro g t' ht' id cls fields hn
  obtain ⟨c, hc⟩ := h g t' ht' id cls fields hn
  refine ⟨c, ?_⟩
  rw [table] at hc
  show (((w.tables.push t)[t'.index]?).getD (.empty ⟨0⟩)).lookup? cls = some c
  cases htable : w.tables[t'.index]? with
  | none =>
    rw [htable] at hc
    cases hc
  | some t'' =>
    rw [htable] at hc
    rw [getElem?_push_of_eq_some htable]
    exact hc

/-- A request adds a graph with objects of classes of its table, or none. -/
theorem Classed.instantiateName (h : w.Classed) (e : Evaluator) (n : Name)
    (params : List (Option Value)) (steps : Nat) :
    (e.instantiateName w n params steps).1.Classed := by
  obtain ⟨w₁, hkeeps, heq | ⟨p, f, s₀, s, hp, hopens, hends, heq⟩⟩ :=
    e.workspace_instantiateName w n params steps
  · rw [heq]
    exact h.keeps hkeeps
  · rw [heq]
    refine (h.keeps hkeeps).push ?_
    intro t ht
    cases ht
    have hspec := Evaluator.prepare_eq_ok hp
    have hclasses := Evaluator.classesIn_of_prepare h hp
    rw [hkeeps.table]
    rw [← hspec.classes] at hclasses ⊢
    exact hopens.classesIn hspec.nodes hclasses hends

/-- In a workspace in use every object is of a class of the table of its graph. -/
theorem Built.classed (h : w.Built) : w.Classed := by
  induction h with
  | empty =>
    intro g t ht
    cases ht
  | addInterner _ ih => exact ih
  | intern _ _ _ ih => exact ih
  | addTable t _ ih => exact ih.addTable t
  | addLiteral l _ ih => exact ih.push fun t ht => by cases ht
  | addLiterals elem ls _ ih => exact ih.push fun t ht => by cases ht
  | instantiateName e n params steps _ _ ih => exact ih.instantiateName e n params steps

/-- In a workspace in use a graph with objects has a table. -/
theorem Built.table_of_object (h : w.Built) {g : GraphId} {id : ValueId} {cls : Name}
    {fields : List ValueId} (hn : (w.graph g).nodes.node? id = some (.object cls fields)) :
    ∃ t, (w.graph g).table = some t := by
  have hpush : ∀ {w : Workspace} {new : Graph},
      ((w.graph g).nodes.node? id = some (.object cls fields) → ∃ t, (w.graph g).table = some t) →
      (new.nodes.node? id = some (.object cls fields) → ∃ t, new.table = some t) →
      (Workspace.graph { w with graphs := w.graphs.push new } g).nodes.node? id =
        some (.object cls fields) →
      ∃ t, (Workspace.graph { w with graphs := w.graphs.push new } g).table = some t := by
    intro w new hold hnew hn
    rcases w.graph_push new g with heq | heq
    all_goals rw [heq] at hn ⊢
    · exact hnew hn
    · exact hold hn
  induction h with
  | empty => exact absurd (Arena.node?_lt hn) (Nat.not_lt_zero _)
  | addInterner _ ih => exact ih hn
  | intern _ _ _ ih => exact ih hn
  | addTable t _ ih => exact ih hn
  | addLiteral l _ ih => exact hpush ih (fun hn => nomatch Graph.node?_ofLiteral hn) hn
  | addLiterals elem ls _ ih =>
    refine hpush ih (fun hn => ?_) hn
    rcases Graph.node?_ofLiterals hn with ⟨l, hl⟩ | hl <;> cases hl
  | @instantiateName w e n params steps _ _ ih =>
    obtain ⟨w₁, hkeeps, heq | ⟨p, f, s₀, s, -, -, -, heq⟩⟩ :=
      e.workspace_instantiateName w n params steps
    all_goals rw [heq] at hn ⊢
    · rw [hkeeps.graph] at hn ⊢
      exact ih hn
    · refine hpush (fun hn => ?_) (fun _ => ⟨_, rfl⟩) hn
      rw [hkeeps.graph] at hn ⊢
      exact ih hn

end Workspace

end ObjectModel
