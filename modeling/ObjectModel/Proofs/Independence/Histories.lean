import ObjectModel.Proofs.Independence.Evaluators

/-!
# Workspaces after other requests

Requests of any evaluators leave the tables, the graphs and the names of a workspace as they are
(`Workspace.After.precedes`). So whatever was requested since, two later workspaces are parallel
(`Workspace.Precedes.parallel`), if all names that a request reads had been issued before.
-/

set_option autoImplicit false

namespace ObjectModel

/-! ## Later workspaces -/

namespace Workspace

/-- A later workspace has the same tables, and the graphs and names that there were. -/
structure Precedes (w w' : Workspace) : Prop where
  tables : w'.tables = w.tables
  interners : w'.interners.size = w.interners.size
  names : ∀ id, (w.interner id).Extends (w'.interner id)
  size : w.graphs.size ≤ w'.graphs.size
  graphs : ∀ {g : GraphId}, g.index < w.graphs.size → w'.graph g = w.graph g

variable {w w' w'' : Workspace}

namespace Precedes

theorem refl (w : Workspace) : w.Precedes w := ⟨rfl, rfl, fun _ => .refl _, le_rfl, fun _ => rfl⟩

theorem trans (h : w.Precedes w') (h' : w'.Precedes w'') : w.Precedes w'' where
  tables := h'.tables.trans h.tables
  interners := h'.interners.trans h.interners
  names id n hn := by
    obtain ⟨hn', htext⟩ := h.names id n hn
    obtain ⟨hn'', htext'⟩ := h'.names id n hn'
    exact ⟨hn'', htext'.trans htext⟩
  size := h.size.trans h'.size
  graphs hg := (h'.graphs (hg.trans_le h.size)).trans (h.graphs hg)

theorem table (h : w.Precedes w') (t : TableId) : w'.table t = w.table t := by
  rw [Workspace.table, Workspace.table, h.tables]

theorem tableNames (h : w.Precedes w') (t : TableId) :
    (w.tableNames t).Extends (w'.tableNames t) := by
  rw [Workspace.tableNames, Workspace.tableNames, h.table]
  exact h.names _

theorem push (w : Workspace) (g : Graph) : w.Precedes { w with graphs := w.graphs.push g } where
  tables := rfl
  interners := rfl
  names _ := .refl _
  size := by
    rw [Array.size_push]
    exact Nat.le_succ _
  graphs := by
    intro g' hg'
    rw [graph, graph, Array.getElem?_push_lt hg', Array.getElem?_eq_getElem hg']

end Precedes

theorem Keeps.precedes (h : w.Keeps w') : w.Precedes w' where
  tables := h.tables
  interners := h.interners
  names _ _ hn := ⟨h.issued hn, h.text hn⟩
  size := by rw [h.graphs]
  graphs _ := h.graph _

end Workspace

namespace Evaluator

variable {w w' : Workspace}

theorem precedes_instantiateName (e : Evaluator) (w : Workspace) (n : Name)
    (params : List (Option Value)) (steps : ℕ) :
    w.Precedes (e.instantiateName w n params steps).1 := by
  obtain ⟨w₁, hkeeps, heq | ⟨p, f, s₀, s, -, -, -, heq⟩⟩ :=
    e.workspace_instantiateName w n params steps
  all_goals rw [heq]
  · exact hkeeps.precedes
  · exact hkeeps.precedes.trans (.push w₁ _)

/-- A class that nobody has a name for, or that the table does not define, is unknown. -/
theorem instantiate_eq (e : Evaluator) (w : Workspace) (cls : String)
    (params : List (Option Value)) :
    e.instantiate w cls params =
      match (w.table e.table).lookupText? (w.tableNames e.table) cls with
      | some c => e.instantiateName w c.name params
      | none => (w, .error (.error (.ofKind (.unknownClass cls)))) := by
  rw [instantiate, ClassTable.lookupText?]
  cases hn : (w.tableNames e.table).get? cls with
  | none => rfl
  | some n =>
    rw [Option.bind_some]
    dsimp only
    cases hc : (w.table e.table).lookup? n with
    | none =>
      dsimp only
      rw [instantiateName, prepare, hc, (Interner.issued_of_get? hn).2]
    | some c =>
      dsimp only
      rw [(ClassTable.of_lookup?_eq_some hc).2]

theorem precedes_instantiate (e : Evaluator) (w : Workspace) (cls : String)
    (params : List (Option Value)) : w.Precedes (e.instantiate w cls params).1 := by
  rw [instantiate_eq]
  split
  · exact e.precedes_instantiateName w _ params allowance
  · exact .refl w

theorem precedes_instantiateAll (e : Evaluator) (rs : List Instantiation) (w : Workspace) :
    w.Precedes (e.instantiateAll rs w).1 := by
  induction rs generalizing w with
  | nil => exact .refl w
  | cons r rest ih => exact (e.precedes_instantiate w r.cls r.params).trans (ih _)

end Evaluator

/-- A workspace after some requests of any evaluators, in any order. -/
inductive Workspace.After (w : Workspace) : Workspace → Prop
  | start : After w w
  | instantiate {u : Workspace} (e : Evaluator) (cls : String) (params : List (Option Value)) :
      After w u → After w (e.instantiate u cls params).1
  | instantiateName {u : Workspace} (e : Evaluator) (n : Name) (params : List (Option Value))
      (steps : ℕ) : After w u → After w (e.instantiateName u n params steps).1

theorem Workspace.After.precedes {w u : Workspace} (h : w.After u) : w.Precedes u := by
  induction h with
  | start => exact .refl w
  | instantiate e cls params _ ih => exact ih.trans (e.precedes_instantiate _ cls params)
  | instantiateName e n params steps _ ih =>
    exact ih.trans (e.precedes_instantiateName _ n params steps)

/-! ## Issued names -/

namespace Workspace

/-- The names in the classes of a table were issued by its interner, which is one of the workspace.
Until some request interns a string for it, a name that was not issued has the empty text. -/
structure Named (w : Workspace) (t : TableId) : Prop where
  interner : (w.table t).interner.index < w.interners.size
  names : ∀ c ∈ (w.table t).classes, ∀ n ∈ c.names, (w.tableNames t).Issued n

/-- The workspace holds a value, and the names in its graph were issued by the interner that they
are read with. -/
structure Supplies (w : Workspace) (target : TableId) (v : Value) : Prop where
  holds : w.Holds v
  issued : (w.graph v.graph).Issued (w.graphNames target v.graph)

variable {w u u' : Workspace} {t : TableId}

theorem Holds.lt {v : Value} (h : w.Holds v) : v.graph.index < w.graphs.size := by
  obtain ⟨n, hn, -⟩ := h
  by_contra hge
  rw [graph, Array.getElem?_eq_none (Nat.le_of_not_lt hge)] at hn
  exact absurd (Arena.node?_lt hn) (Nat.not_lt_zero _)

/-- Values stay supplied. -/
theorem Supplies.later {v : Value} (h : w.Supplies t v) (hu : w.Precedes u) : u.Supplies t v := by
  have hgraph := hu.graphs h.holds.lt
  refine ⟨by rw [Holds, hgraph]; exact h.holds, ?_⟩
  rw [graphNames, hgraph]
  intro id n hn
  rw [Node.issued_iff]
  exact fun m hm => (hu.tableNames _ m (Node.issued_iff.1 (h.issued id n hn) m hm)).1

/-- Two later workspaces share the names that were issued before. -/
theorem Precedes.shares (h : w.Precedes u) (h' : w.Precedes u') {n : Name}
    (hn : (w.tableNames t).Issued n) : (u.tableNames t).Shares (u'.tableNames t) n where
  left := (h.tableNames t n hn).1
  right := (h'.tableNames t n hn).1
  text := by rw [(h.tableNames t n hn).2, (h'.tableNames t n hn).2]

/-- A graph of issued names is the same in two later workspaces. -/
theorem Precedes.sameGraph (h : w.Precedes u) (h' : w.Precedes u') {g : GraphId}
    (hg : g.index < w.graphs.size) (hissued : (w.graph g).Issued (w.graphNames t g)) :
    u.SameGraph u' t g g := by
  refine ⟨by rw [h.graphs hg, h'.graphs hg], ?_⟩
  rw [graphNames, graphNames, h.graphs hg, h'.graphs hg]
  exact .of_shares fun id n hn m hm => h.shares h' (Node.issued_iff.1 (hissued id n hn) m hm)

theorem Precedes.sameTable (h : w.Precedes u) (h' : w.Precedes u') (hw : w.Named t) :
    u.SameTable u' t where
  table := by rw [h.table, h'.table]
  left := by
    rw [h.table, h.interners]
    exact hw.interner
  right := by
    rw [h.table, h'.interners]
    exact hw.interner
  names := by
    intro c hc n hn
    rw [h.table] at hc
    exact h.shares h' (hw.names c hc n hn)

/-- Two later workspaces are parallel: each graph that was there is paired with itself. -/
theorem Precedes.parallel (h : w.Precedes u) (h' : w.Precedes u') (hw : w.Named t) :
    u.Parallel u' t fun g g' =>
      g = g' ∧ g.index < w.graphs.size ∧ (w.graph g).Issued (w.graphNames t g) where
  toSameTable := h.sameTable h' hw
  graphs := by
    rintro g g' ⟨rfl, hg, hissued⟩
    exact h.sameGraph h' hg hissued
  paired := by
    rintro g₁ g₂ g₁' g₂' ⟨rfl, -⟩ ⟨rfl, -⟩
    exact Iff.rfl

/-- Parameters that the workspace supplies correspond to themselves in later workspaces. -/
theorem forall₂_corresponds {params : List (Option Value)}
    (h : ∀ v, some v ∈ params → w.Supplies t v) :
    List.Forall₂ (Option.Rel (Value.Corresponds fun g g' =>
      g = g' ∧ g.index < w.graphs.size ∧ (w.graph g).Issued (w.graphNames t g))) params params := by
  rw [List.forall₂_same]
  rintro (_ | v) hv
  · exact .none
  · have hv := h v hv
    exact .some ⟨rfl, rfl, hv.holds.lt, hv.issued⟩

/-- A result stays the same while the other workspace goes on. -/
theorem SameValue.later {v v' : Value} (h : w.SameValue u v v') (hu : u.Precedes u')
    (ht : (w.graph v.graph).table = some t) (htables : w.SameTable u' t) : w.SameValue u' v v' := by
  have ht' := h.table.trans ht
  have hlt : v'.graph.index < u.graphs.size := by
    by_contra hge
    rw [graph, Array.getElem?_eq_none (Nat.le_of_not_lt hge)] at ht'
    cases ht'
  have hgraph := hu.graphs hlt
  have hnodes := h.nodes
  rw [view_of_table ht, view_of_table ht'] at hnodes
  refine htables.sameValue h.id ht (by rw [hgraph, ht']) (by rw [hgraph, h.stats]) ?_
  rw [hgraph]
  exact hnodes.mono (.refl _) (hu.tableNames t)

end Workspace

end ObjectModel
