import ObjectModel.Proofs.GraphClasses
import ObjectModel.Proofs.Intake.Reachability
import ObjectModel.Proofs.Intake.Translation

/-!
# Values that are copied one after the other

Parameters are copied in order, whatever their types are (`Intake.addAll`). What is discovered for
one of them is what it leads to, unless it was copied before (`Intake.reached_of_found`). A copy
fails only for an object whose class has no namesake in the table (`Workspace.Foreign`,
`Intake.Complete.foreign_of_add_eq_error`).
-/

set_option autoImplicit false

namespace ObjectModel

/-- The value is an object of a class with that name, and no class of the table has the name. -/
structure Workspace.Foreign (w : Workspace) (target : TableId) (x : Value) (s : String) : Prop where
  object : ∃ cls fields, (w.graph x.graph).nodes.node? x.id = some (.object cls fields)
  name : (w.view x.graph).className x.id = s
  unknown : (w.table target).lookupText? (w.tableNames target) s = none

/-- A value of a graph of the workspace whose objects are of classes with issued names. -/
structure Workspace.Presents (w : Workspace) (v : Value) : Prop where
  holds : w.Holds v
  classes : ∀ {t : TableId} {id : ValueId} {cls : Name} {fields : List ValueId},
    (w.graph v.graph).table = some t →
    (w.graph v.graph).nodes.node? id = some (.object cls fields) → (w.tableNames t).Issued cls

namespace Workspace

variable {w : Workspace}

/-- In a workspace in use a value is presented if the table of its graph knows its classes. -/
theorem Built.presents (h : w.Built) {v : Value} (hv : w.Holds v)
    (hknows : ∀ t, (w.graph v.graph).table = some t → w.Knows t) : w.Presents v where
  holds := hv
  classes := by
    intro t id cls fields ht hn
    obtain ⟨c, hc⟩ := h.classed v.graph t ht id cls fields hn
    obtain ⟨hmem, rfl⟩ := ClassTable.of_lookup?_eq_some hc
    exact (hknows t ht).names c hmem

theorem reached_mono {vs us : List Value} (h : ∀ v ∈ vs, v ∈ us) : w.reached vs ⊆ w.reached us := by
  rintro x ⟨v, hv, hx⟩
  exact ⟨v, h v hv, hx⟩

theorem mem_reached_append {vs us : List Value} {x : Value} :
    x ∈ w.reached (vs ++ us) ↔ x ∈ w.reached vs ∨ x ∈ w.reached us := by
  simp only [reached, Set.mem_ofPred_eq, List.mem_append, or_and_right, exists_or]

/-- A graph with a table is read with its classes and names. -/
theorem view_of_table {g : GraphId} {t : TableId} (ht : (w.graph g).table = some t) :
    w.view g =
      { nodes := (w.graph g).nodes, classes := w.table t, names := w.tableNames t } := by
  rw [view]
  simp only [ht]

/-- The class of an object has its name in the table of the graph. -/
theorem className_view {g : GraphId} {t : TableId} (ht : (w.graph g).table = some t) {id : ValueId}
    {cls : Name} {fields : List ValueId}
    (hn : (w.graph g).nodes.node? id = some (.object cls fields)) :
    (w.view g).className id = (w.tableNames t).text cls := by
  rw [view_of_table ht, View.className, View.objectParts, View.node?]
  simp only [hn]

end Workspace

namespace Intake

/-! ## One value after the other -/

/-- Copy some values in order, whatever their types are. -/
def addAll (target : TableId) :
    List Value → Workspace → Intake → Workspace × Except Failure (List ValueId × Intake)
  | [], w, intake => (w, .ok ([], intake))
  | v :: rest, w, intake =>
    match intake.add target w v with
    | (w, .error f) => (w, .error f)
    | (w, .ok (id, intake)) =>
      match addAll target rest w intake with
      | (w, .ok (ids, intake)) => (w, .ok (id :: ids, intake))
      | (w, .error f) => (w, .error f)

variable {target : TableId} {w₀ w w' : Workspace} {intake intake' : Intake} {v : Value}
  {vs rest : List Value} {id : ValueId} {ids : List ValueId} {f : Failure}

theorem addAll_cons_eq_ok (h : addAll target (v :: rest) w intake = (w', .ok (ids, intake'))) :
    ∃ w₁ id intake₁ ids', Intake.add target w intake v = (w₁, .ok (id, intake₁)) ∧
      addAll target rest w₁ intake₁ = (w', .ok (ids', intake')) ∧ ids = id :: ids' := by
  rw [addAll] at h
  split at h
  · cases h
  · rename_i w₁ id intake₁ hadd
    split at h
    · rename_i w₂ ids' intake₂ hrest
      cases h
      exact ⟨w₁, id, intake₁, ids', hadd, hrest, rfl⟩
    · cases h

theorem addAll_cons_eq_error (h : addAll target (v :: rest) w intake = (w', .error f)) :
    Intake.add target w intake v = (w', .error f) ∨
      ∃ w₁ id intake₁, Intake.add target w intake v = (w₁, .ok (id, intake₁)) ∧
        addAll target rest w₁ intake₁ = (w', .error f) := by
  rw [addAll] at h
  split at h
  · rename_i w₁ f' hadd
    cases h
    exact Or.inl hadd
  · rename_i w₁ id intake₁ hadd
    split at h
    · cases h
    · rename_i w₂ f' hrest
      cases h
      exact Or.inr ⟨w₁, id, intake₁, hadd, hrest⟩

/-- One more value is copied after the others. -/
theorem addAll_concat {w₁ : Workspace} {intake₁ : Intake}
    (hall : addAll target vs w intake = (w₁, .ok (ids, intake₁)))
    (hadd : Intake.add target w₁ intake₁ v = (w', .ok (id, intake'))) :
    addAll target (vs ++ [v]) w intake = (w', .ok (ids ++ [id], intake')) := by
  induction vs generalizing w intake ids with
  | nil =>
    cases hall
    simp only [List.nil_append, addAll, hadd]
  | cons u vs ih =>
    obtain ⟨w₂, id₂, intake₂, ids', hu, hrest, rfl⟩ := addAll_cons_eq_ok hall
    rw [List.cons_append, addAll]
    simp only [hu, ih hrest, List.cons_append]

/-- Parameters that are accepted are copied one after the other. -/
theorem addAll_of_addParams {ps : List (Decl × Value)}
    (h : addParams target ps w intake = (w', .ok (ids, intake'))) :
    addAll target (ps.map Prod.snd) w intake = (w', .ok (ids, intake')) := by
  induction ps generalizing w intake ids with
  | nil => exact h
  | cons p ps ih =>
    obtain ⟨decl, v⟩ := p
    obtain ⟨w₁, id, intake₁, ids', hadd, -, hrest, rfl⟩ := addParams_cons_eq_ok h
    rw [List.map_cons, addAll]
    simp only [hadd, ih hrest]

/-- Parameters that are refused have a type that does not fit, or they are not copied either. -/
theorem addAll_of_addParams_error {ps : List (Decl × Value)}
    (h : addParams target ps w intake = (w', .error f)) :
    addAll target (ps.map Prod.snd) w intake = (w', .error f) ∨
      ∃ name declared found, f = .error (.parameterTypeMismatch name declared found) := by
  induction ps generalizing w intake with
  | nil => cases h
  | cons p ps ih =>
    obtain ⟨decl, v⟩ := p
    rw [List.map_cons, addAll]
    rcases addParams_cons_eq_error h with hadd | ⟨w₁, id, intake₁, hadd, ⟨-, hrest⟩ | ⟨-, -, rfl⟩⟩
    · simp only [hadd]
      exact Or.inl trivial
    · rcases ih hrest with hall | hmismatch
      · simp only [hadd, hall]
        exact Or.inl trivial
      · exact Or.inr hmismatch
    · exact Or.inr ⟨_, _, _, rfl⟩

/-- What has a copy keeps it. -/
theorem copies_of_add (h : Intake.add target w intake v = (w', .ok (id, intake'))) {x : Value}
    {c : ValueId} (hx : intake.copies.get? x = some c) : intake'.copies.get? x = some c := by
  rcases add_eq_ok h with ⟨-, -, rfl⟩ | ⟨-, -, hcopies, -⟩
  · exact hx
  · rw [hcopies]
    exact found_keeps w intake v hx

/-! ## What is discovered -/

/-- What is discovered for a value was copied before, or the value leads to it. -/
theorem reached_of_found (hk : w₀.Keeps w) (hv : w₀.Holds v) {x : Value} {c : ValueId}
    (hx : (intake.found w v).2.get? x = some c) :
    intake.copies.get? x = some c ∨ x ∈ w₀.reached [v] := by
  rcases (numbered_found w intake v).new hx with hold | ⟨i, hg, -, -⟩
  · exact Or.inl hold
  · have hroot : ∀ y ∈ [(w.graph v.graph).nodes.resolve v.id],
        (w₀.graph v.graph).nodes.LeadsTo v.id ((w.graph v.graph).nodes.resolve y) := by
      intro y hy
      rw [List.mem_singleton.1 hy, hk.graph, hv.resolve, hv.resolve]
    rcases discover_leadsTo (fun hy hrefers => by
      rw [hk.graph] at hrefers
      exact hy.tail hrefers) _ _ _ _ _ hroot hx with hold | hleads
    · exact Or.inl hold
    · refine Or.inr ⟨v, List.mem_singleton.2 rfl, hg.symm, ?_⟩
      rw [hg]
      exact hleads

/-- A value is copied with everything that it leads to, as an earlier workspace has it. -/
theorem Complete.add_kept (h : intake.Complete w₀) (hk : w₀.Keeps w) (hw : w₀.Whole)
    (hv : w₀.Holds v) (hadd : Intake.add target w intake v = (w', .ok (id, intake'))) :
    intake'.Complete w₀ := by
  intro g
  have hlt : v.id.index < (w.graph v.graph).nodes.size := by
    rw [hk.graph]
    exact Arena.IsValue.lt hv
  have hadded := (h.keeps hk).add (hw.keeps hk v.graph) hlt hadd g
  rwa [(hk.trans (.of_add hadd)).graph] at hadded

/-- A value is not copied because of an object of a foreign class, which was copied before or which
the value leads to. -/
theorem Complete.foreign_of_add_eq_error (h : intake.Complete w₀) (hk : w₀.Keeps w) (hw : w₀.Built)
    (hknows : w₀.Knows target) (hv : w₀.Presents v)
    (hadd : Intake.add target w intake v = (w', .error f)) :
    ∃ (o : ValueId) (s : String), ((∃ c, intake.copies.get? ⟨v.graph, o⟩ = some c) ∨
      ⟨v.graph, o⟩ ∈ w₀.reached [v]) ∧ w₀.Foreign target ⟨v.graph, o⟩ s ∧
        f = .error (.ofKind (.unknownClass s)) := by
  have hlt : v.id.index < (w.graph v.graph).nodes.size := by
    rw [hk.graph]
    exact Arena.IsValue.lt hv.holds
  obtain ⟨o, ho, cls, fields, e, w₁, hk₁, hn, hcls, rfl⟩ :=
    (h.keeps hk).add_eq_error (hw.whole.keeps hk v.graph) hlt hadd
  have hkeeps := hk.trans hk₁
  rw [hk.graph] at hn hcls
  obtain ⟨i, hi⟩ := Array.mem_iff_getElem?.1 ho
  rcases Workspace.translateClass_eq_error hcls with ⟨hnone, -⟩ | ⟨t, ht, -, hunknown, rfl⟩
  · obtain ⟨t, ht⟩ := hw.table_of_object hn
    rw [hnone] at ht
    cases ht
  · -- The class was unknown before names were added: its text and those of the table stay.
    have htext := hkeeps.text_tableNames (hv.classes ht hn)
    rw [hkeeps.lookupText? hknows, htext] at hunknown
    rw [htext]
    refine ⟨o, _, ?_, ⟨⟨cls, fields, hn⟩, Workspace.className_view ht hn, hunknown⟩, rfl⟩
    exact (reached_of_found hk hv.holds ((numbered_found w intake v).placed hi)).imp_left
      fun hold => ⟨_, hold⟩

end Intake

end ObjectModel
