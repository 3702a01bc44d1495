import ObjectModel.Proofs.Intake.Copies

/-!
# The classes of copied objects

The objects of a graph are of classes of its table, in every workspace in which that holds of the
graphs that parameters come from: a copy gets a class of the table that it is made for
(`CopyOf.lookup?`), and so do the copies of all parameters (`Intake.classesIn_addParams`).
-/

set_option autoImplicit false

namespace ObjectModel

/-- Every object is of a class of the table. -/
def Arena.ClassesIn (a : Arena) (t : ClassTable) : Prop :=
  ∀ (id : ValueId) (cls : Name) (fields : List ValueId), a.node? id = some (.object cls fields) →
    ∃ c, t.lookup? cls = some c

/-- Every object of every graph is of a class of the table of its graph. -/
def Workspace.Classed (w : Workspace) : Prop :=
  ∀ (g : GraphId) (t : TableId), (w.graph g).table = some t →
    (w.graph g).nodes.ClassesIn (w.table t)

theorem Workspace.Classed.keeps {w w' : Workspace} (h : w.Classed) (hw : w.Keeps w') :
    w'.Classed := by
  intro g t ht
  rw [hw.graph] at ht ⊢
  rw [hw.table]
  exact h g t ht

variable {w w' : Workspace} {target : TableId}

/-- A translated name is the name of a class, or it was kept in its own table. -/
theorem Workspace.translateClass_eq_ok {source : Option TableId} {n m : Name}
    (h : w.translateClass target source n = .ok m) :
    (source = some target ∧ m = n) ∨ ∃ c, (w.table target).lookup? m = some c := by
  cases source with
  | none => cases h
  | some t =>
    rw [translateClass] at h
    split at h
    · rename_i heq
      cases h
      exact Or.inl ⟨congrArg some heq, rfl⟩
    · dsimp only at h
      split at h
      · rename_i c hc
        cases h
        obtain ⟨m, -, hm⟩ := Option.bind_eq_some_iff.1 hc
        refine Or.inr ⟨c, ?_⟩
        rw [(ClassTable.of_lookup?_eq_some hm).2]
        exact hm
      · cases h

/-- The copy of an object is of a class of the table that it is made for. -/
theorem CopyOf.lookup? (hw : w.Classed) {copies : Index Value ValueId} {g : GraphId} {id : ValueId}
    {n : Node} (hn : (w.graph g).nodes.node? id = some n) {cls : Name} {fields : List ValueId}
    (h : CopyOf w target copies g n (.object cls fields)) :
    ∃ c, (w.table target).lookup? cls = some c := by
  cases h with
  | object hcls _ =>
    rcases Workspace.translateClass_eq_ok hcls with ⟨hsource, rfl⟩ | hfound
    · exact hw g target hsource id _ _ hn
    · exact hfound

namespace Intake

variable {intake intake' : Intake}

theorem classesIn_add (hw : w.Classed) (hnodes : intake.nodes.ClassesIn (w.table target))
    {v : Value} {id : ValueId} (h : Intake.add target w intake v = (w', .ok (id, intake'))) :
    intake'.nodes.ClassesIn (w.table target) := by
  intro j cls fields hj
  rcases exists_copyOf_add h hj with hj | ⟨w₁, copies, i, n, hk, hn, hcopy⟩
  · exact hnodes j cls fields hj
  · rw [← hk.graph] at hn
    rw [← hk.table]
    exact hcopy.lookup? (hw.keeps hk) hn

/-- The copies of the parameters are objects of classes of the table that they are made for. -/
theorem classesIn_addParams {ps : List (Decl × Value)} (hw : w.Classed)
    (hnodes : intake.nodes.ClassesIn (w.table target)) {ids : List ValueId}
    (h : Intake.addParams target ps w intake = (w', .ok (ids, intake'))) :
    intake'.nodes.ClassesIn (w.table target) := by
  intro j cls fields hj
  rcases exists_copyOf_addParams h hj with hj | ⟨p, -, w₁, copies, i, n, hk, hn, hcopy⟩
  · exact hnodes j cls fields hj
  · rw [← hk.graph] at hn
    rw [← hk.table]
    exact hcopy.lookup? (hw.keeps hk) hn

end Intake

end ObjectModel
