import ObjectModel.Proofs.Reordering.Classes
import ObjectModel.Proofs.Intake.Classes

/-!
# Parameters for either table

A parameter is copied alike for a table and for a reordering of it (`Intake.addParams_reorders`).
For a graph of a third table that is so because both tables have classes of the same names. A graph
of one of the two tables keeps its names there and gets them through their texts in the other one,
which comes to the same if they were issued and its objects are of classes of the table
(`Workspace.Portable`).
-/

set_option autoImplicit false

namespace ObjectModel

/-! ## Portable graphs -/

theorem ClassTable.Reorders.lookup?_name {σ : Name → Equiv.Perm ℕ} {t u : ClassTable}
    (h : t.Reorders σ u) (n : Name) :
    (u.lookup? n).map ClassDef.name = (t.lookup? n).map ClassDef.name := by
  cases hc : t.lookup? n with
  | none => rw [h.lookup?_eq_none hc]
  | some c =>
    obtain ⟨d, hd, hcd⟩ := h.lookup? hc
    rw [hd, Option.map_some, Option.map_some, hcd.name]

theorem Arena.ClassesIn.reorders {σ : Name → Equiv.Perm ℕ} {a : Arena} {t u : ClassTable}
    (h : a.ClassesIn t) (hσ : t.Reorders σ u) : a.ClassesIn u := by
  intro id cls fields hn
  obtain ⟨c, hc⟩ := h id cls fields hn
  obtain ⟨d, hd, -⟩ := hσ.lookup? hc
  exact ⟨d, hd⟩

namespace Workspace

variable {w w' : Workspace} {σ : Name → Equiv.Perm ℕ} {target target' : TableId} {g : GraphId}

/-- A graph of one of the two tables has issued names only, and objects of classes of the table. -/
def Portable (w : Workspace) (target target' : TableId) (g : GraphId) : Prop :=
  ∀ t : TableId, (w.graph g).table = some t → t = target ∨ t = target' →
    (w.graph g).Issued (w.tableNames target) ∧ (w.graph g).nodes.ClassesIn (w.table target)

theorem Portable.keeps (h : w.Portable target target' g) (hw : w.Keeps w') :
    w'.Portable target target' g := by
  intro t ht hor
  rw [hw.graph] at ht
  obtain ⟨hissued, hclasses⟩ := h t ht hor
  refine ⟨hw.graph_issued hissued, ?_⟩
  rw [hw.graph, hw.table]
  exact hclasses

theorem tableNames_reorders (hσ : (w.table target).Reorders σ (w.table target')) :
    w.tableNames target' = w.tableNames target := by
  rw [tableNames, tableNames, hσ.interner]

/-- Either of the two tables may be taken for the first one. -/
theorem Portable.symm (h : w.Portable target target' g)
    (hσ : (w.table target).Reorders σ (w.table target')) : w.Portable target' target g := by
  intro t ht hor
  obtain ⟨hissued, hclasses⟩ := h t ht hor.symm
  rw [tableNames_reorders hσ]
  exact ⟨hissued, hclasses.reorders hσ⟩

/-! ## Translated names -/

/-- A class name is translated as its text is, even into its own table. -/
theorem translateClass_eq_text (w : Workspace) (target : TableId) {source : TableId} {n : Name}
    (h : source = target → (w.tableNames target).Issued n ∧
      ∃ c, (w.table target).lookup? n = some c) :
    w.translateClass target (some source) n =
      match ((w.table target).lookupText? (w.tableNames target)
        ((w.tableNames source).text n)).map ClassDef.name with
      | some m => .ok m
      | none => .error (.ofKind (.unknownClass ((w.tableNames source).text n))) := by
  rw [translateClass]
  split
  · -- In its own table an issued name of a class is found again by its text.
    rename_i heq
    obtain ⟨hn, c, hc⟩ := h heq
    subst heq
    rw [ClassTable.lookupText?, Interner.get?_text hn, Option.bind_some, hc, Option.map_some,
      (ClassTable.of_lookup?_eq_some hc).2]
  · dsimp only
    cases (w.table target).lookupText? (w.tableNames target) ((w.tableNames source).text n) <;> rfl

theorem translateClass_reorders (hσ : (w.table target).Reorders σ (w.table target'))
    (source : Option TableId) (n : Name)
    (h : ∀ t, source = some t → t = target ∨ t = target' →
      (w.tableNames target).Issued n ∧ ∃ c, (w.table target).lookup? n = some c) :
    w.translateClass target' source n = w.translateClass target source n := by
  cases source with
  | none => rfl
  | some t =>
    have hnames := tableNames_reorders hσ
    rw [translateClass_eq_text w target fun heq => h t rfl (Or.inl heq),
      translateClass_eq_text w target' ?_, hnames, ClassTable.lookupText?,
      ClassTable.lookupText?]
    · cases (w.tableNames target).get? ((w.tableNames t).text n) with
      | none => rfl
      | some m => rw [Option.bind_some, Option.bind_some, hσ.lookup?_name]
    · intro heq
      obtain ⟨hn, c, hc⟩ := h t rfl (Or.inr heq)
      obtain ⟨d, hd, -⟩ := hσ.lookup? hc
      rw [hnames]
      exact ⟨hn, d, hd⟩

/-- A class name in an element type is translated as its text is, even into its own table. -/
theorem translateType_cls_eq_intern (w : Workspace) (target : TableId) {source : TableId} {n : Name}
    (h : source = target → (w.tableNames target).Issued n) :
    w.translateType target (some source) (.cls n) =
      (.cls (w.intern (w.table target).interner ((w.tableNames source).text n)).1,
        (w.intern (w.table target).interner ((w.tableNames source).text n)).2) := by
  rw [translateType]
  split
  · rename_i heq
    have hn := h heq
    subst heq
    rw [tableNames, intern_text hn]
  · rfl

theorem translateType_reorders (hσ : (w.table target).Reorders σ (w.table target'))
    (source : Option TableId) (ty : Ty)
    (h : ∀ t, source = some t → t = target ∨ t = target' → ty.Issued (w.tableNames target)) :
    w.translateType target' source ty = w.translateType target source ty := by
  induction ty with
  | cls n =>
    cases source with
    | none => rfl
    | some t =>
      rw [translateType_cls_eq_intern w target fun heq => h t rfl (Or.inl heq),
        translateType_cls_eq_intern w target' ?_, hσ.interner]
      intro heq
      rw [tableNames_reorders hσ]
      exact h t rfl (Or.inr heq)
  | list elem ih => rw [translateType, translateType, ih h]
  | _ => rfl

end Workspace

/-! ## Copies for either table -/

variable {w : Workspace} {σ : Name → Equiv.Perm ℕ} {target target' : TableId}

theorem copyNode_reorders (hσ : (w.table target).Reorders σ (w.table target')) {g : GraphId}
    (hg : w.Portable target target' g) (copies : Index Value ValueId) {id : ValueId} {n : Node}
    (hn : (w.graph g).nodes.node? id = some n) :
    copyNode w target' copies g n = copyNode w target copies g n := by
  cases n with
  | object cls fields =>
    have hcls := Workspace.translateClass_reorders hσ (w.graph g).table cls
      fun t ht hor => ⟨(hg t ht hor).1 id _ hn, (hg t ht hor).2 id cls fields hn⟩
    simp only [copyNode, hcls]
  | list elem elements =>
    have helem := Workspace.translateType_reorders hσ (w.graph g).table elem
      fun t ht hor => (hg t ht hor).1 id _ hn
    simp only [copyNode, helem]
  | _ => rfl

theorem copyNodes_reorders (copies : Index Value ValueId) {g : GraphId} (ids : List ValueId)
    (w : Workspace) (nodes : Arena) (hσ : (w.table target).Reorders σ (w.table target'))
    (hg : w.Portable target target' g) :
    copyNodes target' copies g ids w nodes = copyNodes target copies g ids w nodes := by
  -- Copying keeps both tables and all graphs, so it goes on alike for the other nodes.
  induction ids generalizing w nodes with
  | nil => rfl
  | cons id rest ih =>
    rw [copyNodes, copyNodes]
    cases hn : (w.graph g).nodes.node? id with
    | none => rfl
    | some n =>
      dsimp only
      rw [copyNode_reorders hσ hg copies hn]
      split
      · rename_i w₁ m heq
        have hkeeps := Workspace.Keeps.of_copyNode heq
        refine ih w₁ _ ?_ (hg.keeps hkeeps)
        rw [hkeeps.table, hkeeps.table]
        exact hσ
      · rfl

namespace Intake

theorem add_reorders (hσ : (w.table target).Reorders σ (w.table target')) (intake : Intake)
    {v : Value} (hv : w.Portable target target' v.graph) :
    Intake.add target' w intake v = Intake.add target w intake v := by
  rw [add, add]
  split
  · rfl
  · dsimp only
    rw [copyNodes_reorders _ _ _ _ hσ hv]

/-- The parameters of a request are copied alike for both tables. -/
theorem addParams_reorders (ps : List (Decl × Value)) (w : Workspace) (intake : Intake)
    (hσ : (w.table target).Reorders σ (w.table target'))
    (hps : ∀ p ∈ ps, w.Portable target target' p.2.graph) :
    Intake.addParams target' ps w intake = Intake.addParams target ps w intake := by
  induction ps generalizing w intake with
  | nil => rfl
  | cons p rest ih =>
    obtain ⟨decl, v⟩ := p
    have hv : w.Portable target target' v.graph := hps _ List.mem_cons_self
    rw [addParams, addParams, add_reorders hσ intake hv]
    split
    · rfl
    · rename_i w₁ id intake₁ heq
      have hkeeps := Workspace.Keeps.of_add heq
      have hσ₁ : (w₁.table target).Reorders σ (w₁.table target') := by
        rw [hkeeps.table, hkeeps.table]
        exact hσ
      have hrest := ih w₁ intake₁ hσ₁ fun q hq =>
        (hps q (List.mem_cons_of_mem _ hq)).keeps hkeeps
      rw [hrest, Workspace.tableNames_reorders hσ₁]

end Intake

end ObjectModel
