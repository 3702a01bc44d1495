import ObjectModel.Proofs.Intake.Copies

/-!
# Names of another table

What the copy of a node has in common with it (`Workspace.SameForm`): the variant, the literal, and
the texts of the names, which stay as they are while the interner of the table grows
(`sameForm_of_copyNode`). Nor does it matter when a text is looked up: interning changes none of
the classes that texts stand for (`Workspace.Keeps.lookupText?`).
-/

set_option autoImplicit false

namespace ObjectModel

/-! ## Tables in use -/

theorem ClassTable.lookup?_name {t : ClassTable} {c : ClassDef} (h : c ∈ t.classes) :
    t.lookup? c.name = some c := by
  cases hd : t.lookup? c.name with
  | none => exact absurd (List.mem_map_of_mem h) (lookup?_eq_none_iff.1 hd)
  | some d =>
    obtain ⟨hmem, hname⟩ := of_lookup?_eq_some hd
    rw [List.inj_on_of_nodup_map t.names_nodup hmem h hname]

namespace Workspace

/-- The interner of the table is one of the workspace and has issued the names of the classes, as it
has when they were built with it. -/
structure Knows (w : Workspace) (t : TableId) : Prop where
  interner : (w.table t).interner.index < w.interners.size
  names : ∀ c ∈ (w.table t).classes, (w.tableNames t).Issued c.name

variable {w w' w'' : Workspace} {t target : TableId} {s : String}

/-- A text stands for the class whose name has it. -/
theorem Knows.lookupText?_eq_some_iff (h : w.Knows t) {c : ClassDef} :
    (w.table t).lookupText? (w.tableNames t) s = some c ↔
      c ∈ (w.table t).classes ∧ (w.tableNames t).text c.name = s := by
  rw [ClassTable.lookupText?, Option.bind_eq_some_iff]
  constructor
  · rintro ⟨n, hn, hc⟩
    obtain ⟨hmem, rfl⟩ := ClassTable.of_lookup?_eq_some hc
    exact ⟨hmem, (Interner.issued_of_get? hn).2⟩
  · rintro ⟨hmem, rfl⟩
    exact ⟨c.name, Interner.get?_text (h.names c hmem), ClassTable.lookup?_name hmem⟩

theorem Keeps.knows (h : w.Keeps w') (hw : w.Knows t) : w'.Knows t where
  interner := by
    rw [h.table, h.interners]
    exact hw.interner
  names := by
    intro c hc
    rw [h.table] at hc
    exact h.tableNames (hw.names c hc)

/-- A text stands for the same class in a workspace that has issued more names. -/
theorem Keeps.lookupText? (h : w.Keeps w') (hw : w.Knows t) (s : String) :
    (w'.table t).lookupText? (w'.tableNames t) s =
      (w.table t).lookupText? (w.tableNames t) s := by
  ext c
  rw [(h.knows hw).lookupText?_eq_some_iff, hw.lookupText?_eq_some_iff, h.table]
  refine and_congr_right fun hc => ?_
  rw [h.text_tableNames (hw.names c hc)]

/-! ## Types -/

/-- An element type and that of the copy: the same written form, or the same type if the graph
stands alone. -/
def SameType (w w' : Workspace) (target : TableId) : Option TableId → Ty → Ty → Prop
  | none, a, b => b = a
  | some t, a, b =>
    b.Issued (w'.tableNames target) ∧ b.render (w'.tableNames target) = a.render (w.tableNames t)

theorem sameType_translateType (hw : w.Knows target) {source : Option TableId} {ty : Ty}
    (hty : ∀ t, source = some t → ty.Issued (w.tableNames t)) :
    w.SameType (w.translateType target source ty).2 target source ty
      (w.translateType target source ty).1 := by
  cases source with
  | none =>
    induction ty with
    | list elem ih => exact congrArg Ty.list (ih fun t ht => nomatch ht)
    | _ => rfl
  | some t =>
    replace hty := hty t rfl
    induction ty with
    | cls n =>
      rw [translateType]
      split
      · rename_i heq
        subst heq
        exact ⟨hty, rfl⟩
      · have hfst := text_fst_intern hw.interner ((w.tableNames t).text n)
        exact ⟨hfst.1, congrArg (fun text => "class<" ++ text ++ ">") hfst.2⟩
    | list elem ih =>
      obtain ⟨hissued, hrender⟩ := ih hty
      exact ⟨hissued, congrArg (fun text => "list<" ++ text ++ ">") hrender⟩
    | _ => exact ⟨trivial, rfl⟩

/-! ## Nodes -/

/-- A node and its copy, apart from their references: the same variant with the same literal, a
class name with the same text, or an element type of the same written form. -/
inductive SameForm (w w' : Workspace) (target : TableId) (source : Option TableId) :
    Node → Node → Prop
  | literal (l : Literal) : SameForm w w' target source (.literal l) (.literal l)
  | object {t : TableId} {cls cls' : Name} {fields ids : List ValueId} : source = some t →
      (w'.tableNames target).Issued cls' →
      (w'.tableNames target).text cls' = (w.tableNames t).text cls →
      SameForm w w' target source (.object cls fields) (.object cls' ids)
  | list {elem elem' : Ty} {elements ids : List ValueId} :
      w.SameType w' target source elem elem' →
      SameForm w w' target source (.list elem elements) (.list elem' ids)
  | any (payload id : ValueId) : SameForm w w' target source (.any payload) (.any id)

/-- What a copy has in common with its node stays while names are added. -/
theorem SameForm.keeps {source : Option TableId} {n m : Node}
    (h : w.SameForm w' target source n m) (hw : w'.Keeps w'') :
    w.SameForm w'' target source n m := by
  cases h with
  | literal l => exact .literal l
  | object hsource hissued htext =>
    exact .object hsource (hw.tableNames hissued) ((hw.text_tableNames hissued).trans htext)
  | list htype =>
    refine .list ?_
    cases source with
    | none => exact htype
    | some t =>
      obtain ⟨hissued, hrender⟩ := hw.render_tableNames htype.1
      exact ⟨hissued, hrender.trans htype.2⟩
  | any payload id => exact .any payload id

/-- What a copy has in common with its node it had before names were added. -/
theorem SameForm.of_keeps {source : Option TableId} {n m : Node}
    (h : w'.SameForm w'' target source n m) (hw : w.Keeps w')
    (hn : ∀ t, source = some t → n.Issued (w.tableNames t)) :
    w.SameForm w'' target source n m := by
  cases h with
  | literal l => exact .literal l
  | object hsource hissued htext =>
    exact .object hsource hissued (htext.trans (hw.text_tableNames (hn _ hsource)))
  | list htype =>
    refine .list ?_
    cases source with
    | none => exact htype
    | some t => exact ⟨htype.1, htype.2.trans (hw.render_tableNames (hn t rfl)).2⟩
  | any payload id => exact .any payload id

end Workspace

variable {w w' : Workspace} {target : TableId} {copies : Index Value ValueId} {g : GraphId}
  {n m : Node}

/-- A translated class name was issued for the same text. -/
theorem Workspace.Knows.translateClass_eq_ok (hw : w.Knows target) {source : Option TableId}
    {n m : Name} (hn : ∀ t, source = some t → (w.tableNames t).Issued n)
    (h : w.translateClass target source n = .ok m) :
    ∃ t, source = some t ∧ (w.tableNames target).Issued m ∧
      (w.tableNames target).text m = (w.tableNames t).text n := by
  cases source with
  | none => cases h
  | some t =>
    refine ⟨t, rfl, ?_⟩
    rw [translateClass] at h
    split at h
    · rename_i heq
      cases h
      subst heq
      exact ⟨hn _ rfl, rfl⟩
    · dsimp only at h
      split at h
      · rename_i c hc
        cases h
        obtain ⟨hmem, htext⟩ := hw.lookupText?_eq_some_iff.1 hc
        exact ⟨hw.names c hmem, htext⟩
      · cases h

/-- A translated class name is that of a class whose text the table knows. -/
theorem Workspace.Knows.exists_lookupText? (hw : w.Knows target) {source : Option TableId}
    {n m : Name} (hn : source = some target → ∃ c, (w.table target).lookup? n = some c)
    (h : w.translateClass target source n = .ok m) :
    ∃ t c, source = some t ∧
      (w.table target).lookupText? (w.tableNames target) ((w.tableNames t).text n) = some c := by
  cases source with
  | none => cases h
  | some t =>
    by_cases heq : t = target
    · subst heq
      obtain ⟨c, hc⟩ := hn rfl
      obtain ⟨hmem, rfl⟩ := ClassTable.of_lookup?_eq_some hc
      exact ⟨t, c, rfl, hw.lookupText?_eq_some_iff.2 ⟨hmem, rfl⟩⟩
    · simp only [translateClass, if_neg heq] at h
      split at h
      · rename_i c hc
        exact ⟨t, c, rfl, hc⟩
      · cases h

/-- The copy of a node of issued names has its form. -/
theorem sameForm_of_copyNode (hw : w.Knows target)
    (hn : ∀ t, (w.graph g).table = some t → n.Issued (w.tableNames t))
    (h : copyNode w target copies g n = (w', .ok m)) :
    w.SameForm w' target (w.graph g).table n m := by
  have hw' : (copyNode w target copies g n).1 = w' := congrArg Prod.fst h
  cases copyOf_of_copyNode h with
  | literal l => exact .literal l
  | object hcls _ =>
    obtain ⟨t, ht, hissued, htext⟩ := hw.translateClass_eq_ok hn hcls
    subst hw'
    exact .object ht hissued htext
  | list _ =>
    subst hw'
    exact .list (Workspace.sameType_translateType hw hn)
  | any _ => exact .any _ _

/-- The copy of a node refers to the copies of what the node refers to, in order. -/
theorem CopyOf.forall₂_children (h : CopyOf w target copies g n m) :
    List.Forall₂ (fun a b => copies.get? ⟨g, (w.graph g).nodes.resolve a⟩ = some b)
      n.children m.children := by
  have hcopies : ∀ {xs ids : List ValueId}, copiesOf copies (w.graph g).nodes g xs = .ok ids →
      List.Forall₂ (fun a b => copies.get? ⟨g, (w.graph g).nodes.resolve a⟩ = some b) xs ids := by
    intro xs ids hids
    rw [copiesOf] at hids
    split at hids
    · rename_i ids' hmap
      cases hids
      exact mapM_eq_some_iff.1 hmap
    · cases hids
  cases h with
  | literal l => exact .nil
  | object _ hids => exact hcopies hids
  | list hids => exact hcopies hids
  | any hids => exact hcopies hids

end ObjectModel
