import ObjectModel.Proofs.GraphClasses
import ObjectModel.Proofs.FieldNames
import ObjectModel.Proofs.Independence.Histories

/-!
# Fields of objects

The accessors of an object agree: each of them shows one value for each field that its class
declares, in the order of declaration, and nothing else (`View.Exposes`). This holds of all objects
in the result of a request whose parameters stand alone or are results of the same class table
(`Evaluator.instantiateName_exposes`): copies of objects have their class and as many values
(`CopyOf.fieldsIn`), and the object of a frame has the values of the locals that its class
yields. A parameter of another table need not have as many values as its namesake has fields.
-/

set_option autoImplicit false

namespace ObjectModel

/-! ## Positions of fields -/

namespace ClassDef

variable {c : ClassDef} {n : Name} {i : ℕ}

theorem fieldIndex?_eq_none_iff : c.fieldIndex? n = none ↔ n ∉ c.fieldNames := by
  simp [fieldIndex?, fieldNames]

/-- A field is found at the position that declares it. No other one has its name. -/
theorem fieldIndex?_eq_some_iff : c.fieldIndex? n = some i ↔ c.fieldNames[i]? = some n := by
  have hget : ∀ {j : ℕ} {m : Name}, c.fieldNames[j]? = some m ↔
      ∃ h : j < c.fields.length, c.fields[j].name = m := by
    intro j m
    simp [fieldNames, List.getElem?_eq_some_iff]
  rw [fieldIndex?, List.findIdx?_eq_some_iff_getElem, hget]
  refine exists_congr fun hi => ?_
  rw [beq_iff_eq, and_iff_left_iff_imp]
  rintro rfl j hj
  rw [beq_iff_eq]
  intro heq
  -- An earlier position with the name is the same position.
  have hj' := hget.2 ⟨hj.trans hi, heq⟩
  have hi' := hget.2 ⟨hi, rfl⟩
  have hlt : i < c.fieldNames.length := (List.getElem?_eq_some_iff.1 hi').1
  exact hj.ne' ((List.getElem?_inj hlt c.valid.fields_nodup).1 (hi'.trans hj'.symm))

theorem length_fieldNames (c : ClassDef) : c.fieldNames.length = c.fields.length :=
  List.length_map _

end ClassDef

/-! ## Accessors -/

namespace View

/-- An object shows these values, one for each field of its class, through every accessor alike. -/
structure Exposes (v : View) (o : ValueId) (c : ClassDef) (values : List ValueId) : Prop where
  class? : v.class? o = some c
  length : values.length = c.fields.length
  isValue : ∀ x ∈ values, v.nodes.IsValue x
  /-- A declared field has the value at the position of its declaration. -/
  declared : ∀ {i : ℕ} {n : Name}, c.fieldNames[i]? = some n →
    ∃ x, values[i]? = some x ∧ v.field o n = .ok x
  undeclared : ∀ {n : Name}, n ∉ c.fieldNames →
    v.field o n = .error (.ofKind (.unknownField (v.names.text n)))
  fieldNames : v.fieldNames o = c.fieldNames
  fields : v.fields o = c.fieldNames.zip values
  /-- The text of a declared name stands for the name. -/
  text : ∀ {n : Name}, n ∈ c.fieldNames → v.fieldOfText o (v.names.text n) = v.field o n
  /-- Any other string is reported as it is, whether it was interned or not. -/
  unknown : ∀ {s : String}, (∀ n ∈ c.fieldNames, v.names.text n ≠ s) →
    v.fieldOfText o s = .error (.ofKind (.unknownField s))

variable {v : View} {o : ValueId} {c : ClassDef} {values : List ValueId}

section Object

variable (hn : v.node? o = some (.object c.name values))
  (hc : v.classes.lookup? c.name = some c)
include hn hc

theorem field_of_fieldNames {n : Name} {i : ℕ} (hi : c.fieldNames[i]? = some n) {x : ValueId}
    (hx : values[i]? = some x) : v.field o n = .ok (v.nodes.resolve x) := by
  obtain ⟨hparts, hclass⟩ := class?_of_node? hn hc
  rw [field, hparts, hclass]
  simp [ClassDef.fieldIndex?_eq_some_iff.2 hi, hx]

theorem field_of_not_mem {n : Name} (hmem : n ∉ c.fieldNames) :
    v.field o n = .error (.ofKind (.unknownField (v.names.text n))) := by
  obtain ⟨hparts, hclass⟩ := class?_of_node? hn hc
  rw [field, hparts, hclass]
  simp [ClassDef.fieldIndex?_eq_none_iff.2 hmem]

/-- An object with as many values as its class has fields exposes them, if the names of the fields
were issued. -/
theorem exposes (hlength : values.length = c.fields.length)
    (hvalues : ∀ x ∈ values, v.nodes.IsValue x)
    (hissued : ∀ n ∈ c.fieldNames, v.names.Issued n) : v.Exposes o c values := by
  obtain ⟨hparts, hclass⟩ := class?_of_node? hn hc
  have hnames : v.fieldNames o = c.fieldNames := by
    rw [View.fieldNames, hclass, Option.map_some, Option.getD_some]
  refine ⟨hclass, hlength, hvalues, ?_, field_of_not_mem hn hc, hnames, ?_, ?_, ?_⟩
  · intro i n hi
    have hlt : i < values.length := by
      obtain ⟨hlt, -⟩ := List.getElem?_eq_some_iff.1 hi
      rwa [hlength, ← c.length_fieldNames]
    have hx := List.getElem?_eq_getElem hlt
    refine ⟨values[i], hx, ?_⟩
    rw [field_of_fieldNames hn hc hi hx, (hvalues _ (List.getElem_mem hlt)).resolve]
  · have hself := List.map_congr_left fun x hx => (hvalues x hx).resolve
    rw [View.fields, hnames, hparts, hself, List.map_id']
  · intro n hmem
    rw [fieldOfText, Interner.get?_text (hissued n hmem)]
  · intro s hs
    rw [fieldOfText]
    cases hget : v.names.get? s with
    | none => rfl
    | some n =>
      -- The string was interned, but not for a field.
      obtain ⟨-, rfl⟩ := Interner.issued_of_get? hget
      exact field_of_not_mem hn hc fun hmem => hs n hmem rfl

end Object

end View

/-! ## Copies -/

/-- Every object is of a class of the table, and has one value for each field of it. -/
def Arena.FieldsIn (a : Arena) (t : ClassTable) : Prop :=
  ∀ (id : ValueId) (cls : Name) (values : List ValueId), a.node? id = some (.object cls values) →
    ∃ c, t.lookup? cls = some c ∧ values.length = c.fields.length

/-- An object that is copied within its table keeps its class and the number of its values. A graph
that stands alone has no objects to be copied. -/
theorem CopyOf.fieldsIn {w : Workspace} {target : TableId} {copies : Index Value ValueId}
    {g : GraphId} {i : ValueId} {n : Node} {cls : Name} {values : List ValueId}
    (h : CopyOf w target copies g n (.object cls values))
    (hn : (w.graph g).nodes.node? i = some n)
    (htable : (w.graph g).table = none ∨ (w.graph g).table = some target)
    (hfields : (w.graph g).nodes.FieldsIn (w.table target)) :
    ∃ c, (w.table target).lookup? cls = some c ∧ values.length = c.fields.length := by
  have hchildren := h.forall₂_children
  cases h with
  | @object cls₀ _ fields _ hcls _ =>
    rcases htable with hnone | hsome
    · rw [hnone] at hcls
      cases hcls
    · rw [hsome, Workspace.translateClass, if_pos rfl] at hcls
      cases hcls
      obtain ⟨c, hc, hlength⟩ := hfields i cls fields hn
      exact ⟨c, hc, hchildren.length_eq.symm.trans hlength⟩

/-! ## Objects of frames -/

namespace Session.Completed

variable {env : Environment} {start : ℕ} {s : Session} {k : ℕ} {g : Frame}

/-- At the end the object of a frame has the values of the locals that its class yields. -/
theorem exists_values (h : s.Completed env start) (hg : s.frames[k]? = some g) :
    ∃ values, s.nodes.finish.node? g.object = some (.object g.cls.name values) ∧
      g.cls.yields.mapM (g.value? s.nodes.finish) = some values := by
  have hlayout := h.sound.layout
  obtain ⟨fields, hfields, hobj⟩ := hlayout.object hg
  refine ⟨fields.map s.nodes.resolve, Arena.node?_finish_of_eq_some hobj, ?_⟩
  apply mapM_value?_finish h.whole ?_ hfields
  exact fun id hid => (hlayout.isLocal_of_locals? hg hfields id hid).lt hlayout.start_le

end Session.Completed

/-- The objects that an evaluation leaves behind have one value for each field of their class, if
the copies of its parameters have. -/
theorem Environment.Opens.fieldsIn {env : Environment} {nodes : Arena} {target : Name}
    {args : List ValueId} {f : Frame} {s₀ s : Session} (h : env.Opens nodes target args f s₀)
    (hnodes : nodes.SelfContained) (hfields : nodes.FieldsIn env.classes)
    (hends : s₀.Ends env (.ok s)) : s.nodes.finish.FieldsIn env.classes := by
  obtain ⟨-, hdone⟩ := h.ends hnodes hends
  intro id cls values hn
  rcases h.exists_of_object hnodes hends hn with ⟨fields, hcopy, rfl⟩ | ⟨k, g, hg, rfl⟩
  · obtain ⟨c, hc, hlength⟩ := hfields id cls fields hcopy
    exact ⟨c, hc, (List.length_map _).trans hlength⟩
  · -- The class of a frame yields one local for each field.
    obtain ⟨values', hobj, hvalues⟩ := hdone.exists_values hg
    cases Option.some.inj (hn.symm.trans hobj)
    refine ⟨g.cls, hdone.sound.layout.known hg, ?_⟩
    rw [← (mapM_eq_some_iff.1 hvalues).length_eq, g.cls.valid.yields_length]

/-! ## Graphs of one table -/

namespace Workspace

/-- A workspace and one in which more was added, and requested from any evaluators. -/
inductive Later (w : Workspace) : Workspace → Prop
  | refl : Later w w
  | addInterner {w' : Workspace} : Later w w' → Later w w'.addInterner.2
  | intern {w' : Workspace} (id : InternerId) (s : String) : Later w w' →
      Later w (w'.intern id s).2
  | addTable {w' : Workspace} (t : ClassTable) : Later w w' → Later w (w'.addTable t).2
  | addLiteral {w' : Workspace} (l : Literal) : Later w w' → Later w (w'.addLiteral l).2
  | addLiterals {w' : Workspace} (elem : Ty) (ls : List Literal) : Later w w' →
      Later w (w'.addLiterals elem ls).2
  | instantiateName {w' : Workspace} (e : Evaluator) (n : Name) (params : List (Option Value))
      (steps : ℕ) : Later w w' → Later w (e.instantiateName w' n params steps).1

/-- A graph that stands alone, or the result of a request of the table whose parameters are values
of such graphs. -/
inductive Native (t : TableId) : Workspace → GraphId → Prop
  | literal (w : Workspace) (l : Literal) : Native t (w.addLiteral l).2 (w.addLiteral l).1.graph
  | literals (w : Workspace) (elem : Ty) (ls : List Literal) :
      Native t (w.addLiterals elem ls).2 (w.addLiterals elem ls).1.graph
  | result {w w' : Workspace} {e : Evaluator} {n : Name} {params : List (Option Value)} {steps : ℕ}
      {v : Value} : e.table = t → (∀ u, some u ∈ params → Native t w u.graph) →
      e.instantiateName w n params steps = (w', .ok v) → Native t w' v.graph
  | later {w w' : Workspace} {g : GraphId} : Native t w g → w.Later w' → Native t w' g

/-- The names, the tables and the graphs that there were are as before. -/
structure Preserves (w w' : Workspace) : Prop where
  names : ∀ id, (w.interner id).Extends (w'.interner id)
  tables : w.tables.size ≤ w'.tables.size
  table : ∀ {t : TableId}, t.index < w.tables.size → w'.table t = w.table t
  graphs : w.graphs.size ≤ w'.graphs.size
  graph : ∀ {g : GraphId}, g.index < w.graphs.size → w'.graph g = w.graph g

variable {w w' w'' : Workspace} {t : TableId} {g : GraphId}

namespace Preserves

theorem refl (w : Workspace) : w.Preserves w :=
  ⟨fun _ => .refl _, le_rfl, fun _ => rfl, le_rfl, fun _ => rfl⟩

theorem trans (h : w.Preserves w') (h' : w'.Preserves w'') : w.Preserves w'' where
  names id n hn := by
    obtain ⟨hn', htext⟩ := h.names id n hn
    obtain ⟨hn'', htext'⟩ := h'.names id n hn'
    exact ⟨hn'', htext'.trans htext⟩
  tables := h.tables.trans h'.tables
  table ht := (h'.table (ht.trans_le h.tables)).trans (h.table ht)
  graphs := h.graphs.trans h'.graphs
  graph hg := (h'.graph (hg.trans_le h.graphs)).trans (h.graph hg)

theorem addInterner (w : Workspace) : w.Preserves w.addInterner.2 where
  names id := by
    have heq : w.addInterner.2.interner id = w.interner id := by
      rw [interner, interner, Workspace.addInterner, Array.getElem?_push]
      split
      · -- The identity of the new interner named the empty one before.
        rename_i hid
        rw [hid, Array.getElem?_eq_none le_rfl, Option.getD_some, Option.getD_none]
      · rfl
    rw [heq]
    exact .refl _
  tables := le_rfl
  table _ := rfl
  graphs := le_rfl
  graph _ := rfl

theorem addTable (w : Workspace) (t : ClassTable) : w.Preserves (w.addTable t).2 where
  names _ := .refl _
  tables := by simp [Workspace.addTable]
  table ht := by simp [Workspace.addTable, Workspace.table, Array.getElem?_push_lt ht, ht]
  graphs := le_rfl
  graph _ := rfl

theorem of_precedes (h : w.Precedes w') : w.Preserves w' where
  names := h.names
  tables := by rw [h.tables]
  table _ := h.table _
  graphs := h.size
  graph := h.graphs

end Preserves

/-- Nothing that is added or requested changes what there was. -/
theorem Later.preserves (h : w.Later w') : w.Preserves w' := by
  induction h with
  | refl => exact .refl w
  | addInterner _ ih => exact ih.trans (.addInterner _)
  | intern id s _ ih => exact ih.trans (.of_precedes (Keeps.intern _ id s).precedes)
  | addTable t _ ih => exact ih.trans (.addTable _ t)
  | addLiteral l _ ih => exact ih.trans (.of_precedes (.push _ _))
  | addLiterals elem ls _ ih => exact ih.trans (.of_precedes (.push _ _))
  | instantiateName e n params steps _ ih =>
    exact ih.trans (.of_precedes (e.precedes_instantiateName _ n params steps))

/-- A table that defines a class is one of the workspace. -/
theorem lt_of_lookup? {n : Name} {c : ClassDef} (h : (w.table t).lookup? n = some c) :
    t.index < w.tables.size := by
  by_contra hge
  rw [table, Array.getElem?_eq_none (Nat.le_of_not_lt hge)] at h
  cases h

/-- The names of the fields were issued by the interner of the table, as they were when the classes
were built with it. -/
def KnowsFields (w : Workspace) (t : TableId) : Prop :=
  ∀ c ∈ (w.table t).classes, ∀ n ∈ c.fieldNames, (w.tableNames t).Issued n

/-- A graph that stands alone or belongs to the table, and whose objects have one value for each
field. -/
structure Fits (w : Workspace) (t : TableId) (g : GraphId) : Prop where
  lt : g.index < w.graphs.size
  table : (w.graph g).table = none ∨ (w.graph g).table = some t
  fields : (w.graph g).nodes.FieldsIn (w.table t)

theorem Fits.later (h : w.Fits t g) (hw : w.Preserves w') : w'.Fits t g where
  lt := h.lt.trans_le hw.graphs
  table := by
    rw [hw.graph h.lt]
    exact h.table
  fields := by
    intro id cls values hn
    rw [hw.graph h.lt] at hn
    obtain ⟨c, hc, hlength⟩ := h.fields id cls values hn
    rw [hw.table (lt_of_lookup? hc)]
    exact ⟨c, hc, hlength⟩

/-- A graph without objects that is added stands alone. -/
theorem fits_addGraph {new : Graph} (root : ValueId) (htable : new.table = none)
    (hnodes : ∀ {id : ValueId} {cls : Name} {values : List ValueId},
      new.nodes.node? id ≠ some (.object cls values)) :
    (w.addGraph new root).2.Fits t (w.addGraph new root).1.graph where
  lt := by simp [addGraph]
  table := by
    rw [graph_addGraph_new]
    exact Or.inl htable
  fields := by
    rw [graph_addGraph_new]
    exact fun id cls values hn => absurd hn hnodes

end Workspace

namespace Evaluator

variable {e : Evaluator} {w w' : Workspace} {n : Name} {params : List (Option Value)} {steps : ℕ}
  {v : Value}

/-- The copies of parameters that fit have one value for each field. -/
theorem fieldsIn_of_prepare {w₁ : Workspace} {p : Preparation}
    (hparams : ∀ u, some u ∈ params → w.Fits e.table u.graph)
    (h : e.prepare w n params = (w₁, .ok p)) : p.nodes.FieldsIn (w.table e.table) := by
  obtain ⟨cls, present, intake, -, -, hpresent, hadd, hnodes, -⟩ := exists_addParams h
  intro id cls values hn
  rw [hnodes] at hn
  rcases Intake.exists_copyOf_addParams hadd hn with hold | ⟨q, hq, w₂, copies, i, m, hk, hm, hcopy⟩
  · exact absurd (Arena.node?_lt hold) (Nat.not_lt_zero _)
  · have hfits := hparams q.2 (mem_of_presentParams hpresent q hq)
    rw [← hk.table]
    rw [← hk.graph] at hm
    refine hcopy.fieldsIn hm ?_ ?_
    · rw [hk.graph]
      exact hfits.table
    · rw [hk.graph, hk.table]
      exact hfits.fields

/-- The graph of a request whose parameters fit has one value for each field of its objects. -/
theorem fields_of_evaluates {p : Preparation} {f : Frame} {s₀ s : Session}
    (hparams : ∀ u, some u ∈ params → w.Fits e.table u.graph)
    (h : Evaluates e w n params w' v p f s₀ s) :
    (w'.graph v.graph).nodes.FieldsIn (w.table e.table) := by
  obtain ⟨w₁, hprepare⟩ := h.prepared
  have hclasses := (prepare_eq_ok hprepare).classes
  have hcopies := fieldsIn_of_prepare hparams hprepare
  rw [← hclasses] at hcopies ⊢
  rw [h.graph]
  exact h.opens.fieldsIn h.selfContained hcopies h.ends

theorem fits_instantiateName (hparams : ∀ u, some u ∈ params → w.Fits e.table u.graph)
    (h : e.instantiateName w n params steps = (w', .ok v)) : w'.Fits e.table v.graph := by
  obtain ⟨p, f, s₀, s, heval⟩ := exists_evaluates h
  have htable : (w'.graph v.graph).table = some e.table := by rw [heval.graph]
  refine ⟨?_, Or.inr htable, ?_⟩
  · by_contra hge
    rw [Workspace.graph, Array.getElem?_eq_none (Nat.le_of_not_lt hge)] at htable
    cases htable
  · rw [(table_instantiateName h).1]
    exact fields_of_evaluates hparams heval

end Evaluator

/-- Graphs that stand alone fit, and results of the table fit if the graphs of their parameters
do. -/
theorem Workspace.Native.fits {w : Workspace} {t : TableId} {g : GraphId} (h : w.Native t g) :
    w.Fits t g := by
  induction h with
  | literal w l =>
    exact fits_addGraph _ rfl fun hn => nomatch Graph.node?_ofLiteral hn
  | literals w elem ls =>
    refine fits_addGraph _ rfl fun hn => ?_
    rcases Graph.node?_ofLiterals hn with ⟨l, hl⟩ | hl <;> cases hl
  | result ht _ h ih =>
    subst ht
    exact Evaluator.fits_instantiateName ih h
  | later _ hlater ih => exact ih.later hlater.preserves

namespace Evaluator

variable {e : Evaluator} {w w' w'' : Workspace} {n : Name} {params : List (Option Value)}
  {steps : ℕ} {v : Value}

/-- Every object in the result of a request exposes its values whenever it is read, if the objects
of the parameters have one value for each field. -/
theorem exposes_of_fits (hknows : w.KnowsFields e.table)
    (hparams : ∀ u, some u ∈ params → w.Fits e.table u.graph)
    (h : e.instantiateName w n params steps = (w', .ok v)) (hlater : w'.Later w'') {o : ValueId}
    {cls : Name} {values : List ValueId}
    (hn : (w'.graph v.graph).nodes.node? o = some (.object cls values)) :
    ∃ c, (w.table e.table).lookup? cls = some c ∧ (w''.view v.graph).Exposes o c values := by
  obtain ⟨p, f, s₀, s, heval⟩ := exists_evaluates h
  obtain ⟨c, hc, hlength⟩ := fields_of_evaluates hparams heval o cls values hn
  obtain ⟨hmem, rfl⟩ := ClassTable.of_lookup?_eq_some hc
  have hpreserves : w.Preserves w'' := by
    have hprecedes := e.precedes_instantiateName w n params steps
    rw [h] at hprecedes
    exact (Workspace.Preserves.of_precedes hprecedes).trans hlater.preserves
  have hgraph := hlater.preserves.graph (fits_instantiateName hparams h).lt
  have htable : w''.table e.table = w.table e.table := hpreserves.table (Workspace.lt_of_lookup? hc)
  refine ⟨c, hc, ?_⟩
  rw [Workspace.view_of_table (by rw [hgraph, heval.graph]), hgraph, htable]
  refine View.exposes hn hc hlength (fun x hx => ?_) fun m hm => ?_
  · -- The graph is sealed, so an object refers to values only.
    have hsealed : (w'.graph v.graph).nodes.Sealed := by
      rw [heval.graph]
      exact heval.completed.2.whole.sealed_finish
    exact hsealed.children hn x hx
  · have hissued := hknows c hmem m hm
    rw [Workspace.tableNames, htable]
    exact (hpreserves.names _ m hissued).1

/-- Let the names of the fields in a table be issued by its interner, and let a request of the table
succeed with parameters that stand alone or are results of the table themselves. Then every object
of its graph, whether it was created or copied, exposes one value for each field of its class
through all accessors alike, whatever is interned or added before it is read. The objects that were
created are those of the frames, and the field of one of them at a position is the value of the
local that the class yields there. -/
theorem instantiateName_exposes (hknows : w.KnowsFields e.table)
    (hparams : ∀ u, some u ∈ params → w.Native e.table u.graph)
    (h : e.instantiateName w n params steps = (w', .ok v)) (hlater : w'.Later w'') :
    (∀ {o : ValueId} {cls : Name} {values : List ValueId},
      (w'.graph v.graph).nodes.node? o = some (.object cls values) →
        ∃ c, (w.table e.table).lookup? cls = some c ∧ (w''.view v.graph).Exposes o c values) ∧
    ∃ p f₀ s₀ s, Evaluates e w n params w' v p f₀ s₀ s ∧
      (∀ {o : ValueId} {cls : Name} {values : List ValueId},
        (w'.graph v.graph).nodes.node? o = some (.object cls values) → p.nodes.size ≤ o.index →
          ∃ (k : ℕ) (g : Frame), s.frames[k]? = some g ∧ g.object = o) ∧
      ∀ {k i : ℕ} {g : Frame} {m : Name}, s.frames[k]? = some g → g.cls.fieldNames[i]? = some m →
        ∃ r x, g.cls.yields[i]? = some r ∧ g.value? (w'.graph v.graph).nodes r = some x ∧
          (w''.view v.graph).field g.object m = .ok x := by
  have hfits := fun u hu => (hparams u hu).fits
  refine ⟨fun hn => exposes_of_fits hknows hfits h hlater hn, ?_⟩
  obtain ⟨p, f₀, s₀, s, heval⟩ := exists_evaluates h
  refine ⟨p, f₀, s₀, s, heval, fun {o cls values} hn ho => ?_, fun {k i g m} hg hi => ?_⟩
  · rw [heval.graph] at hn
    rcases heval.opens.exists_of_object heval.selfContained heval.ends hn with
      ⟨fields, hcopy, -⟩ | hframe
    · exact absurd (Arena.node?_lt hcopy) (Nat.not_lt.2 ho)
    · exact hframe
  · obtain ⟨values, hobj, hvalues⟩ := heval.completed.2.exists_values hg
    rw [show s.nodes.finish = (w'.graph v.graph).nodes by rw [heval.graph]] at hobj hvalues
    obtain ⟨c, hc, hexposes⟩ := exposes_of_fits hknows hfits h hlater hobj
    have hknown := heval.completed.2.sound.layout.known hg
    obtain ⟨w₁, hprepare⟩ := heval.spec
    rw [hprepare.classes] at hknown
    cases Option.some.inj (hknown.symm.trans hc)
    -- The values are those of the yielded locals, position by position.
    obtain ⟨x, hx, hfield⟩ := hexposes.declared hi
    have hyields := mapM_eq_some_iff.1 hvalues
    obtain ⟨hlt, rfl⟩ := List.getElem?_eq_some_iff.1 hx
    have hlt' : i < g.cls.yields.length := hyields.length_eq ▸ hlt
    exact ⟨_, _, List.getElem?_eq_getElem hlt', hyields.get hlt' hlt, hfield⟩

end Evaluator

/-! ## An example -/

namespace Sample

/-- The workspace with a literal and a box for it. -/
def boxed : Workspace :=
  (evaluator.instantiateName (workspace.addLiteral (.bool true)).2 ⟨1⟩ [some ⟨⟨0⟩, ⟨0⟩⟩] 20).1

/-- The box. -/
def innerBox : Value := ⟨⟨1⟩, ⟨1⟩⟩

theorem knowsFields_boxed : boxed.KnowsFields evaluator.table := by
  show ∀ c ∈ (boxed.table ⟨0⟩).classes, ∀ n ∈ c.fieldNames,
    n.index < (boxed.tableNames ⟨0⟩).strings.size
  decide +kernel

theorem native_innerBox : boxed.Native evaluator.table innerBox.graph := by
  have h : evaluator.instantiateName (workspace.addLiteral (.bool true)).2 ⟨1⟩
      [some ⟨⟨0⟩, ⟨0⟩⟩] 20 = (boxed, .ok innerBox) :=
    Prod.ext rfl (by decide +kernel)
  refine .result rfl (fun u hu => ?_) h
  cases List.mem_singleton.1 hu
  exact .literal workspace (.bool true)

/-- A box for the box exposes it, and its copy exposes the literal, also after another string was
interned. -/
theorem box_exposes : boxed.KnowsFields evaluator.table ∧
    (∀ u, some u ∈ [some innerBox] → boxed.Native evaluator.table u.graph) ∧
    ∃ w v, evaluator.instantiateName boxed ⟨1⟩ [some innerBox] 20 = (w, .ok v) ∧
      ((w.intern ⟨0⟩ "lid").2.view v.graph).Exposes v.id box [⟨0⟩] ∧
        ((w.intern ⟨0⟩ "lid").2.view v.graph).Exposes ⟨0⟩ box [⟨1⟩] := by
  have hparams : ∀ u, some u ∈ [some innerBox] → boxed.Native evaluator.table u.graph := by
    intro u hu
    cases List.mem_singleton.1 hu
    exact native_innerBox
  have h : evaluator.instantiateName boxed ⟨1⟩ [some innerBox] 20 =
      ((evaluator.instantiateName boxed ⟨1⟩ [some innerBox] 20).1, .ok ⟨⟨2⟩, ⟨2⟩⟩) :=
    Prod.ext rfl (by decide +kernel)
  obtain ⟨hexposes, -⟩ := Evaluator.instantiateName_exposes knowsFields_boxed hparams h
    (.intern ⟨0⟩ "lid" .refl)
  have hbox : (boxed.table evaluator.table).lookup? ⟨1⟩ = some box := by
    rw [boxed, (evaluator.precedes_instantiateName _ _ _ _).table]
    rfl
  have houter : ((evaluator.instantiateName boxed ⟨1⟩ [some innerBox] 20).1.graph ⟨2⟩).nodes.node?
      ⟨2⟩ = some (.object ⟨1⟩ [⟨0⟩]) := by
    decide +kernel
  have hcopy : ((evaluator.instantiateName boxed ⟨1⟩ [some innerBox] 20).1.graph ⟨2⟩).nodes.node?
      ⟨0⟩ = some (.object ⟨1⟩ [⟨1⟩]) := by
    decide +kernel
  refine ⟨knowsFields_boxed, hparams, _, _, h, ?_, ?_⟩
  · obtain ⟨c, hc, hc'⟩ := hexposes houter
    cases Option.some.inj (hbox.symm.trans hc)
    exact hc'
  · obtain ⟨c, hc, hc'⟩ := hexposes hcopy
    cases Option.some.inj (hbox.symm.trans hc)
    exact hc'

end Sample

end ObjectModel
