import ObjectModel.Proofs.ParameterCopies
import ObjectModel.Proofs.SealedGraphs

/-!
# Fields of copied objects

The field values of an object are copied in order, and read through the class that its class name
stands for in the other table. So a field of the copy shows the copy of the field value at its own
position there, under whatever name that position has in the table of the original
(`Evaluator.instantiateName_fields`). Two tables whose classes declare the same fields in another
order exchange them (`Sample.swapped_coordinates`).
-/

set_option autoImplicit false

namespace ObjectModel

/-! ## Reading a field by its name -/

/-- The position of the field whose name has that text. -/
def ClassDef.fieldIndexOfText? (c : ClassDef) (names : Interner) (s : String) : Option Nat :=
  (names.get? s).bind c.fieldIndex?

/-- An object is read with its class and its field values. -/
theorem View.class?_of_node? {v : View} {id : ValueId} {cls : Name} {fields : List ValueId}
    {c : ClassDef} (hn : v.node? id = some (.object cls fields))
    (hc : v.classes.lookup? cls = some c) :
    v.objectParts id = (cls, fields) ∧ v.class? id = some c := by
  have hparts : v.objectParts id = (cls, fields) := by
    rw [objectParts]
    simp only [hn]
  exact ⟨hparts, by rw [class?, hparts, hc]⟩

/-- A field of an object is read at the position that its class declares it at. -/
theorem View.fieldOfText_eq {v : View} {id : ValueId} {cls : Name} {fields : List ValueId}
    {c : ClassDef} (hn : v.node? id = some (.object cls fields))
    (hc : v.classes.lookup? cls = some c) (s : String) :
    v.fieldOfText id s =
      match (c.fieldIndexOfText? v.names s).bind (fields[·]?) with
      | some x => .ok (v.nodes.resolve x)
      | none => .error (.ofKind (.unknownField s)) := by
  obtain ⟨hparts, hclass⟩ := class?_of_node? hn hc
  rw [fieldOfText, ClassDef.fieldIndexOfText?]
  cases hget : v.names.get? s with
  | none => rfl
  | some n =>
    have htext := (Interner.issued_of_get? hget).2
    rw [Option.bind_some]
    cases hx : (c.fieldIndex? n).bind (fields[·]?) with
    | none => simp only [field, hclass, hparts, htext, Option.bind_some, bind, hx]
    | some x => simp only [field, hclass, hparts, Option.bind_some, bind, hx]

/-- An object whose field values are images of others that stand for themselves shows those. -/
theorem View.fieldOfText_map {v : View} {id : ValueId} {c : ClassDef} {fields : List ValueId}
    {f : ValueId → ValueId} (hn : v.node? id = some (.object c.name (fields.map f)))
    (hc : v.classes.lookup? c.name = some c) (hf : ∀ x ∈ fields, v.nodes.resolve (f x) = f x)
    (s : String) :
    v.fieldOfText id s =
      match (c.fieldIndexOfText? v.names s).bind (fields[·]?) with
      | some x => .ok (f x)
      | none => .error (.ofKind (.unknownField s)) := by
  rw [fieldOfText_eq hn hc]
  cases c.fieldIndexOfText? v.names s with
  | none => rfl
  | some i =>
    rw [Option.bind_some, Option.bind_some, List.getElem?_map]
    cases hx : fields[i]? with
    | none => rfl
    | some x => exact congrArg Except.ok (hf x (List.mem_of_getElem? hx))

/-! ## Copies in a result -/

/-- An object of class `c` of the table `t`, and its copy of class `d` of the table `target` in the
graph of a result: the copies of the field values in order, each one shown under the name that `d`
declares there. A field of both classes shows the copy of what it shows in the original exactly if
the field values at both positions are the same. -/
structure Workspace.CopiesFields (w w' : Workspace) (target : TableId) (result : GraphId)
    (m : Value → ValueId) (o : Value) (t : TableId) (c d : ClassDef) (fields : List ValueId) :
    Prop where
  values : (w'.graph result).nodes.node? (m o) = some (.object d.name
    (fields.map fun x => m ⟨o.graph, (w.graph o.graph).nodes.resolve x⟩))
  shown : ∀ s, (w'.view result).fieldOfText (m o) s =
    match (d.fieldIndexOfText? (w'.tableNames target) s).bind (fields[·]?) with
    | some x => .ok (m ⟨o.graph, (w.graph o.graph).nodes.resolve x⟩)
    | none => .error (.ofKind (.unknownField s))
  agrees_iff : ∀ {s : String} {i j : Nat}, c.fieldIndexOfText? (w'.tableNames t) s = some i →
    d.fieldIndexOfText? (w'.tableNames target) s = some j →
      ((w'.view result).fieldOfText (m o) s =
          ((w'.view o.graph).fieldOfText o.id s).map (fun x => m ⟨o.graph, x⟩) ↔
        fields[j]?.map (w.graph o.graph).nodes.resolve =
          fields[i]?.map (w.graph o.graph).nodes.resolve)

/-- An object that is copied with the copies of its field values, to another position for each value,
has its fields copied. -/
theorem Workspace.copiesFields_of_values {w w' : Workspace} {target t : TableId} {result : GraphId}
    {m : Value → ValueId} {o : Value} {c d : ClassDef} {fields : List ValueId}
    (htables : ∀ t, w'.table t = w.table t) (hgraph : w'.graph o.graph = w.graph o.graph)
    (hresult : (w'.graph result).table = some target) (hsealed : (w'.graph result).nodes.Sealed)
    (ht : (w.graph o.graph).table = some t) {cls : Name}
    (hn : (w.graph o.graph).nodes.node? o.id = some (.object cls fields))
    (hc : (w.table t).lookup? cls = some c) (hd : (w.table target).lookup? d.name = some d)
    (hvalues : (w'.graph result).nodes.node? (m o) = some (.object d.name
      (fields.map fun x => m ⟨o.graph, (w.graph o.graph).nodes.resolve x⟩)))
    (hinj : ∀ x ∈ fields, ∀ y ∈ fields,
      m ⟨o.graph, (w.graph o.graph).nodes.resolve x⟩ =
        m ⟨o.graph, (w.graph o.graph).nodes.resolve y⟩ →
      (w.graph o.graph).nodes.resolve x = (w.graph o.graph).nodes.resolve y) :
    w.CopiesFields w' target result m o t c d fields := by
  have hshown : ∀ s, (w'.view result).fieldOfText (m o) s =
      match (d.fieldIndexOfText? (w'.tableNames target) s).bind (fields[·]?) with
      | some x => .ok (m ⟨o.graph, (w.graph o.graph).nodes.resolve x⟩)
      | none => .error (.ofKind (.unknownField s)) := by
    intro s
    rw [view_of_table hresult, htables]
    refine View.fieldOfText_map
      (v := ⟨(w'.graph result).nodes, w.table target, w'.tableNames target⟩)
      (f := fun x => m ⟨o.graph, (w.graph o.graph).nodes.resolve x⟩) hvalues hd (fun x hx => ?_) s
    exact (hsealed.children hvalues _ (List.mem_map_of_mem hx)).resolve
  refine ⟨hvalues, hshown, fun {s i j} hi hj => ?_⟩
  have horiginal : (w'.view o.graph).fieldOfText o.id s =
      match fields[i]? with
      | some x => .ok ((w.graph o.graph).nodes.resolve x)
      | none => .error (.ofKind (.unknownField s)) := by
    rw [view_of_table (hgraph ▸ ht), htables, hgraph]
    refine (View.fieldOfText_eq
      (v := ⟨(w.graph o.graph).nodes, w.table t, w'.tableNames t⟩) hn hc s).trans ?_
    rw [hi, Option.bind_some]
  rw [hshown, horiginal, hj, Option.bind_some]
  cases hy : fields[j]? with
  | none =>
    cases fields[i]? with
    | none => simp [Except.map]
    | some x => simp [Except.map]
  | some y =>
    cases hx : fields[i]? with
    | none => simp [Except.map]
    | some x =>
      -- Different values have different copies.
      constructor
      · intro heq
        exact congrArg some (hinj y (List.mem_of_getElem? hy) x (List.mem_of_getElem? hx)
          (Except.ok.inj heq))
      · intro heq
        exact congrArg (fun z => Except.ok (m ⟨o.graph, z⟩)) (Option.some.inj heq)

namespace Evaluator

variable {e : Evaluator} {w w' : Workspace} {n : Name} {params : List (Option Value)} {steps : Nat}
  {v : Value}

/-- The copies of the parameters stay as they are when the graph is sealed. -/
theorem Evaluates.node?_imported {p : Preparation} {f : Frame} {s₀ s : Session}
    (h : Evaluates e w n params w' v p f s₀ s) {id : ValueId} (hid : id.index < p.nodes.size) :
    (w'.graph v.graph).nodes.node? id = p.nodes.node? id := by
  have himported : ∀ {c : ValueId}, c.index < p.nodes.size → s.nodes.node? c = p.nodes.node? c :=
    fun hc => h.opens.imported h.selfContained h.completed.1 hc
  obtain ⟨m, hm⟩ := Arena.exists_node? hid
  have hvalue : ∀ c ∈ m.children, s.nodes.resolve c = c := by
    intro c hc
    have hlt := h.selfContained.children hm c hc
    obtain ⟨k, hk, hb⟩ := h.selfContained.isValue hlt
    rw [← himported hlt] at hk
    exact Arena.resolve_of_isBinding_eq_false hk hb
  rw [h.graph, hm]
  show s.nodes.finish.node? id = some m
  rw [Arena.node?_finish, himported hid, hm, Option.map_some, Node.mapChildren_eq_self hvalue]

/-- A request that succeeds leaves the tables as they are, and the graphs that there were. -/
theorem table_instantiateName (h : e.instantiateName w n params steps = (w', .ok v)) :
    (∀ t, w'.table t = w.table t) ∧
      ∀ {u : Value}, w.Holds u → w'.graph u.graph = w.graph u.graph := by
  obtain ⟨w₁, p, root, s, nodes, hprepare, -, -, hadd⟩ := instantiateName_eq_ok_iff.1 h
  have hkeeps := (prepare_eq_ok hprepare).keeps
  cases hadd
  refine ⟨fun t => hkeeps.table t, fun {u} hu => ?_⟩
  rw [← hkeeps.graph]
  refine Workspace.graph_addGraph ?_ _ root
  -- A value that the workspace holds is one of a graph that it has.
  rw [hkeeps.graphs]
  by_contra hge
  have hnone := Array.getElem?_eq_none (Nat.le_of_not_lt hge)
  obtain ⟨m, hm, -⟩ := hu
  rw [Workspace.graph, hnone] at hm
  cases hm

/-- The objects that the parameters of a request lead to keep their field values by position: in the
graph of the result each one is of the class of the same name, and shows the copies of its field
values in order under the names that this class declares. -/
theorem instantiateName_fields (hw : w.Built) (hknows : w.Knows e.table)
    (hparams : ∀ u, some u ∈ params → w.Offers u)
    (h : e.instantiateName w n params steps = (w', .ok v)) :
    ∃ vs w₁ ids intake m, params = vs.map some ∧ Intake.Copied w w₁ e.table vs ids intake m ∧
      (∀ x ∈ w.reached vs,
        (w'.graph v.graph).nodes.node? (m x) = intake.nodes.node? (m x)) ∧
      ∀ {o : Value} {t : TableId} {cls : Name} {fields : List ValueId}, o ∈ w.reached vs →
        (w.graph o.graph).table = some t →
        (w.graph o.graph).nodes.node? o.id = some (.object cls fields) →
        ∃ c d, (w.table t).lookup? cls = some c ∧
          (w.table e.table).lookupText? (w.tableNames e.table) ((w.tableNames t).text cls) = some d ∧
          w.CopiesFields w' e.table v.graph m o t c d fields := by
  obtain ⟨p, f₀, s₀, s, heval⟩ := exists_evaluates h
  obtain ⟨w₁, hprepare⟩ := heval.prepared
  obtain ⟨cls₀, present, intake, -, hlength, hpresent, hadd, hnodes, -⟩ := exists_addParams hprepare
  obtain ⟨htable, hgraph⟩ := table_instantiateName h
  have hvs := map_presentParams hlength hpresent
  have hoffers : ∀ u ∈ present.map Prod.snd, w.Offers u := by
    intro u hu
    refine hparams u ?_
    rw [hvs]
    exact List.mem_map_of_mem hu
  -- The parameters are copied, and sealing the result leaves the copies alone.
  obtain ⟨hmirrors, hids, -⟩ := (Intake.mirrors_nil w e.table).addAll hw hknows hoffers
    (Intake.addAll_of_addParams hadd)
  rw [List.nil_append] at hmirrors
  obtain ⟨m, hm⟩ := hmirrors.exists_copied hids
  have hsame : ∀ x ∈ w.reached (present.map Prod.snd),
      (w'.graph v.graph).nodes.node? (m x) = intake.nodes.node? (m x) := by
    intro x hx
    have hlt : (m x).index < p.nodes.size := by
      rw [hnodes]
      exact hm.bijOn.mapsTo hx
    rw [heval.node?_imported hlt, hnodes]
  refine ⟨present.map Prod.snd, w₁, p.args, intake, m, hvs, hm, hsame, ?_⟩
  intro o t cls fields ho ht hn
  obtain ⟨c, hc⟩ := hw.classed o.graph t ht o.id cls fields hn
  obtain ⟨m₁, m₂, hm₁, hm₂, hform, hchildren⟩ := hm.form o ho
  cases Option.some.inj (hn.symm.trans hm₁)
  cases hform with
  | @object t' _ cls' _ ids' ht' hissued htext =>
    cases Option.some.inj (ht.symm.trans ht')
    obtain ⟨d, hd⟩ := hmirrors.classes _ _ _ hm₂
    obtain ⟨hmem, rfl⟩ := ClassTable.of_lookup?_eq_some hd
    change ids' = fields.map _ at hchildren
    rw [hchildren, ← hsame o ho] at hm₂
    have hreached : ∀ x ∈ fields,
        (⟨o.graph, (w.graph o.graph).nodes.resolve x⟩ : Value) ∈
          w.reached (present.map Prod.snd) := by
      intro x hx
      obtain ⟨u, hu, hg, hleads⟩ := ho
      exact ⟨u, hu, hg, hleads.tail ⟨_, hn, x, hx, rfl⟩⟩
    refine ⟨c, d, hc, hknows.lookupText?_eq_some_iff.2 ⟨hmem, ?_⟩,
      Workspace.copiesFields_of_values htable ?_ (by rw [heval.graph]) ?_ ht hn hc hd hm₂ ?_⟩
    · rw [← htext, hmirrors.keeps.text_tableNames (hknows.names d hmem)]
    · exact hgraph ⟨_, hn, rfl⟩
    · rw [heval.graph]
      exact heval.completed.2.whole.sealed_finish
    · intro x hx y hy heq
      exact congrArg Value.id (hm.bijOn.injOn (hreached x hx) (hreached y hy) heq)

end Evaluator

namespace Sample

/-! ## An example -/

/-- An evaluator for the table with the coordinates the other way round. -/
def mirroring : Evaluator := { table := ⟨1⟩ }

/-- The copy of the point has the copies of its coordinates in their order. -/
theorem corner_values : drawn.Built ∧ drawn.Knows ⟨1⟩ ∧
    (∀ u, some u ∈ [some corner] → drawn.Offers u) ∧
    ∃ w v, mirroring.instantiateName drawn ⟨1⟩ [some corner] 20 = (w, .ok v) ∧
      ∃ (m : Value → ValueId) (cls : Name), (w.graph v.graph).nodes.node? (m corner) =
        some (.object cls [m ⟨⟨0⟩, ⟨3⟩⟩, m ⟨⟨0⟩, ⟨4⟩⟩]) := by
  have hparams : ∀ u, some u ∈ [some corner] → drawn.Offers u := by
    intro u hu
    cases List.mem_singleton.1 hu
    exact offers_corner
  refine ⟨built_drawn, knows_mirror, hparams, ?_⟩
  obtain ⟨w, v, h⟩ := exists_of_isOk
    (show (mirroring.instantiateName drawn ⟨1⟩ [some corner] 20).2.isOk = true by decide +kernel)
  obtain ⟨vs, -, -, -, m, hvs, -, -, hfields⟩ :=
    Evaluator.instantiateName_fields built_drawn knows_mirror hparams h
  have hcorner : corner ∈ drawn.reached vs := by
    have hmem : some corner ∈ vs.map some := by
      rw [← hvs]
      exact List.mem_singleton.2 rfl
    obtain ⟨u, hu, heq⟩ := List.mem_map.1 hmem
    cases heq
    exact ⟨corner, hu, rfl, .refl⟩
  have htable : (drawn.graph corner.graph).table = some ⟨0⟩ := by decide +kernel
  have hnode : (drawn.graph corner.graph).nodes.node? corner.id =
      some (.object ⟨1⟩ [⟨3⟩, ⟨4⟩]) := by
    decide +kernel
  obtain ⟨c, d, -, -, hcopies⟩ := hfields hcorner htable hnode
  have hx : (drawn.graph ⟨0⟩).nodes.resolve ⟨3⟩ = ⟨3⟩ := by decide +kernel
  have hy : (drawn.graph ⟨0⟩).nodes.resolve ⟨4⟩ = ⟨4⟩ := by decide +kernel
  have hvalues := hcopies.values
  rw [List.map_cons, List.map_cons, List.map_nil] at hvalues
  change _ = some (Node.object d.name [m ⟨⟨0⟩, (drawn.graph ⟨0⟩).nodes.resolve ⟨3⟩⟩,
    m ⟨⟨0⟩, (drawn.graph ⟨0⟩).nodes.resolve ⟨4⟩⟩]) at hvalues
  rw [hx, hy] at hvalues
  exact ⟨w, v, h, m, d.name, hvalues⟩

/-- The copy of the point exchanges its coordinates: the one that is true in the original is false
in the copy. -/
theorem swapped_coordinates :
    ∃ w v p x y, mirroring.instantiateName drawn ⟨1⟩ [some corner] 20 = (w, .ok v) ∧
      (w.view v.graph).fieldOfText v.id "point" = .ok p ∧
      (w.view corner.graph).fieldOfText corner.id "x" = .ok x ∧
      (w.graph corner.graph).nodes.node? x = some (.literal (.bool true)) ∧
      (w.view v.graph).fieldOfText p "x" = .ok y ∧
      (w.graph v.graph).nodes.node? y = some (.literal (.bool false)) := by
  have h : mirroring.instantiateName drawn ⟨1⟩ [some corner] 20 =
      ((mirroring.instantiateName drawn ⟨1⟩ [some corner] 20).1, .ok ⟨⟨1⟩, ⟨3⟩⟩) :=
    Prod.ext rfl (by decide +kernel)
  exact ⟨_, _, ⟨0⟩, ⟨3⟩, ⟨1⟩, h, by decide +kernel, by decide +kernel, by decide +kernel,
    by decide +kernel, by decide +kernel⟩

end Sample

end ObjectModel
