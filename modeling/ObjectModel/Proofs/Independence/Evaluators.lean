import ObjectModel.Proofs.Independence.Parameters
import ObjectModel.Proofs.ParameterCopies

/-!
# Requests with other names

A request comes to the same in parallel workspaces: it fails alike, or its results are the same
(`Workspace.SameValue`), which means that they are told apart by nothing but the names in element
types, and these have the same texts (`Workspace.Parallel.instantiateName_same`).
-/

set_option autoImplicit false

namespace ObjectModel

namespace Workspace

/-- Two values of two workspaces are the same to whoever reads them: they have the same position in
graphs of one table with the same counters and the same nodes, but for names in element types. All
types are displayed alike, and all fields have the same names. -/
structure SameValue (w u : Workspace) (v v' : Value) : Prop where
  id : v'.id = v.id
  table : (u.graph v'.graph).table = (w.graph v.graph).table
  stats : (u.graph v'.graph).stats = (w.graph v.graph).stats
  nodes : (w.graph v.graph).nodes.Same (w.view v.graph).names (u.view v'.graph).names
    (u.graph v'.graph).nodes
  types : ∀ id, ((u.view v'.graph).typeOf id).render (u.view v'.graph).names =
    ((w.view v.graph).typeOf id).render (w.view v.graph).names
  fields : ∀ id, (u.view v'.graph).fieldNames id = (w.view v.graph).fieldNames id ∧
    ∀ n ∈ (w.view v.graph).fieldNames id,
      (u.view v'.graph).names.text n = (w.view v.graph).names.text n

end Workspace

namespace View

variable {nodes : Arena} {classes : ClassTable} {t u : Interner} {n : Name}

/-- Types are displayed as before when names are carried over. -/
theorem render_typeOf_retype (classes : ClassTable) (h : nodes.Carried t u) (id : ValueId) :
    (View.typeOf ⟨nodes.retype (t.carry u), classes, u⟩ id).render u =
      (View.typeOf ⟨nodes, classes, t⟩ id).render t := by
  rw [typeOf, typeOf, View.node?, View.node?, Arena.node?_retype]
  cases hn : nodes.node? id with
  | none => rfl
  | some m =>
    obtain ⟨htype, hnames⟩ := (h id m hn).type_retype
    show (m.retype (t.carry u)).type.render u = m.type.render t
    rw [htype, Ty.render_rename hnames]

/-- Objects have the fields that they had. -/
theorem fieldNames_retype (f : Name → Name) (id : ValueId) :
    View.fieldNames ⟨nodes.retype f, classes, u⟩ id = View.fieldNames ⟨nodes, classes, t⟩ id := by
  rw [fieldNames, fieldNames, class?, class?, objectParts, objectParts, View.node?, View.node?,
    Arena.node?_retype]
  cases nodes.node? id with
  | none => rfl
  | some m => cases m <;> rfl

theorem exists_of_mem_fieldNames {v : View} {id : ValueId} (h : n ∈ v.fieldNames id) :
    ∃ c, v.classes.lookup? (v.objectParts id).1 = some c ∧ n ∈ c.fieldNames := by
  rw [fieldNames, class?] at h
  cases hc : v.classes.lookup? (v.objectParts id).1 with
  | none =>
    rw [hc] at h
    exact absurd h List.not_mem_nil
  | some c =>
    rw [hc] at h
    exact ⟨c, rfl, h⟩

end View

/-- Parameters that correspond are present alike. -/
theorem presentParams_same {P : GraphId → GraphId → Prop} {vs vs' : List (Option Value)}
    (h : List.Forall₂ (Option.Rel (Value.Corresponds P)) vs vs') (decls : List Decl) :
    (∃ d ∈ decls, presentParams decls vs = .error d ∧ presentParams decls vs' = .error d) ∨
      ∃ ps qs, presentParams decls vs = .ok ps ∧ presentParams decls vs' = .ok qs ∧
        List.Forall₂ (Intake.SameParam P) ps qs ∧ ∀ p ∈ ps, p.1 ∈ decls := by
  induction h generalizing decls with
  | nil =>
    have hnil : presentParams decls [] = .ok [] := by cases decls <;> rfl
    exact Or.inr ⟨[], [], hnil, hnil, .nil, fun p hp => absurd hp List.not_mem_nil⟩
  | cons hv hrest ih =>
    cases decls with
    | nil => exact Or.inr ⟨[], [], rfl, rfl, .nil, fun p hp => absurd hp List.not_mem_nil⟩
    | cons decl decls =>
      cases hv with
      | none => exact Or.inl ⟨decl, List.mem_cons_self, rfl, rfl⟩
      | @some v v' hv =>
        rw [presentParams, presentParams]
        rcases ih decls with ⟨d, hd, hvs, hvs'⟩ | ⟨ps, qs, hvs, hvs', hpq, hdecls⟩
        all_goals rw [hvs, hvs']
        · exact Or.inl ⟨d, List.mem_cons_of_mem _ hd, rfl, rfl⟩
        · refine Or.inr ⟨(decl, v) :: ps, (decl, v') :: qs, rfl, rfl, .cons ⟨rfl, hv⟩ hpq, ?_⟩
          intro p hp
          rcases List.mem_cons.1 hp with rfl | hp
          · exact List.mem_cons_self
          · exact List.mem_cons_of_mem _ (hdecls p hp)

namespace Workspace

/-- Values of graphs of the table are the same if their nodes are, but for names. -/
theorem SameTable.sameValue {w u : Workspace} {t : TableId} (h : w.SameTable u t) {v v' : Value}
    (hid : v'.id = v.id) (ht : (w.graph v.graph).table = some t)
    (ht' : (u.graph v'.graph).table = some t)
    (hstats : (u.graph v'.graph).stats = (w.graph v.graph).stats)
    (hnodes : (w.graph v.graph).nodes.Same (w.tableNames t) (u.tableNames t)
      (u.graph v'.graph).nodes) : w.SameValue u v v' := by
  have hview := view_of_table ht
  have hview' := view_of_table ht'
  rw [h.table] at hview'
  refine ⟨hid, ht'.trans ht.symm, hstats, ?_, fun id => ?_, fun id => ?_⟩
  all_goals rw [hview, hview']
  · exact hnodes
  · rw [hnodes.eq]
    exact View.render_typeOf_retype _ hnodes.carried id
  · rw [hnodes.eq, View.fieldNames_retype]
    refine ⟨rfl, fun n hn => ?_⟩
    obtain ⟨c, hc, hn⟩ := View.exists_of_mem_fieldNames hn
    exact (h.names c (ClassTable.of_lookup?_eq_some hc).1 n (ClassDef.mem_names_of_field hn)).text

theorem SameTable.addGraph {w u : Workspace} {t : TableId} (h : w.SameTable u t) (g g' : Graph)
    (root root' : ValueId) : (w.addGraph g root).2.SameTable (u.addGraph g' root').2 t :=
  ⟨h.table, h.left, h.right, h.names⟩

namespace Parallel

variable {w u : Workspace} {P : GraphId → GraphId → Prop} {e : Evaluator} {n : Name}
  {params params' : List (Option Value)}

/-- A request is prepared alike. -/
theorem prepare_same (h : w.Parallel u e.table P)
    (hn : (w.tableNames e.table).Shares (u.tableNames e.table) n)
    (hparams : List.Forall₂ (Option.Rel (Value.Corresponds P)) params params') :
    SameResult
      (fun p p' => p.env.Parallel p'.env ∧ p.nodes.Same p.env.names p'.env.names p'.nodes ∧
        p'.args = p.args)
      (e.prepare w n params).2 (e.prepare u n params').2 := by
  rw [Evaluator.prepare, Evaluator.prepare, h.table, hn.text, ← hparams.length_eq]
  cases hcls : (w.table e.table).lookup? n with
  | none => exact .error _
  | some cls =>
    have hnames := h.names cls (ClassTable.of_lookup?_eq_some hcls).1
    dsimp only
    split
    · exact .error _
    · rcases presentParams_same hparams cls.params with
        ⟨d, hd, hvs, hvs'⟩ | ⟨ps, qs, hvs, hvs', hpq, hdecls⟩
      all_goals rw [hvs, hvs']
      · dsimp only
        rw [(hnames d.name (ClassDef.mem_names_of_param hd List.mem_cons_self)).text]
        exact .error _
      · have hadd := Intake.addParams_same h hpq
          (fun p hp m hm => hnames m (ClassDef.mem_names_of_param (hdecls p hp) hm))
          (.empty _ _ P)
        have hw := Keeps.addParams e.table ps w {}
        have hu := Keeps.addParams e.table qs u {}
        dsimp only
        generalize Intake.addParams e.table ps w {} = r at hadd hw ⊢
        generalize Intake.addParams e.table qs u {} = r' at hadd hu ⊢
        obtain ⟨w₁, r⟩ := r
        obtain ⟨u₁, r'⟩ := r'
        cases hadd with
        | error f => exact .error f
        | @ok a b hab =>
          obtain ⟨args, x⟩ := a
          obtain ⟨args', y⟩ := b
          have henv := (h.keeps hw hu).names
          rw [hw.table] at henv
          exact .ok ⟨⟨rfl, rfl, rfl, henv⟩, hab.2.nodes, hab.1⟩

/-- A request of a name that is shared comes to the same. -/
theorem instantiateName_same (h : w.Parallel u e.table P)
    (hn : (w.tableNames e.table).Shares (u.tableNames e.table) n)
    (hparams : List.Forall₂ (Option.Rel (Value.Corresponds P)) params params') (steps : ℕ) :
    SameResult
      (SameValue (e.instantiateName w n params steps).1 (e.instantiateName u n params' steps).1)
      (e.instantiateName w n params steps).2 (e.instantiateName u n params' steps).2 := by
  have hprepare := h.prepare_same hn hparams
  have hw := e.prepare_keeps w n params
  have hu := e.prepare_keeps u n params'
  cases hr : e.prepare w n params with
  | mk w₁ r =>
    cases hr' : e.prepare u n params' with
    | mk u₁ r' =>
      rw [hr, hr'] at hprepare
      rw [hr] at hw
      rw [hr'] at hu
      rw [Evaluator.instantiateName, Evaluator.instantiateName, hr, hr']
      dsimp only at hprepare hw hu ⊢
      cases hprepare with
      | error f => exact .error f
      | @ok p p' hsame =>
        -- The second evaluation is the first one with its class names carried over.
        obtain ⟨henv, hnodes, hargs⟩ := hsame
        have hnames := (Evaluator.prepare_eq_ok hr).names
        have hnames' := (Evaluator.prepare_eq_ok hr').names
        have hshares := hn.mono (hw.extends e.table) (hu.extends e.table)
        rw [← hnames, ← hnames'] at hshares
        dsimp only
        rw [hnodes.eq, hargs, henv.evaluate_retype hnodes.carried hshares]
        cases heval : p.env.evaluate e.table p.nodes n p.args steps with
        | error f => exact .error f
        | ok result =>
          obtain ⟨g, root⟩ := result
          obtain ⟨htable, hcarried⟩ := henv.carried_of_evaluate hnodes.carried heval
          rw [hnames, hnames'] at hcarried ⊢
          have hsame : g.nodes.Same (w₁.tableNames e.table) (u₁.tableNames e.table)
              (g.retype ((w₁.tableNames e.table).carry (u₁.tableNames e.table))).nodes :=
            ⟨hcarried, rfl⟩
          generalize (w₁.tableNames e.table).carry (u₁.tableNames e.table) = carry at hsame ⊢
          have hleft := w₁.graph_addGraph_new g root
          have hright := u₁.graph_addGraph_new (g.retype carry) root
          have htables := (h.keeps hw hu).toSameTable.addGraph g (g.retype carry) root root
          refine .ok (htables.sameValue ?_ ?_ ?_ ?_ ?_)
          · exact Arena.resolve_retype carry g.nodes root
          · exact (congrArg Graph.table hleft).trans htable
          · exact (congrArg Graph.table hright).trans htable
          · rw [hleft, hright]
            rfl
          · rw [hleft, hright]
            exact hsame

end Parallel

end Workspace

end ObjectModel
