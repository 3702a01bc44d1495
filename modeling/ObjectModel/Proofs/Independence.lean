import ObjectModel.Proofs.Independence.Histories
import ObjectModel.Proofs.Independence.Interning

/-!
# Requests do not interfere

A request leaves a workspace as it is, but for its own graph and for the strings that the interner of
its table gains from the element types of foreign parameters (`Evaluator.Confined`). Interners are
shared, so a request meets names that others brought along; it reads them by their texts only. Its
outcome is the same after any other requests of any evaluators, and in any workspace in which its
parameters are the same but for names (`Evaluator.requests_independent`).
-/

set_option autoImplicit false

namespace ObjectModel

namespace Evaluator

variable {e : Evaluator} {w w' u : Workspace} {n : Name} {cls : String}
  {params params' : List (Option Value)} {steps : ℕ} {v : Value}

/-! ## What a request changes -/

/-- All that a request changes: it adds its own graph if it succeeds, and appends strings to the
interner of its table, each one the text of a class name in the element type of a parameter of
another table. Names that were issued keep their strings. -/
structure Confined (e : Evaluator) (w : Workspace) (params : List (Option Value))
    (r : Workspace × Except Failure Value) : Prop where
  tables : r.1.tables = w.tables
  interners : r.1.interners.size = w.interners.size
  failed : ∀ f, r.2 = .error f → r.1.graphs = w.graphs
  succeeded : ∀ v, r.2 = .ok v →
    v.graph = ⟨w.graphs.size⟩ ∧ ∃ g, r.1.graphs = w.graphs.push g
  others : ∀ {id : InternerId}, id ≠ (w.table e.table).interner →
    r.1.interner id = w.interner id
  appended : ∃ added, (r.1.tableNames e.table).strings.toList =
      (w.tableNames e.table).strings.toList ++ added ∧
    ∀ s ∈ added, ∃ v, some v ∈ params ∧ w.Brings e.table v s
  texts : ∀ id, (w.interner id).Extends (r.1.interner id)

theorem Confined.of_gains (h : Workspace.Gains (w.table e.table).interner
      (fun s => ∃ v, some v ∈ params ∧ w.Brings e.table v s) w w') (hw : w.Keeps w')
    {r : Workspace × Except Failure Value} (hinterners : r.1.interners = w'.interners)
    (htables : r.1.tables = w'.tables) (hfailed : ∀ f, r.2 = .error f → r.1.graphs = w'.graphs)
    (hsucceeded : ∀ v, r.2 = .ok v →
      v.graph = ⟨w'.graphs.size⟩ ∧ ∃ g, r.1.graphs = w'.graphs.push g) :
    Confined e w params r := by
  have hinterner : ∀ id, r.1.interner id = w'.interner id := by
    intro id
    rw [Workspace.interner, Workspace.interner, hinterners]
  have htable : r.1.table e.table = w.table e.table := by
    rw [Workspace.table, Workspace.table, htables, h.tables]
  rw [h.graphs] at hfailed hsucceeded
  refine ⟨htables.trans h.tables, ?_, hfailed, hsucceeded, ?_, ?_, ?_⟩
  · rw [hinterners, hw.interners]
  · intro id hid
    rw [hinterner, h.others hid]
  · rw [Workspace.tableNames, htable, hinterner]
    exact h.added
  · intro id n hn
    rw [hinterner]
    exact ⟨hw.issued hn, hw.text hn⟩

theorem confined_instantiateName (hparams : ∀ v, some v ∈ params → w.Supplies e.table v)
    (n : Name) (steps : ℕ) : Confined e w params (e.instantiateName w n params steps) := by
  have hissued : ∀ v, some v ∈ params → ∀ t, (w.graph v.graph).table = some t →
      (w.graph v.graph).Issued (w.tableNames t) := by
    intro v hv t ht
    have h := (hparams v hv).issued
    rw [Workspace.graphNames, ht] at h
    exact h
  have hgains := gains_prepare (e := e) (n := n) (fun v hv => (hparams v hv).holds) hissued
  have hw := e.prepare_keeps w n params
  rw [instantiateName]
  generalize e.prepare w n params = r at hgains hw ⊢
  obtain ⟨w₁, f | p⟩ := r
  · exact .of_gains hgains hw rfl rfl (fun _ _ => rfl) (by rintro v ⟨⟩)
  · dsimp only at hgains hw ⊢
    -- After the parameters were copied, nothing but the graph of the result is added.
    cases p.env.evaluate e.table p.nodes n p.args steps with
    | error f => exact .of_gains hgains hw rfl rfl (fun _ _ => rfl) (by rintro v ⟨⟩)
    | ok result =>
      obtain ⟨g, root⟩ := result
      refine .of_gains hgains hw rfl rfl (by rintro f ⟨⟩) (fun v hv => ?_)
      cases hv
      exact ⟨rfl, g, rfl⟩

theorem confined_instantiate (hparams : ∀ v, some v ∈ params → w.Supplies e.table v)
    (cls : String) : Confined e w params (e.instantiate w cls params) := by
  rw [instantiate_eq]
  split
  · exact confined_instantiateName hparams _ _
  · exact .of_gains (.refl _ _ w) (.refl w) rfl rfl (fun _ _ => rfl) (by rintro v ⟨⟩)

/-! ## What a request comes to -/

/-- Two requests come to the same: they fail with the same error, or their results are the same to
whoever reads them. -/
def SameOutcome (r r' : Workspace × Except Failure Value) : Prop :=
  SameResult (r.1.SameValue r'.1) r.2 r'.2

/-- What a request comes to stays the same while the other workspace goes on. -/
theorem SameOutcome.later {r r' : Workspace × Except Failure Value} {t : TableId}
    (h : SameOutcome r r') (hu : r'.1.Precedes u) (htables : r.1.SameTable u t)
    (ht : ∀ v, r.2 = .ok v → (r.1.graph v.graph).table = some t) : SameOutcome r (u, r'.2) := by
  obtain ⟨w₁, x⟩ := r
  obtain ⟨u₁, y⟩ := r'
  rw [SameOutcome] at h ⊢
  cases h with
  | error f => exact .error f
  | ok hsame => exact .ok (hsame.later hu (ht _ rfl) htables)

/-- A request comes to the same in parallel workspaces with parameters that correspond. -/
theorem sameOutcome_of_parallel {P : GraphId → GraphId → Prop} (h : w.Parallel u e.table P)
    (hparams : List.Forall₂ (Option.Rel (Value.Corresponds P)) params params') (cls : String) :
    SameOutcome (e.instantiate w cls params) (e.instantiate u cls params') := by
  rw [instantiate_eq, instantiate_eq, h.lookupText?]
  cases hc : (w.table e.table).lookupText? (w.tableNames e.table) cls with
  | none => exact .error _
  | some c =>
    have hmem := (h.knows.lookupText?_eq_some_iff.1 hc).1
    exact h.instantiateName_same (h.names c hmem c.name List.mem_cons_self) hparams allowance

/-- The result of a request is in a graph of its table. -/
theorem table_of_instantiate (h : (e.instantiate w cls params).2 = .ok v) :
    ((e.instantiate w cls params).1.graph v.graph).table = some e.table := by
  rw [instantiate_eq] at h ⊢
  cases hc : (w.table e.table).lookupText? (w.tableNames e.table) cls with
  | none =>
    rw [hc] at h
    cases h
  | some c =>
    rw [hc] at h
    dsimp only at h ⊢
    obtain ⟨w₁, p, root, s, nodes, -, -, -, hadd⟩ := instantiateName_eq_ok_iff.1 (Prod.ext rfl h)
    have hgraph := w₁.graph_addGraph_new { nodes, table := some e.table, stats := s.stats } root
    rw [hadd] at hgraph
    exact congrArg Graph.table hgraph

section Later

variable (hw : w.Named e.table) (hu : w.Precedes u)
include hw hu

/-- A request comes to the same in a later workspace. -/
theorem sameOutcome_of_precedes (hparams : ∀ v, some v ∈ params → w.Supplies e.table v)
    (cls : String) : SameOutcome (e.instantiate w cls params) (e.instantiate u cls params) :=
  sameOutcome_of_parallel ((Workspace.Precedes.refl w).parallel hu hw)
    (Workspace.forall₂_corresponds hparams) cls

theorem sameOutcome_instantiateName (hparams : ∀ v, some v ∈ params → w.Supplies e.table v)
    (hn : (w.tableNames e.table).Issued n) (steps : ℕ) :
    SameOutcome (e.instantiateName w n params steps) (e.instantiateName u n params steps) :=
  ((Workspace.Precedes.refl w).parallel hu hw).instantiateName_same
    ((Workspace.Precedes.refl w).shares hu hn) (Workspace.forall₂_corresponds hparams) steps

/-- Each of several requests comes to what it comes to alone. -/
theorem sameOutcome_instantiateAll {rs : List Instantiation}
    (hrs : ∀ r ∈ rs, ∀ v, some v ∈ r.params → w.Supplies e.table v) :
    List.Forall₂
      (fun r result => SameOutcome (e.instantiate w r.cls r.params)
        ((e.instantiateAll rs u).1, result))
      rs (e.instantiateAll rs u).2 := by
  induction rs generalizing u with
  | nil => exact .nil
  | cons r rest ih =>
    have hfirst := e.precedes_instantiate u r.cls r.params
    have hrest := e.precedes_instantiateAll rest (e.instantiate u r.cls r.params).1
    refine .cons ?_ (ih (hu.trans hfirst) fun r' hr' => hrs r' (List.mem_cons_of_mem _ hr'))
    -- The result of the first request is still the same after the others.
    have halone := sameOutcome_of_precedes hw hu (hrs r List.mem_cons_self) r.cls
    have htables := (e.precedes_instantiate w r.cls r.params).sameTable
      ((hu.trans hfirst).trans hrest) hw
    exact halone.later hrest htables fun v hv => table_of_instantiate hv

end Later

/-- What a request gives may be a parameter of other requests: it is held, and the names in its
graph were issued. -/
theorem supplies_instantiateName (hw : w.Named e.table)
    (hparams : ∀ v, some v ∈ params → w.Supplies e.table v) {v : Value}
    (hn : (w.tableNames e.table).Issued n) (h : e.instantiateName w n params steps = (w', .ok v))
    (target : TableId) : w'.Supplies target v := by
  -- The result is the same as itself, so its names are carried from one text to the same text.
  have hsame := sameOutcome_instantiateName hw (.refl w) hparams hn steps
  rw [SameOutcome, h] at hsame
  obtain ⟨p, f, s₀, s, heval⟩ := exists_evaluates h
  cases hsame with
  | ok hvalue =>
    have htable : (w'.graph v.graph).table = some e.table := by rw [heval.graph]
    have hcarried := hvalue.nodes.carried
    rw [Workspace.view_of_table htable] at hcarried
    refine ⟨?_, fun id m hm => ?_⟩
    · obtain ⟨hreach, hdone⟩ := heval.completed
      obtain ⟨fields, -, hobj⟩ := hdone.sound.layout.object heval.first
      rw [Workspace.Holds, heval.graph, heval.root]
      exact Arena.isValue_finish.2 ⟨_, hobj, rfl⟩
    · rw [Workspace.graphNames, htable, Node.issued_iff]
      exact fun name hname => ((hcarried id m hm).names name hname).1

/-- Requests do not interfere, whatever interners the tables share. Let the names in the classes of
a table, and those in the graphs of the parameters of some requests, be issued by the interners that
they are read with. After any requests of any evaluators each of these requests

* changes nothing but the interner of its table, which gains strings that its foreign parameters
  bring along, and adds its own graph;
* comes to what it comes to alone, by the text or by the name of its class;

it comes to the same in any workspace with parameters that are the same but for names; and when all
of them are carried out, in any order, each one comes to what it comes to alone. -/
theorem requests_independent {rs : List Instantiation} (hw : w.Named e.table)
    (hrs : ∀ r ∈ rs, ∀ v, some v ∈ r.params → w.Supplies e.table v) :
    (∀ u, w.After u → ∀ r ∈ rs,
      Confined e u r.params (e.instantiate u r.cls r.params) ∧
        SameOutcome (e.instantiate w r.cls r.params) (e.instantiate u r.cls r.params) ∧
          ∀ n, (w.tableNames e.table).Issued n → ∀ steps,
            Confined e u r.params (e.instantiateName u n r.params steps) ∧
              SameOutcome (e.instantiateName w n r.params steps)
                (e.instantiateName u n r.params steps)) ∧
    (∀ u P, w.Parallel u e.table P → ∀ r ∈ rs, ∀ params,
      List.Forall₂ (Option.Rel (Value.Corresponds P)) r.params params →
        SameOutcome (e.instantiate w r.cls r.params) (e.instantiate u r.cls params)) ∧
    ∀ u, w.After u → ∀ order : List Instantiation, order.Perm rs → List.Forall₂
      (fun r result => SameOutcome (e.instantiate w r.cls r.params)
        ((e.instantiateAll order u).1, result))
      order (e.instantiateAll order u).2 := by
  refine ⟨?_, ?_, fun u hu order horder => ?_⟩
  · intro u hu r hr
    have hparams := hrs r hr
    have hlater : ∀ v, some v ∈ r.params → u.Supplies e.table v :=
      fun v hv => (hparams v hv).later hu.precedes
    refine ⟨confined_instantiate hlater r.cls, ?_, fun n hn steps => ⟨?_, ?_⟩⟩
    · exact sameOutcome_of_precedes hw hu.precedes hparams r.cls
    · exact confined_instantiateName hlater n steps
    · exact sameOutcome_instantiateName hw hu.precedes hparams hn steps
  · intro u P hP r _ params hparams
    exact sameOutcome_of_parallel hP hparams r.cls
  · exact sameOutcome_instantiateAll hw hu.precedes fun r hr => hrs r (horder.mem_iff.1 hr)

end Evaluator

/-! ## An example -/

namespace Sample

/-- A class with two empty lists, for objects of two classes. -/
def cabinet : ClassDef where
  interner := ⟨0⟩
  name := ⟨1⟩
  params := []
  fields := [⟨⟨2⟩, .any⟩, ⟨⟨3⟩, .any⟩]
  instrs := #[.list (.cls ⟨4⟩) [], .list (.cls ⟨5⟩) []]
  yields := [.instr 0, .instr 1]
  valid := ⟨by decide, by decide, by decide, by decide, rfl, by decide⟩

/-- A class of another table that keeps a list. -/
def collector : ClassDef where
  interner := ⟨1⟩
  name := ⟨1⟩
  params := [⟨⟨2⟩, .list .any⟩]
  fields := [⟨⟨2⟩, .list .any⟩]
  instrs := #[]
  yields := [.param 0]
  valid := ⟨by decide, by decide, by decide, by decide, rfl, by decide⟩

def cabinetTable : ClassTable where
  interner := ⟨0⟩
  classes := [cabinet]
  names_nodup := by decide
  interner_eq := by decide

def collectorTable : ClassTable where
  interner := ⟨1⟩
  classes := [collector]
  names_nodup := by decide
  interner_eq := by decide

/-- A workspace with both tables, each with an interner of its own, and with a cabinet. -/
def furnished : Workspace :=
  (evaluator.instantiateName
    ((["Collector", "items"].foldl (fun w s => (w.intern ⟨1⟩ s).2)
      (((["Cabinet", "top", "bottom", "Book", "Plate"].foldl (fun w s => (w.intern ⟨0⟩ s).2)
        (Workspace.addInterner {}).2).addTable cabinetTable).2).addInterner.2).addTable
          collectorTable).2 ⟨1⟩ [] 20).1

def collecting : Evaluator := { table := ⟨1⟩ }

/-- The first list of the cabinet. -/
def books : Value := ⟨⟨0⟩, ⟨3⟩⟩

/-- The second list of the cabinet. -/
def plates : Value := ⟨⟨0⟩, ⟨4⟩⟩

/-- The workspace after the second list was collected. -/
def collected : Workspace := (collecting.instantiate furnished "Collector" [some plates]).1

theorem named_collecting : furnished.Named collecting.table where
  interner := by decide +kernel
  names := by
    show ∀ c ∈ (furnished.table ⟨1⟩).classes, ∀ n ∈ c.names,
      n.index < (furnished.tableNames ⟨1⟩).strings.size
    decide +kernel

theorem supplies_books : furnished.Supplies collecting.table books where
  holds := ⟨.list (.cls ⟨4⟩) [], by decide +kernel, rfl⟩
  issued := by
    have htable : (furnished.graph ⟨0⟩).table = some ⟨0⟩ := by decide +kernel
    rw [Workspace.graphNames, show books.graph = ⟨0⟩ from rfl, htable]
    decide +kernel

/-- The first list is collected with the same result before and after the second one, although the
class of its elements has another name then. -/
theorem books_collected : furnished.Named collecting.table ∧
    (∀ r ∈ [(⟨"Collector", [some books]⟩ : Instantiation)], ∀ v, some v ∈ r.params →
      furnished.Supplies collecting.table v) ∧
    furnished.After collected ∧
    ∃ w w' v v', collecting.instantiate furnished "Collector" [some books] = (w, .ok v) ∧
      collecting.instantiate collected "Collector" [some books] = (w', .ok v') ∧
        w.SameValue w' v v' ∧
          (w.graph v.graph).nodes.node? ⟨0⟩ = some (.list (.cls ⟨3⟩) []) ∧
            (w'.graph v'.graph).nodes.node? ⟨0⟩ = some (.list (.cls ⟨4⟩) []) := by
  have hbooks : ∀ r ∈ [(⟨"Collector", [some books]⟩ : Instantiation)], ∀ v, some v ∈ r.params →
      furnished.Supplies collecting.table v := by
    intro r hr v hv
    cases List.mem_singleton.1 hr
    cases List.mem_singleton.1 hv
    exact supplies_books
  have hafter : furnished.After collected := .instantiate collecting "Collector" _ .start
  obtain ⟨-, hsame, -⟩ := (Evaluator.requests_independent named_collecting hbooks).1 collected hafter
    _ (List.mem_singleton.2 rfl)
  have hv : (collecting.instantiate furnished "Collector" [some books]).2 = .ok ⟨⟨1⟩, ⟨1⟩⟩ := by
    decide +kernel
  have hv' : (collecting.instantiate collected "Collector" [some books]).2 = .ok ⟨⟨2⟩, ⟨1⟩⟩ := by
    decide +kernel
  rw [Evaluator.SameOutcome, hv, hv'] at hsame
  cases hsame with
  | ok hsame =>
    exact ⟨named_collecting, hbooks, hafter, _, _, _, _, Prod.ext rfl hv, Prod.ext rfl hv', hsame,
      by decide +kernel, by decide +kernel⟩

end Sample

end ObjectModel
