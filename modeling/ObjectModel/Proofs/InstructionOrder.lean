import ObjectModel.Proofs.GraphClasses
import ObjectModel.Proofs.Reordering.Matching
import ObjectModel.Proofs.Reordering.Transfer

/-!
# The order of instructions

A class body is a graph: the order in which its instructions are written down plays no part. A
request succeeds for a table exactly if it succeeds for a reordering of it, with the same graph up to
positions and the same counters (`Evaluator.instantiateName_order`). Parameters are the one thing
that has to be looked at: the graph of a parameter that belongs to one of the two tables is read by
its names there and by their texts in the other one, so names that were never issued are told apart
(`Sample.not_forall_instantiateName_iff`).
-/

set_option autoImplicit false

namespace ObjectModel

/-! ## Evaluators -/

/-- Two evaluators whose tables differ in the order of instructions only. Their demands are not
limited, and they have the same limit on instances. -/
structure Evaluator.Reorders (w : Workspace) (σ : Name → Equiv.Perm ℕ) (e e' : Evaluator) :
    Prop where
  tables : (w.table e.table).Reorders σ (w.table e'.table)
  depth : e.limits.depth = none
  depth' : e'.limits.depth = none
  instances : e'.limits.instances = e.limits.instances

namespace Evaluator

variable {w w₁ w₂ : Workspace} {σ : Name → Equiv.Perm ℕ} {e e' : Evaluator} {n : Name}
  {params : List (Option Value)} {steps steps' : Nat} {v v' : Value}

theorem Reorders.symm (h : Reorders w σ e e') : Reorders w (fun n => (σ n).symm) e' e where
  tables := h.tables.symm
  depth := h.depth'
  depth' := h.depth
  instances := h.instances.symm

/-- The request is prepared alike by both evaluators. -/
theorem Reorders.prepare (h : Reorders w σ e e')
    (hparams : ∀ v, some v ∈ params → w.Portable e.table e'.table v.graph) {p' : Preparation}
    (hprepare : e'.prepare w n params = (w₁, .ok p')) :
    ∃ p, e.prepare w n params = (w₁, .ok p) ∧ p.nodes = p'.nodes ∧ p.args = p'.args ∧
      p.env.Reorders σ p'.env := by
  obtain ⟨d, present, intake, hd, hlength, hpresent, hadd, hnodes, henv⟩ := exists_addParams hprepare
  obtain ⟨c, hc, hdc⟩ := h.tables.symm.lookup? hd
  rw [← hdc.params] at hlength hpresent
  have hportable : ∀ q ∈ present, w.Portable e.table e'.table q.2.graph :=
    fun q hq => hparams _ (mem_of_presentParams hpresent q hq)
  rw [Intake.addParams_reorders present w {} h.tables hportable] at hadd
  refine ⟨{ env := { classes := w.table e.table, names := w₁.tableNames e.table,
                     limits := e.limits },
            nodes := intake.nodes, args := p'.args }, ?_, hnodes.symm, rfl, ?_⟩
  · rw [Evaluator.prepare, hc]
    dsimp only
    rw [if_neg (not_not.2 hlength), hpresent]
    dsimp only
    rw [hadd]
  · rw [henv]
    exact
      { classes := h.tables
        instances := h.instances
        depth := h.depth
        depth' := h.depth'
        shares := rfl
        shares' := rfl }

/-- A request that succeeds for a reordered table succeeds, with the same graph up to positions and
the same counters. -/
theorem Reorders.exists_instantiateName (h : Reorders w σ e e')
    (hparams : ∀ v, some v ∈ params → w.Portable e.table e'.table v.graph)
    (h' : e'.instantiateName w n params steps' = (w₂, .ok v')) :
    ∃ steps w₁ v m, e.instantiateName w n params steps = (w₁, .ok v) ∧
      (w₁.graph v.graph).nodes.SameUpTo (w₂.graph v'.graph).nodes m ∧ m v.id = v'.id ∧
        (w₁.graph v.graph).stats = (w₂.graph v'.graph).stats := by
  obtain ⟨p', g, s₀', s', heval'⟩ := exists_evaluates h'
  obtain ⟨w₃, hprepare'⟩ := heval'.prepared
  obtain ⟨p, hprepare, hnodes, hargs, henv⟩ := h.prepare hparams hprepare'
  have hopens' := heval'.opens
  have hself := heval'.selfContained
  rw [← hnodes] at hself
  rw [← hnodes, ← hargs] at hopens'
  obtain ⟨f, s₀, hopens⟩ := hopens'.reorder henv
  obtain ⟨s, m, ⟨steps, hrun⟩, hsame, hroot, hstats⟩ :=
    hopens.exists_sameUpTo hopens' henv hself heval'.ends
  have hwhole := (hopens.ends hself ⟨steps, hrun⟩).2.whole
  have hok : ∃ w₁ v, e.instantiateName w n params steps = (w₁, .ok v) :=
    ⟨_, _, instantiateName_eq_ok_iff.2 ⟨w₃, p, f.object, s, s.nodes.finish, hprepare,
      Environment.complete_eq_ok_iff.2 ⟨f, s₀, hopens, rfl, hrun⟩, hwhole.sealed, rfl⟩⟩
  obtain ⟨w₁, v, hok⟩ := hok
  -- The graph of the request is the one of this evaluation.
  obtain ⟨p₁, f₁, s₁, s₂, heval⟩ := exists_evaluates hok
  obtain ⟨w₄, hprepare₁⟩ := heval.prepared
  rw [hprepare] at hprepare₁
  cases hprepare₁
  obtain ⟨rfl, rfl⟩ := hopens.unique heval.opens
  cases Session.Ends.unique ⟨steps, hrun⟩ heval.ends
  refine ⟨steps, w₁, v, m, hok, ?_, ?_, ?_⟩
  · rw [heval.graph, heval'.graph]
    exact hsame
  · rw [heval.root, heval'.root]
    exact hroot
  · rw [heval.graph, heval'.graph]
    exact hstats

/-- A request succeeds exactly if it succeeds with the instructions of all classes in another order,
and both graphs are the same up to positions: there is a bijection between their objects, lists and
erased types that maps root to root and keeps classes, element types and children in order, where
literals are compared by what they are; and all counters are equal. The names in the graphs of those
parameters that belong to one of the two tables must have been issued. -/
theorem instantiateName_order (hw : w.Built) (he : Reorders w σ e e')
    (hissued : ∀ v, some v ∈ params → ∀ t, (w.graph v.graph).table = some t →
      t = e.table ∨ t = e'.table → (w.graph v.graph).Issued (w.tableNames e.table)) :
    ((∃ steps w₁ v, e.instantiateName w n params steps = (w₁, .ok v)) ↔
      ∃ steps w₁ v, e'.instantiateName w n params steps = (w₁, .ok v)) ∧
    ∀ {steps steps' : Nat} {w₁ w₂ : Workspace} {v v' : Value},
      e.instantiateName w n params steps = (w₁, .ok v) →
        e'.instantiateName w n params steps' = (w₂, .ok v') →
          ∃ m, (w₁.graph v.graph).nodes.SameUpTo (w₂.graph v'.graph).nodes m ∧ m v.id = v'.id ∧
            (w₁.graph v.graph).stats = (w₂.graph v'.graph).stats := by
  have hportable : ∀ v, some v ∈ params → w.Portable e.table e'.table v.graph := by
    intro v hv t ht hor
    refine ⟨hissued v hv t ht hor, ?_⟩
    rcases hor with rfl | rfl
    · exact hw.classed v.graph _ ht
    · exact (hw.classed v.graph _ ht).reorders he.tables.symm
  refine ⟨⟨?_, ?_⟩, ?_⟩
  · rintro ⟨steps, w₁, v, h⟩
    obtain ⟨steps', w₂, v', -, h', -⟩ :=
      he.symm.exists_instantiateName (fun v hv => (hportable v hv).symm he.tables) h
    exact ⟨steps', w₂, v', h'⟩
  · rintro ⟨steps, w₂, v', h'⟩
    obtain ⟨steps', w₁, v, -, h, -⟩ := he.exists_instantiateName hportable h'
    exact ⟨steps', w₁, v, h⟩
  · intro steps steps' w₁ w₂ v v' h h'
    obtain ⟨steps'', w₁', v'', m, h'', hm⟩ := he.exists_instantiateName hportable h'
    obtain ⟨rfl, rfl⟩ := instantiateName_unique h h''
    exact ⟨m, hm⟩

end Evaluator

namespace Sample

/-! ## An example -/

/-- A class with an empty list for objects of a class. -/
def shelf (elem : Name) : ClassDef where
  interner := ⟨0⟩
  name := ⟨1⟩
  params := []
  fields := [⟨⟨2⟩, .list (.cls elem)⟩]
  instrs := #[.list (.cls elem) [], .constant (.bool true)]
  yields := [.instr 0]
  valid := ⟨by simp, by simp, by simp [Instr.operands], by simp, rfl, by simp [LocalRef.InRange]⟩

/-- The same class with its instructions the other way round. -/
def turnedShelf (elem : Name) : ClassDef where
  interner := ⟨0⟩
  name := ⟨1⟩
  params := []
  fields := [⟨⟨2⟩, .list (.cls elem)⟩]
  instrs := #[.constant (.bool true), .list (.cls elem) []]
  yields := [.instr 1]
  valid := ⟨by simp, by simp, by simp [Instr.operands], by simp, rfl, by simp [LocalRef.InRange]⟩

/-- A class that keeps such a list. -/
def keeper (elem : Name) : ClassDef where
  interner := ⟨0⟩
  name := ⟨3⟩
  params := [⟨⟨2⟩, .list (.cls elem)⟩]
  fields := [⟨⟨2⟩, .list (.cls elem)⟩]
  instrs := #[]
  yields := [.param 0]
  valid := ⟨by simp, by simp, by simp, by simp, rfl, by simp [LocalRef.InRange]⟩

def shelfTable (elem : Name) : ClassTable where
  interner := ⟨0⟩
  classes := [shelf elem, keeper elem]
  names_nodup := by simp [shelf, keeper]
  interner_eq := by simp [shelf, keeper]

def turnedTable (elem : Name) : ClassTable where
  interner := ⟨0⟩
  classes := [turnedShelf elem, keeper elem]
  names_nodup := by simp [turnedShelf, keeper]
  interner_eq := by simp [turnedShelf, keeper]

/-- A workspace with both tables and an interner for the names of their classes. -/
def shelves (elem : Name) : Workspace :=
  ((((["Shelf", "items", "Keeper"].foldl (fun w s => (w.intern ⟨0⟩ s).2)
    (Workspace.addInterner {}).2).addTable (shelfTable elem)).2).addTable (turnedTable elem)).2

def turned : Evaluator := { table := ⟨1⟩ }

/-- The workspace with a shelf of the first table. -/
def stockedShelves (elem : Name) : Workspace :=
  (evaluator.instantiateName (shelves elem) ⟨1⟩ [] 20).1

/-- The list of the shelf. -/
def stock : Value := ⟨⟨0⟩, ⟨3⟩⟩

theorem built_stockedShelves (elem : Name) : (stockedShelves elem).Built := by
  refine .instantiateName _ _ _ _ ?_ ?_
  · exact .addTable _ (.addTable _ (.intern _ _ (.intern _ _ (.intern _ _ (.addInterner .empty)))))
  · intro v hv
    cases hv

/-- The instructions of the shelf change places. -/
def turn (n : Name) : Equiv.Perm ℕ := if n = ⟨1⟩ then Equiv.swap 0 1 else 1

theorem reorders_shelf (elem : Name) : (shelf elem).Reorders (turn ⟨1⟩) (turnedShelf elem) where
  interner := rfl
  name := rfl
  params := rfl
  fields := rfl
  instr := by
    intro i
    match i with
    | 0 => rfl
    | 1 => rfl
    | i + 2 =>
      have hi : turn ⟨1⟩ (i + 2) = i + 2 :=
        Equiv.swap_apply_of_ne_of_ne (by omega) (by omega)
      rw [hi]
      simp [shelf, turnedShelf]
  yields := rfl

theorem reorders_keeper (elem : Name) : (keeper elem).Reorders (turn ⟨3⟩) (keeper elem) where
  interner := rfl
  name := rfl
  params := rfl
  fields := rfl
  instr := by simp [keeper]
  yields := rfl

theorem reorders_turned (elem : Name) :
    Evaluator.Reorders (stockedShelves elem) turn evaluator turned := by
  have htables : (stockedShelves elem).tables = #[shelfTable elem, turnedTable elem] := by
    obtain ⟨w₁, hkeeps, heq | ⟨p, f, s₀, s, -, -, -, heq⟩⟩ :=
      evaluator.workspace_instantiateName (shelves elem) ⟨1⟩ [] 20
    · rw [stockedShelves, heq]
      exact hkeeps.tables
    · rw [stockedShelves, heq]
      exact hkeeps.tables
  refine ⟨?_, rfl, rfl, rfl⟩
  rw [Workspace.table, Workspace.table, htables]
  exact ⟨rfl, .cons (reorders_shelf elem) (.cons (reorders_keeper elem) .nil)⟩

/-- The names in the graph of the shelf were issued, if its element type names the shelf itself. -/
theorem issued_stock :
    ((stockedShelves ⟨1⟩).graph ⟨0⟩).Issued ((stockedShelves ⟨1⟩).tableNames ⟨0⟩) := by
  decide +kernel

/-- The list of the shelf, with an element type that was issued, is kept by both tables. -/
theorem keeper_sameUpTo : ∃ w₁ w₂ v v' m,
    evaluator.instantiateName (stockedShelves ⟨1⟩) ⟨3⟩ [some stock] 20 = (w₁, .ok v) ∧
      turned.instantiateName (stockedShelves ⟨1⟩) ⟨3⟩ [some stock] 20 = (w₂, .ok v') ∧
        (w₁.graph v.graph).nodes.SameUpTo (w₂.graph v'.graph).nodes m ∧ m v.id = v'.id := by
  have hissued : ∀ v, some v ∈ [some stock] → ∀ t,
      ((stockedShelves ⟨1⟩).graph v.graph).table = some t → t = ⟨0⟩ ∨ t = ⟨1⟩ →
        ((stockedShelves ⟨1⟩).graph v.graph).Issued ((stockedShelves ⟨1⟩).tableNames ⟨0⟩) := by
    intro v hv t _ _
    cases List.mem_singleton.1 hv
    exact issued_stock
  obtain ⟨w₁, v, h⟩ := exists_of_isOk
    (show (evaluator.instantiateName (stockedShelves ⟨1⟩) ⟨3⟩ [some stock] 20).2.isOk = true by
      decide +kernel)
  obtain ⟨w₂, v', h'⟩ := exists_of_isOk
    (show (turned.instantiateName (stockedShelves ⟨1⟩) ⟨3⟩ [some stock] 20).2.isOk = true by
      decide +kernel)
  obtain ⟨m, hm, hroot, -⟩ :=
    (Evaluator.instantiateName_order (built_stockedShelves ⟨1⟩) (reorders_turned ⟨1⟩) hissued).2 h h'
  exact ⟨w₁, w₂, v, v', m, h, h', hm, hroot⟩

/-- The list of a shelf for objects of a class that has no name is kept by its own table only: the
name in its element type stays what it is there, and becomes the name of the empty string in the
other table. -/
theorem not_forall_instantiateName_iff : ¬ ∀ (w : Workspace) (σ : Name → Equiv.Perm ℕ)
    (e e' : Evaluator) (n : Name) (params : List (Option Value)), w.Built → Evaluator.Reorders w σ e e' →
      (∀ v, some v ∈ params → w.Holds v) →
        ((∃ steps w₁ v, e.instantiateName w n params steps = (w₁, .ok v)) ↔
          ∃ steps w₁ v, e'.instantiateName w n params steps = (w₁, .ok v)) := by
  intro h
  have hholds : ∀ v, some v ∈ [some stock] → (stockedShelves ⟨9⟩).Holds v := by
    intro v hv
    cases List.mem_singleton.1 hv
    exact ⟨.list (.cls ⟨9⟩) [], by decide +kernel, rfl⟩
  have hkept := exists_of_isOk
    (show (evaluator.instantiateName (stockedShelves ⟨9⟩) ⟨3⟩ [some stock] 20).2.isOk = true by
      decide +kernel)
  obtain ⟨steps, w₁, v, hok⟩ := (h (stockedShelves ⟨9⟩) turn evaluator turned ⟨3⟩ [some stock]
    (built_stockedShelves ⟨9⟩) (reorders_turned ⟨9⟩) hholds).1 ⟨20, hkept⟩
  obtain ⟨w₂, p, -, -, -, hprepare, -⟩ := Evaluator.instantiateName_eq_ok_iff.1 hok
  have hrefused :
      (turned.prepare (stockedShelves ⟨9⟩) ⟨3⟩ [some stock]).2.isOk = false := by
    decide +kernel
  rw [hprepare] at hrefused
  cases hrefused

end Sample

end ObjectModel
