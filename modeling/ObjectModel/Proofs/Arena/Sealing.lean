import ObjectModel.Session.Run
import ObjectModel.Proofs.Arena.Narrowing
import ObjectModel.Proofs.Session.Request

/-!
# Sealed arenas

An arena in which every position stands for a value may be sealed: each reference is replaced by
the value that it stands for. Every position keeps its value, and what stands behind erased types
stays there (`Arena.Denotes.finish`, `Arena.Narrows.finish`).
-/

set_option autoImplicit false

namespace ObjectModel.Arena

variable {a b : Arena} {P : Slot → Prop} {id v : ValueId}

/-- Every position stands for a value, and every reference is a position. -/
structure Whole (a : Arena) : Prop where
  resolved : ∀ {id : ValueId} {slot : Slot} {state : BindingState},
    a.node? id = some (.binding slot state) → ∃ t, state = .resolved t ∧ a.IsValue t
  children : ∀ {id : ValueId} {n : Node}, a.node? id = some n → ∀ c ∈ n.children, c.index < a.size

theorem Whole.denotes (h : a.Whole) (hP : ∀ slot, P slot) (hlt : id.index < a.size) :
    a.Denotes P id (a.resolve id) :=
  denotes_resolve hlt fun {slot _} hn => ⟨hP slot, h.resolved hn⟩

/-- A position that stands for a value stands for what it resolves to. -/
theorem Whole.isValue (h : a.Whole) (hlt : id.index < a.size) : a.IsValue (a.resolve id) :=
  (h.denotes (P := fun _ => True) (fun _ => trivial) hlt).isValue

/-- The arena with every reference replaced by the value that it stands for. -/
def finish (a : Arena) : Arena := a.map fun n => n.mapChildren a.resolve

theorem node?_finish (a : Arena) (id : ValueId) :
    a.finish.node? id = (a.node? id).map fun n => n.mapChildren a.resolve := by
  rw [node?, finish, Array.getElem?_map, node?]

theorem node?_finish_of_eq_some {n : Node} (h : a.node? id = some n) :
    a.finish.node? id = some (n.mapChildren a.resolve) := by
  rw [node?_finish, h, Option.map_some]

/-- Every node of the sealed arena is one whose references were replaced. -/
theorem exists_of_node?_finish {n : Node} (h : a.finish.node? id = some n) :
    ∃ m, a.node? id = some m ∧ m.mapChildren a.resolve = n := by
  rw [node?_finish] at h
  exact Option.map_eq_some_iff.1 h

theorem size_finish (a : Arena) : Array.size a.finish = a.size := by
  rw [finish, Array.size_map]

theorem isValue_finish : a.finish.IsValue id ↔ a.IsValue id := by
  constructor
  · rintro ⟨n, hn, hb⟩
    obtain ⟨m, hm, rfl⟩ := exists_of_node?_finish hn
    rw [Node.isBinding_mapChildren] at hb
    exact ⟨m, hm, hb⟩
  · rintro ⟨m, hm, hb⟩
    exact ⟨m.mapChildren a.resolve, node?_finish_of_eq_some hm,
      (Node.isBinding_mapChildren _ m).trans hb⟩

theorem Denotes.finish (h : a.Denotes P id v) : a.finish.Denotes P id v := by
  cases h with
  | value hv => exact .value (isValue_finish.2 hv)
  | binding hn hp hv =>
    exact .binding (node?_finish_of_eq_some hn) hp (isValue_finish.2 hv)

/-- Every position of a sealed arena stands for the value that it stood for. -/
theorem Whole.resolve_finish (h : a.Whole) (hlt : id.index < a.size) :
    a.finish.resolve id = a.resolve id :=
  resolve_of_denotes (h.denotes (P := fun _ => True) (fun _ => trivial) hlt).finish

/-- Every value behind erased types stays there. -/
theorem Narrows.finish (ha : a.Whole) (hP : ∀ slot, P slot) {k : Nat} (h : a.Narrows P k id v) :
    a.finish.Narrows P k id v := by
  induction h with
  | @stop id v hd hv =>
    refine .stop hd.finish fun p hp => ?_
    obtain ⟨n, hn, hm⟩ := exists_of_node?_finish hp
    cases n with
    | any q => exact hv q hn
    | _ => cases hm
  | @pass id u p w k hd hp htail ih =>
    have hlt : p.index < a.size := htail.lt
    have hu : a.finish.node? u = some (.any (a.resolve p)) := node?_finish_of_eq_some hp
    exact .pass hd.finish hu (ih.of_denotes (ha.denotes hP hlt).finish)

/-- A field of an object becomes the value that it stands for. -/
theorem fieldAt_finish {env : Environment} {field : Name} {slot : ValueId}
    (h : a.fieldAt env v field = .ok slot) :
    a.finish.fieldAt env v field = .ok (a.resolve slot) := by
  rw [fieldAt_eq_ok_iff] at h ⊢
  obtain ⟨cls, fields, c, index, hn, hc, hi, hslot⟩ := h
  refine ⟨cls, fields.map a.resolve, c, index, node?_finish_of_eq_some hn, hc, hi, ?_⟩
  rw [List.getElem?_map, hslot, Option.map_some]

/-- A sealed arena is whole. -/
theorem Whole.finish (h : a.Whole) : a.finish.Whole where
  resolved := by
    intro id slot state hn
    obtain ⟨n, hn, hm⟩ := exists_of_node?_finish hn
    cases n with
    | binding slot' state' =>
      cases hm
      obtain ⟨t, ht, hv⟩ := h.resolved hn
      exact ⟨t, ht, isValue_finish.2 hv⟩
    | _ => cases hm
  children := by
    intro id n hn c hc
    obtain ⟨m, hm, rfl⟩ := exists_of_node?_finish hn
    rw [Node.children_mapChildren, List.mem_map] at hc
    obtain ⟨c', hc', rfl⟩ := hc
    rw [size_finish]
    exact (h.isValue (h.children hm c' hc')).lt

/-- Sealing a whole arena succeeds. -/
theorem Whole.sealed (h : a.Whole) : a.sealed = .ok a.finish := by
  -- Sealing checks that every position ends at a value and that every reference is a position.
  have hsettled : (List.range a.size).all (fun i => a.settled ⟨i⟩) = true := by
    rw [List.all_eq_true]
    intro i hi
    have hlt : (⟨i⟩ : ValueId).index < a.size := List.mem_range.1 hi
    obtain ⟨n, hn, hb⟩ := h.isValue hlt
    rw [settled, hn, Option.elim_some, hb]
    rfl
  have hclosed : a.closed = true := by
    rw [closed, Array.all_eq_true]
    intro i hi
    rw [List.all_eq_true]
    intro c hc
    have hn : a.node? ⟨i⟩ = some a[i] := Array.getElem?_eq_some_iff.2 ⟨hi, rfl⟩
    exact decide_eq_true (h.children hn c hc)
  rw [Arena.sealed, if_pos hsettled, if_pos hclosed]
  rfl

end ObjectModel.Arena
