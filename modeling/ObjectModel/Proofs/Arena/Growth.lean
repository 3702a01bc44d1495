import ObjectModel.Graph.Arena
import Mathlib.Data.List.Basic

/-!
# Growing arenas

During an evaluation an arena only grows: nodes are added, the values there are stay, and a binding
that names its value keeps naming it (`Arena.Grows`). The three updates that an evaluation makes,
a new node, a new state of a binding and a new block of nodes, are read back by one lemma each.
-/

set_option autoImplicit false

namespace ObjectModel

/-! ## Reading an array that has one more element -/

theorem getElem?_push_of_eq_some {α : Type} {xs : Array α} {i : Nat} {x : α} (h : xs[i]? = some x)
    (y : α) : (xs.push y)[i]? = some x := by
  rw [Array.getElem?_push, if_neg (Nat.ne_of_lt (Array.getElem?_eq_some_iff.1 h).1), h]

theorem eq_or_of_getElem?_push {α : Type} {xs : Array α} {i : Nat} {x y : α}
    (h : (xs.push y)[i]? = some x) : (i = xs.size ∧ x = y) ∨ xs[i]? = some x := by
  rw [Array.getElem?_push] at h
  split at h
  · rename_i hi
    exact Or.inl ⟨hi, (Option.some.inj h).symm⟩
  · exact Or.inr h

/-! ## Settled nodes -/

/-- Nothing more happens to the node: it is a value, or a binding that names its value. -/
def Node.Settled : Node → Prop
  | .binding _ (.resolved _) => True
  | .binding _ _ => False
  | _ => True

namespace Node

theorem settled_of_isBinding_eq_false {n : Node} (h : n.isBinding = false) : n.Settled := by
  cases n with
  | binding slot state => simp [isBinding] at h
  | _ => trivial

theorem isBinding_mapChildren (f : ValueId → ValueId) (n : Node) :
    (n.mapChildren f).isBinding = n.isBinding := by
  cases n <;> rfl

theorem mapChildren_eq_self {f : ValueId → ValueId} {n : Node} (h : ∀ c ∈ n.children, f c = c) :
    n.mapChildren f = n := by
  cases n with
  | object cls fields =>
    exact congrArg (Node.object cls) ((List.map_congr_left h).trans (List.map_id fields))
  | list elem elements =>
    exact congrArg (Node.list elem) ((List.map_congr_left h).trans (List.map_id elements))
  | any payload => exact congrArg Node.any (h payload List.mem_cons_self)
  | _ => rfl

end Node

namespace Arena

/-! ## Reading an updated arena -/

/-- The position holds a value. -/
def IsValue (a : Arena) (id : ValueId) : Prop :=
  ∃ n, a.node? id = some n ∧ n.isBinding = false

theorem node?_lt {a : Arena} {id : ValueId} {n : Node} (h : a.node? id = some n) :
    id.index < a.size :=
  (Array.getElem?_eq_some_iff.1 h).1

theorem exists_node? {a : Arena} {id : ValueId} (h : id.index < a.size) :
    ∃ n, a.node? id = some n :=
  ⟨a[id.index], Array.getElem?_eq_some_iff.2 ⟨h, rfl⟩⟩

theorem IsValue.lt {a : Arena} {id : ValueId} (h : a.IsValue id) : id.index < a.size := by
  obtain ⟨n, hn, -⟩ := h
  exact node?_lt hn

/-- A value stands for itself. -/
theorem IsValue.resolve {a : Arena} {id : ValueId} (h : a.IsValue id) : a.resolve id = id := by
  obtain ⟨n, hn, hb⟩ := h
  exact resolve_of_isBinding_eq_false hn hb

/-- A binding is not a value. -/
theorem IsValue.not_binding {a : Arena} {id : ValueId} (h : a.IsValue id) (slot : Slot)
    (state : BindingState) : a.node? id ≠ some (.binding slot state) := by
  intro hid
  obtain ⟨n, hn, hb⟩ := h
  rw [hid] at hn
  cases hn
  cases hb

theorem node?_push (a : Arena) (n : Node) (id : ValueId) :
    Arena.node? (a.push n) id = if id.index = a.size then some n else a.node? id := by
  simp [node?, Array.getElem?_push]

theorem node?_push_size (a : Arena) (n : Node) : Arena.node? (a.push n) ⟨a.size⟩ = some n := by
  simp [node?_push]

theorem node?_push_of_eq_some {a : Arena} {id : ValueId} {m : Node} (h : a.node? id = some m)
    (n : Node) : Arena.node? (a.push n) id = some m :=
  getElem?_push_of_eq_some h n

/-- What is read after a node is added. -/
theorem eq_or_of_node?_push {a : Arena} {n m : Node} {id : ValueId}
    (h : Arena.node? (a.push n) id = some m) : (id = ⟨a.size⟩ ∧ m = n) ∨ a.node? id = some m := by
  rcases eq_or_of_getElem?_push h with ⟨hid, hm⟩ | h
  · cases id
    exact Or.inl ⟨congrArg ValueId.mk hid, hm⟩
  · exact Or.inr h

/-- A new value is not a binding, so the bindings are those that were there. -/
theorem binding_push_iff {a : Arena} {n : Node} (hn : n.isBinding = false) {id : ValueId}
    {slot : Slot} {state : BindingState} :
    Arena.node? (a.push n) id = some (.binding slot state) ↔
      a.node? id = some (.binding slot state) := by
  constructor
  · intro h
    rcases eq_or_of_node?_push h with ⟨-, rfl⟩ | h
    · cases hn
    · exact h
  · exact fun h => node?_push_of_eq_some h n

theorem node?_append_of_eq_some {a : Arena} {id : ValueId} {m : Node} (h : a.node? id = some m)
    (b : Arena) : Arena.node? (a ++ b) id = some m := by
  have hlt := node?_lt h
  rw [node?] at h ⊢
  rw [Array.getElem?_append_left hlt, h]

/-- Setting a node that is there. -/
theorem node?_set {a : Arena} {id : ValueId} {m : Node} (h : a.node? id = some m) (n : Node)
    (j : ValueId) :
    Arena.node? (a.setIfInBounds id.index n) j = if j = id then some n else a.node? j := by
  have hlt := node?_lt h
  rw [node?, Array.getElem?_setIfInBounds]
  by_cases hj : j = id
  · subst hj
    rw [if_pos rfl, if_pos rfl, if_pos hlt]
  · have hne : id.index ≠ j.index := by
      intro heq
      apply hj
      cases j
      cases id
      exact congrArg ValueId.mk heq.symm
    rw [if_neg hne, if_neg hj, node?]

/-! ## Growth -/

/-- What an evaluation may do to an arena: values and named values stay, a binding remains the
binding of its slot, and once it is started it stays started. -/
structure Grows (a b : Arena) : Prop where
  settled : ∀ {id : ValueId} {n : Node}, a.node? id = some n → n.Settled → b.node? id = some n
  binding : ∀ {id : ValueId} {slot : Slot} {state : BindingState},
    a.node? id = some (.binding slot state) → ∃ state', b.node? id = some (.binding slot state')
  unstarted : ∀ {id : ValueId} {slot : Slot}, b.node? id = some (.binding slot .unstarted) →
    id.index < a.size → a.node? id = some (.binding slot .unstarted)

namespace Grows

/-- A value stays what it is. -/
theorem value {a b : Arena} (h : a.Grows b) {id : ValueId} {n : Node} (hn : a.node? id = some n)
    (hv : n.isBinding = false) : b.node? id = some n :=
  h.settled hn (Node.settled_of_isBinding_eq_false hv)

/-- A binding goes on to name its value. -/
theorem resolved {a b : Arena} (h : a.Grows b) {id target : ValueId} {slot : Slot}
    (hn : a.node? id = some (.binding slot (.resolved target))) :
    b.node? id = some (.binding slot (.resolved target)) :=
  h.settled hn trivial

theorem isValue {a b : Arena} (h : a.Grows b) {id : ValueId} (hv : a.IsValue id) :
    b.IsValue id := by
  obtain ⟨n, hn, hb⟩ := hv
  exact ⟨n, h.value hn hb, hb⟩

theorem size_le {a b : Arena} (h : a.Grows b) : a.size ≤ b.size := by
  -- If it had shrunk, the last node would be gone, but values and bindings stay.
  by_contra hlt
  have hlast : ∃ n, a.node? ⟨b.size⟩ = some n := exists_node? (by show b.size < a.size; omega)
  obtain ⟨n, hn⟩ := hlast
  have hb : ∃ m, b.node? ⟨b.size⟩ = some m := by
    cases n with
    | binding slot state =>
      obtain ⟨state', h'⟩ := h.binding hn
      exact ⟨_, h'⟩
    | _ => exact ⟨_, h.value hn rfl⟩
  obtain ⟨m, hm⟩ := hb
  exact absurd (node?_lt hm) (Nat.lt_irrefl _)

theorem refl (a : Arena) : a.Grows a :=
  ⟨fun h _ => h, fun h => ⟨_, h⟩, fun h _ => h⟩

theorem trans {a b c : Arena} (hab : a.Grows b) (hbc : b.Grows c) : a.Grows c where
  settled h hn := hbc.settled (hab.settled h hn) hn
  binding h := by
    obtain ⟨state, hstate⟩ := hab.binding h
    exact hbc.binding hstate
  unstarted h hlt := hab.unstarted (hbc.unstarted h (Nat.lt_of_lt_of_le hlt hab.size_le)) hlt

theorem of_push (a : Arena) (n : Node) : a.Grows (a.push n) where
  settled h _ := node?_push_of_eq_some h n
  binding h := ⟨_, node?_push_of_eq_some h n⟩
  unstarted h hlt := by
    rwa [node?_push, if_neg (Nat.ne_of_lt hlt)] at h

theorem of_append (a b : Arena) : a.Grows (a ++ b) where
  settled h _ := node?_append_of_eq_some h b
  binding h := ⟨_, node?_append_of_eq_some h b⟩
  unstarted h hlt := by
    rw [node?] at h ⊢
    rwa [Array.getElem?_append_left hlt] at h

/-- A binding without a value may change its state. -/
theorem of_set {a : Arena} {id : ValueId} {slot : Slot} {state : BindingState}
    (h : a.node? id = some (.binding slot state)) (hs : ¬ (Node.binding slot state).Settled)
    {state' : BindingState} (hs' : state' ≠ .unstarted) :
    a.Grows (a.setIfInBounds id.index (.binding slot state')) where
  settled := by
    intro j n hn hset
    rw [node?_set h]
    by_cases hj : j = id
    · -- What is settled is not the binding that changes its state.
      subst hj
      rw [h] at hn
      cases hn
      exact absurd hset hs
    · rw [if_neg hj, hn]
  binding := by
    intro j slot' st hn
    rw [node?_set h]
    by_cases hj : j = id
    · subst hj
      rw [h] at hn
      cases hn
      exact ⟨state', by rw [if_pos rfl]⟩
    · exact ⟨st, by rw [if_neg hj, hn]⟩
  unstarted := by
    intro j slot' hn _
    rw [node?_set h] at hn
    split at hn
    · cases hn
      exact absurd rfl hs'
    · exact hn

end Grows

end Arena

end ObjectModel
