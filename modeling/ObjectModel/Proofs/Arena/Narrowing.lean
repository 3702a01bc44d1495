import ObjectModel.Proofs.Arena.Growth
import Mathlib.Data.List.Nodup
import Mathlib.Data.List.Perm.Subperm

/-!
# What a position stands for

A position stands for a value directly or through a binding that names it (`Arena.Denotes`), and
behind a value may stand another one inside erased types (`Arena.Narrows`). Both relations say
which bindings they may read, so that a value can be known to depend on some bindings only. They
agree with the readers of the arena (`resolve_of_denotes`, `narrow_of_narrows`): the bound on the
number of looks never cuts a chain of erased types short that has an end.
-/

set_option autoImplicit false

namespace ObjectModel.Arena

variable {a b : Arena} {P Q : Slot → Prop} {id v w : ValueId}

/-- A position stands for a value, through one of the bindings allowed. -/
inductive Denotes (a : Arena) (P : Slot → Prop) : ValueId → ValueId → Prop
  | value {v : ValueId} : a.IsValue v → Denotes a P v v
  | binding {id v : ValueId} {slot : Slot} :
      a.node? id = some (.binding slot (.resolved v)) → P slot → a.IsValue v → Denotes a P id v

/-- Behind so many erased types stands a value that is none, through the bindings allowed. -/
inductive Narrows (a : Arena) (P : Slot → Prop) : Nat → ValueId → ValueId → Prop
  | stop {id v : ValueId} : Denotes a P id v → (∀ p, a.node? v ≠ some (.any p)) →
      Narrows a P 0 id v
  | pass {id v p w : ValueId} {k : Nat} : Denotes a P id v → a.node? v = some (.any p) →
      Narrows a P k p w → Narrows a P (k + 1) id w

/-! ## Values -/

theorem Denotes.isValue (h : a.Denotes P id v) : a.IsValue v := by
  cases h with
  | value hv => exact hv
  | binding _ _ hv => exact hv

theorem Denotes.lt (h : a.Denotes P id v) : id.index < a.size := by
  cases h with
  | value hv => exact hv.lt
  | binding hn _ _ => exact node?_lt hn

/-- A value stands for itself alone. -/
theorem Denotes.eq_of_isValue (h : a.Denotes P id v) (hid : a.IsValue id) : v = id := by
  cases h with
  | value _ => rfl
  | binding hn _ _ => exact absurd hn (hid.not_binding _ _)

/-- A binding stands for the value that it names. -/
theorem Denotes.eq_of_binding (h : a.Denotes P id v) {slot : Slot} {state : BindingState}
    (hn : a.node? id = some (.binding slot state)) : state = .resolved v ∧ P slot := by
  cases h with
  | value hv => exact absurd hn (hv.not_binding _ _)
  | binding hn' hp _ =>
    rw [hn] at hn'
    cases hn'
    exact ⟨rfl, hp⟩

/-- A position stands for one value, whatever bindings are allowed. -/
theorem Denotes.unique (hv : a.Denotes P id v) (hw : a.Denotes Q id w) : v = w := by
  cases hv with
  | value h => exact (hw.eq_of_isValue h).symm
  | binding hn _ _ =>
    have h := (hw.eq_of_binding hn).1
    cases h
    rfl

/-- What is known in an arena stays so when it grows and more bindings are allowed. -/
theorem Denotes.mono (h : a.Denotes P id v) (hab : a.Grows b)
    (hPQ : ∀ {j t slot}, a.node? j = some (.binding slot (.resolved t)) → P slot → Q slot) :
    b.Denotes Q id v := by
  cases h with
  | value hv => exact .value (hab.isValue hv)
  | binding hn hp hv => exact .binding (hab.resolved hn) (hPQ hn hp) (hab.isValue hv)

theorem resolve_of_denotes (h : a.Denotes P id v) : a.resolve id = v := by
  have hlt := h.lt
  cases h with
  | value hv =>
    obtain ⟨n, hn, hb⟩ := hv
    exact resolve_of_isBinding_eq_false hn hb
  | binding hn _ hv =>
    obtain ⟨m, hm, hb⟩ := hv
    -- The fuel is the size of the arena, which is positive: one look at the binding, one at its
    -- value.
    obtain ⟨k, hk⟩ : ∃ k, a.size = k + 1 := ⟨a.size - 1, by omega⟩
    unfold resolve
    rw [hk, follow, hn]
    show a.follow k v = v
    cases k with
    | zero => rfl
    | succ k =>
      rw [follow, hm]
      cases m with
      | binding slot state => simp [Node.isBinding] at hb
      | _ => rfl

/-- Where every binding names a value, a position of the arena stands for what it resolves to. -/
theorem denotes_resolve (hlt : id.index < a.size)
    (hres : ∀ {slot state}, a.node? id = some (.binding slot state) →
      P slot ∧ ∃ t, state = .resolved t ∧ a.IsValue t) :
    a.Denotes P id (a.resolve id) := by
  obtain ⟨n, hn⟩ := exists_node? hlt
  have key : ∃ v, a.Denotes P id v := by
    cases n with
    | binding slot state =>
      obtain ⟨hp, t, rfl, ht⟩ := hres hn
      exact ⟨t, .binding hn hp ht⟩
    | _ => exact ⟨id, .value ⟨_, hn, rfl⟩⟩
  obtain ⟨v, hv⟩ := key
  rw [resolve_of_denotes hv]
  exact hv

/-! ## Behind erased types -/

theorem Narrows.isValue {k : Nat} (h : a.Narrows P k id v) : a.IsValue v := by
  induction h with
  | stop hd _ => exact hd.isValue
  | pass _ _ _ ih => exact ih

theorem Narrows.lt {k : Nat} (h : a.Narrows P k id v) : id.index < a.size := by
  cases h with
  | stop hd _ => exact hd.lt
  | pass hd _ _ => exact hd.lt

theorem Narrows.mono {k : Nat} (h : a.Narrows P k id v) (hab : a.Grows b)
    (hPQ : ∀ {j t slot}, a.node? j = some (.binding slot (.resolved t)) → P slot → Q slot) :
    b.Narrows Q k id v := by
  induction h with
  | stop hd hv =>
    refine .stop (hd.mono hab hPQ) fun p hp => ?_
    obtain ⟨n, hn, hb⟩ := hd.isValue
    rw [hab.value hn hb] at hp
    exact hv p (hn.trans hp)
  | pass hd hp _ ih => exact .pass (hd.mono hab hPQ) (hab.value hp rfl) ih

/-- There is one value behind a position, and one number of erased types before it. -/
theorem Narrows.unique {k l : Nat} (hv : a.Narrows P k id v) (hw : a.Narrows Q l id w) :
    k = l ∧ v = w := by
  -- Both ways go through the same erased types, one after the other.
  induction hv generalizing l w with
  | stop hd hv =>
    cases hw with
    | stop hd' _ => exact ⟨rfl, hd.unique hd'⟩
    | pass hd' hp _ =>
      rw [← hd.unique hd'] at hp
      exact absurd hp (hv _)
  | pass hd hp _ ih =>
    cases hw with
    | stop hd' hw =>
      rw [hd.unique hd'] at hp
      exact absurd hp (hw _)
    | pass hd' hp' htail =>
      rw [← hd.unique hd', hp] at hp'
      cases hp'
      obtain ⟨rfl, rfl⟩ := ih htail
      exact ⟨rfl, rfl⟩

/-- What stands behind a position stands behind the value that the position stands for. -/
theorem Narrows.of_denotes {k : Nat} (h : a.Narrows P k id v) (hw : a.Denotes P id w) :
    a.Narrows P k w v := by
  cases h with
  | stop hd hv =>
    rw [← hw.unique hd] at hv ⊢
    exact .stop (.value hw.isValue) hv
  | pass hd hp htail =>
    rw [← hw.unique hd] at hp
    exact .pass (.value hw.isValue) hp htail

/-! ## The bound on the looks -/

/-- An arena does not have more distinct positions than nodes. -/
theorem length_le_of_nodup {l : List ValueId} {n : Nat} (hl : l.Nodup)
    (hlt : ∀ u ∈ l, u.index < n) : l.length ≤ n := by
  -- The indices of the positions are distinct numbers below the bound.
  have hmap : (l.map ValueId.index).Nodup := by
    refine hl.map ?_
    intro u v huv
    cases u
    cases v
    exact congrArg ValueId.mk huv
  have hsub : l.map ValueId.index ⊆ List.range n := by
    intro i hi
    obtain ⟨u, hu, rfl⟩ := List.mem_map.1 hi
    exact List.mem_range.2 (hlt u hu)
  have hle := (hmap.subperm hsub).length_le
  rwa [List.length_map, List.length_range] at hle

/-- The erased types on the way are distinct nodes: each has its own number of them to come. -/
theorem Narrows.exists_passed {k : Nat} (h : a.Narrows P k id v) :
    ∃ l : List ValueId, l.length = k ∧ l.Nodup ∧
      ∀ u ∈ l, u.index < a.size ∧ ∃ j, 0 < j ∧ j ≤ k ∧ a.Narrows P j u v := by
  induction h with
  | stop _ _ => exact ⟨[], rfl, List.nodup_nil, by simp⟩
  | @pass id u p w k hd hp htail ih =>
    obtain ⟨l, hlen, hnodup, hl⟩ := ih
    have hu : a.Narrows P (k + 1) u w := .pass (.value hd.isValue) hp htail
    refine ⟨u :: l, by rw [List.length_cons, hlen], List.nodup_cons.2 ⟨?_, hnodup⟩, ?_⟩
    · -- The position has one more erased type before it than any that comes after it.
      intro hmem
      obtain ⟨-, j, -, hj, hn⟩ := hl u hmem
      have := (hu.unique hn).1
      omega
    · intro x hx
      rcases List.mem_cons.1 hx with rfl | hx
      · exact ⟨hd.isValue.lt, k + 1, by omega, Nat.le_refl _, hu⟩
      · obtain ⟨hlt, j, hpos, hj, hn⟩ := hl x hx
        exact ⟨hlt, j, hpos, by omega, hn⟩

theorem Narrows.le_size {k : Nat} (h : a.Narrows P k id v) : k ≤ a.size := by
  obtain ⟨l, rfl, hnodup, hl⟩ := h.exists_passed
  exact length_le_of_nodup hnodup fun u hu => (hl u hu).1

theorem unwrap_of_narrows {k : Nat} (h : a.Narrows P k id v) :
    ∀ n, k ≤ n → a.unwrap n (a.resolve id) = v := by
  induction h with
  | @stop id v hd hv =>
    intro n _
    rw [resolve_of_denotes hd]
    cases n with
    | zero => rfl
    | succ n =>
      obtain ⟨m, hm, -⟩ := hd.isValue
      rw [unwrap, hm]
      cases m with
      | any p => exact absurd hm (hv p)
      | _ => rfl
  | pass hd hp _ ih =>
    intro n hn
    obtain ⟨m, rfl⟩ : ∃ m, n = m + 1 := ⟨n - 1, by omega⟩
    rw [resolve_of_denotes hd, unwrap, hp]
    exact ih m (by omega)

/-- Looking through erased types reaches the value behind them. -/
theorem narrow_of_narrows {k : Nat} (h : a.Narrows P k id v) : a.narrow (a.resolve id) = v :=
  unwrap_of_narrows h _ (Nat.le_succ_of_le h.le_size)

end ObjectModel.Arena
