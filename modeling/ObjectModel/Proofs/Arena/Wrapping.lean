import ObjectModel.Proofs.Arena.Sealing
import Mathlib.Logic.Relation

/-!
# Erased types around erased types

The erased types around a value come to an end, behind which stands a value that is none
(`Arena.Narrows`), or one of them wraps itself through the others (`Arena.Loops`). It is one or the
other (`Arena.Whole.narrows_or_loops`, `Arena.Loops.not_narrows`): whoever looks through more of
them than there are nodes sees one twice (`Arena.Sees.loops`). Every look, whatever its bound, stays
on erased types that loop (`Arena.Loops.narrow`).
-/

set_option autoImplicit false

namespace ObjectModel.Arena

variable {a b : Arena} {P : Slot → Prop} {o x y t u : ValueId} {k n : Nat}

/-- An erased type wraps the value that its payload stands for. -/
def Wraps (a : Arena) (x y : ValueId) : Prop := ∃ p, a.node? x = some (.any p) ∧ a.resolve p = y

/-- The erased types around a value come back to one of them. -/
def Loops (a : Arena) (x : ValueId) : Prop :=
  ∃ u, Relation.ReflTransGen a.Wraps x u ∧ Relation.TransGen a.Wraps u u

/-! ## Looks -/

theorem unwrap_of_wraps (h : a.Wraps x y) (n : Nat) : a.unwrap (n + 1) x = a.unwrap n y := by
  obtain ⟨p, hp, rfl⟩ := h
  rw [unwrap, hp]

/-- Looks may be made in two rounds. -/
theorem unwrap_add (a : Arena) (m n : Nat) (x : ValueId) :
    a.unwrap (m + n) x = a.unwrap n (a.unwrap m x) := by
  induction m generalizing x with
  | zero => rw [Nat.zero_add, unwrap]
  | succ m ih =>
    rw [Nat.succ_add, unwrap, unwrap]
    split
    · exact ih _
    · -- Behind a value that is no erased type there is nothing to look at.
      rename_i hnone
      cases n with
      | zero => rfl
      | succ n =>
        rw [unwrap]
        split
        · rename_i p hp
          exact absurd hp (hnone p)
        · rfl

/-! ## Loops -/

/-- Erased types that loop wrap erased types that loop. -/
theorem Loops.exists_wraps (h : a.Loops x) : ∃ y, a.Wraps x y ∧ a.Loops y := by
  obtain ⟨u, hxu, huu⟩ := h
  cases hxu using Relation.ReflTransGen.head_induction_on with
  | refl =>
    obtain ⟨y, hxy, hyx⟩ := Relation.TransGen.head'_iff.1 huu
    exact ⟨y, hxy, x, hyx, huu⟩
  | head hxy hyu => exact ⟨_, hxy, u, hyu, huu⟩

theorem Loops.exists_any (h : a.Loops x) : ∃ p, a.node? x = some (.any p) := by
  obtain ⟨y, ⟨p, hp, -⟩, -⟩ := h.exists_wraps
  exact ⟨p, hp⟩

theorem Loops.unwrap (h : a.Loops x) (n : Nat) : a.Loops (a.unwrap n x) := by
  induction n generalizing x with
  | zero => exact h
  | succ n ih =>
    obtain ⟨y, hxy, hy⟩ := h.exists_wraps
    rw [unwrap_of_wraps hxy]
    exact ih hy

/-- However many looks are allowed, they end on an erased type. -/
theorem Loops.narrow (h : a.Loops x) : ∃ p, a.node? (a.narrow x) = some (.any p) :=
  (h.unwrap _).exists_any

/-- What is wrapped in erased types that loop is what they wrap. -/
theorem Loops.of_wraps (h : a.Loops y) (hxy : a.Wraps x y) : a.Loops x := by
  obtain ⟨u, hyu, huu⟩ := h
  exact ⟨u, hyu.head hxy, huu⟩

/-- No value stands behind erased types that loop. -/
theorem Loops.not_narrows (h : a.Loops x) : ¬ a.Narrows P k x u := by
  intro hn
  induction k generalizing x with
  | zero =>
    obtain ⟨p, hp⟩ := h.exists_any
    cases hn with
    | stop hd hu =>
      rw [hd.eq_of_isValue ⟨_, hp, rfl⟩] at hu
      exact hu p hp
  | succ k ih =>
    obtain ⟨y, ⟨p, hp, rfl⟩, hy⟩ := h.exists_wraps
    cases hn with
    | pass hd hp' htail =>
      rw [hd.eq_of_isValue ⟨_, hp, rfl⟩, hp] at hp'
      cases hp'
      -- What stands behind the payload stands behind the value that the payload stands for.
      apply ih hy
      cases htail with
      | stop hd' hu =>
        rw [resolve_of_denotes hd']
        exact (Narrows.stop hd' hu).of_denotes hd'
      | pass hd' hq hrest =>
        rw [resolve_of_denotes hd']
        exact (Narrows.pass hd' hq hrest).of_denotes hd'

/-- More erased types in a row than nodes loop: one of them comes twice. -/
theorem loops_of_wraps {f : Nat → ValueId} (h : ∀ i < n, a.Wraps (f i) (f (i + 1)))
    (hn : a.size < n) : a.Loops (f 0) := by
  have hpath : ∀ {i j : Nat}, i ≤ j → j ≤ n → Relation.ReflTransGen a.Wraps (f i) (f j) := by
    intro i j hij hj
    induction j with
    | zero =>
      obtain rfl : i = 0 := by omega
      exact .refl
    | succ j ih =>
      rcases Nat.eq_or_lt_of_le hij with rfl | hlt
      · exact .refl
      · exact (ih (by omega) (by omega)).tail (h j (by omega))
  -- Otherwise there would be as many different nodes as erased types in the row.
  obtain ⟨i, j, hij, hj, heq⟩ : ∃ i j, i < j ∧ j < n ∧ f i = f j := by
    by_contra hne
    have hinj : ∀ i ∈ List.range n, ∀ j ∈ List.range n, f i = f j → i = j := by
      intro i hi j hj heq
      rw [List.mem_range] at hi hj
      rcases Nat.lt_trichotomy i j with hlt | rfl | hlt
      · exact absurd ⟨i, j, hlt, hj, heq⟩ hne
      · rfl
      · exact absurd ⟨j, i, hlt, hi, heq.symm⟩ hne
    have hle : ((List.range n).map f).length ≤ a.size := by
      apply length_le_of_nodup (List.Nodup.map_on hinj List.nodup_range)
      intro u hu
      obtain ⟨i, hi, rfl⟩ := List.mem_map.1 hu
      obtain ⟨p, hp, -⟩ := h i (List.mem_range.1 hi)
      exact node?_lt hp
    rw [List.length_map, List.length_range] at hle
    omega
  refine ⟨f i, hpath (Nat.zero_le i) (by omega), ?_⟩
  have hback := hpath (show i + 1 ≤ j by omega) (by omega)
  have hround := Relation.TransGen.head' (h i (by omega)) hback
  rwa [← heq] at hround

/-! ## What a look sees -/

/-- Through so many erased types and the bindings between them one sees a position from another. -/
inductive Sees (a : Arena) (o : ValueId) : Nat → ValueId → Prop
  | start : Sees a o 0 o
  | follow {n : Nat} {x t : ValueId} {slot : Slot} : Sees a o n x →
      a.node? x = some (.binding slot (.resolved t)) → Sees a o n t
  | unwrap {n : Nat} {x p : ValueId} : Sees a o n x → a.node? x = some (.any p) →
      Sees a o (n + 1) p

/-- Every binding that was resolved names a value. -/
def NamesValues (a : Arena) : Prop :=
  ∀ {id t : ValueId} {slot : Slot}, a.node? id = some (.binding slot (.resolved t)) → a.IsValue t

theorem Whole.namesValues (h : a.Whole) : a.NamesValues := by
  intro id t slot hn
  obtain ⟨t', heq, ht⟩ := h.resolved hn
  cases heq
  exact ht

/-- What stands behind the value of a position stands behind the position. -/
theorem Denotes.narrows (h : a.Denotes P x t) (ht : a.Narrows P k t u) : a.Narrows P k x u := by
  cases ht with
  | stop hd hu =>
    rw [hd.eq_of_isValue h.isValue] at hu ⊢
    exact .stop h hu
  | pass hd hp htail =>
    rw [hd.eq_of_isValue h.isValue] at hp
    exact .pass h hp htail

namespace Sees

theorem grows (h : a.Sees o n x) (hab : a.Grows b) : b.Sees o n x := by
  induction h with
  | start => exact .start
  | follow _ hn ih => exact ih.follow (hab.resolved hn)
  | unwrap _ hn ih => exact ih.unwrap (hab.value hn rfl)

/-- What stands behind a position that is seen stands that much further behind the first one. -/
theorem narrows (h : a.Sees o n x) (ha : a.NamesValues)
    (hx : a.Narrows (fun _ => True) k x u) : a.Narrows (fun _ => True) (n + k) o u := by
  induction h generalizing k with
  | start =>
    rw [Nat.zero_add]
    exact hx
  | follow _ hn ih => exact ih (Denotes.narrows (.binding hn trivial (ha hn)) hx)
  | unwrap _ hn ih =>
    rw [Nat.succ_add, ← Nat.add_succ]
    exact ih (.pass (.value ⟨_, hn, rfl⟩) hn hx)

/-- What stands behind the first position in a later arena stands behind every one that is seen. -/
theorem of_narrows (h : a.Sees o n x) (ha : a.NamesValues) (hab : a.Grows b)
    (ho : b.Narrows (fun _ => True) k o u) :
    ∃ j, k = n + j ∧ b.Narrows (fun _ => True) j x u := by
  induction h with
  | start => exact ⟨k, (Nat.zero_add k).symm, ho⟩
  | follow _ hn ih =>
    obtain ⟨j, hj, hx⟩ := ih
    exact ⟨j, hj, hx.of_denotes (.binding (hab.resolved hn) trivial (hab.isValue (ha hn)))⟩
  | unwrap _ hn ih =>
    obtain ⟨j, hj, hx⟩ := ih
    have hvalue : b.IsValue _ := hab.isValue ⟨_, hn, rfl⟩
    have hn' := hab.value hn rfl
    cases hx with
    | stop hd hu =>
      rw [hd.eq_of_isValue hvalue] at hu
      exact absurd hn' (hu _)
    | pass hd hp htail =>
      rw [hd.eq_of_isValue hvalue, hn'] at hp
      cases hp
      exact ⟨_, hj.trans (Nat.succ_add_eq_add_succ _ _).symm, htail⟩

/-- The looks go from the value of the first position to that of the one that is seen. -/
theorem unwrap_eq (h : a.Sees o n x) (ha : a.NamesValues) :
    a.unwrap n (a.resolve o) = a.resolve x := by
  induction h with
  | start => rfl
  | follow _ hn ih =>
    have hd : a.Denotes (fun _ => True) _ _ := .binding hn trivial (ha hn)
    rw [ih, resolve_of_denotes hd, (ha hn).resolve]
  | unwrap _ hn ih =>
    rw [unwrap_add, ih, resolve_of_isBinding_eq_false hn rfl, unwrap_of_wraps ⟨_, hn, rfl⟩]
    rfl

/-- Each look goes from an erased type to what it wraps. -/
theorem wraps (h : a.Sees o n x) (ha : a.NamesValues) :
    ∀ i < n, a.Wraps (a.unwrap i (a.resolve o)) (a.unwrap (i + 1) (a.resolve o)) := by
  induction h with
  | start => exact fun i hi => absurd hi (Nat.not_lt_zero i)
  | follow _ _ ih => exact ih
  | unwrap hx hn ih =>
    intro i hi
    rcases Nat.lt_succ_iff_lt_or_eq.1 hi with hlt | rfl
    · exact ih i hlt
    · rw [(hx.unwrap hn).unwrap_eq ha, hx.unwrap_eq ha, resolve_of_isBinding_eq_false hn rfl]
      exact ⟨_, hn, rfl⟩

/-- Whoever looks through more erased types than there are nodes looks through a loop. -/
theorem loops (h : a.Sees o n x) (ha : a.NamesValues) (hn : a.size < n) :
    a.Loops (a.resolve o) :=
  loops_of_wraps (f := fun i => a.unwrap i (a.resolve o)) (h.wraps ha) hn

end Sees

/-- Where every position stands for a value, erased types come to an end or loop. -/
theorem Whole.narrows_or_loops (h : a.Whole) (hx : a.IsValue x) :
    (∃ k u, a.Narrows (fun _ => True) k x u) ∨ a.Loops x := by
  -- As long as there is no end, one more look sees one more erased type.
  have hsees : ∀ n, (∃ k u, a.Narrows (fun _ => True) k x u) ∨ ∃ y, a.Sees x n y ∧ a.IsValue y := by
    intro n
    induction n with
    | zero => exact Or.inr ⟨x, .start, hx⟩
    | succ n ih =>
      rcases ih with hend | ⟨y, hy, hvalue⟩
      · exact Or.inl hend
      · obtain ⟨m, hm, hb⟩ := hvalue
        by_cases hany : ∃ p, m = .any p
        · obtain ⟨p, rfl⟩ := hany
          have hp := hy.unwrap hm
          have hd := h.denotes (P := fun _ => True) (fun _ => trivial)
            (h.children hm p (List.mem_singleton_self p))
          generalize a.resolve p = v at hd
          cases hd with
          | value hv => exact Or.inr ⟨_, hp, hv⟩
          | binding hn _ hv => exact Or.inr ⟨_, hp.follow hn, hv⟩
        · refine Or.inl ⟨_, _, hy.narrows h.namesValues (.stop (.value ⟨m, hm, hb⟩) ?_)⟩
          rintro p hp
          exact hany ⟨p, Option.some.inj (hm.symm.trans hp)⟩
  rcases hsees (a.size + 1) with hend | ⟨y, hy, -⟩
  · exact Or.inl hend
  · have hloops := hy.loops h.namesValues (Nat.lt_succ_self _)
    rw [hx.resolve] at hloops
    exact Or.inr hloops

end ObjectModel.Arena
