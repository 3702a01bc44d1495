import Mathlib.Data.List.Forall2

/-!
# Traversals that may fail

A traversal of a list succeeds exactly if its function does at every element, and then its result
has the results of the elements in order. A search finds the first element at which there is
something.
-/

set_option autoImplicit false

namespace ObjectModel

universe u

variable {α β ε : Type u}

/-- Each element of the first list has a partner. -/
theorem exists_of_forall₂_of_mem {R : α → β → Prop} {xs : List α} {ys : List β}
    (h : List.Forall₂ R xs ys) {x : α} (hx : x ∈ xs) : ∃ y ∈ ys, R x y := by
  induction h with
  | nil => cases hx
  | cons hxy _ ih =>
    rcases List.mem_cons.1 hx with rfl | hx
    · exact ⟨_, List.mem_cons_self, hxy⟩
    · obtain ⟨y, hy, hR⟩ := ih hx
      exact ⟨y, List.mem_cons_of_mem _ hy, hR⟩

/-- What relates two lists relates the lists of their partners. -/
theorem forall₂_of_partners {γ δ : Type u} {R : α → γ → Prop} {R' : β → δ → Prop}
    {S : α → β → Prop} {T : γ → δ → Prop}
    (hT : ∀ {x y x' y'}, R x y → R' x' y' → S x x' → T y y') {xs : List α} {xs' : List β}
    {ys : List γ} {ys' : List δ} (h : List.Forall₂ S xs xs') (hxs : List.Forall₂ R xs ys)
    (hxs' : List.Forall₂ R' xs' ys') : List.Forall₂ T ys ys' := by
  induction h generalizing ys ys' with
  | nil =>
    cases hxs
    cases hxs'
    exact .nil
  | cons hx _ ih =>
    cases hxs with
    | cons hy hys =>
      cases hxs' with
      | cons hy' hys' => exact .cons (hT hy hy' hx) (ih hys hys')

/-- Lists with a related one between them are related. -/
theorem forall₂_trans {γ : Type u} {R : α → β → Prop} {S : β → γ → Prop} {T : α → γ → Prop}
    (hT : ∀ x y z, R x y → S y z → T x z) {xs : List α} {ys : List β} {zs : List γ}
    (hxy : List.Forall₂ R xs ys) (hyz : List.Forall₂ S ys zs) : List.Forall₂ T xs zs := by
  induction hxy generalizing zs with
  | nil =>
    cases hyz
    exact .nil
  | cons hx _ ih =>
    cases hyz with
    | cons hy hrest => exact .cons (hT _ _ _ hx hy) (ih hrest)

theorem mapM_eq_some_iff {f : α → Option β} {xs : List α} {ys : List β} :
    xs.mapM f = some ys ↔ List.Forall₂ (fun x y => f x = some y) xs ys := by
  induction xs generalizing ys with
  | nil =>
    rw [List.mapM_nil, List.forall₂_nil_left_iff]
    exact ⟨fun h => (Option.some.inj h).symm, fun h => congrArg some h.symm⟩
  | cons x xs ih =>
    rw [List.mapM_cons, List.forall₂_cons_left_iff]
    cases hx : f x with
    | none => simp
    | some y =>
      cases hxs : xs.mapM f with
      | none =>
        have hno : ∀ zs, ¬ List.Forall₂ (fun x y => f x = some y) xs zs := by
          intro zs hzs
          rw [ih.2 hzs] at hxs
          cases hxs
        simp [hno]
      | some zs =>
        constructor
        · intro h
          exact ⟨y, zs, rfl, ih.1 hxs, (Option.some.inj h).symm⟩
        · rintro ⟨y', zs', hy', hzs', rfl⟩
          rw [ih.2 hzs'] at hxs
          cases hxs
          cases hy'
          rfl

theorem mapM_eq_ok_iff {f : α → Except ε β} {xs : List α} {ys : List β} :
    xs.mapM f = .ok ys ↔ List.Forall₂ (fun x y => f x = .ok y) xs ys := by
  induction xs generalizing ys with
  | nil =>
    rw [List.mapM_nil, List.forall₂_nil_left_iff]
    exact ⟨fun h => (Except.ok.inj h).symm, fun h => congrArg Except.ok h.symm⟩
  | cons x xs ih =>
    rw [List.mapM_cons, List.forall₂_cons_left_iff]
    cases hx : f x with
    | error e => simp [bind, Except.bind]
    | ok y =>
      cases hxs : xs.mapM f with
      | error e =>
        have hno : ∀ zs, ¬ List.Forall₂ (fun x y => f x = .ok y) xs zs := by
          intro zs hzs
          rw [ih.2 hzs] at hxs
          cases hxs
        simp [hno, bind, Except.bind]
      | ok zs =>
        constructor
        · intro h
          exact ⟨y, zs, rfl, ih.1 hxs, (Except.ok.inj h).symm⟩
        · rintro ⟨y', zs', hy', hzs', rfl⟩
          rw [ih.2 hzs'] at hxs
          cases hxs
          cases hy'
          rfl

/-- Two traversals give the same if they do at related elements. -/
theorem exists_mapM_of_forall₂ {γ : Type u} {R : α → β → Prop} {f : α → Option γ}
    {g : β → Option γ} {xs : List α} {ys : List β} (h : List.Forall₂ R xs ys)
    (hR : ∀ x y, R x y → ∃ z, f x = some z ∧ g y = some z) :
    ∃ zs, xs.mapM f = some zs ∧ ys.mapM g = some zs := by
  simp only [mapM_eq_some_iff]
  induction h with
  | nil => exact ⟨[], .nil, .nil⟩
  | cons hxy _ ih =>
    obtain ⟨z, hx, hy⟩ := hR _ _ hxy
    obtain ⟨zs, hxs, hys⟩ := ih
    exact ⟨z :: zs, .cons hx hxs, .cons hy hys⟩

/-- A traversal is defined exactly if its function is at every element. -/
theorem exists_mapM_eq_some {f : α → Option β} {xs : List α} (h : ∀ x ∈ xs, ∃ y, f x = some y) :
    ∃ ys, xs.mapM f = some ys := by
  induction xs with
  | nil => exact ⟨[], rfl⟩
  | cons x xs ih =>
    obtain ⟨y, hy⟩ := h x List.mem_cons_self
    obtain ⟨ys, hys⟩ := ih fun z hz => h z (List.mem_cons_of_mem _ hz)
    rw [mapM_eq_some_iff] at hys
    exact ⟨y :: ys, mapM_eq_some_iff.2 (.cons hy hys)⟩

/-- An element of a list that grew at its end is the new one or an element from before. -/
theorem concat_eq_append_cons_iff {l before rest : List α} {a b : α} :
    l ++ [a] = before ++ b :: rest ↔
      (l = before ∧ a = b ∧ rest = []) ∨ ∃ rest', rest = rest' ++ [a] ∧ l = before ++ b :: rest' := by
  constructor
  · intro h
    rcases List.eq_nil_or_concat rest with rfl | ⟨rest', c, rfl⟩
    · obtain ⟨hl, ha⟩ := List.append_inj' h rfl
      exact Or.inl ⟨hl, List.head_eq_of_cons_eq ha, rfl⟩
    · rw [List.concat_eq_append, ← List.cons_append, ← List.append_assoc] at h
      obtain ⟨hl, ha⟩ := List.append_inj' h rfl
      cases ha
      exact Or.inr ⟨rest', List.concat_eq_append, hl⟩
  · rintro (⟨rfl, rfl, rfl⟩ | ⟨rest', rfl, rfl⟩)
    · rfl
    · simp

/-- A search over a list with its positions finds the first position at which there is something. -/
theorem findSome?_zipIdx_eq_some_iff {l : List α} {f : α × ℕ → Option β} {b : β} :
    l.zipIdx.findSome? f = some b ↔ ∃ k a, l[k]? = some a ∧ f (a, k) = some b ∧
      ∀ j < k, ∀ a', l[j]? = some a' → f (a', j) = none := by
  rw [List.findSome?_eq_some_iff]
  constructor
  · rintro ⟨l₁, ⟨a, k⟩, l₂, hl, hb, hnone⟩
    have hk : ∀ j : ℕ, l.zipIdx[j]? = (l[j]?).map fun x => (x, j) := by
      intro j
      rw [List.getElem?_zipIdx]
      simp
    have hat : l.zipIdx[l₁.length]? = some (a, k) := by simp [hl]
    rw [hk] at hat
    obtain ⟨a', ha', heq⟩ := Option.map_eq_some_iff.1 hat
    cases heq
    refine ⟨_, a, ha', hb, fun j hj x hx => hnone _ ?_⟩
    have hbefore : l.zipIdx[j]? = l₁[j]? := by rw [hl, List.getElem?_append_left hj]
    rw [hk, hx] at hbefore
    exact List.mem_of_getElem? hbefore.symm
  · rintro ⟨k, a, ha, hb, hnone⟩
    obtain ⟨hlt, rfl⟩ := List.getElem?_eq_some_iff.1 ha
    have hlt' : k < l.zipIdx.length := by rwa [List.length_zipIdx]
    refine ⟨l.zipIdx.take k, (l[k], k), l.zipIdx.drop (k + 1), ?_, hb, ?_⟩
    · have hat : l.zipIdx[k] = (l[k], k) := by simp
      rw [← hat, ← List.drop_eq_getElem_cons hlt', List.take_append_drop]
    · rintro ⟨x, j⟩ hx
      obtain ⟨i, hi⟩ := List.mem_iff_getElem?.1 hx
      rw [List.getElem?_take] at hi
      split at hi
      · rename_i hik
        rw [List.getElem?_zipIdx] at hi
        obtain ⟨y, hy, heq⟩ := Option.map_eq_some_iff.1 hi
        cases heq
        simpa using hnone i hik _ hy
      · cases hi

/-- A computation with a state that does not fail has a result. -/
theorem exists_of_isOk {p : α × Except ε β} (h : p.2.isOk = true) : ∃ a b, p = (a, .ok b) := by
  obtain ⟨a, _ | b⟩ := p
  · cases h
  · exact ⟨a, b, rfl⟩

end ObjectModel
