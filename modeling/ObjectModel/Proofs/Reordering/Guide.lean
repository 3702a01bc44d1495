import ObjectModel.Proofs.Reordering.Twins

/-!
# Guides

A reference whose twins are known guides evaluations that share their instances (`Guide`). Such an
evaluation has one frame where the guide has twins, and `Pairing.Follows` says that it agrees with
its guide as far as it has come. What carries the comparison is that keys tell frames apart exactly
as twins do: two locals of the evaluation have one memo key exactly if their partners cannot be told
apart (`Follows.memoArg?_eq_iff`).
-/

set_option autoImplicit false

namespace ObjectModel

variable {env : Environment}

/-- A completed evaluation with a ranking that does not tell twins apart, for evaluations that share
their instances and demand without limit. -/
structure Guide (env : Environment) extends Reference env where
  rank : Slot → ℕ
  ranked : session.Ranked env' rank
  twins : ℕ → ℕ → Prop
  twinning : toReference.Twinning twins
  rank_eq : ∀ {a b : Slot}, (toReference.mirror twins).Slots a b → rank a = rank b
  depth : env.limits.depth = none
  shares : env.shares = true
  limit : ∀ max, env.limits.instances = some max → session.frames.size ≤ max

/-- The guide paired with itself. -/
abbrev Guide.mirror (guide : Guide env) : Pairing guide.self := guide.toReference.mirror guide.twins

/-- A reference guides evaluations by any of its twinnings. -/
theorem Reference.exists_guide (ref : Reference env) {S : ℕ → ℕ → Prop} (hS : ref.Twinning S)
    (hdepth : env.limits.depth = none) (hshares : env.shares = true)
    (hlimit : ∀ max, env.limits.instances = some max → ref.session.frames.size ≤ max) :
    ∃ guide : Guide env, guide.toReference = ref ∧ guide.twins = S := by
  obtain ⟨rank, -, -, hrank⟩ := ref.completed.explained.ranked
  exact ⟨{ ref with
    rank := ref.twinRank S rank
    ranked := hS.ranked hrank
    twins := S
    twinning := hS
    rank_eq := hS.twinRank_eq
    depth := hdepth
    shares := hshares
    limit := hlimit }, rfl, rfl⟩

/-- What a guide reads at one of two places that cannot be told apart, it reads at the other one. -/
theorem Guide.reads (guide : Guide env) : guide.mirror.Reads (fun _ => True) (fun _ => True) where
  aligned := guide.twinning.aligned
  completed := guide.completed
  resolved _ hx hab := ⟨trivial, guide.twinning.values hab hx⟩
  constant _ _ := trivial

namespace Pairing

variable {guide : Guide env} {p : Pairing guide.toReference}

/-- The evaluation agrees with its guide as far as it has come: each of its frames is paired with
the frames of one family of twins. -/
structure Follows (p : Pairing guide.toReference) : Prop extends p.Aligned where
  paired : ∀ {j : ℕ} {f : Frame}, p.session.frames[j]? = some f → ∃ k, p.frames j k
  unique : ∀ {j k j' k' : ℕ}, p.frames j k → p.frames j' k' → (j = j' ↔ guide.twins k k')
  twins : ∀ {j k l : ℕ}, p.frames j k → guide.twins k l → p.frames j l
  resolved : ∀ {x v : ValueId} {a b : Slot},
    p.session.nodes.node? x = some (.binding a (.resolved v)) → p.Slots a b →
      ∃ y w, guide.session.nodes.node? y = some (.binding b (.resolved w)) ∧ p.Values v w

namespace Follows

/-- At its end an evaluation reads what its guide reads. -/
theorem reads (h : p.Follows) (hdone : p.session.Completed env guide.start) :
    p.Reads (fun _ => True) (fun _ => True) where
  aligned := h.toAligned
  completed := hdone
  resolved _ hx hab := ⟨trivial, h.resolved hx hab⟩
  constant _ _ := trivial

theorem locals_twins (h : p.Follows) {x y z : ValueId} (hxy : p.Locals x y)
    (hyz : guide.mirror.Locals y z) : p.Locals x z :=
  (hxy.along hyz h.toAligned guide.twinning.aligned).mono (extends_along h.twins)

/-! ## Slots -/

variable {a b a' b' : Slot}

/-- The partners of a slot are twins. -/
theorem slots_right_twins (h : p.Follows) (hab : p.Slots a b) (hab' : p.Slots a b') :
    guide.mirror.Slots b b' := by
  cases hab with
  | intro hjk hf =>
    cases hab' with
    | intro hjk' hf' =>
      cases Option.some.inj (hf.symm.trans hf')
      obtain ⟨f, g, hfg⟩ := h.frames hjk
      exact .intro ((h.unique hjk hjk').1 rfl) hfg.right

theorem slots_left_unique (h : p.Follows) (hab : p.Slots a b) (hab' : p.Slots a' b) : a = a' := by
  cases hab with
  | @intro j k i f hjk hf =>
    -- The partner is an index that was moved, so the case split needs it as a variable.
    generalize hb : (⟨k, guide.order f.cls.name i⟩ : Slot) = b at hab'
    cases hab' with
    | @intro j' k' i' f' hjk' hf' =>
      obtain ⟨rfl, hi⟩ := Slot.mk.inj hb
      obtain ⟨f'', g, hfg⟩ := h.frames hjk
      cases (h.unique hjk hjk').2 (guide.twinning.refl hfg.right)
      cases Option.some.inj (hf.symm.trans hf')
      cases (guide.order f.cls.name).injective hi
      rfl

/-- A slot with an instruction has a partner. -/
theorem exists_slots (h : p.Follows) {f : Frame} {i : Instr} (ha : p.session.Located a f i) :
    ∃ b, p.Slots a b := by
  obtain ⟨k, hk⟩ := h.paired ha.frame
  exact ⟨_, .intro hk ha.frame⟩

/-! ## Keys -/

variable {x x' y y' : ValueId}

/-- The partners of a local that is not recognized by a literal are twins. -/
theorem locals_right_twins (h : p.Follows) (hxy : p.Locals x y) (hxy' : p.Locals x y')
    (hx : ∀ l, p.session.memoArg? x ≠ some (.literal l)) : guide.mirror.Locals y y' := by
  cases hxy with
  | imported hlt =>
    cases hxy' with
    | imported _ => exact .imported hlt
    | binding hn _ _ =>
      exact absurd hn ((h.sound.layout.imported hlt).not_binding _ _)
    | literal hl _ => exact absurd hl (hx _)
  | binding hn hy hab =>
    cases hxy' with
    | imported hlt =>
      exact absurd hn ((h.sound.layout.imported hlt).not_binding _ _)
    | binding hn' hy' hab' =>
      rw [hn] at hn'
      cases hn'
      exact .binding hy hy' (h.slots_right_twins hab hab')
    | literal hl _ => exact absurd hl (hx _)
  | literal hl _ => exact absurd hl (hx _)

/-- A local that is not recognized by a literal is the partner of one local. -/
theorem locals_left_unique (h : p.Follows) (hxy : p.Locals x y) (hxy' : p.Locals x' y)
    (hy : ∀ l, guide.session.memoArg? y ≠ some (.literal l)) : x = x' := by
  cases hxy with
  | imported hlt =>
    cases hxy' with
    | imported _ => rfl
    | binding _ hn _ =>
      exact absurd hn ((guide.completed.sound.layout.imported hlt).not_binding _ _)
    | literal _ hl => exact absurd hl (hy _)
  | binding hx hn hab =>
    cases hxy' with
    | imported hlt =>
      exact absurd hn ((guide.completed.sound.layout.imported hlt).not_binding _ _)
    | binding hx' hn' hab' =>
      rw [hn] at hn'
      cases hn'
      cases h.slots_left_unique hab hab'
      exact h.sound.layout.binding_unique hx hx'
    | literal _ hl => exact absurd hl (hy _)
  | literal _ hl => exact absurd hl (hy _)

/-- Two locals are recognized by the same thing exactly if their partners cannot be told apart. -/
theorem memoArg?_eq_iff (h : p.Follows) (hxy : p.Locals x y) (hxy' : p.Locals x' y') :
    p.session.memoArg? x = p.session.memoArg? x' ↔ guide.mirror.Locals y y' := by
  obtain ⟨⟨m, hm⟩, -⟩ := h.exists_memoArg? hxy
  by_cases hl : ∃ l, m = .literal l
  · obtain ⟨l, rfl⟩ := hl
    have hy := (h.memoArg?_literal_iff hxy l).1 hm
    constructor
    · intro heq
      exact .literal hy ((h.memoArg?_literal_iff hxy' l).1 (heq ▸ hm))
    · intro hyy
      have hy' := (guide.twinning.aligned.memoArg?_literal_iff hyy l).1 hy
      rw [hm, (h.memoArg?_literal_iff hxy' l).2 hy']
  · -- Neither is recognized by a literal, so both are recognized by their positions.
    have hx : ∀ l, p.session.memoArg? x ≠ some (.literal l) := by
      intro l hx
      rw [hm] at hx
      exact hl ⟨l, Option.some.inj hx⟩
    constructor
    · intro heq
      obtain ⟨⟨m', hm'⟩, -⟩ := h.exists_memoArg? hxy'
      have hmx := Session.memoArg?_eq_ref hm fun l heq' => hx l (heq' ▸ hm)
      have hmx' := Session.memoArg?_eq_ref hm' fun l heq' => hx l (heq.trans (heq' ▸ hm'))
      rw [hm, hm', hmx, hmx'] at heq
      cases heq
      exact h.locals_right_twins hxy hxy' hx
    · intro hyy
      have hy' : ∀ l, guide.session.memoArg? y' ≠ some (.literal l) :=
        fun l hy' => hx l ((h.memoArg?_literal_iff (h.locals_twins hxy hyy) l).2 hy')
      rw [h.locals_left_unique (h.locals_twins hxy hyy) hxy' hy']

/-- Two lists of locals make one key exactly if their partners cannot be told apart. -/
theorem memoKey?_eq_iff (h : p.Follows) {cls : Name} {xs xs' ys ys' : List ValueId}
    (hxy : List.Forall₂ p.Locals xs ys) (hxy' : List.Forall₂ p.Locals xs' ys') :
    p.session.memoKey? cls xs = p.session.memoKey? cls xs' ↔
      List.Forall₂ guide.mirror.Locals ys ys' := by
  constructor
  · intro heq
    obtain ⟨⟨key, hkey⟩, -⟩ := h.exists_memoKey? cls hxy
    -- Equal keys are equal argument by argument, and each pair of arguments has partners.
    have hall := Session.forall₂_memoArg?_of_memoKey? hkey (heq ▸ hkey)
    refine forall₂_of_partners (fun hx hx' hm => ?_) hall hxy hxy'
    obtain ⟨m, hm, hm'⟩ := hm
    exact (h.memoArg?_eq_iff hx hx').1 (hm.trans hm'.symm)
  · intro hall
    apply Session.memoKey?_eq_of_forall₂
    refine forall₂_of_partners (fun hy hy' hyy => ?_) hall hxy.flip hxy'.flip
    exact (h.memoArg?_eq_iff hy hy').2 hyy

end Follows

end Pairing

end ObjectModel
