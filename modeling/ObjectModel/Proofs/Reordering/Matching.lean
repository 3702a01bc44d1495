import ObjectModel.Proofs.Reordering.Opening
import ObjectModel.Proofs.Session.Places
import ObjectModel.Proofs.Arena.Sealing

/-!
# The same graphs

Two completed evaluations whose frames are partners of each other have the same slots, and the
objects, lists and erased types of the one are those of the other (`Pairing.Matches`). So their
sealed arenas differ in positions only (`Arena.SameUpTo`), and their counters are equal.
-/

set_option autoImplicit false

namespace ObjectModel

theorem Node.isComposite_mapChildren (f : ValueId → ValueId) (n : Node) :
    (n.mapChildren f).isComposite = n.isComposite := by
  cases n <;> rfl

namespace Arena

theorem composites_finish (a : Arena) : a.finish.composites = a.composites := by
  ext x
  constructor
  · rintro ⟨n, hn, hcomp⟩
    obtain ⟨m, hm, rfl⟩ := exists_of_node?_finish hn
    rw [Node.isComposite_mapChildren] at hcomp
    exact ⟨m, hm, hcomp⟩
  · rintro ⟨m, hm, hcomp⟩
    refine ⟨m.mapChildren a.resolve, node?_finish_of_eq_some hm, ?_⟩
    rw [Node.isComposite_mapChildren, hcomp]

/-- Two children are the same if the one is mapped to the other, or if both are one literal. -/
def SameChild (a b : Arena) (m : ValueId → ValueId) (x y : ValueId) : Prop :=
  (x ∈ a.composites ∧ m x = y) ∨
    ∃ l, a.node? x = some (.literal l) ∧ b.node? y = some (.literal l)

/-- Two arenas are the same up to the positions of their objects, lists and erased types: these
have the same class or element type and the same children in order. -/
structure SameUpTo (a b : Arena) (m : ValueId → ValueId) : Prop where
  bijOn : Set.BijOn m a.composites b.composites
  nodes : ∀ x ∈ a.composites, ∃ n n', a.node? x = some n ∧ b.node? (m x) = some n' ∧
    n.Alike (a.SameChild b m) n'

end Arena

/-- A relation that has partners for both sets, one each, is a bijection between them. -/
theorem exists_bijOn_of_partners {α β : Type*} [Nonempty β] {R : α → β → Prop} {A : Set α}
    {B : Set β} (left : ∀ a ∈ A, ∃ b, b ∈ B ∧ R a b) (right : ∀ b ∈ B, ∃ a, a ∈ A ∧ R a b)
    (right_unique : ∀ {a b b'}, a ∈ A → R a b → R a b' → b = b')
    (left_unique : ∀ {a a' b}, a ∈ A → a' ∈ A → R a b → R a' b → a = a') :
    ∃ m : α → β, Set.BijOn m A B ∧ ∀ {a b}, a ∈ A → R a b → m a = b := by
  choose! m hm using left
  refine ⟨m, ⟨fun a ha => (hm a ha).1, ?_, ?_⟩, fun ha hab => right_unique ha (hm _ ha).2 hab⟩
  · intro a ha a' ha' heq
    refine left_unique ha ha' (hm a ha).2 ?_
    rw [heq]
    exact (hm a' ha').2
  · intro b hb
    obtain ⟨a, ha, hab⟩ := right b hb
    exact ⟨a, ha, right_unique ha (hm a ha).2 hab⟩

namespace Pairing

variable {env : Environment} {guide : Guide env} {p : Pairing guide.toReference}

/-- Both evaluations are completed, with their values and counters accounted for, and the guide has
no more frames than the other one and no twins. -/
structure Matches (p : Pairing guide.toReference) : Prop where
  follows : p.Follows
  apart : ∀ {k l : ℕ}, guide.twins k l → k = l
  size_le : guide.session.frames.size ≤ p.session.frames.size
  completed : p.session.Completed env guide.start
  builders : p.session.Builders guide.start fun _ => False
  counted : p.session.Counted env 0 0
  counted' : guide.session.Counted guide.env' 0 0

namespace Matches

/-! ## Slots and places -/

theorem slots_right_unique (h : p.Matches) {a b b' : Slot} (hab : p.Slots a b)
    (hab' : p.Slots a b') : b = b' := by
  cases h.follows.slots_right_twins hab hab' with
  | intro hkl _ =>
    cases h.apart hkl
    rfl

theorem places_right_unique (h : p.Matches) {place other other' : Session.Place}
    (hplace : p.Places place other) (hplace' : p.Places place other') : other = other' := by
  cases hplace with
  | imported x =>
    cases hplace'
    rfl
  | object hjk =>
    cases hplace' with
    | object hjk' =>
      exact congrArg Session.Place.object (h.apart ((h.follows.unique hjk hjk').1 rfl))
  | built hab =>
    cases hplace' with
    | built hab' => exact congrArg Session.Place.built (h.slots_right_unique hab hab')

theorem places_left_unique (h : p.Matches) {place place' other : Session.Place}
    (hplace : p.Places place other) (hplace' : p.Places place' other) : place = place' := by
  cases hplace with
  | imported x =>
    cases hplace'
    rfl
  | object hjk =>
    cases hplace' with
    | object hjk' =>
      obtain ⟨f, g, hfg⟩ := h.follows.frames hjk
      exact congrArg Session.Place.object
        ((h.follows.unique hjk hjk').2 (guide.twinning.refl hfg.right))
  | built hab =>
    cases hplace' with
    | built hab' => exact congrArg Session.Place.built (h.follows.slots_left_unique hab hab')

theorem frames_size_eq (h : p.Matches) : p.session.frames.size = guide.session.frames.size :=
  Nat.le_antisymm h.follows.frames_size_le h.size_le

/-- Every frame of the guide has a partner. -/
theorem onto (h : p.Matches) {k : ℕ} {g : Frame} (hg : guide.session.frames[k]? = some g) :
    ∃ j, p.frames j k := by
  obtain ⟨partner, hinj, hpartner⟩ := h.follows.exists_partner
  -- The partners are as many as the frames of the guide, and none is taken twice.
  have hcard : Fintype.card (Fin p.session.frames.size) =
      Fintype.card (Fin guide.session.frames.size) := by
    rw [Fintype.card_fin, Fintype.card_fin, h.frames_size_eq]
  have hbij := (Fintype.bijective_iff_injective_and_card partner).2 ⟨hinj, hcard⟩
  obtain ⟨j, hj⟩ := hbij.surjective ⟨k, (Array.getElem?_eq_some_iff.1 hg).1⟩
  have hjk := hpartner j
  rw [hj] at hjk
  exact ⟨j, hjk⟩

/-- Every slot of the guide that has an instruction has a partner. -/
theorem exists_slots (h : p.Matches) {b : Slot} {g : Frame} {i' : Instr}
    (hb : guide.session.Located b g i') :
    ∃ a f i σ, p.Slots a b ∧ p.session.Located a f i ∧ i' = i.move σ := by
  obtain ⟨k, j'⟩ := b
  obtain ⟨j, hjk⟩ := h.onto hb.frame
  obtain ⟨f, g', hfg⟩ := h.follows.frames hjk
  cases Option.some.inj (hb.frame.symm.trans hfg.right)
  obtain ⟨n, rfl⟩ := (guide.order f.cls.name).surjective j'
  have hi := hfg.reorders.symm.instr_eq_some hb.instr
  rw [Equiv.symm_apply_apply] at hi
  have ha : p.session.Located ⟨j, n⟩ f _ := ⟨hfg.left, hi⟩
  have hab : p.Slots ⟨j, n⟩ ⟨k, guide.order f.cls.name n⟩ := .intro hjk hfg.left
  obtain ⟨g'', -, hb'⟩ := h.follows.located hab ha
  exact ⟨_, f, _, _, hab, ha, (hb.unique hb').2⟩

/-- As many instructions of one kind are carried out by both evaluations. -/
theorem ncard_slots (h : p.Matches) (kind : Instr → Prop)
    (hkind : ∀ σ i, kind (i.move σ) ↔ kind i) :
    { a | ∃ f i, p.session.Located a f i ∧ kind i }.ncard =
      { b | ∃ g i, guide.session.Located b g i ∧ kind i }.ncard := by
  obtain ⟨m, hm, -⟩ := exists_bijOn_of_partners (R := p.Slots)
    (A := { a | ∃ f i, p.session.Located a f i ∧ kind i })
    (B := { b | ∃ g i, guide.session.Located b g i ∧ kind i })
    (by
      rintro a ⟨f, i, ha, hi⟩
      obtain ⟨b, hab⟩ := h.follows.exists_slots ha
      obtain ⟨g, -, hb⟩ := h.follows.located hab ha
      exact ⟨b, ⟨g, _, hb, (hkind _ i).2 hi⟩, hab⟩)
    (by
      rintro b ⟨g, i', hb, hi'⟩
      obtain ⟨a, f, i, σ, hab, ha, rfl⟩ := h.exists_slots hb
      exact ⟨a, ⟨f, i, ha, (hkind σ i).1 hi'⟩, hab⟩)
    (fun _ hab hab' => h.slots_right_unique hab hab')
    (fun _ _ hab hab' => h.follows.slots_left_unique hab hab')
  exact hm.ncard_eq

/-! ## Counters -/

/-- The counters of both evaluations are equal. -/
theorem stats_eq (h : p.Matches) : p.session.stats = guide.session.stats := by
  have hstarted : p.session.started.ncard = guide.session.started.ncard := by
    rw [h.completed.started_eq, guide.completed.started_eq]
    simpa using h.ncard_slots (fun _ => True) fun _ _ => Iff.rfl
  have hinst : p.session.instantiated.ncard = guide.session.instantiated.ncard := by
    rw [h.completed.instantiated_eq, guide.completed.instantiated_eq]
    refine h.ncard_slots (fun i => i.creates = true) fun σ i => ?_
    rw [Instr.creates_move]
  have hframes := h.frames_size_eq
  -- Each counter is the size of a set of slots or frames, and those have partners.
  obtain ⟨n, hn, hnum⟩ := h.counted.instructions
  obtain ⟨n', hn', hnum'⟩ := h.counted'.instructions
  obtain ⟨k, hk, hksum⟩ := h.counted.memoHits
  obtain ⟨k', hk', hksum'⟩ := h.counted'.memoHits
  have hnn : n = n' := by omega
  have hkk : k = k' := by omega
  have hinstructions : p.session.stats.instructions = guide.session.stats.instructions := by
    rw [hn, hn', hnn]
  have hobjects : p.session.stats.objects = guide.session.stats.objects := by
    rw [h.counted.objects, h.counted'.objects, hframes]
  have hhits : p.session.stats.memoHits = guide.session.stats.memoHits := by
    rw [hk, hk', hkk]
  cases hs : p.session.stats
  cases hs' : guide.session.stats
  rw [hs, hs'] at hinstructions hobjects hhits
  cases hinstructions
  cases hobjects
  cases hhits
  rfl

/-! ## Values -/

/-- A composite value of the evaluation has a partner. -/
theorem exists_values (h : p.Matches) {x : ValueId} (hx : x ∈ p.session.nodes.composites) :
    ∃ y, p.Values x y := by
  obtain ⟨place, hfrom⟩ := h.builders.exists_from hx
  cases hfrom with
  | imported hlt => exact ⟨x, h.follows.values_imported hlt⟩
  | object hf =>
    obtain ⟨k, hjk⟩ := h.follows.paired hf
    obtain ⟨f', g, hfg⟩ := h.follows.frames hjk
    cases Option.some.inj (hf.symm.trans hfg.left)
    exact ⟨g.object, hfg.object h.follows.toAligned⟩
  | built hbuilt =>
    obtain ⟨id, hid⟩ := hbuilt.resolved
    obtain ⟨f, i, ha, -⟩ := hbuilt.builds
    obtain ⟨b, hab⟩ := h.follows.exists_slots ha
    obtain ⟨_, w, -, hv⟩ := h.follows.resolved hid hab
    exact ⟨w, hv⟩

/-- A composite value of the guide has a partner. -/
theorem exists_values' (h : p.Matches) {y : ValueId} (hy : y ∈ guide.session.nodes.composites) :
    ∃ x, p.Values x y := by
  obtain ⟨place, hfrom⟩ := guide.builders.exists_from hy
  cases hfrom with
  | imported hlt => exact ⟨y, h.follows.values_imported hlt⟩
  | object hg =>
    obtain ⟨j, hjk⟩ := h.onto hg
    obtain ⟨f, g', hfg⟩ := h.follows.frames hjk
    cases Option.some.inj (hg.symm.trans hfg.right)
    exact ⟨f.object, hfg.object h.follows.toAligned⟩
  -- Its slot has a partner, which is evaluated here, to a value that is paired with this one.
  | built hbuilt =>
    obtain ⟨id, hid⟩ := hbuilt.resolved
    obtain ⟨g, i', hb, -⟩ := hbuilt.builds
    obtain ⟨a, f, i, -, hab, ha, -⟩ := h.exists_slots hb
    obtain ⟨id', v, hid'⟩ := h.completed.known ha
    obtain ⟨id'', w, hid'', hv⟩ := h.follows.resolved hid' hab
    cases guide.completed.sound.layout.binding_unique hid hid''
    cases Option.some.inj (hid.symm.trans hid'')
    exact ⟨v, hv⟩

/-- A composite value of the evaluation has one partner. -/
theorem values_right_unique (h : p.Matches) {x y y' : ValueId}
    (hx : x ∈ p.session.nodes.composites) (hxy : p.Values x y) (hxy' : p.Values x y') :
    y = y' := by
  obtain ⟨place, other, hplaces, hleft, hright⟩ := hxy.exists_places hx
  obtain ⟨place', other', hplaces', hleft', hright'⟩ := hxy'.exists_places hx
  cases h.builders.from_place_unique h.completed.sound.layout hleft hleft'
  cases h.places_right_unique hplaces hplaces'
  exact Session.Builders.from_value_unique guide.completed.sound.layout hright hright'

/-- A composite value of the guide is the partner of one value. -/
theorem values_left_unique (h : p.Matches) {x x' y : ValueId}
    (hx : x ∈ p.session.nodes.composites) (hx' : x' ∈ p.session.nodes.composites)
    (hxy : p.Values x y) (hxy' : p.Values x' y) : x = x' := by
  obtain ⟨place, other, hplaces, hleft, hright⟩ := hxy.exists_places hx
  obtain ⟨place', other', hplaces', hleft', hright'⟩ := hxy'.exists_places hx'
  cases guide.builders.from_place_unique guide.completed.sound.layout hright hright'
  cases h.places_left_unique hplaces hplaces'
  exact Session.Builders.from_value_unique h.completed.sound.layout hleft hleft'

/-! ## Sealed arenas -/

/-- The sealed arenas are the same up to positions, and the objects of paired frames are mapped to
each other. -/
theorem exists_sameUpTo (h : p.Matches) :
    ∃ m, p.session.nodes.finish.SameUpTo guide.session.nodes.finish m ∧
      ∀ {j k : ℕ} {f g : Frame}, p.frames j k → p.session.frames[j]? = some f →
        guide.session.frames[k]? = some g → m f.object = g.object := by
  obtain ⟨m, hm, hpartner⟩ := exists_bijOn_of_partners (R := p.Values)
    (A := p.session.nodes.composites) (B := guide.session.nodes.composites)
    (by
      intro x hx
      obtain ⟨y, hxy⟩ := h.exists_values hx
      exact ⟨y, hxy.composite_iff.1 hx, hxy⟩)
    (by
      intro y hy
      obtain ⟨x, hxy⟩ := h.exists_values' hy
      exact ⟨x, hxy.composite_iff.2 hy, hxy⟩)
    h.values_right_unique h.values_left_unique
  refine ⟨m, ⟨?_, ?_⟩, ?_⟩
  · rw [Arena.composites_finish, Arena.composites_finish]
    exact hm
  · intro x hx
    rw [Arena.composites_finish] at hx
    obtain ⟨y, hxy⟩ := h.exists_values hx
    obtain ⟨n, n', hn, hn', halike⟩ := hxy.nodes
    refine ⟨n.mapChildren p.session.nodes.resolve, n'.mapChildren guide.session.nodes.resolve,
      Arena.node?_finish_of_eq_some hn, ?_, halike.mapChildren ?_⟩
    · rw [hpartner hx hxy]
      exact Arena.node?_finish_of_eq_some hn'
    · -- The children of the two nodes stand for values that are paired.
      intro c c' hcc
      have hv := (h.follows.reads h.completed).values_resolve hcc
      obtain ⟨i, i', hi, hi', halike'⟩ := hv.nodes
      cases halike' with
      | literal l =>
        exact Or.inr ⟨l, Arena.node?_finish_of_eq_some hi, Arena.node?_finish_of_eq_some hi'⟩
      | _ =>
        have hmem : p.session.nodes.resolve c ∈ p.session.nodes.composites := ⟨_, hi, rfl⟩
        refine Or.inl ⟨?_, hpartner hmem hv⟩
        rw [Arena.composites_finish]
        exact hmem
  · intro j k f g hjk hf hg
    obtain ⟨f', g', hfg⟩ := h.follows.frames hjk
    cases Option.some.inj (hf.symm.trans hfg.left)
    cases Option.some.inj (hg.symm.trans hfg.right)
    obtain ⟨fields, -, hobj⟩ := h.completed.sound.layout.object hf
    exact hpartner ⟨_, hobj, rfl⟩ (hfg.object h.follows.toAligned)

end Matches

end Pairing

/-! ## Both evaluations -/

/-- At the end of an evaluation nothing is about to start. -/
theorem Session.Completed.arriving_eq {env : Environment} {start : ℕ} {s : Session}
    (h : s.Completed env start) : s.arriving = 0 := by
  rw [arriving, h.chain_eq]

/-- If an evaluation comes to its end, every evaluation with the instructions in another order does,
and it ends with the same values and the same counters. -/
theorem Environment.Opens.exists_sameUpTo {env env' : Environment} {σ : Name → Equiv.Perm ℕ}
    {nodes : Arena} {target : Name} {args : List ValueId} {f g : Frame} {s₀ s₀' s' : Session}
    (h : env.Opens nodes target args f s₀) (h' : env'.Opens nodes target args g s₀')
    (hσ : env.Reorders σ env') (hnodes : nodes.SelfContained) (hends' : s₀'.Ends env' (.ok s')) :
    ∃ s m, s₀.Ends env (.ok s) ∧ s.nodes.finish.SameUpTo s'.nodes.finish m ∧
      m f.object = g.object ∧ s.stats = s'.stats := by
  obtain ⟨guide, p, rfl, hstart, rfl, hapart, hfollows, hroot, hreach, hends⟩ :=
    h.exists_follows h' hσ hnodes hends'
  obtain ⟨hreach', -⟩ := h'.ends hnodes hends'
  -- The other way round, the evaluation that was guided guides its guide.
  have hsize : guide.session.frames.size ≤ p.session.frames.size := by
    obtain ⟨guide', p', -, -, hsession, -, hfollows', -, -, hends₁⟩ :=
      h'.exists_follows h hσ.symm hnodes hends
    rw [Except.ok.inj (hends'.unique hends₁), ← hsession]
    exact hfollows'.frames_size_le
  have hdone := (h.ends hnodes hends).2
  have hcounted := (h.counted hnodes).reaches (h.sound hnodes) (h.builders hnodes) hreach
  have hcounted' := (h'.counted hnodes).reaches (h'.sound hnodes) (h'.builders hnodes) hreach'
  rw [hdone.arriving_eq] at hcounted
  rw [guide.completed.arriving_eq] at hcounted'
  have hmatches : p.Matches :=
    { follows := hfollows
      apart := hapart
      size_le := hsize
      completed := hstart ▸ hdone
      builders := hstart ▸ (h.builders hnodes).reaches (h.sound hnodes) hreach
      counted := hcounted
      counted' := hcounted' }
  obtain ⟨m, hm, hframes⟩ := hmatches.exists_sameUpTo
  exact ⟨p.session, m, hends, hm,
    hframes hroot (h.first hnodes hreach) (h'.first hnodes hreach'), hmatches.stats_eq⟩

end ObjectModel
