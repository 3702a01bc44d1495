import ObjectModel.Proofs.Reordering.Requests

/-!
# A completed evaluation paired with itself

Some frames of a completed evaluation cannot be told apart: they are for one class, and their
parameters are copies of the same parameters, bindings of such frames for one instruction, or equal
literals. A relation between frames that says so and is closed under it is a twinning
(`Reference.Twinning`). An evaluation that shares its instances has the identity for one
(`Reference.twinning_diagonal`). Every evaluation has a greatest one (`Reference.twinning_twins`),
in which twins are whatever an evaluation that shares would have made one instance of.

Going on from a partner to its twins gives partners again (`Pairing.Aligned.along`).
-/

set_option autoImplicit false

namespace ObjectModel

variable {env : Environment}

/-- A completed evaluation is a reference for evaluations of its own classes. -/
abbrev Reference.self (ref : Reference env) : Reference ref.env' where
  env' := ref.env'
  order := fun _ => .refl ℕ
  classes := .refl _
  start := ref.start
  session := ref.session
  completed := ref.completed
  builders := ref.builders
  closed := ref.closed

/-- The completed evaluation, with pairs of its own frames. -/
abbrev Reference.mirror (ref : Reference env) (S : ℕ → ℕ → Prop) : Pairing ref.self :=
  ⟨ref.session, S⟩

namespace Pairing

variable {ref : Reference env} {p : Pairing ref} {S T : ℕ → ℕ → Prop}

/-! ## Going on from a partner -/

/-- The same state, its frames paired with what their partners are paired with. -/
def along (p : Pairing ref) (S : ℕ → ℕ → Prop) : Pairing ref :=
  ⟨p.session, fun j l => ∃ k, p.frames j k ∧ S k l⟩

/-- Nothing is new if the pairs are closed under going on. -/
theorem extends_along (h : ∀ {j k l : ℕ}, p.frames j k → S k l → p.frames j l) :
    (p.along S).Extends p := by
  refine ⟨.refl _, ?_⟩
  rintro j l ⟨k, hjk, hkl⟩
  exact h hjk hkl

theorem Slots.along {a b c : Slot} (hab : p.Slots a b) (hbc : (ref.mirror S).Slots b c) :
    (p.along S).Slots a c := by
  cases hab with
  | @intro j k i f hjk hf =>
    -- The partner is an index that was moved, so the case split needs it as a variable.
    generalize hb : (⟨k, ref.order f.cls.name i⟩ : Slot) = b at hbc
    cases hbc with
    | intro hkl hg =>
      obtain ⟨rfl, rfl⟩ := Slot.mk.inj hb
      exact .intro ⟨k, hjk, hkl⟩ hf

theorem Locals.along {x y z : ValueId} (hxy : p.Locals x y) (hyz : (ref.mirror S).Locals y z)
    (hp : p.Aligned) (hS : (ref.mirror S).Aligned) : (p.along S).Locals x z := by
  by_cases hlit : ∃ l, ref.session.memoArg? y = some (.literal l)
  · obtain ⟨l, hl⟩ := hlit
    exact .literal ((hp.memoArg?_literal_iff hxy l).2 hl) ((hS.memoArg?_literal_iff hyz l).1 hl)
  · cases hxy with
    | imported hx =>
      cases hyz with
      | imported _ => exact .imported hx
      | binding hn _ _ =>
        exact absurd hn ((ref.completed.sound.layout.imported hx).not_binding _ _)
      | literal hl _ => exact absurd ⟨_, hl⟩ hlit
    | binding hx hy hab =>
      cases hyz with
      | imported hlt =>
        exact absurd hy ((ref.completed.sound.layout.imported hlt).not_binding _ _)
      | binding hn hz hbc =>
        cases Option.some.inj (hy.symm.trans hn)
        exact .binding hx hz (hab.along hbc)
      | literal hl _ => exact absurd ⟨_, hl⟩ hlit
    | literal _ hl => exact absurd ⟨_, hl⟩ hlit

theorem Places.along {place other third : Session.Place} (h : p.Places place other)
    (h' : (ref.mirror S).Places other third) : (p.along S).Places place third := by
  cases h with
  | imported x =>
    cases h' with
    | imported _ => exact .imported x
  | object hjk =>
    cases h' with
    | object hkl => exact .object ⟨_, hjk, hkl⟩
  | built hab =>
    cases h' with
    | built hbc => exact .built (hab.along hbc)

/-- Values from places that are partners of each other come from the same place. -/
theorem Places.origin {place other : Session.Place} {v w : ValueId} (h : p.Places place other)
    (hv : p.session.From ref.start place v) (hw : ref.session.From ref.start other w) :
    p.Origin v w := by
  cases h with
  | imported x =>
    cases hv with
    | imported hlt =>
      cases hw with
      | imported _ => exact .imported hlt
  | object hjk =>
    cases hv with
    | object hf =>
      cases hw with
      | object hg => exact .object hjk hf hg
  | built hab =>
    cases hv with
    | built hb =>
      cases hw with
      | built hb' => exact .built hab hb hb'

theorem Values.along {u v w : ValueId} (huv : p.Values u v) (hvw : (ref.mirror S).Values v w)
    (hp : p.Aligned) (hS : (ref.mirror S).Aligned) : (p.along S).Values u w := by
  obtain ⟨n, m, hu, hv, halike⟩ := huv.nodes
  obtain ⟨m', o, hv', hw, halike'⟩ := hvw.nodes
  cases Option.some.inj (hv.symm.trans hv')
  have hnodes := halike.comp halike' fun _ _ _ hxy hyz => hxy.along hyz hp hS
  refine ⟨?_, n, o, hu, hw, hnodes⟩
  by_cases hcomp : n.isComposite = true
  · have humem : u ∈ p.session.nodes.composites := ⟨n, hu, hcomp⟩
    obtain ⟨place, other, hplaces, hfrom, hfrom'⟩ := huv.exists_places humem
    obtain ⟨other', third, hplaces', hfrom₁, hfrom₁'⟩ :=
      hvw.exists_places (huv.composite_iff.1 humem)
    cases ref.builders.from_place_unique ref.completed.sound.layout hfrom' hfrom₁
    exact (hplaces.along hplaces').origin hfrom hfrom₁'
  · cases hnodes with
    | literal l => exact .literal hu hw
    | _ => exact absurd rfl hcomp

theorem Frames.along {j k l : ℕ} {f g h : Frame} (hfg : p.Frames j k f g)
    (hgh : (ref.mirror S).Frames k l g h) (hp : p.Aligned) (hS : (ref.mirror S).Aligned) :
    (p.along S).Frames j l f h where
  pair := ⟨k, hfg.pair, hgh.pair⟩
  left := hfg.left
  right := hgh.right
  reorders := by
    rw [hgh.reorders.eq_of_refl]
    exact hfg.reorders
  params := forall₂_trans (fun _ _ _ hxy hyz => hxy.along hyz hp hS) hfg.params hgh.params

/-- Pairs of frames that go on from partners are pairs for one class with paired parameters. -/
theorem Aligned.along (h : p.Aligned) (hS : (ref.mirror S).Aligned) : (p.along S).Aligned where
  sound := h.sound
  imported := h.imported
  frames := by
    rintro j l ⟨k, hjk, hkl⟩
    obtain ⟨f, g, hfg⟩ := h.frames hjk
    obtain ⟨g', h', hgh⟩ := hS.frames hkl
    cases Option.some.inj (hfg.right.symm.trans hgh.left)
    exact ⟨f, h', hfg.along hgh h hS⟩

end Pairing

namespace Reference

variable {ref : Reference env} {S T : ℕ → ℕ → Prop}

/-! ## Twinnings -/

theorem aligned_mirror (h : ∀ {k l : ℕ}, S k l → ∃ f g, (ref.mirror S).Frames k l f g) :
    (ref.mirror S).Aligned :=
  ⟨ref.completed.sound, fun _ => rfl, h⟩

theorem mirror_mono (h : ∀ {k l : ℕ}, S k l → T k l) : (ref.mirror S).Extends (ref.mirror T) :=
  ⟨.refl _, h⟩

/-- The relation holds between frames that are for one class with parameters that it cannot tell
apart, and only between those. -/
structure Twinning (ref : Reference env) (S : ℕ → ℕ → Prop) : Prop where
  refl : ∀ {k : ℕ} {f : Frame}, ref.session.frames[k]? = some f → S k k
  symm : ∀ {k l : ℕ}, S k l → S l k
  trans : ∀ {k l m : ℕ}, S k l → S l m → S k m
  frames : ∀ {k l : ℕ}, S k l → ∃ f g, (ref.mirror S).Frames k l f g
  keyed : ∀ {k l : ℕ} {f g : Frame}, ref.session.frames[k]? = some f →
    ref.session.frames[l]? = some g → g.cls = f.cls →
      List.Forall₂ (ref.mirror S).Locals f.params.toList g.params.toList → S k l

theorem Twinning.aligned (h : ref.Twinning S) : (ref.mirror S).Aligned := aligned_mirror h.frames

/-- What a local can be is paired with itself if frames are. -/
theorem locals_self (hS : ∀ {k : ℕ} {f : Frame}, ref.session.frames[k]? = some f → S k k)
    {x : ValueId} (hx : ref.session.nodes.IsLocal ref.start x) : (ref.mirror S).Locals x x := by
  rcases hx with hlt | ⟨slot, state, hn⟩
  · exact .imported hlt
  · obtain ⟨f, hf, -, -⟩ := ref.completed.sound.layout.owned hn
    exact .binding hn hn (.intro (hS hf) hf)

theorem frames_self (hS : ∀ {k : ℕ} {f : Frame}, ref.session.frames[k]? = some f → S k k) {k : ℕ}
    {f : Frame} (hf : ref.session.frames[k]? = some f) : (ref.mirror S).Frames k k f f where
  pair := hS hf
  left := hf
  right := hf
  reorders := .refl f.cls
  params := List.forall₂_same.2 fun _ hx =>
    locals_self hS (ref.completed.sound.layout.params_local hf (Array.mem_toList_iff.1 hx))

/-- Each frame is paired with itself. -/
def diagonal (ref : Reference env) (k l : ℕ) : Prop := k = l ∧ k < ref.session.frames.size

theorem diagonal_self {k : ℕ} {f : Frame} (hf : ref.session.frames[k]? = some f) :
    ref.diagonal k k :=
  ⟨rfl, (Array.getElem?_eq_some_iff.1 hf).1⟩

theorem frames_diagonal {k l : ℕ} (h : ref.diagonal k l) :
    ∃ f g, (ref.mirror ref.diagonal).Frames k l f g := by
  obtain ⟨rfl, hlt⟩ := h
  exact ⟨_, _, frames_self diagonal_self (Array.getElem?_eq_getElem hlt)⟩

/-- In an evaluation that shares its instances only one frame has a class with given parameters. -/
theorem twinning_diagonal (hshares : ref.env'.shares = true) : ref.Twinning ref.diagonal where
  refl := diagonal_self
  symm := by
    rintro k l ⟨rfl, hlt⟩
    exact ⟨rfl, hlt⟩
  trans := by
    rintro k l m ⟨rfl, hlt⟩ ⟨rfl, -⟩
    exact ⟨rfl, hlt⟩
  frames := frames_diagonal
  keyed := by
    intro k l f g hf hg hcls hparams
    have hlayout := ref.completed.sound.layout
    have hargs : List.Forall₂ (fun x y => ref.session.memoArg? x = ref.session.memoArg? y)
        f.params.toList g.params.toList := by
      refine hparams.imp fun x y hxy => ?_
      cases hxy with
      | imported _ => rfl
      | binding hx hy hab =>
        cases hab with
        | intro hjk _ =>
          cases hjk.1
          cases hlayout.binding_unique hx hy
          rfl
      | literal hx hy => exact hx.trans hy.symm
    obtain ⟨key, hkey⟩ := Session.exists_memoKey?_of_layout hlayout hf
    have hkey' : ref.session.memoKey? g.cls.name g.params.toList = some key := by
      rw [hcls, ← Session.memoKey?_eq_of_forall₂ hargs]
      exact hkey
    -- Both objects are what the memo table has under the key.
    have hobj := ref.completed.sound.memoized.keyed hshares hf hkey
    rw [ref.completed.sound.memoized.keyed hshares hg hkey'] at hobj
    have heq := hlayout.frame_of_object hg hf (Option.some.inj hobj)
    exact ⟨heq.symm, (Array.getElem?_eq_some_iff.1 hf).1⟩

/-! ## The greatest twinning -/

/-- The frames are for one class with parameters that cannot be told apart. -/
def Twins (ref : Reference env) (k l : ℕ) : Prop := ∃ S, (ref.mirror S).Aligned ∧ S k l

theorem twins_self {k : ℕ} {f : Frame} (hf : ref.session.frames[k]? = some f) : ref.Twins k k :=
  ⟨ref.diagonal, aligned_mirror frames_diagonal, diagonal_self hf⟩

theorem frames_twins {k l : ℕ} (h : ref.Twins k l) :
    ∃ f g, (ref.mirror ref.Twins).Frames k l f g := by
  obtain ⟨S, hS, hkl⟩ := h
  obtain ⟨f, g, hfg⟩ := hS.frames hkl
  exact ⟨f, g, hfg.mono (mirror_mono fun h => ⟨S, hS, h⟩)⟩

theorem slots_symm (hS : (ref.mirror S).Aligned) {a b : Slot} (hab : (ref.mirror S).Slots a b) :
    (ref.mirror fun k l => S l k).Slots b a := by
  cases hab with
  | @intro j k i f hjk hf =>
    obtain ⟨f', g, hfg⟩ := hS.frames hjk
    exact .intro hjk hfg.right

theorem locals_symm (hS : (ref.mirror S).Aligned) {x y : ValueId}
    (hxy : (ref.mirror S).Locals x y) : (ref.mirror fun k l => S l k).Locals y x := by
  cases hxy with
  | imported hx => exact .imported hx
  | binding hx hy hab => exact .binding hy hx (slots_symm hS hab)
  | literal hx hy => exact .literal hy hx

theorem aligned_symm (hS : (ref.mirror S).Aligned) : (ref.mirror fun k l => S l k).Aligned := by
  apply aligned_mirror
  intro k l hkl
  obtain ⟨f, g, hfg⟩ := hS.frames hkl
  refine ⟨g, f, hkl, hfg.right, hfg.left, ?_, ?_⟩
  · rw [hfg.reorders.eq_of_refl]
    exact .refl f.cls
  · exact hfg.params.flip.imp fun _ _ hxy => locals_symm hS hxy

/-- To be told apart by nothing is a twinning. -/
theorem twinning_twins (ref : Reference env) : ref.Twinning ref.Twins where
  refl := twins_self
  symm := by
    rintro k l ⟨S, hS, hkl⟩
    exact ⟨_, aligned_symm hS, hkl⟩
  trans := by
    rintro k l m ⟨S, hS, hkl⟩ ⟨T, hT, hlm⟩
    exact ⟨_, Pairing.Aligned.along hS hT, l, hkl, hlm⟩
  frames := frames_twins
  keyed := by
    intro k l f g hf hg hcls hparams
    -- One more pair can be added, since its parameters are paired already.
    let S : ℕ → ℕ → Prop := fun k' l' => ref.Twins k' l' ∨ (k' = k ∧ l' = l)
    have hext : (ref.mirror ref.Twins).Extends (ref.mirror S) := mirror_mono Or.inl
    refine ⟨S, aligned_mirror ?_, Or.inr ⟨rfl, rfl⟩⟩
    rintro k' l' (hkl | ⟨rfl, rfl⟩)
    · obtain ⟨f', g', hfg⟩ := frames_twins hkl
      exact ⟨f', g', hfg.mono hext⟩
    · refine ⟨f, g, Or.inr ⟨rfl, rfl⟩, hf, hg, ?_, hparams.imp fun _ _ hxy => hxy.mono hext⟩
      rw [hcls]
      exact .refl f.cls

end Reference

end ObjectModel
