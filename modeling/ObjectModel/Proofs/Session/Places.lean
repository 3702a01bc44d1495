import ObjectModel.Proofs.Session.Builders
import Mathlib.Data.Set.Card
import Mathlib.Data.Set.Finite.Range

/-!
# Places

The objects, lists and erased types of an evaluation told apart by where they are from: each of them
is from one place (`Session.Builders.from_place_unique`), and no two are from the same
(`Session.Builders.from_value_unique`). So two evaluations can be compared by places, however their
arenas are laid out. The objects are the copies of objects and one for each frame
(`Session.Builders.ncard_objects`).
-/

set_option autoImplicit false

namespace ObjectModel

/-- The node is an object, a list or an erased type. -/
def Node.isComposite : Node → Bool
  | .object _ _ => true
  | .list _ _ => true
  | .any _ => true
  | _ => false

/-- The positions of objects, lists and erased types. -/
def Arena.composites (a : Arena) : Set ValueId :=
  { x | ∃ n, a.node? x = some n ∧ n.isComposite = true }

/-- The positions of objects. -/
def Arena.objects (a : Arena) : Set ValueId :=
  { x | ∃ cls fields, a.node? x = some (.object cls fields) }

theorem Arena.finite_objects (a : Arena) : a.objects.Finite := by
  apply (Set.finite_lt_nat a.size).of_injOn (f := ValueId.index)
  · rintro x ⟨cls, fields, hx⟩
    exact Arena.node?_lt hx
  · rintro ⟨x⟩ - ⟨y⟩ - rfl
    rfl

namespace Session

/-- Where an object, a list or an erased type may be from: it is the copy of a parameter, it is the
object of a frame, or it was built for a slot. -/
inductive Place where
  | imported (id : ValueId)
  | object (frame : ℕ)
  | built (slot : Slot)

/-- The value is from the place. -/
inductive From (start : ℕ) (s : Session) : Place → ValueId → Prop
  | imported {v : ValueId} : v.index < start → From start s (.imported v) v
  | object {k : ℕ} {f : Frame} : s.frames[k]? = some f → From start s (.object k) f.object
  | built {slot : Slot} {v : ValueId} : s.BuiltBy slot v → From start s (.built slot) v

namespace Builders

variable {env : Environment} {start : ℕ} {s : Session} {v w : ValueId} {place place' : Place}

/-- Every object, list and erased type is from some place. -/
theorem exists_from (h : Builders start s fun _ => False) (hv : v ∈ s.nodes.composites) :
    ∃ place, s.From start place v := by
  obtain ⟨n, hn, hcomp⟩ := hv
  by_cases hlt : v.index < start
  · exact ⟨_, .imported hlt⟩
  · have hle := Nat.le_of_not_lt hlt
    cases n with
    | object cls fields =>
      obtain ⟨k, f, hf, rfl⟩ := h.objects hle hn
      exact ⟨_, .object hf⟩
    | list elem elements =>
      obtain ⟨slot, hslot⟩ := h.built hle hn rfl fun hfalse => hfalse
      exact ⟨_, .built hslot⟩
    | any payload =>
      obtain ⟨slot, hslot⟩ := h.built hle hn rfl fun hfalse => hfalse
      exact ⟨_, .built hslot⟩
    | literal l => cases hcomp
    | binding slot state => cases hcomp

/-- One value is from a place. -/
theorem from_value_unique (hl : Layout env start s.nodes s.frames) (hv : s.From start place v)
    (hw : s.From start place w) : v = w := by
  cases hv with
  | imported _ =>
    cases hw
    rfl
  | object hf =>
    cases hw with
    | object hg =>
      cases Option.some.inj (hf.symm.trans hg)
      rfl
  | built hslot =>
    cases hw with
    | built hslot' => exact hslot.value_unique hl hslot'

/-- A value is from one place. -/
theorem from_place_unique (h : Builders start s fun _ => False)
    (hl : Layout env start s.nodes s.frames) (hv : s.From start place v)
    (hv' : s.From start place' v) : place = place' := by
  -- The copies of the parameters lie below the frames, and what is built is no object.
  have himported : ∀ {k : ℕ} {f : Frame}, s.frames[k]? = some f → ¬ f.object.index < start := by
    intro k f hf
    have hle := hl.base_le hf
    exact Nat.not_lt.2 (Nat.le_trans hle (Nat.le_add_right _ _))
  have hobject : ∀ {k : ℕ} {f : Frame} {slot : Slot}, s.frames[k]? = some f →
      ¬ s.BuiltBy slot f.object := by
    intro k f slot hf hslot
    obtain ⟨-, n, hn, hb⟩ := h.new hslot
    obtain ⟨fields, -, hobj⟩ := hl.object hf
    cases Option.some.inj (hobj.symm.trans hn)
    cases hb
  have hbuilt : ∀ {slot}, s.BuiltBy slot v → ¬ v.index < start :=
    fun hslot => Nat.not_lt.2 (h.new hslot).1
  cases hv with
  | imported hlt =>
    generalize hu : v = u at hv'
    cases hv' with
    | imported _ => rfl
    | object hf => exact absurd (hu ▸ hlt) (himported hf)
    | built hslot => exact absurd hlt (hbuilt (hu ▸ hslot))
  | @object k f hf =>
    generalize hu : f.object = u at hv'
    cases hv' with
    | imported hlt => exact absurd (hu ▸ hlt) (himported hf)
    | object hg =>
      cases hl.frame_of_object hf hg hu
      rfl
    | built hslot => exact absurd (hu ▸ hslot) (hobject hf)
  | built hslot =>
    generalize hu : v = u at hv'
    cases hv' with
    | imported hlt => exact absurd (hu ▸ hlt) (hbuilt hslot)
    | object hf => exact absurd (hu ▸ hslot) (hobject hf)
    | built hslot' =>
      cases h.unique hslot (hu ▸ hslot')
      rfl

/-! ## Objects -/

/-- The objects of an evaluation are the copies of objects and those of its frames. -/
theorem objects_eq (h : Builders start s fun _ => False) (hl : Layout env start s.nodes s.frames) :
    s.nodes.objects = { v | v.index < start ∧ v ∈ s.nodes.objects } ∪
      Set.range fun k : Fin s.frames.size => s.frames[k].object := by
  ext v
  constructor
  · rintro ⟨cls, fields, hn⟩
    by_cases hlt : v.index < start
    · exact Or.inl ⟨hlt, cls, fields, hn⟩
    · obtain ⟨k, f, hf, rfl⟩ := h.objects (Nat.le_of_not_lt hlt) hn
      obtain ⟨hk, rfl⟩ := Array.getElem?_eq_some_iff.1 hf
      exact Or.inr ⟨⟨k, hk⟩, rfl⟩
  · rintro (⟨-, hv⟩ | ⟨k, rfl⟩)
    · exact hv
    · obtain ⟨fields, -, hn⟩ := hl.object (Array.getElem?_eq_getElem k.isLt)
      exact ⟨_, fields, hn⟩

/-- There are as many objects as copies of objects and frames. -/
theorem ncard_objects (h : Builders start s fun _ => False)
    (hl : Layout env start s.nodes s.frames) :
    s.nodes.objects.ncard =
      { v | v.index < start ∧ v ∈ s.nodes.objects }.ncard + s.frames.size := by
  have hinj : Function.Injective fun k : Fin s.frames.size => s.frames[k].object := by
    intro j k hjk
    exact Fin.ext (hl.frame_of_object (Array.getElem?_eq_getElem j.isLt)
      (Array.getElem?_eq_getElem k.isLt) hjk)
  have hdisjoint : Disjoint { v | v.index < start ∧ v ∈ s.nodes.objects }
      (Set.range fun k : Fin s.frames.size => s.frames[k].object) := by
    rw [Set.disjoint_left]
    rintro v ⟨hlt, -⟩ ⟨k, rfl⟩
    have hle := hl.base_le (Array.getElem?_eq_getElem k.isLt)
    exact absurd hlt (Nat.not_lt.2 (Nat.le_trans hle (Nat.le_add_right _ _)))
  have hframes : (Set.range fun k : Fin s.frames.size => s.frames[k].object).ncard =
      s.frames.size := by
    rw [← Set.image_univ, Set.ncard_image_of_injective _ hinj, Set.ncard_univ, Nat.card_fin]
  have hcopies : { v | v.index < start ∧ v ∈ s.nodes.objects }.Finite :=
    s.nodes.finite_objects.subset fun v hv => hv.2
  rw [← hframes, ← Set.ncard_union_eq hdisjoint hcopies (Set.finite_range _), ← h.objects_eq hl]

end Builders

end Session

end ObjectModel
