import ObjectModel.Proofs.Intake.Copies

/-!
# Names with the same texts

Two interners may have issued different names for one text. `Interner.carry` gives for a name of one
the name of the other with its text, and `Arena.retype` carries over the class names in the element
types of an arena. Nothing but these names is changed by it, so an arena is read as before: what a
position stands for, what a node refers to and the kinds of values are the same
(`Arena.resolve_retype`, `Arena.narrow_retype`), and types are told apart and written as before
(`Ty.rename_inj`, `Ty.render_rename`).
-/

set_option autoImplicit false

namespace ObjectModel

/-! ## Names of two interners -/

namespace Interner

variable {t t' u u' : Interner} {n m : Name}

/-- The name that the second interner has for the text of a name. -/
def carry (t u : Interner) (n : Name) : Name := (u.get? (t.text n)).getD n

/-- The first interner issued the name, and the second one has a name for its text. -/
def Carries (t u : Interner) (n : Name) : Prop := t.Issued n ∧ ∃ m, u.get? (t.text n) = some m

/-- Both interners issued the name, for the same text. -/
structure Shares (t u : Interner) (n : Name) : Prop where
  left : t.Issued n
  right : u.Issued n
  text : u.text n = t.text n

/-- The second interner issued all names of the first one, for the same texts. -/
def Extends (t u : Interner) : Prop := ∀ n, t.Issued n → u.Issued n ∧ u.text n = t.text n

theorem Carries.text_carry (h : t.Carries u n) :
    u.Issued (t.carry u n) ∧ u.text (t.carry u n) = t.text n := by
  obtain ⟨-, m, hm⟩ := h
  rw [carry, hm, Option.getD_some]
  exact issued_of_get? hm

/-- Names of different texts are carried to different names. -/
theorem Carries.inj (hn : t.Carries u n) (hm : t.Carries u m)
    (h : t.carry u n = t.carry u m) : n = m := by
  rw [← text_inj hn.1 hm.1, ← hn.text_carry.2, ← hm.text_carry.2, h]

theorem carries_of_text (hn : t.Issued n) (hm : u.Issued m) (h : u.text m = t.text n) :
    t.Carries u n ∧ t.carry u n = m := by
  have hget : u.get? (t.text n) = some m := by rw [← h, get?_text hm]
  exact ⟨⟨hn, m, hget⟩, by rw [carry, hget, Option.getD_some]⟩

theorem Shares.carries (h : t.Shares u n) : t.Carries u n :=
  (carries_of_text h.left h.right h.text).1

theorem Shares.carry_eq (h : t.Shares u n) : t.carry u n = n :=
  (carries_of_text h.left h.right h.text).2

theorem Extends.refl (t : Interner) : t.Extends t := fun _ hn => ⟨hn, rfl⟩

theorem Shares.mono (h : t.Shares u n) (ht : t.Extends t') (hu : u.Extends u') :
    t'.Shares u' n where
  left := (ht n h.left).1
  right := (hu n h.right).1
  text := by rw [(hu n h.right).2, h.text, (ht n h.left).2]

/-- A name is carried to the same one when both interners have issued more names. -/
theorem Carries.mono (h : t.Carries u n) (ht : t.Extends t') (hu : u.Extends u') :
    t'.Carries u' n ∧ t'.carry u' n = t.carry u n := by
  obtain ⟨hissued, htext⟩ := ht n h.1
  obtain ⟨hissued', htext'⟩ := hu _ h.text_carry.1
  exact carries_of_text hissued hissued' (by rw [htext', h.text_carry.2, htext])

end Interner

theorem Workspace.Keeps.extends {w w' : Workspace} (h : w.Keeps w') (t : TableId) :
    (w.tableNames t).Extends (w'.tableNames t) :=
  fun _ hn => ⟨h.tableNames hn, h.text_tableNames hn⟩

/-! ## Types -/

namespace Ty

/-- The class names in a type. -/
def names : Ty → List Name
  | .cls n => [n]
  | .list elem => elem.names
  | _ => []

/-- The type with its class names replaced. -/
def rename (f : Name → Name) : Ty → Ty
  | .cls n => .cls (f n)
  | .list elem => .list (elem.rename f)
  | ty => ty

variable {f g : Name → Name} {a b : Ty} {t u : Interner}

theorem issued_iff : a.Issued t ↔ ∀ n ∈ a.names, t.Issued n := by
  induction a with
  | cls n => simp [Issued, names]
  | list elem ih => exact ih
  | _ => simp [Issued, names]

theorem rename_congr (h : ∀ n ∈ a.names, f n = g n) : a.rename f = a.rename g := by
  induction a with
  | cls n => exact congrArg cls (h n List.mem_cons_self)
  | list elem ih => exact congrArg list (ih h)
  | _ => rfl

theorem rename_eq_self (h : ∀ n ∈ a.names, f n = n) : a.rename f = a := by
  induction a with
  | cls n => exact congrArg cls (h n List.mem_cons_self)
  | list elem ih => exact congrArg list (ih h)
  | _ => rfl

theorem outline_rename (f : Name → Name) (a : Ty) : (a.rename f).outline = a.outline := by
  induction a with
  | list elem ih => rw [rename, outline, outline, ih]
  | _ => rfl

section Carried

variable (ha : ∀ n ∈ a.names, t.Carries u n)
include ha

/-- A carried type is written as before. -/
theorem render_rename : (a.rename (t.carry u)).render u = a.render t := by
  induction a with
  | cls n => rw [rename, render, render, (ha n List.mem_cons_self).text_carry.2]
  | list elem ih => rw [rename, render, render, ih ha]
  | _ => rfl

variable (hb : ∀ n ∈ b.names, t.Carries u n)
include hb

/-- Different types are carried to different types. -/
theorem rename_inj : a.rename (t.carry u) = b.rename (t.carry u) ↔ a = b := by
  refine ⟨fun h => ?_, fun h => congrArg _ h⟩
  induction a generalizing b with
  | cls n =>
    cases b with
    | cls m =>
      rw [(ha n List.mem_cons_self).inj (hb m List.mem_cons_self) (cls.inj h)]
    | _ => cases h
  | list elem ih =>
    cases b with
    | list elem' => exact congrArg list (ih ha hb (list.inj h))
    | _ => cases h
  | _ => cases b <;> first | exact h | cases h

theorem beq_rename : (a.rename (t.carry u) == b.rename (t.carry u)) = (a == b) := by
  rw [beq_eq_beq, rename_inj ha hb]

theorem accepts_rename :
    (a.rename (t.carry u)).accepts (b.rename (t.carry u)) = a.accepts b := by
  induction a generalizing b with
  | list elem ih =>
    cases b with
    | list elem' =>
      rw [rename, rename, list_accepts_list, list_accepts_list]
      exact ih ha hb
    | _ => rfl
  | any => exact (any_accepts _).trans (any_accepts _).symm
  | cls n =>
    cases b with
    | cls m => exact beq_rename ha hb
    | _ => rfl
  | _ => cases b <;> rfl

end Carried

end Ty

/-! ## Nodes -/

namespace Node

/-- The class names of a node. -/
def names : Node → List Name
  | .object cls _ => [cls]
  | .list elem _ => elem.names
  | _ => []

/-- The node with the class names in its element type replaced. -/
def retype (f : Name → Name) : Node → Node
  | .list elem elements => .list (elem.rename f) elements
  | n => n

/-- The element type is carried over, and the class of an object has its name in both interners. -/
def Carried (t u : Interner) : Node → Prop
  | .object cls _ => t.Shares u cls
  | .list elem _ => ∀ n ∈ elem.names, t.Carries u n
  | _ => True

variable {f g : Name → Name} {n : Node} {t t' u u' : Interner}

theorem issued_iff : n.Issued t ↔ ∀ m ∈ n.names, t.Issued m := by
  cases n with
  | object cls fields => simp [Issued, names]
  | list elem elements => exact Ty.issued_iff
  | _ => simp [Issued, names]

@[simp] theorem children_retype (f : Name → Name) (n : Node) :
    (n.retype f).children = n.children := by
  cases n <;> rfl

@[simp] theorem isBinding_retype (f : Name → Name) (n : Node) :
    (n.retype f).isBinding = n.isBinding := by
  cases n <;> rfl

theorem kind_retype (f : Name → Name) (n : Node) : (n.retype f).kind = n.kind := by
  cases n <;> rfl

theorem mapChildren_retype (f : Name → Name) (h : ValueId → ValueId) (n : Node) :
    (n.retype f).mapChildren h = (n.mapChildren h).retype f := by
  cases n <;> rfl

theorem Carried.names (h : n.Carried t u) : ∀ m ∈ n.names, t.Carries u m := by
  cases n with
  | object cls fields =>
    intro m hm
    rw [List.mem_singleton.1 hm]
    exact h.carries
  | list elem elements => exact h
  | _ => exact fun _ hm => nomatch hm

theorem Carried.mapChildren (h : n.Carried t u) (f : ValueId → ValueId) :
    (n.mapChildren f).Carried t u := by
  cases n <;> exact h

theorem carried_of_shares (h : ∀ m ∈ n.names, t.Shares u m) : n.Carried t u := by
  cases n with
  | object cls fields => exact h cls List.mem_cons_self
  | list elem elements => exact fun m hm => (h m hm).carries
  | _ => trivial

theorem retype_eq_self (h : ∀ m ∈ n.names, f m = m) : n.retype f = n := by
  cases n with
  | list elem elements => rw [retype, Ty.rename_eq_self h]
  | _ => rfl

/-- A carried node has the carried type. -/
theorem Carried.type_retype (h : n.Carried t u) :
    (n.retype (t.carry u)).type = n.type.rename (t.carry u) ∧
      ∀ m ∈ n.type.names, t.Carries u m := by
  cases n with
  | literal l => cases l <;> exact ⟨rfl, fun _ hm => nomatch hm⟩
  | object cls fields => exact ⟨congrArg Ty.cls (Interner.Shares.carry_eq h).symm, h.names⟩
  | list elem elements => exact ⟨rfl, h⟩
  | any payload => exact ⟨rfl, fun _ hm => nomatch hm⟩
  | binding slot state => exact ⟨rfl, fun _ hm => nomatch hm⟩

/-- A node is carried to the same one when both interners have issued more names. -/
theorem Carried.mono (h : n.Carried t u) (ht : t.Extends t') (hu : u.Extends u') :
    n.Carried t' u' ∧ n.retype (t'.carry u') = n.retype (t.carry u) := by
  cases n with
  | object cls fields => exact ⟨Interner.Shares.mono h ht hu, rfl⟩
  | list elem elements =>
    refine ⟨fun m hm => ((h m hm).mono ht hu).1, ?_⟩
    rw [retype, retype, Ty.rename_congr fun m hm => ((h m hm).mono ht hu).2]
  | _ => exact ⟨trivial, rfl⟩

end Node

/-! ## Arenas -/

namespace Arena

/-- The arena with the class names in its element types replaced. -/
def retype (f : Name → Name) (a : Arena) : Arena := a.map (Node.retype f)

/-- Every node is carried over. -/
def Carried (t u : Interner) (a : Arena) : Prop :=
  ∀ (id : ValueId) (n : Node), a.node? id = some n → n.Carried t u

variable {a : Arena} {f : Name → Name} {id : ValueId} {t t' u u' : Interner}

@[simp] theorem size_retype (f : Name → Name) (a : Arena) : (a.retype f).size = a.size :=
  Array.size_map

@[simp] theorem node?_retype (f : Name → Name) (a : Arena) (id : ValueId) :
    (a.retype f).node? id = (a.node? id).map (Node.retype f) :=
  Array.getElem?_map

theorem retype_push (f : Name → Name) (a : Arena) (n : Node) :
    Arena.retype f (a.push n) = (a.retype f).push (n.retype f) :=
  Array.map_push

theorem retype_setIfInBounds (f : Name → Name) (a : Arena) (i : ℕ) (slot : Slot)
    (state : BindingState) : Arena.retype f (a.setIfInBounds i (.binding slot state)) =
      (a.retype f).setIfInBounds i (.binding slot state) :=
  Array.map_setIfInBounds

theorem follow_retype (f : Name → Name) (a : Arena) (k : ℕ) (id : ValueId) :
    (a.retype f).follow k id = a.follow k id := by
  induction k generalizing id with
  | zero => rfl
  | succ k ih =>
    rw [follow, follow, node?_retype]
    cases a.node? id with
    | none => rfl
    | some n =>
      cases n with
      | binding slot state =>
        cases state with
        | resolved target => exact ih target
        | _ => rfl
      | _ => rfl

@[simp] theorem resolve_retype (f : Name → Name) (a : Arena) (id : ValueId) :
    (a.retype f).resolve id = a.resolve id := by
  rw [resolve, resolve, size_retype, follow_retype]

theorem unwrap_retype (f : Name → Name) (a : Arena) (k : ℕ) (id : ValueId) :
    (a.retype f).unwrap k id = a.unwrap k id := by
  induction k generalizing id with
  | zero => rfl
  | succ k ih =>
    rw [unwrap, unwrap, node?_retype]
    cases a.node? id with
    | none => rfl
    | some n =>
      cases n with
      | any payload => simp only [Option.map_some, Node.retype, resolve_retype, ih]
      | _ => rfl

@[simp] theorem narrow_retype (f : Name → Name) (a : Arena) (id : ValueId) :
    (a.retype f).narrow id = a.narrow id := by
  rw [narrow, narrow, size_retype, unwrap_retype]

@[simp] theorem kind_retype (f : Name → Name) (a : Arena) (id : ValueId) :
    (a.retype f).kind id = a.kind id := by
  rw [kind, kind, node?_retype]
  cases a.node? id with
  | none => rfl
  | some n => exact n.kind_retype f

@[simp] theorem referenceCount_retype (f : Name → Name) (a : Arena) :
    (a.retype f).referenceCount = a.referenceCount := by
  have hlength : (fun n : Node => n.children.length) ∘ Node.retype f =
      fun n => n.children.length := by
    funext n
    exact congrArg List.length (n.children_retype f)
  rw [referenceCount, referenceCount, retype, Array.map_map, hlength]

theorem carried_empty : Arena.Carried t u #[] :=
  fun _ _ h => absurd (node?_lt h) (Nat.not_lt_zero _)

theorem Carried.push (h : a.Carried t u) {n : Node} (hn : n.Carried t u) :
    Arena.Carried t u (a.push n) := by
  intro id m hm
  rcases eq_or_of_node?_push hm with ⟨-, rfl⟩ | hm
  · exact hn
  · exact h id m hm

/-- An arena is carried to the same one when both interners have issued more names. -/
theorem Carried.mono (h : a.Carried t u) (ht : t.Extends t') (hu : u.Extends u') :
    a.Carried t' u' ∧ a.retype (t'.carry u') = a.retype (t.carry u) := by
  refine ⟨fun id n hn => ((h id n hn).mono ht hu).1, ?_⟩
  apply Array.map_congr_left
  intro n hn
  obtain ⟨i, hi⟩ := Array.mem_iff_getElem?.1 hn
  exact ((h ⟨i⟩ n hi).mono ht hu).2

end Arena

end ObjectModel
