import ObjectModel.Workspace
import Mathlib.Data.List.Nodup

/-!
# Issued names

The names that an interner has issued. Interning the text of one gives the name again and leaves the
workspace as it is (`Workspace.intern_text`), and names stay issued and keep their texts
(`Workspace.issued_intern`, `Workspace.text_intern`). A string that joins an interner of the
workspace gets a name that stands for it (`Workspace.text_fst_intern`).
-/

set_option autoImplicit false

namespace ObjectModel

namespace Interner

variable {t : Interner} {n : Name}

/-- The interner has issued the name. -/
def Issued (t : Interner) (n : Name) : Prop := n.index < t.strings.size

instance (t : Interner) (n : Name) : Decidable (t.Issued n) :=
  inferInstanceAs (Decidable (n.index < t.strings.size))

/-- A name is found by its text. -/
theorem get?_text (h : t.Issued n) : t.get? (t.text n) = some n := by
  have hlt : n.index < t.strings.toList.length := by
    rw [Array.length_toList]
    exact h
  have htext : t.text n = t.strings.toList[n.index] := by
    rw [text, Array.getElem?_eq_getElem h, Option.getD_some, Array.getElem_toList]
    rfl
  have hfind : t.strings.toList.idxOf? (t.text n) = some n.index := by
    rw [List.idxOf?_eq_some_iff]
    refine ⟨hlt, htext.symm, ?_⟩
    -- No string stands at two places.
    intro j hj heq
    have hjn := t.nodup.getElem_inj_iff.1 (heq.trans htext)
    omega
  rw [get?, hfind]
  rfl

/-- Issued names of one text are the same. -/
theorem text_inj {m : Name} (hn : t.Issued n) (hm : t.Issued m) : t.text n = t.text m ↔ n = m := by
  refine ⟨fun h => ?_, fun h => congrArg t.text h⟩
  have hget := get?_text hn
  rw [h, get?_text hm] at hget
  exact (Option.some.inj hget).symm

theorem intern_text (h : t.Issued n) : t.intern (t.text n) = (n, t) :=
  intern_of_get?_eq_some (get?_text h)

/-- A name that a string has was issued for that string. -/
theorem issued_of_get? {s : String} (h : t.get? s = some n) : t.Issued n ∧ t.text n = s := by
  obtain ⟨i, hi, rfl⟩ := Option.map_eq_some_iff.1 h
  obtain ⟨hlt, heq, -⟩ := List.idxOf?_eq_some_iff.1 hi
  rw [Array.length_toList] at hlt
  refine ⟨hlt, ?_⟩
  rw [text, Array.getElem?_eq_getElem hlt, Option.getD_some, ← heq, Array.getElem_toList]

theorem Issued.intern (h : t.Issued n) (s : String) : (t.intern s).2.Issued n := by
  rw [Issued, strings_intern]
  split
  · exact h
  · rw [Array.size_push]
    exact Nat.lt_succ_of_lt h

/-- An issued name keeps its text. -/
theorem Issued.text_intern (h : t.Issued n) (s : String) : (t.intern s).2.text n = t.text n := by
  rw [text, text, strings_intern]
  split
  · rfl
  · rw [Array.getElem?_push_lt h, Array.getElem?_eq_getElem h]

/-- The name of an interned string was issued for it. -/
theorem issued_fst_intern (t : Interner) (s : String) :
    (t.intern s).2.Issued (t.intern s).1 ∧ (t.intern s).2.text (t.intern s).1 = s := by
  cases hget : t.get? s with
  | some n =>
    rw [intern_of_get?_eq_some hget]
    exact issued_of_get? hget
  | none =>
    have hstrings := strings_intern t s
    rw [hget] at hstrings
    change (t.intern s).2.strings = t.strings.push s at hstrings
    have hfst : (t.intern s).1 = ⟨t.strings.size⟩ := by
      rw [intern_of_get?_eq_none hget]
      rfl
    rw [Issued, text, hstrings, hfst, Array.size_push]
    exact ⟨Nat.lt_succ_self _, by rw [Array.getElem?_push_size, Option.getD_some]⟩

end Interner

namespace Workspace

variable {w : Workspace} {n : Name}

/-- Interning the text of an issued name gives the name again and changes nothing. -/
theorem intern_text {id : InternerId} (h : (w.interner id).Issued n) :
    w.intern id ((w.interner id).text n) = (n, w) := by
  have hself : w.interners.setIfInBounds id.index (w.interner id) = w.interners := by
    apply Array.ext_getElem?
    intro i
    rw [Array.getElem?_setIfInBounds]
    split
    · rename_i heq
      subst heq
      split
      · rename_i hlt
        rw [interner, Array.getElem?_eq_getElem hlt, Option.getD_some]
      · rename_i hge
        rw [Array.getElem?_eq_none (Nat.le_of_not_lt hge)]
    · rfl
  rw [intern, Interner.intern_text h]
  dsimp only
  rw [hself]

/-- Interning a string changes one interner, if it is one of the workspace. -/
theorem interner_intern (w : Workspace) (id id' : InternerId) (s : String) :
    (w.intern id' s).2.interner id =
      if id' = id ∧ id.index < w.interners.size then ((w.interner id).intern s).2
      else w.interner id := by
  show ((w.interners.setIfInBounds id'.index ((w.interner id').intern s).2)[id.index]?).getD
    .empty = _
  rw [Array.getElem?_setIfInBounds]
  by_cases hid : id' = id
  · subst hid
    by_cases hlt : id'.index < w.interners.size
    · rw [if_pos rfl, if_pos hlt, if_pos ⟨rfl, hlt⟩, Option.getD_some]
    · rw [if_pos rfl, if_neg hlt, if_neg fun h => hlt h.2, interner,
        Array.getElem?_eq_none (Nat.le_of_not_lt hlt)]
  · have hne : id'.index ≠ id.index := by
      intro heq
      cases id
      cases id'
      exact hid (congrArg InternerId.mk heq)
    rw [if_neg hne, if_neg fun h => hid h.1, interner]

/-- Names stay issued. -/
theorem issued_intern {id : InternerId} (h : (w.interner id).Issued n) (id' : InternerId)
    (s : String) : ((w.intern id' s).2.interner id).Issued n := by
  rw [interner_intern]
  split
  · exact h.intern s
  · exact h

/-- Issued names keep their texts. -/
theorem text_intern {id : InternerId} (h : (w.interner id).Issued n) (id' : InternerId)
    (s : String) : ((w.intern id' s).2.interner id).text n = (w.interner id).text n := by
  rw [interner_intern]
  split
  · exact h.text_intern s
  · rfl

/-- A string that is interned in an interner of the workspace has its name there. -/
theorem text_fst_intern {id : InternerId} (h : id.index < w.interners.size) (s : String) :
    ((w.intern id s).2.interner id).Issued (w.intern id s).1 ∧
      ((w.intern id s).2.interner id).text (w.intern id s).1 = s := by
  rw [interner_intern, if_pos ⟨rfl, h⟩]
  exact Interner.issued_fst_intern _ s

end Workspace

/-! ## Issued names of nodes -/

/-- Every class name in the type was issued. -/
def Ty.Issued (names : Interner) : Ty → Prop
  | .cls n => names.Issued n
  | .list elem => elem.Issued names
  | _ => True

/-- The class of an object, and every class name in the element type of a list, was issued. -/
def Node.Issued (names : Interner) : Node → Prop
  | .object cls _ => names.Issued cls
  | .list elem _ => elem.Issued names
  | _ => True

/-- Every class name in the graph was issued. -/
def Graph.Issued (names : Interner) (g : Graph) : Prop :=
  ∀ (id : ValueId) (n : Node), g.nodes.node? id = some n → n.Issued names

instance Ty.decidableIssued (names : Interner) : (ty : Ty) → Decidable (ty.Issued names)
  | .cls n => inferInstanceAs (Decidable (names.Issued n))
  | .list elem => decidableIssued names elem
  | .integer | .int _ | .bool | .string | .tagged _ | .any => isTrue trivial

instance Node.decidableIssued (names : Interner) : (n : Node) → Decidable (n.Issued names)
  | .object cls _ => inferInstanceAs (Decidable (names.Issued cls))
  | .list elem _ => Ty.decidableIssued names elem
  | .literal _ | .any _ | .binding _ _ => isTrue trivial

theorem Graph.issued_iff {names : Interner} {g : Graph} :
    g.Issued names ↔ ∀ n ∈ g.nodes.toList, n.Issued names := by
  constructor
  · intro h n hn
    obtain ⟨i, hi⟩ := Array.mem_iff_getElem?.1 (Array.mem_toList_iff.1 hn)
    exact h ⟨i⟩ n hi
  · exact fun h id n hn => h n (Array.mem_toList_iff.2 (Array.mem_of_getElem? hn))

instance (names : Interner) (g : Graph) : Decidable (g.Issued names) :=
  decidable_of_iff _ Graph.issued_iff.symm

end ObjectModel
