/-!
# Interned names

Classes, parameters, fields and unknown instructions are named by short indices into an interner.
An interner holds distinct strings in the order in which they were first seen and starts with the
empty string, so every string has at most one name and a name keeps its string for ever.
-/

set_option autoImplicit false

namespace ObjectModel

/-- An interned string: its position in the interner that issued it. -/
structure Name where
  index : Nat
deriving DecidableEq, Repr, Inhabited

namespace Name

/-- The name of the empty string, the same in every interner. -/
def empty : Name := ⟨0⟩

/-- The inspection text of a name. -/
def inspect (n : Name) : String := "Name(" ++ toString n.index ++ ")"

end Name

/-- Which interner of a workspace a name or a class belongs to. -/
structure InternerId where
  index : Nat
deriving DecidableEq, Repr, Inhabited

/-- Distinct strings in order of first interning, the empty string first. -/
structure Interner where
  strings : Array String
  empty_first : strings[0]? = some ""
  nodup : strings.toList.Nodup

namespace Interner

/-- The interner that holds the empty string alone. -/
def empty : Interner where
  strings := #[""]
  empty_first := rfl
  nodup := by simp

instance : Inhabited Interner := ⟨empty⟩

/-- The name of `s`, if it was interned. -/
def get? (t : Interner) (s : String) : Option Name :=
  (t.strings.toList.idxOf? s).map Name.mk

/-- The string of a name. A name that this interner never issued stands for the empty string. -/
def text (t : Interner) (n : Name) : String :=
  t.strings[n.index]?.getD ""

/-- The number of strings, the empty one included. -/
def size (t : Interner) : Nat := t.strings.size

/-- A string without a name does not occur among the strings. -/
theorem not_mem_of_get?_eq_none {t : Interner} {s : String} (h : t.get? s = none) :
    s ∉ t.strings.toList := by
  simpa [get?, List.idxOf?_eq_none_iff] using h

/-- Append a string that does not occur yet. -/
def append (t : Interner) (s : String) (fresh : s ∉ t.strings.toList) : Interner where
  strings := t.strings.push s
  empty_first := by
    have h := t.empty_first
    obtain ⟨hlt, _⟩ := Array.getElem?_eq_some_iff.1 h
    rw [Array.getElem?_push_lt hlt, ← Array.getElem?_eq_getElem hlt, h]
  nodup := by
    rw [Array.toList_push, List.nodup_append]
    refine ⟨t.nodup, by simp, ?_⟩
    intro a ha b hb
    rw [List.mem_singleton] at hb
    subst hb
    exact fun heq => fresh (heq ▸ ha)

/-- The name of `s`, which joins the interner if it is new. -/
def intern (t : Interner) (s : String) : Name × Interner :=
  match h : t.get? s with
  | some n => (n, t)
  | none => (⟨t.size⟩, t.append s (not_mem_of_get?_eq_none h))

/-- The inspection text of an interner tells its size only. -/
def inspect (t : Interner) : String :=
  "StringInterner \x7b len: " ++ toString t.size ++ " \x7d"

/-- The inspection text of a shared interner. -/
def inspectShared (t : Interner) : String := "SharedInterner(" ++ t.inspect ++ ")"

/-! ## Interning -/

theorem intern_of_get?_eq_some {t : Interner} {s : String} {n : Name} (h : t.get? s = some n) :
    t.intern s = (n, t) := by
  unfold intern
  split
  · rename_i m hm
    rw [h] at hm
    cases hm
    rfl
  · rename_i hm
    rw [h] at hm
    cases hm

/-- A new string gets the next position and is appended. -/
theorem intern_of_get?_eq_none {t : Interner} {s : String} (h : t.get? s = none) :
    t.intern s = (⟨t.size⟩, t.append s (not_mem_of_get?_eq_none h)) := by
  unfold intern
  split
  · rename_i m hm
    rw [h] at hm
    cases hm
  · rfl

/-- Interning appends at most the string itself. -/
theorem strings_intern (t : Interner) (s : String) :
    (t.intern s).2.strings = if (t.get? s).isSome then t.strings else t.strings.push s := by
  cases h : t.get? s with
  | none => rw [intern_of_get?_eq_none h]; rfl
  | some n => rw [intern_of_get?_eq_some h]; rfl

end Interner

end ObjectModel
