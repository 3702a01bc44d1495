import ObjectModel.Class.Draft

/-!
# Class tables

The classes that an evaluator knows, in order of definition. All of them were built with the
table's interner, and no two share a name.
-/

set_option autoImplicit false

namespace ObjectModel

/-- Which class table of a workspace. -/
structure TableId where
  index : Nat
deriving DecidableEq, Repr, Inhabited

/-- Classes in order of definition. -/
structure ClassTable where
  interner : InternerId
  classes : List ClassDef
  names_nodup : (classes.map ClassDef.name).Nodup
  interner_eq : ∀ c ∈ classes, c.interner = interner

namespace ClassTable

/-- The table without classes. -/
def empty (interner : InternerId) : ClassTable where
  interner := interner
  classes := []
  names_nodup := by simp
  interner_eq := by simp

/-- The class of that name. -/
def lookup? (t : ClassTable) (n : Name) : Option ClassDef := t.classes.find? (·.name == n)

/-- The class whose name has that text. A string without a name has no class. -/
def lookupText? (t : ClassTable) (names : Interner) (s : String) : Option ClassDef :=
  (names.get? s).bind t.lookup?

/-- The number of classes. -/
def size (t : ClassTable) : Nat := t.classes.length

/-- The texts of the class names, in order of definition. -/
def classTexts (t : ClassTable) (names : Interner) : List String :=
  t.classes.map fun c => names.text c.name

/-- Append a class of this interner whose name is new. -/
def append (t : ClassTable) (c : ClassDef) (own : c.interner = t.interner)
    (fresh : c.name ∉ t.classes.map ClassDef.name) : ClassTable where
  interner := t.interner
  classes := t.classes ++ [c]
  names_nodup := by
    rw [List.map_append, List.nodup_append]
    refine ⟨t.names_nodup, by simp, ?_⟩
    intro a ha b hb
    simp only [List.map_cons, List.map_nil, List.mem_singleton] at hb
    subst hb
    exact fun heq => fresh (heq ▸ ha)
  interner_eq := by
    intro d hd
    rcases List.mem_append.1 hd with hd | hd
    · exact t.interner_eq d hd
    · rw [List.mem_singleton] at hd
      exact hd ▸ own

/-- Add a class. It must come from this table's interner, which is checked first, and its name must
be new. The text is that of the class's name, for the message. -/
def define (t : ClassTable) (clsText : String) (c : ClassDef) : Except ClassError ClassTable :=
  if own : c.interner = t.interner then
    if fresh : c.name ∉ t.classes.map ClassDef.name then .ok (t.append c own fresh)
    else .error (.duplicateClass clsText)
  else .error (.foreignInterner clsText)

/-- A class without a namesake in the table is not found. -/
theorem lookup?_eq_none_iff {t : ClassTable} {n : Name} :
    t.lookup? n = none ↔ n ∉ t.classes.map ClassDef.name := by
  simp [lookup?]

/-- A class that is found has the name it was looked up by and belongs to the table. -/
theorem of_lookup?_eq_some {t : ClassTable} {n : Name} {c : ClassDef} (h : t.lookup? n = some c) :
    c ∈ t.classes ∧ c.name = n :=
  ⟨List.mem_of_find?_eq_some h, by simpa using List.find?_some h⟩

/-- The inspection text of a table: its class names, quoted. -/
def inspect (t : ClassTable) (names : Interner) : String :=
  "[" ++ ", ".intercalate ((t.classTexts names).map Text.quoted) ++ "]"

/-- The inspection text of a shared table. -/
def inspectShared (t : ClassTable) (names : Interner) : String :=
  "SharedClassTable(" ++ t.inspect names ++ ")"

end ClassTable

end ObjectModel
