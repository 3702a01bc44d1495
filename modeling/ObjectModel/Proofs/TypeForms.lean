import ObjectModel.Proofs.Independence.Names

/-!
# Forms of types

A type is written out in full (`Ty.render`) or in outline (`Ty.outline`), and the two texts differ
only in what they show of a class. Either way the first character tells the form of the type, save
that exact widths and `integer` share theirs, and brackets enclose the rest, whatever characters are
in it. So types that are written alike are the same but for the names of classes
(`Ty.exists_rename_of_written_eq`), and two outlines are the same just if the types are
(`Ty.outline_eq_outline_iff`).
-/

set_option autoImplicit false

namespace ObjectModel

/-! ## Parts of a text -/

/-- A number is told by its digits. -/
theorem eq_of_toString_eq {m n : ℕ} (h : toString m = toString n) : m = n := by
  rw [Nat.toString_eq_ofList_toDigits, Nat.toString_eq_ofList_toDigits, String.ofList_inj] at h
  rw [← Nat.ofDigitChars_ten_toDigits (n := m), h, Nat.ofDigitChars_ten_toDigits]

/-- What stands between the same brackets is told by the whole, whether or not it holds brackets. -/
theorem enclosed_inj (left right : String) {s s' : String} :
    left ++ s ++ right = left ++ s' ++ right ↔ s = s' := by
  rw [String.append_left_inj, String.append_right_inj]

namespace Ty

variable {a b : Ty} {f g : Name → String}

/-! ## Written types -/

/-- A type in writing, with the text of a class type taken from its name. -/
def written (classText : Name → String) : Ty → String
  | .integer => "integer"
  | .int width => "i" ++ toString width
  | .bool => "bool"
  | .string => "string"
  | .tagged kind => "opaque<" ++ kind ++ ">"
  | .list elem => "list<" ++ elem.written classText ++ ">"
  | .cls name => classText name
  | .any => "any"

theorem render_eq_written (t : Interner) (a : Ty) :
    a.render t = a.written fun n => "class<" ++ t.text n ++ ">" := by
  induction a with
  | list elem ih => rw [render, written, ih]
  | _ => rfl

theorem outline_eq_written (a : Ty) : a.outline = a.written fun _ => "class" := by
  induction a with
  | list elem ih => rw [outline, written, ih]
  | _ => rfl

/-- The texts are those of class types: they begin as no text of another form does. -/
def OfClasses (f : Name → String) : Prop := ∀ n, (f n).toList.head? = some 'c'

theorem ofClasses_render (t : Interner) : OfClasses fun n => "class<" ++ t.text n ++ ">" := by
  intro n
  simp

theorem ofClasses_outline : OfClasses fun _ => "class" := by
  intro n
  simp

/-- The first character of a written type. -/
def initial : Ty → Char
  | .integer => 'i'
  | .int _ => 'i'
  | .bool => 'b'
  | .string => 's'
  | .tagged _ => 'o'
  | .list _ => 'l'
  | .cls _ => 'c'
  | .any => 'a'

theorem head?_written (hf : OfClasses f) (a : Ty) :
    (a.written f).toList.head? = some a.initial := by
  cases a with
  | cls n => exact hf n
  | _ => simp [written, initial]

theorem initial_eq_of_written_eq (hf : OfClasses f) (hg : OfClasses g)
    (h : a.written f = b.written g) : a.initial = b.initial := by
  have hhead := congrArg (fun s => s.toList.head?) h
  simpa only [head?_written hf, head?_written hg, Option.some.injEq] using hhead

/-- An exact width is not taken for `integer`: digits follow the first character. -/
theorem written_int_ne (w : ℕ) : "i" ++ toString w ≠ "integer" := by
  intro h
  have hdigits : toString w = "nteger" := (String.append_right_inj "i").1 h
  have hn : 'n' ∈ Nat.toDigits 10 w := by
    rw [Nat.toString_eq_ofList_toDigits] at hdigits
    rw [← String.toList_ofList (l := Nat.toDigits 10 w), hdigits]
    decide
  exact absurd (Nat.isDigit_of_mem_toDigits (by decide) (by decide) hn) (by decide)

/-- Types that are written alike differ in nothing but class names, whose texts are alike. -/
theorem exists_rename_of_written_eq (hf : OfClasses f) (hg : OfClasses g)
    (h : a.written f = b.written g) :
    ∃ ρ, a.rename ρ = b ∧ ∀ n ∈ a.names, f n = g (ρ n) := by
  have hinitial := initial_eq_of_written_eq hf hg h
  -- Without class names there is nothing to rename.
  have hsame {c : Ty} (hnames : c.names = []) :
      ∃ ρ, c.rename ρ = c ∧ ∀ n ∈ c.names, f n = g (ρ n) := by
    refine ⟨id, rename_eq_self fun _ _ => rfl, ?_⟩
    simp [hnames]
  -- Types of other forms differ in the first character, and an element is enclosed as a kind is.
  induction a generalizing b with
  | integer =>
    cases b with
    | integer => exact hsame rfl
    | int w => exact absurd h.symm (written_int_ne w)
    | _ => simp [initial] at hinitial
  | int w =>
    cases b with
    | integer => exact absurd h (written_int_ne w)
    | int w' =>
      have hw : w = w' := eq_of_toString_eq ((String.append_right_inj "i").1 h)
      rw [hw]
      exact hsame rfl
    | _ => simp [initial] at hinitial
  | bool =>
    cases b with
    | bool => exact hsame rfl
    | _ => simp [initial] at hinitial
  | string =>
    cases b with
    | string => exact hsame rfl
    | _ => simp [initial] at hinitial
  | tagged kind =>
    cases b with
    | tagged kind' =>
      have hkind : kind = kind' := (enclosed_inj "opaque<" ">").1 h
      rw [hkind]
      exact hsame rfl
    | _ => simp [initial] at hinitial
  | list elem ih =>
    cases b with
    | list elem' =>
      have helem : elem.written f = elem'.written g := (enclosed_inj "list<" ">").1 h
      obtain ⟨ρ, hρ, htexts⟩ := ih helem (initial_eq_of_written_eq hf hg helem)
      exact ⟨ρ, congrArg Ty.list hρ, htexts⟩
    | _ => simp [initial] at hinitial
  | cls n =>
    cases b with
    | cls m =>
      refine ⟨fun _ => m, rfl, ?_⟩
      intro k hk
      rw [List.mem_singleton.1 hk]
      exact h
    | _ => simp [initial] at hinitial
  | any =>
    cases b with
    | any => exact hsame rfl
    | _ => simp [initial] at hinitial

/-! ## Outlines -/

/-- The types are the same but for the names of classes. -/
def SameForm (a b : Ty) : Prop := ∃ ρ : Name → Name, a.rename ρ = b

/-- An outline tells everything of a type but the names of classes. -/
theorem outline_eq_outline_iff : a.outline = b.outline ↔ a.SameForm b := by
  constructor
  · intro h
    rw [outline_eq_written, outline_eq_written] at h
    obtain ⟨ρ, hρ, -⟩ := exists_rename_of_written_eq ofClasses_outline ofClasses_outline h
    exact ⟨ρ, hρ⟩
  · rintro ⟨ρ, rfl⟩
    exact (outline_rename ρ a).symm

end Ty

end ObjectModel
