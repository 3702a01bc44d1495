import Mathlib.Data.Finset.Card
import Mathlib.Data.List.Induction
import ObjectModel.Proofs.Intake.Names
import ObjectModel.Proofs.Traversal

/-!
# Interners and their calls

What a sequence of calls makes of a new interner, read off the calls themselves: the strings that
they intern, the number of distinct ones among these, and the names that they were told
(`InternerCall.Named`). An interner holds just these strings (`Interner.mem_strings_after`,
`Interner.size_after`), so strings and names stand for each other, however the calls are mixed:
this is `Interner.reply_after`.
-/

set_option autoImplicit false

namespace ObjectModel

/-- What an interner can be asked. -/
inductive InternerCall where
  | intern (s : String)
  /-- The name of a string, if it has one. -/
  | get (s : String)
  /-- The string of a name. -/
  | lookup (n : Name)
  | size
deriving DecidableEq, Repr

/-- What an interner answers. -/
inductive InternerReply where
  | name (n : Name)
  | found (n : Option Name)
  | text (s : String)
  | count (k : ℕ)
deriving DecidableEq, Repr

namespace Interner

/-- The answer to a call, and the interner after it. -/
def reply (t : Interner) : InternerCall → InternerReply × Interner
  | .intern s => (.name (t.intern s).1, (t.intern s).2)
  | .get s => (.found (t.get? s), t)
  | .lookup n => (.text (t.text n), t)
  | .size => (.count t.size, t)

/-- A new interner after some calls. -/
def after (calls : List InternerCall) : Interner := calls.foldl (fun t c => (t.reply c).2) .empty

end Interner

namespace InternerCall

/-! ## What calls say -/

/-- The string that a call interns. -/
def interned? : InternerCall → Option String
  | .intern s => some s
  | _ => none

/-- The strings that some calls intern, in order. -/
def interned (calls : List InternerCall) : List String := calls.filterMap interned?

/-- The number of distinct strings that some calls intern, the empty one not counted. -/
def distinct (calls : List InternerCall) : ℕ := ((interned calls).toFinset.erase "").card

/-- A call interned the string and was told the name. -/
def Named (calls : List InternerCall) (s : String) (n : Name) : Prop :=
  ∃ before rest, calls = before ++ .intern s :: rest ∧
    ((Interner.after before).reply (.intern s)).1 = .name n

/-! ## One more call -/

variable {calls : List InternerCall} {c : InternerCall} {s : String} {n : Name}

theorem interned_concat : interned (calls ++ [c]) = interned calls ++ c.interned?.toList := by
  rw [interned, interned, List.filterMap_append]
  cases hc : c.interned? <;> simp [hc]

theorem named_concat : Named (calls ++ [c]) s n ↔
    Named calls s n ∨ (c = .intern s ∧ ((Interner.after calls).intern s).1 = n) := by
  constructor
  · rintro ⟨before, rest, heq, hreply⟩
    rcases concat_eq_append_cons_iff.1 heq with ⟨rfl, rfl, -⟩ | ⟨rest', -, rfl⟩
    · exact Or.inr ⟨rfl, InternerReply.name.inj hreply⟩
    · exact Or.inl ⟨before, rest', rfl, hreply⟩
  · rintro (⟨before, rest, rfl, hreply⟩ | ⟨rfl, rfl⟩)
    · exact ⟨before, rest ++ [c], by simp, hreply⟩
    · exact ⟨calls, [], rfl, rfl⟩

/-- A string was interned if a call was told a name for it. -/
theorem mem_interned_iff : s ∈ interned calls ↔ ∃ n, Named calls s n := by
  induction calls using List.reverseRecOn with
  | nil => simp [interned, Named]
  | append_singleton calls c ih =>
    simp only [interned_concat, List.mem_append, ih, named_concat, exists_or, Option.mem_toList,
      exists_and_left, exists_eq', and_true]
    cases c <;> simp [interned?]

end InternerCall

/-! ## What an interner holds -/

namespace Interner

open InternerCall

variable {calls : List InternerCall} {s : String} {n : Name}

theorem after_concat (calls : List InternerCall) (c : InternerCall) :
    after (calls ++ [c]) = ((after calls).reply c).2 := by
  rw [after, List.foldl_append]
  rfl

/-- Only a call that interns a string changes an interner. -/
theorem reply_of_interned?_eq_none {c : InternerCall} (h : c.interned? = none) (t : Interner) :
    (t.reply c).2 = t := by
  cases c with
  | intern s => cases h
  | _ => rfl

theorem text_mem_strings {t : Interner} (h : t.Issued n) : t.text n ∈ t.strings.toList := by
  rw [text, Array.getElem?_eq_getElem h, Option.getD_some]
  exact Array.getElem_mem_toList h

theorem mem_strings_intern {t : Interner} {s' : String} :
    s' ∈ (t.intern s).2.strings.toList ↔ s' ∈ t.strings.toList ∨ s' = s := by
  rw [strings_intern]
  cases hget : t.get? s with
  | none => simp
  | some n =>
    -- A string that has a name is there already, so nothing is pushed.
    have hs : s ∈ t.strings.toList := by
      obtain ⟨hn, rfl⟩ := issued_of_get? hget
      exact text_mem_strings hn
    simp only [Option.isSome_some, if_true]
    constructor
    · exact Or.inl
    · rintro (hs' | rfl)
      · exact hs'
      · exact hs

/-- An interner holds the empty string and what was interned. -/
theorem mem_strings_after : s ∈ (after calls).strings.toList ↔ s = "" ∨ s ∈ interned calls := by
  induction calls using List.reverseRecOn with
  | nil => simp [after, Interner.empty, interned]
  | append_singleton calls c ih =>
    rw [after_concat, interned_concat]
    cases c with
    | intern s' =>
      rw [reply, mem_strings_intern, ih]
      simp [interned?, or_assoc]
    | _ => simpa [reply, interned?] using ih

/-- An interner holds as many strings as there are distinct ones, with the empty string. -/
theorem size_after (calls : List InternerCall) : (after calls).size = distinct calls + 1 := by
  have hfinset : (after calls).strings.toList.toFinset =
      insert "" ((interned calls).toFinset.erase "") := by
    ext s
    rw [List.mem_toFinset, mem_strings_after, Finset.mem_insert, Finset.mem_erase,
      List.mem_toFinset]
    by_cases hs : s = "" <;> simp [hs]
  calc (after calls).size
      = (after calls).strings.toList.length := Array.length_toList.symm
    _ = (after calls).strings.toList.toFinset.card :=
        (List.toFinset_card_of_nodup (after calls).nodup).symm
    _ = distinct calls + 1 := by
        rw [hfinset, Finset.card_insert_of_notMem (Finset.notMem_erase _ _), distinct]

/-- The name of the empty string is there from the beginning. -/
theorem get?_empty_text (t : Interner) : t.get? "" = some .empty := by
  obtain ⟨hlt, hfirst⟩ := Array.getElem?_eq_some_iff.1 t.empty_first
  have hissued : t.Issued .empty := hlt
  have htext : t.text .empty = "" := by
    rw [text, Array.getElem?_eq_getElem hissued, Option.getD_some]
    exact hfirst
  rw [← htext]
  exact get?_text hissued

/-- A string that was not interned has no name, unless it is empty. -/
theorem get?_after_eq_none (hs : s ≠ "") (h : s ∉ interned calls) :
    (after calls).get? s = none := by
  cases hget : (after calls).get? s with
  | none => rfl
  | some n =>
    obtain ⟨hn, rfl⟩ := issued_of_get? hget
    rcases mem_strings_after.1 (text_mem_strings hn) with hempty | hinterned
    · exact absurd hempty hs
    · exact absurd hinterned h

/-! ## The names that were told -/

/-- A name that was told is a name of its string ever after. -/
theorem issued_of_named (h : Named calls s n) :
    (after calls).Issued n ∧ (after calls).text n = s := by
  induction calls using List.reverseRecOn with
  | nil => simp [Named] at h
  | append_singleton calls c ih =>
    rw [after_concat]
    rcases named_concat.1 h with h | ⟨rfl, rfl⟩
    · -- A later call may push a string, which moves no name.
      obtain ⟨hissued, htext⟩ := ih h
      cases c with
      | intern s' => exact ⟨hissued.intern s', (hissued.text_intern s').trans htext⟩
      | _ => exact ⟨hissued, htext⟩
    · exact issued_fst_intern _ s

/-- A string has the name that was told for it, and the empty one has its own. -/
theorem get?_after_eq_some_iff :
    (after calls).get? s = some n ↔ (s = "" ∧ n = .empty) ∨ Named calls s n := by
  constructor
  · intro hget
    by_cases hs : s = ""
    · rw [hs, get?_empty_text] at hget
      exact Or.inl ⟨hs, (Option.some.inj hget).symm⟩
    · have hmem : s ∈ interned calls := by
        by_contra hnot
        rw [get?_after_eq_none hs hnot] at hget
        cases hget
      -- The name that was told for the string reads back as the string, so it is the one found.
      obtain ⟨m, hm⟩ := mem_interned_iff.1 hmem
      obtain ⟨hissued, htext⟩ := issued_of_named hm
      rw [← htext, get?_text hissued] at hget
      rw [← Option.some.inj hget]
      exact Or.inr hm
  · rintro (⟨rfl, rfl⟩ | h)
    · exact get?_empty_text _
    · obtain ⟨hissued, rfl⟩ := issued_of_named h
      exact get?_text hissued

/-- The first call that interns a string is told the number of the strings before it. -/
theorem intern_after_of_new (hs : s ≠ "") (h : s ∉ interned calls) :
    ((after calls).intern s).1 = ⟨distinct calls + 1⟩ := by
  rw [intern_of_get?_eq_none (get?_after_eq_none hs h), size_after]

/-- A name that was never told stands for the empty string. -/
theorem text_after_of_not_named (h : ∀ s, ¬ Named calls s n) : (after calls).text n = "" := by
  by_cases hn : (after calls).Issued n
  · rcases get?_after_eq_some_iff.1 (get?_text hn) with ⟨htext, -⟩ | hnamed
    · exact htext
    · exact absurd hnamed (h _)
  · rw [text, Array.getElem?_eq_none (Nat.le_of_not_lt hn), Option.getD_none]

/-- However the calls are mixed, strings and names stand for each other. The empty string has the
name 0 and each further one the next number when it is first interned, so no number exceeds that of
the distinct strings; equal strings are told equal names, and different ones different names; a name
keeps its string, and a string its name; and no call but an interning one changes anything. -/
theorem reply_after (calls : List InternerCall) :
    (∀ {n : Name}, Named calls "" n → n = ⟨0⟩) ∧
    (∀ {before rest : List InternerCall} {s : String}, calls = before ++ .intern s :: rest →
      s ≠ "" → s ∉ interned before → Named calls s ⟨distinct before + 1⟩) ∧
    (∀ {s : String} {n : Name}, Named calls s n → n.index ≤ distinct calls) ∧
    (∀ {s s' : String} {n n' : Name}, Named calls s n → Named calls s' n' →
      (n = n' ↔ s = s')) ∧
    (∀ {s : String} {n : Name}, Named calls s n →
      ((after calls).reply (.lookup n)).1 = .text s) ∧
    (∀ {n : Name}, (∀ s, ¬ Named calls s n) →
      ((after calls).reply (.lookup n)).1 = .text "") ∧
    (∀ {s : String}, (s = "" ∨ s ∈ interned calls ↔
        ∃ n, ((after calls).reply (.get s)).1 = .found (some n)) ∧
      ∀ {n : Name}, ((after calls).reply (.get s)).1 = .found (some n) ↔
        (s = "" ∧ n = ⟨0⟩) ∨ Named calls s n) ∧
    ((after calls).reply .size).1 = .count (1 + distinct calls) ∧
    ∀ c : InternerCall, c.interned? = none → ((after calls).reply c).2 = after calls := by
  have hget : ∀ {s : String} {n : Name}, ((after calls).reply (.get s)).1 = .found (some n) ↔
      (s = "" ∧ n = ⟨0⟩) ∨ Named calls s n := by
    intro s n
    rw [reply, InternerReply.found.injEq]
    exact get?_after_eq_some_iff
  refine ⟨?_, ?_, ?_, ?_, ?_, ?_, ?_, ?_, ?_⟩
  · intro n h
    have hname := get?_after_eq_some_iff.2 (Or.inr h)
    rw [get?_empty_text] at hname
    exact (Option.some.inj hname).symm
  · -- Only the calls before the first interning one count.
    intro before rest s hcalls hs hnew
    exact ⟨before, rest, hcalls, congrArg InternerReply.name (intern_after_of_new hs hnew)⟩
  · intro s n h
    have hlt := (issued_of_named h).1
    rw [Issued] at hlt
    have hsize := size_after calls
    rw [size] at hsize
    omega
  · intro s s' n n' h h'
    constructor
    · -- One name has one text.
      rintro rfl
      exact (issued_of_named h).2.symm.trans (issued_of_named h').2
    · -- One string is found under one name.
      rintro rfl
      have hname := get?_after_eq_some_iff.2 (Or.inr h)
      rw [get?_after_eq_some_iff.2 (Or.inr h')] at hname
      exact (Option.some.inj hname).symm
  · exact fun h => congrArg InternerReply.text (issued_of_named h).2
  · exact fun h => congrArg InternerReply.text (text_after_of_not_named h)
  · intro s
    refine ⟨?_, hget⟩
    simp only [hget, exists_or, ← mem_interned_iff, exists_and_left, exists_eq, and_true]
  · rw [reply, size_after, Nat.add_comm]
  · exact fun c hc => reply_of_interned?_eq_none hc _

end Interner

namespace Sample

/-- Calls that intern one string twice, with another one and the empty one in between. -/
def namingCalls : List InternerCall :=
  [.intern "left", .get "right", .intern "", .intern "right", .size, .intern "left"]

/-- The second string gets the number 2, and the first one keeps the number 1. -/
theorem naming_replies :
    InternerCall.Named namingCalls "right" ⟨2⟩ ∧ InternerCall.Named namingCalls "left" ⟨1⟩ ∧
      ((Interner.after namingCalls).reply (.lookup ⟨1⟩)).1 = .text "left" ∧
      ((Interner.after namingCalls).reply .size).1 = .count 3 := by
  obtain ⟨-, hnew, -, -, hlookup, -, -, hsize, -⟩ := Interner.reply_after namingCalls
  have hright := @hnew [.intern "left", .get "right", .intern ""] [.size, .intern "left"] "right"
    rfl (by decide) (by decide)
  have hleft := @hnew [] namingCalls.tail "left" rfl (by decide) (by decide)
  exact ⟨hright, hleft, hlookup hleft, hsize⟩

end Sample

end ObjectModel
