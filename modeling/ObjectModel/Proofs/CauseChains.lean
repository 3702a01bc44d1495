import Mathlib.Algebra.Ring.Nat
import Mathlib.Logic.ExistsUnique
import ObjectModel.Evaluation.Error

/-!
# Chains of causes

The diagnostic of an error tells the whole chain of errors that it wraps. It is made in one walk
along the chain, and its notes are what a reader expects who takes the chain apart from the outside:
the notes of the error, the announcement of its cause, then the notes of the diagnostic of that
cause (`EvalError.toDiagnostic_flattens`). Nothing is left out, and the last error announced is the
root cause.
-/

set_option autoImplicit false

namespace ObjectModel

namespace EvalError

variable {e c : EvalError} {cs : List EvalError}

/-! ## The chain of an error -/

/-- The errors that an error wraps, one inside the other, outermost first. -/
inductive Wraps : EvalError → List EvalError → Prop
  | root {e : EvalError} (h : e.cause? = none) : Wraps e []
  | cause {e c : EvalError} {cs : List EvalError} (h : e.cause? = some c) (hc : Wraps c cs) :
      Wraps e (c :: cs)

theorem cause?_eq_none_iff : e.cause? = none ↔ e.causes = [] := by
  obtain ⟨link, causes⟩ := e
  cases causes with
  | nil => exact iff_of_true rfl rfl
  | cons next rest => exact iff_of_false nofun nofun

theorem cause?_eq_some_iff : e.cause? = some c ↔ e.causes = c.toErrorLink :: c.causes := by
  obtain ⟨link, causes⟩ := e
  cases causes with
  | nil => exact iff_of_false nofun nofun
  | cons next rest =>
    constructor
    · rintro ⟨⟩
      rfl
    · rintro ⟨⟩
      rfl

/-- Every error wraps a finite chain. -/
theorem exists_wraps (e : EvalError) : ∃ cs, e.Wraps cs := by
  -- On the causes that are left; what an error says itself plays no part.
  obtain ⟨link, causes⟩ := e
  induction causes generalizing link with
  | nil => exact ⟨[], .root rfl⟩
  | cons next rest ih =>
    obtain ⟨cs, hcs⟩ := ih next
    exact ⟨_, .cause rfl hcs⟩

theorem Wraps.unique {cs' : List EvalError} (h : e.Wraps cs) (h' : e.Wraps cs') : cs = cs' := by
  induction h generalizing cs' with
  | root hnone =>
    cases h' with
    | root => rfl
    | cause hsome => cases hnone.symm.trans hsome
  | cause hsome hc ih =>
    cases h' with
    | root hnone => cases hnone.symm.trans hsome
    | cause hsome' hc' =>
      cases hsome.symm.trans hsome'
      rw [ih hc']

/-! ## The root cause -/

theorem rootCause_eq_self (h : e.cause? = none) : e.rootCause = e := by
  obtain ⟨link, causes⟩ := e
  cases cause?_eq_none_iff.1 h
  rfl

/-- The root cause is that of the error that is wrapped. -/
theorem rootCause_eq_of_cause (h : e.cause? = some c) : e.rootCause = c.rootCause := by
  rw [rootCause, cause?_eq_some_iff.1 h, List.getLast?_cons]
  rfl

/-- The root cause is the last of the chain. -/
theorem Wraps.eq_append_rootCause (h : e.Wraps cs) (hcs : cs ≠ []) :
    ∃ outer, cs = outer ++ [e.rootCause] := by
  -- The root cause is the same all along the chain; its own link has nothing behind it.
  induction h with
  | root => exact absurd rfl hcs
  | @cause e c cs hsome hc ih =>
    rw [rootCause_eq_of_cause hsome]
    cases hc with
    | root hnone => exact ⟨[], by rw [rootCause_eq_self hnone]; rfl⟩
    | cause hsome' hc' =>
      obtain ⟨outer, houter⟩ := ih (List.cons_ne_nil _ _)
      exact ⟨c :: outer, by rw [houter]; rfl⟩

/-! ## The walk along the chain -/

/-- What a diagnostic tells of a wrapped error. -/
def account (cause : ErrorLink) : List String := causeNote cause :: cause.notes

theorem tellCause_eq (d : Diagnostic) (cause : ErrorLink) :
    tellCause d cause = { d with notes := d.notes ++ account cause } := by
  rw [tellCause, Diagnostic.foldl_withNote, Diagnostic.withNote]
  simp [account]

/-- The walk adds the accounts of all causes in order. -/
theorem foldl_tellCause (d : Diagnostic) (causes : List ErrorLink) :
    causes.foldl tellCause d = { d with notes := d.notes ++ causes.flatMap account } := by
  -- For any notes so far: the walk goes on from those of the outer errors.
  induction causes generalizing d with
  | nil => simp
  | cons cause rest ih => simp [ih, tellCause_eq]

theorem toDiagnostic_eq (e : EvalError) :
    e.toDiagnostic =
      { code := e.code, message := e.message, notes := e.notes ++ e.causes.flatMap account } := by
  rw [toDiagnostic, Diagnostic.foldl_withNote, foldl_tellCause]
  simp [Diagnostic.withMessage]

theorem notes_toDiagnostic_of_root (h : e.cause? = none) : e.toDiagnostic.notes = e.notes := by
  rw [toDiagnostic_eq, cause?_eq_none_iff.1 h]
  simp

/-- The notes on a wrapped error are announced, and are then those of its own diagnostic. -/
theorem notes_toDiagnostic_of_cause (h : e.cause? = some c) :
    e.toDiagnostic.notes = e.notes ++ causeNote c.toErrorLink :: c.toDiagnostic.notes := by
  rw [toDiagnostic_eq, toDiagnostic_eq, cause?_eq_some_iff.1 h]
  simp [account]

/-- The notes are those of the error and the accounts of the errors that it wraps. -/
theorem Wraps.notes_toDiagnostic (h : e.Wraps cs) :
    e.toDiagnostic.notes = e.notes ++ cs.flatMap fun c => account c.toErrorLink := by
  induction h with
  | root hnone => rw [notes_toDiagnostic_of_root hnone, List.flatMap_nil, List.append_nil]
  | cause hsome hc ih =>
    rw [notes_toDiagnostic_of_cause hsome, ih, List.flatMap_cons, account, List.cons_append]

/-- Every note of the chain is told, and one more for each error that is wrapped. -/
theorem Wraps.length_notes (h : e.Wraps cs) :
    e.toDiagnostic.notes.length = ((e :: cs).map fun c => c.notes.length).sum + cs.length := by
  induction h with
  | root hnone => simp [notes_toDiagnostic_of_root hnone]
  | cause hsome hc ih =>
    rw [notes_toDiagnostic_of_cause hsome, List.length_append, List.length_cons, ih]
    simp only [List.map_cons, List.sum_cons, List.length_cons]
    omega

/-- What is told last is the root cause. -/
theorem Wraps.notes_eq_append_rootCause (h : e.Wraps cs) (hcs : cs ≠ []) :
    ∃ outer, cs = outer ++ [e.rootCause] ∧
      e.toDiagnostic.notes = (e.notes ++ outer.flatMap fun c => account c.toErrorLink) ++
        causeNote e.rootCause.toErrorLink :: e.rootCause.notes := by
  obtain ⟨outer, houter⟩ := h.eq_append_rootCause hcs
  refine ⟨outer, houter, ?_⟩
  rw [h.notes_toDiagnostic, houter, List.flatMap_append, List.flatMap_singleton,
    ← List.append_assoc, account]

/-- The diagnostic of an error has its code and its message. Its notes are those of the error and,
if it has a cause, the announcement of the cause and the notes of the diagnostic of the cause. So
they are as many as the notes of the whole chain and the causes together, and the cause that is
announced last is the root cause. -/
theorem toDiagnostic_flattens (e : EvalError) :
    e.toDiagnostic.code = e.code ∧ e.toDiagnostic.severity = .error ∧
    e.toDiagnostic.message = e.message ∧
    (e.cause? = none → e.toDiagnostic.notes = e.notes) ∧
    (∀ c, e.cause? = some c → e.toDiagnostic.notes =
      e.notes ++ ("caused by [" ++ c.code.text ++ "]: " ++ c.message) :: c.toDiagnostic.notes) ∧
    (∃! cs, e.Wraps cs) ∧
    ∀ cs, e.Wraps cs →
      e.toDiagnostic.notes.length = ((e :: cs).map fun c => c.notes.length).sum + cs.length ∧
      (e.cause? ≠ none → ∃ outer, cs = outer ++ [e.rootCause] ∧
        e.toDiagnostic.notes = (e.notes ++ outer.flatMap fun c => account c.toErrorLink) ++
          causeNote e.rootCause.toErrorLink :: e.rootCause.notes) := by
  have hwalk := toDiagnostic_eq e
  refine ⟨congrArg Diagnostic.code hwalk, congrArg Diagnostic.severity hwalk,
    congrArg Diagnostic.message hwalk, notes_toDiagnostic_of_root,
    fun c h => notes_toDiagnostic_of_cause h, ?_, fun cs h => ⟨h.length_notes, fun hcause => ?_⟩⟩
  · obtain ⟨cs, hcs⟩ := e.exists_wraps
    exact ⟨cs, hcs, fun cs' h => h.unique hcs⟩
  · refine h.notes_eq_append_rootCause ?_
    rintro rfl
    cases h with
    | root hnone => exact hcause hnone

/-- Each error of the chain has a note of its own. -/
example :
    (((custom "outer").withNote "a").withCause
      (((ofKind (.unknownClass "C")).withNote "b").withCause
        ((ofKind (.nullParameter "p")).withNote "c"))).toDiagnostic.notes =
    ["a", "caused by [E6020]: unknown class name \"C\"", "b",
      "caused by [E6031]: actual parameter for \"p\" is null", "c"] := by rfl

end EvalError

end ObjectModel
