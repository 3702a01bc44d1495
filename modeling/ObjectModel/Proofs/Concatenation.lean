import ObjectModel.Proofs.TaskFailures
import ObjectModel.Proofs.TypeForms

/-!
# Concatenation of lists

Lists are joined if there is one and all have one element type. Otherwise the first list that
disagrees with the very first one is reported (`TypedList.Disagrees`), and the error writes the
types of these two in outline. So it tells them apart, unless they differ in the name of a class
only (`TypedList.disagreement_told`). A request fails with such an error just if its evaluation
comes to lists that are to be joined and disagree (`Evaluator.disagreement_reported`).
-/

set_option autoImplicit false

namespace ObjectModel

/-! ## Lists that disagree -/

namespace TypedList

variable {first l l' : TypedList} {rest ls : List TypedList} {e : EvalError}

/-- The list is the first one of the rest that has not the element type of the first list. -/
inductive Disagrees (first : TypedList) : List TypedList → TypedList → Prop
  | intro {before after : List TypedList} {l : TypedList} : (∀ x ∈ before, x.elem = first.elem) →
      l.elem ≠ first.elem → Disagrees first (before ++ l :: after) l

theorem find?_eq_some_iff_disagrees :
    rest.find? (fun x => x.elem != first.elem) = some l ↔ first.Disagrees rest l := by
  rw [List.find?_eq_some_iff_append]
  constructor
  · rintro ⟨hl, before, after, rfl, hbefore⟩
    refine .intro (fun x hx => ?_) (by simpa using hl)
    simpa using hbefore x hx
  · rintro @⟨before, after, _, hbefore, hl⟩
    refine ⟨by simpa using hl, before, after, rfl, fun x hx => ?_⟩
    simpa using hbefore x hx

/-- Either all the lists agree, or one of them is the first that does not. -/
theorem forall_elem_eq_or_disagrees (first : TypedList) (rest : List TypedList) :
    (∀ x ∈ rest, x.elem = first.elem) ∨ ∃ l, first.Disagrees rest l := by
  cases hfind : rest.find? fun x => x.elem != first.elem with
  | none =>
    left
    simpa using hfind
  | some l =>
    right
    exact ⟨l, find?_eq_some_iff_disagrees.1 hfind⟩

theorem concat_of_disagrees (h : first.Disagrees rest l) :
    concat (first :: rest) = .error (.ofKind (.typeMismatch first.outline l.outline)) := by
  rw [concat, find?_eq_some_iff_disagrees.2 h]

theorem exists_disagrees_of_concat (h : concat (first :: rest) = .error e) :
    ∃ l, first.Disagrees rest l ∧ e = .ofKind (.typeMismatch first.outline l.outline) := by
  rcases forall_elem_eq_or_disagrees first rest with hall | ⟨l, hl⟩
  -- Lists that agree are joined.
  · obtain ⟨joined, hjoined⟩ := (concat_eq_ok_iff first rest).2 hall
    cases hjoined.symm.trans h
  · exact ⟨l, hl, Except.error.inj (h.symm.trans (concat_of_disagrees hl))⟩

theorem exists_concat_eq_ok_iff :
    (∃ l, concat ls = .ok l) ↔ ls ≠ [] ∧ ∀ x ∈ ls, ∀ y ∈ ls, x.elem = y.elem := by
  constructor
  · rintro ⟨l, hl⟩
    obtain ⟨hne, hall, -⟩ := concat_eq_ok hl
    exact ⟨hne, fun x hx y hy => (hall x hx).trans (hall y hy).symm⟩
  · rintro ⟨hne, hall⟩
    obtain ⟨first, rest, rfl⟩ := List.exists_cons_of_ne_nil hne
    apply (concat_eq_ok_iff first rest).2
    intro x hx
    exact hall x (List.mem_cons_of_mem _ hx) first List.mem_cons_self

/-- The types of two lists are written alike just if they are the same but for class names. -/
theorem outline_eq_outline_iff : l.outline = l'.outline ↔ l.elem.SameForm l'.elem := by
  rw [outline, outline, enclosed_inj, Ty.outline_eq_outline_iff]

/-- Lists are joined just if there is one and any two have the same element type. Otherwise the
first list that disagrees with the very first one is reported with the types of both, that of the
very first one as expected. The two texts are different, unless the types differ in nothing but the
name of a class, which is not shown. -/
theorem disagreement_told :
    (∀ ls : List TypedList, (∃ l, concat ls = .ok l) ↔
      ls ≠ [] ∧ ∀ x ∈ ls, ∀ y ∈ ls, x.elem = y.elem) ∧
    ∀ {first : TypedList} {rest : List TypedList} {e : EvalError},
      concat (first :: rest) = .error e → ∃ l expected got, first.Disagrees rest l ∧
        e = .ofKind (.typeMismatch expected got) ∧
        expected = "list<" ++ first.elem.outline ++ ">" ∧ got = "list<" ++ l.elem.outline ++ ">" ∧
        (expected = got ↔ first.elem.SameForm l.elem) := by
  refine ⟨fun ls => exists_concat_eq_ok_iff, fun {first rest e} h => ?_⟩
  obtain ⟨l, hl, he⟩ := exists_disagrees_of_concat h
  exact ⟨l, first.outline, l.outline, hl, he, rfl, rfl, outline_eq_outline_iff⟩

end TypedList

namespace Sample

def numbers : TypedList := ⟨.int 8, [⟨3⟩]⟩

def flags : TypedList := ⟨.bool, [⟨4⟩]⟩

/-- Flags among numbers are told from them. -/
theorem flags_told :
    TypedList.concat [numbers, numbers, flags] =
      .error (.ofKind (.typeMismatch "list<i8>" "list<bool>")) ∧
    ∃ l, numbers.Disagrees [numbers, flags] l ∧ ¬ numbers.elem.SameForm l.elem := by
  have hconcat : TypedList.concat [numbers, numbers, flags] =
      .error (.ofKind (.typeMismatch "list<i8>" "list<bool>")) := by decide +kernel
  obtain ⟨l, expected, got, hl, he, -, -, hiff⟩ := TypedList.disagreement_told.2 hconcat
  cases he
  exact ⟨hconcat, l, hl, fun hform => absurd (hiff.2 hform) (by decide)⟩

/-- The names of two classes. -/
def fruit : Interner := ((Interner.empty.intern "Apple").2.intern "Pear").2

def apples : TypedList := ⟨.cls ⟨1⟩, [⟨5⟩]⟩

def pears : TypedList := ⟨.cls ⟨2⟩, [⟨6⟩]⟩

/-- Objects of two classes are not told apart: both lists are shown as lists of a class. -/
theorem not_forall_told_apart :
    ¬ ∀ (names : Interner) (first : TypedList) (rest : List TypedList) (e : EvalError),
      (∀ x ∈ first :: rest, x.elem.Issued names) → TypedList.concat (first :: rest) = .error e →
        ∃ l expected got, first.Disagrees rest l ∧ e = .ofKind (.typeMismatch expected got) ∧
          expected ≠ got := by
  intro h
  have hissued : ∀ x ∈ [apples, pears], x.elem.Issued fruit := by
    intro x hx
    rcases List.mem_pair.1 hx with rfl | rfl
    · show fruit.Issued ⟨1⟩
      decide +kernel
    · show fruit.Issued ⟨2⟩
      decide +kernel
  have hconcat : TypedList.concat [apples, pears] =
      .error (.ofKind (.typeMismatch "list<class>" "list<class>")) := by decide +kernel
  obtain ⟨l, expected, got, -, he, hne⟩ := h fruit apples [pears] _ hissued hconcat
  cases he
  exact hne rfl

end Sample

/-! ## Requests for lists that disagree -/

/-- The most recent activation is at a concatenation, and all the lists to be joined are there. -/
inductive Session.Joins (s : Session) (ls : List TypedList) : Prop
  | intro {seen : List ValueId} {v : ValueId} : s.Faces (.concat seen []) v →
      (seen ++ [v]).mapM s.nodes.listAt = .ok ls → Joins s ls

/-- Nothing but a concatenation expects a list of a certain type. -/
theorem Task.Fails.disagrees {env : Environment} {a : Arena} {v : ValueId} {task : Task}
    {e : EvalError} {model : TypedList} {got : String} (h : task.Fails env a v e)
    (hk : e.kind = .typeMismatch model.outline got) :
    ∃ seen first rest l, task = .concat seen [] ∧
      (seen ++ [v]).mapM a.listAt = .ok (first :: rest) ∧ first.Disagrees rest l ∧
      e = .ofKind (.typeMismatch first.outline l.outline) := by
  -- All the others expect something that is told in a word.
  have hword {s got' : String} (he : e = .ofKind (.typeMismatch s got')) (hs : '<' ∉ s.toList) :
      False := by
    rw [he] at hk
    exact model.outline_ne hs (ErrorKind.typeMismatch.inj hk).1.symm
  cases h with
  | field hfield =>
    rcases Arena.fieldAt_eq_error hfield with he | he
    · exact (hword he (by decide)).elim
    · rw [he] at hk
      cases hk
  | list hlist =>
    obtain ⟨id, -, he⟩ := Arena.listsAt_eq_error hlist
    exact (hword he (by decide)).elim
  | @concat seen ls _ hls hconcat =>
    obtain ⟨first, rest, rfl⟩ := List.exists_cons_of_ne_nil (Arena.listsAt_ne_nil hls)
    obtain ⟨l, hl, he⟩ := TypedList.exists_disagrees_of_concat hconcat
    exact ⟨seen, first, rest, l, rfl, hls, hl, he⟩
  | left hl => exact (hword (Arena.intAt_eq_error hl) (by decide)).elim
  | right _ hr => exact (hword (Arena.intAt_eq_error hr) (by decide)).elim
  | operator _ _ happly =>
    obtain ⟨kind, -, he⟩ := IntOp.apply_eq_error happly
    rw [he] at hk
    cases hk

/-- A request fails for the types of lists exactly if its evaluation comes to a concatenation of
lists that disagree. -/
theorem Evaluator.disagreement_reported {ev : Evaluator} {w w₁ : Workspace} {n : Name}
    {params : List (Option Value)} {p : Preparation} {f₀ : Frame} {s₀ : Session}
    (hprepare : ev.prepare w n params = (w₁, .ok p))
    (hopens : p.env.Opens p.nodes n p.args f₀ s₀) {model : TypedList} {got : String} :
    (∃ steps err, (ev.instantiateName w n params steps).2 = .error (.error err) ∧
      err.kind = .typeMismatch model.outline got) ↔
    ∃ s first rest l, Session.Reaches p.env s₀ s ∧ s.Joins (first :: rest) ∧
      first.Disagrees rest l ∧ first.outline = model.outline ∧ l.outline = got := by
  constructor
  · rintro ⟨steps, err, h, hk⟩
    obtain ⟨s, task, v, hr, hfaces, hfails⟩ :=
      exists_fails_of_instantiateName hprepare hopens h hk
    obtain ⟨seen, first, rest, l, rfl, hls, hl, rfl⟩ := hfails.disagrees hk
    -- The error of the request is the one of the task.
    obtain ⟨hexpected, hgot⟩ := ErrorKind.typeMismatch.inj hk
    exact ⟨s, first, rest, l, hr, .intro hfaces hls, hl, hexpected, hgot⟩
  · rintro ⟨s, first, rest, l, hr, @⟨seen, v, hfaces, hls⟩, hl, hexpected, rfl⟩
    have hfails : (Task.concat seen []).Fails p.env s.nodes v
        (.ofKind (.typeMismatch first.outline l.outline)) :=
      .concat hls (TypedList.concat_of_disagrees hl)
    obtain ⟨m, hm⟩ := exists_instantiateName_of_fails hprepare hopens hr hfaces hfails
    refine ⟨m, _, by rw [hm m le_rfl], ?_⟩
    rw [← hexpected]
    rfl

end ObjectModel
