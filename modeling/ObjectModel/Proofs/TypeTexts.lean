import ObjectModel.Proofs.ErrorShapes
import ObjectModel.Proofs.ParameterChecks
import ObjectModel.Proofs.TypeForms

/-!
# Texts of types

A type that is written out in full tells which type it is. Two types are written alike just if they
differ in the names of classes only, and these have the same texts (`Ty.render_eq_render_iff`). A
declared type and a type that it does not accept are therefore written differently in the note of an
error (`EvalError.TellsApart`).
-/

set_option autoImplicit false

namespace ObjectModel

namespace Ty

variable {t u : Interner} {a b : Ty}

/-! ## Types that are written alike -/

/-- The types are the same but for the names of classes, which have the same texts in two
interners. -/
inductive Alike (t u : Interner) : Ty → Ty → Prop
  | plain {a : Ty} (h : a.names = []) : Alike t u a a
  | list {a b : Ty} (h : Alike t u a b) : Alike t u (.list a) (.list b)
  | cls {n m : Name} (h : t.text n = u.text m) : Alike t u (.cls n) (.cls m)

theorem Alike.render_eq (h : a.Alike t u b) : a.render t = b.render u := by
  induction h with
  | @plain a hnames =>
    have hnone : ∀ n, n ∉ a.names := by simp [hnames]
    rw [← render_rename (fun n hn => absurd hn (hnone n)),
      rename_eq_self (fun n hn => absurd hn (hnone n))]
  | list _ ih => rw [render, render, ih]
  | cls htext => rw [render, render, htext]

theorem alike_rename {ρ : Name → Name} (h : ∀ n ∈ a.names, t.text n = u.text (ρ n)) :
    a.Alike t u (a.rename ρ) := by
  induction a with
  | cls n => exact .cls (h n List.mem_cons_self)
  | list elem ih => exact .list (ih h)
  | _ => exact .plain rfl

theorem alike_of_render_eq (h : a.render t = b.render u) : a.Alike t u b := by
  rw [render_eq_written, render_eq_written] at h
  obtain ⟨ρ, rfl, htexts⟩ :=
    exists_rename_of_written_eq (ofClasses_render t) (ofClasses_render u) h
  -- The text of a class is told by that of its class type.
  exact alike_rename fun n hn => (enclosed_inj "class<" ">").1 (htexts n hn)

theorem render_eq_render_iff : a.render t = b.render u ↔ a.Alike t u b :=
  ⟨alike_of_render_eq, Alike.render_eq⟩

/-- With issued names, types that are alike in one interner are the same. -/
theorem Alike.eq (h : a.Alike t t b) (ha : a.Issued t) (hb : b.Issued t) : a = b := by
  induction h with
  | plain => rfl
  | list _ ih => exact congrArg Ty.list (ih ha hb)
  | cls htext => exact congrArg Ty.cls ((Interner.text_inj ha hb).1 htext)

/-- A type with issued names is told by its text. -/
theorem render_inj (ha : a.Issued t) (hb : b.Issued t) : a.render t = b.render t ↔ a = b :=
  ⟨fun h => (alike_of_render_eq h).eq ha hb, fun h => congrArg (Ty.render t) h⟩

/-- A declared type admits a type that is written as it is. -/
theorem Alike.admits (h : a.Alike t u b) : a.Admits t u b := by
  induction h with
  | @plain a hnames =>
    have hissued : ∀ n ∈ a.names, t.Issued n := by simp [hnames]
    exact ((same_of_names_eq_nil hnames).accepts_iff_admits hissued).1 (accepts_self a)
  | list _ ih => exact ih
  | cls htext => exact htext

end Ty

/-! ## Errors about types -/

namespace EvalError

/-- The error is about the type of a parameter. -/
def AboutType (e : EvalError) : Prop := ∃ param, e.kind = .parameterTypeMismatch param

/-- The one note writes the declared type and the type that was found, which is not accepted. If
their names were issued, it writes them differently. -/
structure TellsApart (names : Interner) (declared found : Ty) (e : EvalError) : Prop where
  refused : declared.accepts found = false
  notes : e.notes =
    ["expected `" ++ declared.render names ++ "`, found `" ++ found.render names ++ "`"]
  differ : declared.Issued names → found.Issued names → declared.render names ≠ found.render names

variable {e : EvalError}

theorem tellsApart_of_refused {names : Interner} {declared found : Ty} {param : String}
    (h : declared.accepts found = false) :
    (parameterTypeMismatch param (declared.render names) (found.render names)).TellsApart names
      declared found where
  refused := h
  notes := rfl
  differ hdeclared hfound heq := by
    -- A type accepts itself.
    rw [(Ty.render_inj hdeclared hfound).1 heq, Ty.accepts_self] at h
    cases h

theorem IsBare.not_aboutType (h : e.IsBare) : ¬ e.AboutType := by
  obtain ⟨kind, hkind, rfl⟩ := h
  rintro ⟨param, rfl⟩
  exact hkind

theorem not_aboutType_ofKind {kind : ErrorKind} (h : kind.IsBare) : ¬ (ofKind kind).AboutType :=
  (isBare_ofKind h).not_aboutType

theorem Reported.not_aboutType (h : e.Reported) : ¬ e.AboutType := by
  rintro ⟨param, hparam⟩
  cases h <;> cases hparam

end EvalError

/-- No evaluation stops for the type of a parameter: types are checked before it. -/
theorem Session.Sound.not_aboutType_of_stops {env : Environment} {start : ℕ} {s : Session}
    {e : EvalError} (h : Sound env start s) (hs : Stops env s (.error e)) : ¬ e.AboutType := by
  generalize hfail : Failure.error e = failure at hs
  cases hs with
  | cycle hchain _ hn =>
    obtain ⟨f, hf⟩ := h.exists_frame hn
    rw [cycleFailure_eq hf] at hfail
    cases hfail
    rintro ⟨param, hparam⟩
    cases hparam
  | depth hpush =>
    cases hfail
    obtain ⟨max, -, -, rfl⟩ := DemandChain.push_eq_error hpush
    exact EvalError.not_aboutType_ofKind trivial
  | request hchain hreq =>
    cases hfail
    exact (h.reported hreq).not_aboutType
  | creation hchain hreq hc =>
    cases hfail
    exact (isBare_of_creation hc).not_aboutType

namespace Evaluator

variable {e : Evaluator} {w w' : Workspace} {n : Name} {params : List (Option Value)} {steps : ℕ}
  {err : EvalError}

/-- A request for a class, by its name or by its text, fails with an error. -/
inductive FailsWith (e : Evaluator) (w w' : Workspace) (params : List (Option Value))
    (err : EvalError) : Prop
  | name {n : Name} {steps : ℕ} : e.instantiateName w n params steps = (w', .error (.error err)) →
      FailsWith e w w' params err
  | text {cls : String} : e.instantiate w cls params = (w', .error (.error err)) →
      FailsWith e w w' params err

/-- A request of a batch fails as it does by itself. -/
theorem exists_failsWith {requests : List Instantiation}
    (h : .error (.error err) ∈ (e.instantiateAll requests w).2) :
    ∃ u u', ∃ r ∈ requests, e.FailsWith u u' r.params err := by
  induction requests generalizing w with
  | nil => cases h
  | cons r rest ih =>
    rcases List.mem_cons.1 h with h | h
    · exact ⟨w, _, r, List.mem_cons_self, .text (Prod.ext rfl h.symm)⟩
    · obtain ⟨u, u', r', hr', hfails⟩ := ih h
      exact ⟨u, u', r', List.mem_cons_of_mem _ hr', hfails⟩

/-- A request that fails for the type of a parameter does so while its parameters are copied. -/
theorem FailsWith.exists_addParams (h : e.FailsWith w w' params err) (habout : err.AboutType) :
    ∃ n c present, (w.table e.table).lookup? n = some c ∧ params.length = c.params.length ∧
      presentParams c.params params = .ok present ∧
      Intake.addParams e.table present w {} = (w', .error (.error err)) := by
  have hname : ∃ n steps, e.instantiateName w n params steps = (w', .error (.error err)) := by
    -- A text is looked up first, and one without a class is refused at once.
    cases h with
    | name h => exact ⟨_, _, h⟩
    | text h =>
      rw [instantiate] at h
      split at h
      · cases h
        exact absurd habout (EvalError.not_aboutType_ofKind trivial)
      · exact ⟨_, _, h⟩
  obtain ⟨n, steps, hname⟩ := hname
  rcases instantiateName_eq_error hname with
    hprepare | ⟨p, -, hc | ⟨start, s, hsound, hstops⟩⟩
  · rcases prepare_eq_error hprepare with hbare | ⟨c, present, hadd⟩
    · exact absurd habout hbare.not_aboutType
    · exact ⟨n, c, present, hadd⟩
  · exact absurd habout (Session.isBare_of_creation hc).not_aboutType
  · exact absurd habout (hsound.not_aboutType_of_stops hstops)

/-- An error about the type of a parameter is about a parameter of the request that was copied, and
tells its type from the declared one. -/
theorem FailsWith.tellsApart (h : e.FailsWith w w' params err) (habout : err.AboutType) :
    ∃ c ∈ (w.table e.table).classes, ∃ decl ∈ c.params, ∃ v, some v ∈ params ∧
      ∃ found, Intake.Mistyped e.table w' decl v found ∧
        err.TellsApart (w'.tableNames e.table) decl.type found := by
  obtain ⟨n, c, present, hc, hlength, hpresent, hadd⟩ := h.exists_addParams habout
  rcases Intake.addParams_eq_error hadd with hbare | ⟨⟨decl, v⟩, hp, found, hmistyped, rfl⟩
  · exact absurd habout hbare.not_aboutType
  · obtain ⟨hdecl, hv⟩ := mem_of_mem_presentParams hlength hpresent hp
    refine ⟨c, (ClassTable.of_lookup?_eq_some hc).1, decl, hdecl, v, hv, found, hmistyped, ?_⟩
    cases hmistyped with
    | intro _ hrefused => exact EvalError.tellsApart_of_refused hrefused

/-- Where names are issued by the interners that they are read with, the note of every error about a
type tells two types apart. -/
theorem FailsWith.texts_ne (h : e.FailsWith w w' params err) (habout : err.AboutType)
    (hw : w.Built) (hnamed : w.Named e.table)
    (hparams : ∀ v, some v ∈ params → w.Supplies e.table v) :
    ∃ param expected found, err = .parameterTypeMismatch param expected found ∧
      expected ≠ found := by
  obtain ⟨n, c, present, hc, hlength, hpresent, hadd⟩ := h.exists_addParams habout
  have hsupplies : ∀ p ∈ present, w.Supplies e.table p.2 := fun p hp =>
    hparams p.2 (mem_of_presentParams hpresent p hp)
  obtain ⟨i, ⟨decl, v⟩, err', hi, hrefuses, herr, -⟩ :=
    (Intake.Tracks.nil w e.table).refuses_of_addParams hw hnamed.knows
      (fun p hp => (hsupplies p hp).presents) hadd
  have hp := List.mem_of_getElem? hi
  have hdecl := (mem_of_mem_presentParams hlength hpresent hp).1
  have hdeclared : ∀ m ∈ decl.type.names, (w.tableNames e.table).Issued m := fun m hm =>
    hnamed.names c (ClassTable.of_lookup?_eq_some hc).1 m
      (c.mem_names_of_param hdecl (List.mem_cons_of_mem _ hm))
  cases herr
  cases hrefuses with
  | foreign hx hforeign => exact absurd habout (EvalError.not_aboutType_ofKind trivial)
  | mismatch _ hcopied hrefused =>
    have hbefore : ∀ u ∈ [] ++ (present.take i).map Prod.snd, w.Holds u := by
      intro u hu
      obtain ⟨p, hp, rfl⟩ := List.mem_map.1 hu
      exact (hsupplies p (List.mem_of_mem_take hp)).holds
    obtain ⟨own, hreports, -⟩ :=
      hcopied.existsUnique_reports hw hnamed.knows hbefore (hsupplies _ hp).holds
    refine ⟨_, _, _, rfl, fun heq => ?_⟩
    -- Both types are written as they were before anything was copied.
    rw [(hreports.translates.keeps.render_tableNames (Ty.issued_iff.2 hdeclared)).2,
      hreports.written (hsupplies _ hp)] at heq
    have hadmits := (Ty.alike_of_render_eq heq).admits
    rw [(hreports.admitted (hsupplies _ hp) hdeclared).2 hadmits] at hrefused
    cases hrefused

/-- Types whose class names were issued by an interner are the same if they are written alike. So
the note of every error about the type of a parameter writes two types differently, if their names
were issued, and always if the names of the class table and of the parameters were. -/
theorem types_told_apart :
    (∀ {t : Interner} {a b : Ty}, a.Issued t → b.Issued t → (a.render t = b.render t ↔ a = b)) ∧
    (∀ {e : Evaluator} {w w' : Workspace} {params : List (Option Value)} {err : EvalError},
      e.FailsWith w w' params err → err.AboutType →
        (∃ c ∈ (w.table e.table).classes, ∃ decl ∈ c.params, ∃ v, some v ∈ params ∧
          ∃ found, Intake.Mistyped e.table w' decl v found ∧
            err.TellsApart (w'.tableNames e.table) decl.type found) ∧
        (w.Built → w.Named e.table → (∀ v, some v ∈ params → w.Supplies e.table v) →
          ∃ param expected found, err = .parameterTypeMismatch param expected found ∧
            expected ≠ found)) ∧
    ∀ {e : Evaluator} {w : Workspace} {requests : List Instantiation} {err : EvalError},
      .error (.error err) ∈ (e.instantiateAll requests w).2 →
        ∃ u u', ∃ r ∈ requests, e.FailsWith u u' r.params err :=
  ⟨Ty.render_inj, fun h habout => ⟨h.tellsApart habout, h.texts_ne habout⟩, exists_failsWith⟩

end Evaluator

namespace Sample

/-- A form with a flag where a number is declared. -/
def misfiled : Instantiation := ⟨"Form", [some flag, some inked]⟩

theorem fails_misfiled :
    clerk.FailsWith stamped (clerk.instantiate stamped misfiled.cls misfiled.params).1
      misfiled.params (.parameterTypeMismatch "copies" "integer" "bool") :=
  .text (Prod.ext rfl (by decide +kernel))

/-- A kind may be written as a class type is, and is not taken for it. -/
theorem misfiled_told_apart :
    ((Ty.tagged "class<Form>").render (stamped.tableNames clerk.table) ≠
      (Ty.cls form.name).render (stamped.tableNames clerk.table)) ∧
    (∃ param expected found,
      EvalError.parameterTypeMismatch "copies" "integer" "bool" =
        .parameterTypeMismatch param expected found ∧ expected ≠ found) ∧
    ∃ u u', ∃ r ∈ [misfiled],
      clerk.FailsWith u u' r.params (.parameterTypeMismatch "copies" "integer" "bool") := by
  obtain ⟨hrender, hfails, hbatch⟩ := Evaluator.types_told_apart
  have habout : (EvalError.parameterTypeMismatch "copies" "integer" "bool").AboutType := ⟨_, rfl⟩
  refine ⟨fun h => ?_, ?_, ?_⟩
  · have hkind : (Ty.tagged "class<Form>").Issued (stamped.tableNames clerk.table) := trivial
    have hform : (Ty.cls form.name).Issued (stamped.tableNames clerk.table) := by
      show (stamped.tableNames clerk.table).Issued form.name
      decide +kernel
    cases (hrender hkind hform).1 h
  · refine (hfails fails_misfiled habout).2 built_stamped named_clerk fun v hv => ?_
    rcases List.mem_pair.1 hv with hv | hv
    · cases hv
      exact supplies_flag
    · cases hv
      exact supplies_inked
  · exact hbatch (w := stamped) (List.mem_singleton.2 (by decide +kernel))

end Sample

end ObjectModel
