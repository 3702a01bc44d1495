import ObjectModel.Proofs.Intake.Types
import ObjectModel.Proofs.Independence.Histories
import Mathlib.Data.Prod.Lex

/-!
# The checks of a request

Before anything is evaluated a request is checked: its class, the number of its parameters, that all
of them are there, and then one after the other what they lead to and what type they have
(`Check.rank`). The first check that fails decides, whatever else is wrong, and says what it found
(`Evaluator.Fails`); only a request that fails none is evaluated
(`Evaluator.first_check_decides`). A parameter is copied after those before it, which may have
interned names (`Workspace.CopiedAs`), and what is reported for it is nevertheless a type of its own
graph (`Workspace.Reports`).
-/

set_option autoImplicit false

namespace ObjectModel

/-! ## One parameter -/

namespace Workspace

/-- A value is copied after some others, and a type is reported for the copy. The workspace has
interned the names that all of them bring along. -/
inductive CopiedAs (w : Workspace) (target : TableId) (before : List Value) (v : Value) :
    Workspace → Ty → Prop
  | intro {w₁ w' : Workspace} {ids : List ValueId} {id : ValueId} {intake intake' : Intake} :
      Intake.addAll target before w {} = (w₁, .ok (ids, intake)) →
      Intake.add target w₁ intake v = (w', .ok (id, intake')) →
      CopiedAs w target before v w' (intake'.runtimeType id)

/-- The type that is reported for a value is its own, behind all erased types, with names of the
table. If the names were issued, it is written as the own one, and accepted where the own one is
admitted. -/
structure Reports (w w' : Workspace) (target : TableId) (v : Value) (own reported : Ty) : Prop where
  runtimeType : w.RuntimeType v own
  translates : w.Translates w' target (w.graph v.graph).table own reported
  written : w.Supplies target v →
    reported.render (w'.tableNames target) = own.render (w.graphNames target v.graph)
  admitted : w.Supplies target v → ∀ {declared : Ty},
    (∀ n ∈ declared.names, (w.tableNames target).Issued n) →
      (declared.accepts reported = true ↔
        declared.Admits (w.tableNames target) (w.graphNames target v.graph) own)

/-- What is wrong with a parameter that is copied after some others: it leads to an object of a
class that is unknown to the table, or it does not, but its type is not accepted. -/
inductive Refuses (w : Workspace) (target : TableId) (before : List Value) (decl : Decl)
    (v : Value) : EvalError → Prop
  | foreign {x : Value} {s : String} : x ∈ w.reached [v] → w.Foreign target x s →
      Refuses w target before decl v (.ofKind (.unknownClass s))
  | mismatch {w' : Workspace} {ty : Ty} : (∀ x ∈ w.reached [v], ∀ s, ¬ w.Foreign target x s) →
      w.CopiedAs target before v w' ty → decl.type.accepts ty = false →
      Refuses w target before decl v
        (.parameterTypeMismatch ((w'.tableNames target).text decl.name)
          (decl.type.render (w'.tableNames target)) (ty.render (w'.tableNames target)))

/-- Nothing is wrong with a parameter: all classes that it leads to are known, and its type is
accepted. -/
structure Suits (w : Workspace) (target : TableId) (before : List Value) (decl : Decl) (v : Value) :
    Prop where
  known : ∀ x ∈ w.reached [v], ∀ s, ¬ w.Foreign target x s
  accepted : ∃ w' ty, w.CopiedAs target before v w' ty ∧ decl.type.accepts ty = true

variable {w w' w'' : Workspace} {target : TableId} {before : List Value} {decl : Decl} {v : Value}
  {err : EvalError} {ty ty' : Ty}

/-- One type is reported for a value, and one workspace is left behind. -/
theorem CopiedAs.unique (h : w.CopiedAs target before v w' ty)
    (h' : w.CopiedAs target before v w'' ty') : w' = w'' ∧ ty = ty' := by
  cases h with
  | intro hall hadd =>
    cases h' with
    | intro hall' hadd' =>
      cases hall.symm.trans hall'
      cases hadd.symm.trans hadd'
      exact ⟨rfl, rfl⟩

theorem Suits.not_refuses (h : w.Suits target before decl v) :
    ¬ w.Refuses target before decl v err := by
  intro hrefuses
  cases hrefuses with
  | foreign hx hforeign => exact h.known _ hx _ hforeign
  | mismatch _ hcopied hrefused =>
    obtain ⟨w', ty, hcopied', haccepts⟩ := h.accepted
    obtain ⟨-, rfl⟩ := hcopied.unique hcopied'
    rw [haccepts] at hrefused
    cases hrefused

theorem Supplies.presents (h : w.Supplies target v) : w.Presents v where
  holds := h.holds
  classes := by
    intro t id cls fields ht hn
    have hissued := h.issued id _ hn
    rwa [graphNames, ht] at hissued

theorem Named.knows (h : w.Named target) : w.Knows target where
  interner := h.interner
  names c hc := h.names c hc c.name List.mem_cons_self

/-- A type is reported for a value exactly if neither the value nor those before it lead to an
object of a foreign class. -/
theorem exists_copiedAs_iff (hw : w.Built) (hknows : w.Knows target)
    (hbefore : ∀ u ∈ before, w.Presents u) (hv : w.Presents v) :
    (∃ w' ty, w.CopiedAs target before v w' ty) ↔
      ∀ x ∈ w.reached (before ++ [v]), ∀ s, ¬ w.Foreign target x s := by
  have hall : ∀ u ∈ before ++ [v], w.Presents u := by
    intro u hu
    rcases List.mem_append.1 hu with hu | hu
    · exact hbefore u hu
    · rwa [List.mem_singleton.1 hu]
  have hstart := Intake.traces_empty w target
  constructor
  · rintro ⟨w', ty, hcopied⟩
    cases hcopied with
    | intro hearlier hadd =>
      exact (hstart.exists_addAll_iff hw hknows hall).1
        ⟨_, _, _, Intake.addAll_concat hearlier hadd⟩
  · intro hknown
    obtain ⟨w₁, ids, intake, hearlier⟩ := (hstart.exists_addAll_iff hw hknows hbefore).2
      fun x hx => hknown x (mem_reached_append.2 (Or.inl hx))
    rcases hadd : Intake.add target w₁ intake v with ⟨w', f | ⟨id, intake'⟩⟩
    · have htraces := hstart.addAll hw.whole (fun u hu => (hbefore u hu).holds) hearlier
      obtain ⟨x, hx, s, hforeign, -⟩ := htraces.foreign_of_add_eq_error hw hknows hv hadd
      exact absurd hforeign (hknown x (mem_reached_append.2 (Or.inr hx)) s)
    · exact ⟨w', _, .intro hearlier hadd⟩

/-- The type that is reported for a value is that of the value. -/
theorem CopiedAs.existsUnique_reports (h : w.CopiedAs target before v w' ty) (hw : w.Built)
    (hknows : w.Knows target) (hbefore : ∀ u ∈ before, w.Holds u) (hv : w.Holds v) :
    ∃! own, w.Reports w' target v own ty := by
  obtain ⟨own, hown⟩ := hw.whole.exists_runtimeType hv
  cases h with
  | intro hall hadd =>
    have hearlier := (Intake.traces_empty w target).addAll hw.whole hbefore hall
    obtain ⟨htraces, hid⟩ := hearlier.add hw.whole hv hadd
    have htranslates := htraces.translates_runtimeType hid hown
    have hextends := htraces.keeps.extends target
    refine ⟨own, ⟨hown, htranslates, fun hsupplies => ?_, fun hsupplies => ?_⟩,
      fun own' h => h.runtimeType.unique hown⟩
    · exact (htranslates.same hknows (hown.issued hsupplies.issued)).render
    · intro declared hdeclared
      have hsame := htranslates.same hknows (hown.issued hsupplies.issued)
      rw [hsame.accepts_iff_admits fun n hn => (hextends n (hdeclared n hn)).1]
      exact Ty.admits_iff_of_extends hextends (.refl _) hdeclared (hown.issued hsupplies.issued)

end Workspace

namespace Intake

variable {target : TableId} {w₀ w w' : Workspace} {intake intake' : Intake} {v : Value}
  {before : List Value} {id : ValueId} {f : Failure} {decl : Decl}

/-- Some values were copied, and it is known of which nodes their copies are those. -/
structure Tracks (w₀ w : Workspace) (target : TableId) (before : List Value) (intake : Intake) :
    Prop where
  traces : Traces w₀ w target intake
  copied : ∃ ids, addAll target before w₀ {} = (w, .ok (ids, intake))

namespace Tracks

theorem nil (w : Workspace) (target : TableId) : Tracks w w target [] {} :=
  ⟨traces_empty w target, [], rfl⟩

theorem copiedAs (h : Tracks w₀ w target before intake)
    (hadd : Intake.add target w intake v = (w', .ok (id, intake'))) :
    w₀.CopiedAs target before v w' (intake'.runtimeType id) := by
  obtain ⟨ids, hall⟩ := h.copied
  exact .intro hall hadd

section Next

variable (h : Tracks w₀ w target before intake) (hw : w₀.Built) (hknows : w₀.Knows target)
  (hv : w₀.Presents v)
include h hw hv

theorem add (hadd : Intake.add target w intake v = (w', .ok (id, intake'))) :
    Tracks w₀ w' target (before ++ [v]) intake' := by
  obtain ⟨ids, hall⟩ := h.copied
  exact ⟨(h.traces.add hw.whole hv.holds hadd).1, _, addAll_concat hall hadd⟩

include hknows

theorem refuses_of_add_eq_error (hadd : Intake.add target w intake v = (w', .error f)) :
    ∃ err, w₀.Refuses target before decl v err ∧ f = .error err := by
  obtain ⟨x, hx, s, hforeign, rfl⟩ := h.traces.foreign_of_add_eq_error hw hknows hv hadd
  exact ⟨_, .foreign hx hforeign, rfl⟩

/-- No class that a copied value leads to is foreign. -/
theorem known_of_add (hadd : Intake.add target w intake v = (w', .ok (id, intake'))) :
    ∀ x ∈ w₀.reached [v], ∀ s, ¬ w₀.Foreign target x s := by
  obtain ⟨htraces, hid⟩ := h.traces.add hw.whole hv.holds hadd
  exact htraces.known_of_copied hw hknows hv hid

theorem suits_of_add (hadd : Intake.add target w intake v = (w', .ok (id, intake')))
    (haccepts : decl.type.accepts (intake'.runtimeType id) = true) :
    w₀.Suits target before decl v :=
  ⟨h.known_of_add hw hknows hv hadd, _, _, h.copiedAs hadd, haccepts⟩

end Next

section All

variable {ps : List (Decl × Value)} (h : Tracks w₀ w target before intake) (hw : w₀.Built)
  (hknows : w₀.Knows target) (hps : ∀ p ∈ ps, w₀.Presents p.2)
include h hw hknows hps

/-- If all parameters are copied, each one suits its declaration after those before it. -/
theorem suits_of_addParams {ids : List ValueId}
    (hall : Intake.addParams target ps w intake = (w', .ok (ids, intake'))) {i : ℕ}
    {p : Decl × Value} (hp : ps[i]? = some p) :
    w₀.Suits target (before ++ (ps.take i).map Prod.snd) p.1 p.2 := by
  induction ps generalizing w before intake ids i with
  | nil => cases hp
  | cons q rest ih =>
    obtain ⟨decl, v⟩ := q
    have hv := hps _ List.mem_cons_self
    obtain ⟨w₁, id, intake₁, ids', hadd, haccepts, hcopied, -⟩ := addParams_cons_eq_ok hall
    cases i with
    | zero =>
      cases hp
      rw [List.take_zero, List.map_nil, List.append_nil]
      exact h.suits_of_add hw hknows hv hadd haccepts
    | succ i =>
      have hrest := ih (h.add hw hv hadd) (fun q hq => hps q (List.mem_cons_of_mem _ hq)) hcopied hp
      rwa [List.append_assoc, List.singleton_append] at hrest

/-- Parameters that are not copied are gone through up to the first one that is refused. -/
theorem refuses_of_addParams (hall : Intake.addParams target ps w intake = (w', .error f)) :
    ∃ (i : ℕ) (p : Decl × Value) (err : EvalError), ps[i]? = some p ∧
      w₀.Refuses target (before ++ (ps.take i).map Prod.snd) p.1 p.2 err ∧ f = .error err ∧
        ∀ j < i, ∀ q, ps[j]? = some q →
          w₀.Suits target (before ++ (ps.take j).map Prod.snd) q.1 q.2 := by
  induction ps generalizing w before intake with
  | nil => cases hall
  | cons p rest ih =>
    obtain ⟨decl, v⟩ := p
    have hv := hps _ List.mem_cons_self
    have hnone : before ++ (((decl, v) :: rest).take 0).map Prod.snd = before := List.append_nil _
    rcases addParams_cons_eq_error hall with
      hadd | ⟨w₁, id, intake₁, hadd, ⟨haccepts, hfailed⟩ | ⟨hrefused, rfl, rfl⟩⟩
    · obtain ⟨err, hrefuses, rfl⟩ := h.refuses_of_add_eq_error hw hknows hv hadd
      exact ⟨0, _, err, rfl, by rwa [hnone], rfl, fun j hj => absurd hj (Nat.not_lt_zero j)⟩
    · -- What comes after the first parameter is copied after it.
      have hsnoc : ∀ i, before ++ (((decl, v) :: rest).take (i + 1)).map Prod.snd =
          (before ++ [v]) ++ (rest.take i).map Prod.snd := by simp
      obtain ⟨i, q, err, hi, hrefuses, rfl, hearlier⟩ :=
        ih (h.add hw hv hadd) (fun q hq => hps q (List.mem_cons_of_mem _ hq)) hfailed
      refine ⟨i + 1, q, err, hi, by rwa [hsnoc], rfl, fun j hj r hr => ?_⟩
      cases j with
      | zero =>
        cases hr
        rw [hnone]
        exact h.suits_of_add hw hknows hv hadd haccepts
      | succ j =>
        rw [hsnoc]
        exact hearlier j (Nat.lt_of_succ_lt_succ hj) r hr
    · refine ⟨0, _, _, rfl, ?_, rfl, fun j hj => absurd hj (Nat.not_lt_zero j)⟩
      rw [hnone]
      exact .mismatch (h.known_of_add hw hknows hv hadd) (h.copiedAs hadd) hrefused

end All

end Tracks

end Intake

/-! ## Parameters that are there -/

section Present

variable {decls : List Decl} {params : List (Option Value)} {present : List (Decl × Value)}
  {decl : Decl} {v : Value}

/-- The declaration that is reported is that of the first absent parameter. -/
theorem presentParams_eq_error (h : presentParams decls params = .error decl) :
    ∃ i : ℕ, decls[i]? = some decl ∧ params[i]? = some none ∧
      ∀ j < i, params[j]? ≠ some none := by
  induction decls generalizing params with
  | nil => cases params <;> cases h
  | cons d decls ih =>
    rcases params with _ | ⟨_ | v, vs⟩
    · cases h
    · cases h
      exact ⟨0, rfl, rfl, by simp⟩
    · rw [presentParams] at h
      cases hrest : presentParams decls vs with
      | ok present =>
        rw [hrest] at h
        cases h
      | error d' =>
        rw [hrest] at h
        cases h
        obtain ⟨i, hi, hi', hbefore⟩ := ih hrest
        refine ⟨i + 1, hi, hi', fun j hj => ?_⟩
        cases j with
        | zero => simp
        | succ j => exact hbefore j (Nat.lt_of_succ_lt_succ hj)

/-- If all parameters are there, each one stands beside its declaration. -/
theorem getElem?_presentParams (hlength : params.length = decls.length)
    (h : presentParams decls params = .ok present) {i : ℕ} :
    present[i]? = some (decl, v) ↔ decls[i]? = some decl ∧ params[i]? = some (some v) := by
  induction decls generalizing params present i with
  | nil =>
    rw [List.length_nil, List.length_eq_zero_iff] at hlength
    subst hlength
    cases h
    simp
  | cons d decls ih =>
    rcases params with _ | ⟨_ | u, vs⟩
    · cases hlength
    · cases h
    · rw [presentParams] at h
      cases hrest : presentParams decls vs with
      | error d' =>
        rw [hrest] at h
        cases h
      | ok others =>
        rw [hrest] at h
        cases h
        cases i with
        | zero => simp
        | succ i =>
          rw [List.getElem?_cons_succ, List.getElem?_cons_succ, List.getElem?_cons_succ]
          exact ih (Nat.succ.inj hlength) hrest

/-- Each value that stands beside a declaration is a parameter. -/
theorem mem_of_mem_presentParams (hlength : params.length = decls.length)
    (h : presentParams decls params = .ok present) (hmem : (decl, v) ∈ present) :
    decl ∈ decls ∧ some v ∈ params := by
  obtain ⟨i, hi⟩ := List.mem_iff_getElem?.1 hmem
  obtain ⟨hdecl, hv⟩ := (getElem?_presentParams hlength h).1 hi
  exact ⟨List.mem_of_getElem? hdecl, List.mem_of_getElem? hv⟩

/-- If all parameters are there, those before a position stand beside declarations too. -/
theorem eq_of_take_presentParams (hlength : params.length = decls.length)
    (h : presentParams decls params = .ok present) {i : ℕ} {before : List Value}
    (hbefore : params.take i = before.map some) : before = (present.take i).map Prod.snd := by
  rw [Evaluator.map_presentParams hlength h, ← List.map_take, ← List.map_take] at hbefore
  exact (List.map_injective_iff.2 (Option.some_injective _) hbefore).symm

end Present

/-! ## The checks -/

/-- A check of a request. -/
inductive Check where
  /-- The class is one of the table. -/
  | known
  /-- There are as many parameters as declarations. -/
  | count
  /-- The parameter at a position is there. -/
  | present (i : ℕ)
  /-- The parameter at a position suits its declaration. -/
  | suits (i : ℕ)

/-- The order of the checks: the class, the number of parameters, whether all of them are there, and
last each one by itself. -/
def Check.rank : Check → ℕ ×ₗ ℕ
  | .known => toLex (0, 0)
  | .count => toLex (1, 0)
  | .present i => toLex (2, i)
  | .suits i => toLex (3, i)

theorem Check.known_le (check : Check) : Check.known.rank ≤ check.rank := by
  cases check <;> simp [rank, Prod.Lex.le_iff]

namespace Evaluator

/-- A check that fails, whatever comes of the others, with its error. The class that was found is
the one that was asked for by the given text. -/
inductive Fails (e : Evaluator) (w : Workspace) (found : Option ClassDef) (text : String)
    (params : List (Option Value)) : Check → EvalError → Prop
  | unknown : found = none → Fails e w found text params .known (.ofKind (.unknownClass text))
  | count {c : ClassDef} : found = some c → params.length ≠ c.params.length →
      Fails e w found text params .count
        (.ofKind (.parameterCountMismatch params.length c.params.length))
  | absent {c : ClassDef} {i : ℕ} {decl : Decl} : found = some c → c.params[i]? = some decl →
      params[i]? = some none →
      Fails e w found text params (.present i)
        (.ofKind (.nullParameter ((w.tableNames e.table).text decl.name)))
  | refused {c : ClassDef} {i : ℕ} {decl : Decl} {before : List Value} {v : Value}
      {err : EvalError} : found = some c → c.params[i]? = some decl →
      params.take i = before.map some → params[i]? = some (some v) →
      w.Refuses e.table before decl v err → Fails e w found text params (.suits i) err

/-- What becomes of a request: the first check that fails decides, or if none fails it is
evaluated. -/
inductive Decides (e : Evaluator) (w : Workspace) (found : Option ClassDef) (text : String)
    (params : List (Option Value)) (steps : ℕ) : Workspace × Except Failure Value → Prop
  /-- No object is created and no graph is added, whatever number of steps is allowed. -/
  | rejected {w' : Workspace} {check : Check} {err : EvalError} : w.Keeps w' →
      e.Fails w found text params check err →
      (∀ {check' : Check} {err' : EvalError}, e.Fails w found text params check' err' →
        check.rank ≤ check'.rank) →
      Decides e w found text params steps (w', .error (.error err))
  /-- The evaluation of the class starts with the copies of the parameters. -/
  | evaluated {w' : Workspace} {c : ClassDef} {p : Preparation} : w.Keeps w' → found = some c →
      (∀ {check : Check} {err : EvalError}, ¬ e.Fails w found text params check err) →
      e.prepare w c.name params = (w', .ok p) →
      Decides e w found text params steps
        (match p.env.evaluate e.table p.nodes c.name p.args steps with
        | .error f => (w', .error f)
        | .ok (g, root) => ((w'.addGraph g root).2, .ok (w'.addGraph g root).1))

variable {e : Evaluator} {w : Workspace} {found : Option ClassDef} {text : String}
  {params : List (Option Value)} {c : ClassDef} {steps : ℕ}

section Order

variable {check : Check} {err : EvalError}

/-- If the class is known, its number of parameters is the first thing that can be wrong. -/
theorem Fails.count_le (h : e.Fails w (some c) text params check err) :
    Check.count.rank ≤ check.rank := by
  cases h with
  | unknown hc => cases hc
  | count _ _ => exact le_rfl
  | absent _ _ _ => simp [Check.rank, Prod.Lex.le_iff]
  | refused _ _ _ _ _ => simp [Check.rank, Prod.Lex.le_iff]

variable (hlength : params.length = c.params.length)
include hlength

/-- If the number of parameters is right too, the first absent parameter comes next. -/
theorem Fails.present_le (h : e.Fails w (some c) text params check err) {i : ℕ}
    (hbefore : ∀ j < i, params[j]? ≠ some none) : (Check.present i).rank ≤ check.rank := by
  cases h with
  | unknown hc => cases hc
  | count hc hne =>
    cases hc
    exact absurd hlength hne
  | @absent _ j _ _ _ hv =>
    have hij : i ≤ j := by
      by_contra hlt
      exact hbefore j (Nat.lt_of_not_le hlt) hv
    simp [Check.rank, Prod.Lex.le_iff, hij]
  | refused _ _ _ _ _ => simp [Check.rank, Prod.Lex.le_iff]

/-- If all parameters are there, only one of them can be wrong. -/
theorem Fails.refuses (h : e.Fails w (some c) text params check err)
    (hpresent : ∀ j : ℕ, params[j]? ≠ some none) :
    ∃ i decl before v, check = .suits i ∧ c.params[i]? = some decl ∧
      params.take i = before.map some ∧ params[i]? = some (some v) ∧
        w.Refuses e.table before decl v err := by
  cases h with
  | unknown hc => cases hc
  | count hc hne =>
    cases hc
    exact absurd hlength hne
  | absent _ _ hv => exact absurd hv (hpresent _)
  | refused hc hdecl hbefore hv hrefuses =>
    cases hc
    exact ⟨_, _, _, _, rfl, hdecl, hbefore, hv, hrefuses⟩

end Order

section Known

variable (hw : w.Built) (hknows : w.Knows e.table) (hparams : ∀ v, some v ∈ params → w.Presents v)
include hw hknows hparams

/-- If all parameters are there, the first one that does not suit its declaration decides. -/
theorem decides_of_present (hc : (w.table e.table).lookup? c.name = some c)
    (hlength : params.length = c.params.length) {present : List (Decl × Value)}
    (hpresent : presentParams c.params params = .ok present) :
    e.Decides w (some c) text params steps (e.instantiateName w c.name params steps) := by
  have hbeside : ∀ {i : ℕ} {decl : Decl} {v : Value}, present[i]? = some (decl, v) ↔
      c.params[i]? = some decl ∧ params[i]? = some (some v) :=
    getElem?_presentParams hlength hpresent
  have hall : ∀ j : ℕ, params[j]? ≠ some none := by
    intro j
    rw [map_presentParams hlength hpresent]
    simp
  -- A parameter that suits its declaration after those before it is not refused after them.
  have hsuits : ∀ {j : ℕ} {decl : Decl} {before : List Value} {v : Value} {err : EvalError},
      params.take j = before.map some →
      w.Suits e.table ([] ++ (present.take j).map Prod.snd) decl v →
      ¬ w.Refuses e.table before decl v err := by
    intro j decl before v err hbefore h
    rw [eq_of_take_presentParams hlength hpresent hbefore]
    exact h.not_refuses
  have htracks := Intake.Tracks.nil w e.table
  have hpresents : ∀ p ∈ present, w.Presents p.2 := fun p hp =>
    hparams p.2 (mem_of_presentParams hpresent p hp)
  have hkeeps := Workspace.Keeps.addParams e.table present w {}
  rcases hadd : Intake.addParams e.table present w {} with ⟨w', f | ⟨args, intake⟩⟩
  · rw [hadd] at hkeeps
    obtain ⟨i, ⟨decl, v⟩, err, hi, hrefuses, rfl, hearlier⟩ :=
      htracks.refuses_of_addParams hw hknows hpresents hadd
    have hprepare : e.prepare w c.name params = (w', .error (.error err)) := by
      simp only [prepare, hc, hpresent, hadd, if_neg (not_not.2 hlength)]
    obtain ⟨hdecl, hv⟩ := hbeside.1 hi
    have hbefore : params.take i = ((present.take i).map Prod.snd).map some := by
      rw [map_presentParams hlength hpresent, List.map_take, List.map_take]
    rw [instantiateName_of_prepare_error hprepare]
    refine .rejected hkeeps (.refused rfl hdecl hbefore hv hrefuses) fun h => ?_
    -- Nothing is wrong with the parameters before this one.
    obtain ⟨j, decl', before', v', rfl, hdecl', hbefore', hv', hrefuses'⟩ :=
      h.refuses hlength hall
    have hij : i ≤ j := by
      by_contra hlt
      have hsuits' := hearlier j (Nat.lt_of_not_le hlt) (decl', v') (hbeside.2 ⟨hdecl', hv'⟩)
      exact hsuits hbefore' hsuits' hrefuses'
    simp [Check.rank, Prod.Lex.le_iff, hij]
  · rw [hadd] at hkeeps
    have hprepare : e.prepare w c.name params = (w', .ok
        { env := { classes := w.table e.table, names := w'.tableNames e.table, limits := e.limits }
          nodes := intake.nodes
          args }) := by
      simp only [prepare, hc, hpresent, hadd, if_neg (not_not.2 hlength)]
    rw [instantiateName_of_prepare hprepare]
    refine .evaluated hkeeps rfl (fun h => ?_) hprepare
    obtain ⟨j, decl, before, v, -, hdecl, hbefore, hv, hrefuses⟩ := h.refuses hlength hall
    have hsuits' := htracks.suits_of_addParams hw hknows hpresents hadd (hbeside.2 ⟨hdecl, hv⟩)
    exact hsuits hbefore hsuits' hrefuses

/-- A request for a class of the table is decided by the first check that fails. -/
theorem decides_of_lookup? (hc : (w.table e.table).lookup? c.name = some c) :
    e.Decides w (some c) text params steps (e.instantiateName w c.name params steps) := by
  by_cases hlength : params.length = c.params.length
  · cases hpresent : presentParams c.params params with
    | ok present => exact decides_of_present hw hknows hparams hc hlength hpresent
    | error decl =>
      have hprepare : e.prepare w c.name params =
          (w, .error (.error (.ofKind
            (.nullParameter ((w.tableNames e.table).text decl.name))))) := by
        simp only [prepare, hc, hpresent, if_neg (not_not.2 hlength)]
      obtain ⟨i, hdecl, habsent, hbefore⟩ := presentParams_eq_error hpresent
      rw [instantiateName_of_prepare_error hprepare]
      exact .rejected (.refl w) (.absent rfl hdecl habsent) fun h => h.present_le hlength hbefore
  · have hprepare : e.prepare w c.name params =
        (w, .error (.error (.ofKind
          (.parameterCountMismatch params.length c.params.length)))) := by
      simp only [prepare, hc, if_pos hlength]
    rw [instantiateName_of_prepare_error hprepare]
    exact .rejected (.refl w) (.count rfl hlength) fun h => h.count_le

/-- Whether by the name of its class or by the text, a request of a table that knows its classes is
decided by the first check that fails: that the class is known, that there are as many parameters
as declarations, that all of them are there, and that each one suits its declaration, in order. Only
if no check fails is it evaluated. The type that decides whether a parameter suits its declaration
is the one behind all its erased types, and there is one unless it or another parameter before it
leads to an object of an unknown class. -/
theorem first_check_decides :
    (∀ n steps, e.Decides w ((w.table e.table).lookup? n) ((w.tableNames e.table).text n) params
      steps (e.instantiateName w n params steps)) ∧
    (∀ cls, e.Decides w ((w.table e.table).lookupText? (w.tableNames e.table) cls) cls params
      allowance (e.instantiate w cls params)) ∧
    ∀ {before : List Value} {v : Value}, (∀ u ∈ before, some u ∈ params) → some v ∈ params →
      ((∃ w' ty, w.CopiedAs e.table before v w' ty) ↔
        ∀ x ∈ w.reached (before ++ [v]), ∀ s, ¬ w.Foreign e.table x s) ∧
      ∀ {w' ty}, w.CopiedAs e.table before v w' ty → ∃! own, w.Reports w' e.table v own ty := by
  refine ⟨fun n steps => ?_, fun cls => ?_, fun {before v} hbefore hv => ⟨?_, ?_⟩⟩
  · cases hc : (w.table e.table).lookup? n with
    | none =>
      have hprepare : e.prepare w n params =
          (w, .error (.error (.ofKind (.unknownClass ((w.tableNames e.table).text n))))) := by
        simp only [prepare, hc]
      rw [instantiateName_of_prepare_error hprepare]
      exact .rejected (.refl w) (.unknown rfl) fun _ => Check.known_le _
    | some c =>
      obtain ⟨-, rfl⟩ := ClassTable.of_lookup?_eq_some hc
      exact decides_of_lookup? hw hknows hparams hc
  · rw [instantiate_eq]
    cases hc : (w.table e.table).lookupText? (w.tableNames e.table) cls with
    | none => exact .rejected (.refl w) (.unknown rfl) fun _ => Check.known_le _
    | some c =>
      have hmem := (hknows.lookupText?_eq_some_iff.1 hc).1
      exact decides_of_lookup? hw hknows hparams (ClassTable.lookup?_name hmem)
  · exact Workspace.exists_copiedAs_iff hw hknows (fun u hu => hparams u (hbefore u hu))
      (hparams v hv)
  · intro w' ty hcopied
    exact hcopied.existsUnique_reports hw hknows (fun u hu => (hparams u (hbefore u hu)).holds)
      (hparams v hv).holds

end Known

end Evaluator

/-! ## An example -/

namespace Sample

/-- A class of objects that nobody else knows. -/
def stamp : ClassDef where
  interner := ⟨0⟩
  name := ⟨1⟩
  params := []
  fields := [⟨⟨2⟩, .bool⟩]
  instrs := #[.constant (.bool true)]
  yields := [.instr 0]
  valid := ⟨by decide, by decide, by decide, by decide, rfl, by decide⟩

/-- A class of another table that takes a number and anything else. -/
def form : ClassDef where
  interner := ⟨1⟩
  name := ⟨1⟩
  params := [⟨⟨2⟩, .integer⟩, ⟨⟨3⟩, .any⟩]
  fields := [⟨⟨3⟩, .any⟩]
  instrs := #[]
  yields := [.param 1]
  valid := ⟨by decide, by decide, by decide, by decide, rfl, by decide⟩

def stampTable : ClassTable where
  interner := ⟨0⟩
  classes := [stamp]
  names_nodup := by decide
  interner_eq := by decide

def formTable : ClassTable where
  interner := ⟨1⟩
  classes := [form]
  names_nodup := by decide
  interner_eq := by decide

/-- A workspace with both tables, each with an interner of its own. -/
def desk : Workspace :=
  ((["Form", "copies", "stamp"].foldl (fun w s => (w.intern ⟨1⟩ s).2)
    (((["Stamp", "ink"].foldl (fun w s => (w.intern ⟨0⟩ s).2)
      (Workspace.addInterner {}).2).addTable stampTable).2).addInterner.2).addTable formTable).2

/-- The workspace with a stamp and a flag. -/
def stamped : Workspace :=
  ((evaluator.instantiateName desk ⟨1⟩ [] 20).1.addLiteral (.bool true)).2

def inked : Value := ⟨⟨0⟩, ⟨1⟩⟩

def flag : Value := ⟨⟨1⟩, ⟨0⟩⟩

def clerk : Evaluator := { table := ⟨1⟩ }

theorem built_stamped : stamped.Built := by
  refine .addLiteral _ (.instantiateName _ _ _ _ ?_ ?_)
  · exact .addTable _ (.intern _ _ (.intern _ _ (.intern _ _ (.addInterner (.addTable _
      (.intern _ _ (.intern _ _ (.addInterner .empty))))))))
  · intro v hv
    cases hv

theorem named_clerk : stamped.Named clerk.table where
  interner := by decide +kernel
  names := by
    show ∀ c ∈ (stamped.table ⟨1⟩).classes, ∀ n ∈ c.names,
      n.index < (stamped.tableNames ⟨1⟩).strings.size
    decide +kernel

theorem supplies_inked : stamped.Supplies clerk.table inked where
  holds := ⟨.object ⟨1⟩ [⟨2⟩], by decide +kernel, rfl⟩
  issued := by
    have htable : (stamped.graph ⟨0⟩).table = some ⟨0⟩ := by decide +kernel
    rw [Workspace.graphNames, show inked.graph = ⟨0⟩ from rfl, htable]
    decide +kernel

theorem supplies_flag : stamped.Supplies clerk.table flag where
  holds := ⟨.literal (.bool true), by decide +kernel, rfl⟩
  issued := by
    have htable : (stamped.graph ⟨1⟩).table = none := by decide +kernel
    rw [Workspace.graphNames, show flag.graph = ⟨1⟩ from rfl, htable]
    decide +kernel

theorem knows_stampTable : stamped.Knows ⟨0⟩ where
  interner := by decide +kernel
  names := by
    show ∀ c ∈ (stamped.table ⟨0⟩).classes, c.name.index < (stamped.tableNames ⟨0⟩).strings.size
    decide +kernel

theorem presents_inked : stamped.Presents inked := by
  refine built_stamped.presents supplies_inked.holds fun t ht => ?_
  have htable : (stamped.graph ⟨0⟩).table = some ⟨0⟩ := by decide +kernel
  cases htable.symm.trans ht
  exact knows_stampTable

theorem presents_params {params : List (Option Value)}
    (h : ∀ v, some v ∈ params → v = flag ∨ v = inked) : ∀ v, some v ∈ params → stamped.Presents v := by
  intro v hv
  rcases h v hv with rfl | rfl
  · exact supplies_flag.presents
  · exact presents_inked

/-- A flag is no number, and the class of the stamp is unknown to the table of the form. Whichever
comes first decides, and that a parameter is absent decides before both. -/
theorem form_checked : stamped.Built ∧ stamped.Knows clerk.table ∧
    (∀ v, some v ∈ [some flag, some inked] → stamped.Presents v) ∧
    (∃ w, clerk.Decides stamped ((stamped.table ⟨1⟩).lookupText? (stamped.tableNames ⟨1⟩) "Form")
      "Form" [some flag, some inked] Evaluator.allowance
        (w, .error (.error (.parameterTypeMismatch "copies" "integer" "bool")))) ∧
    (∃ w, clerk.Decides stamped ((stamped.table ⟨1⟩).lookupText? (stamped.tableNames ⟨1⟩) "Form")
      "Form" [some inked, some flag] Evaluator.allowance
        (w, .error (.error (.ofKind (.unknownClass "Stamp"))))) ∧
    (∃ w, clerk.Decides stamped ((stamped.table ⟨1⟩).lookupText? (stamped.tableNames ⟨1⟩) "Form")
      "Form" [some flag, none] Evaluator.allowance
        (w, .error (.error (.ofKind (.nullParameter "stamp"))))) ∧
    ∃ w own, stamped.CopiedAs ⟨1⟩ [] flag w .bool ∧ stamped.Reports w ⟨1⟩ flag own .bool := by
  have hdecides : ∀ params err, (∀ v, some v ∈ params → v = flag ∨ v = inked) →
      (clerk.instantiate stamped "Form" params).2 = .error (.error err) →
      ∃ w, clerk.Decides stamped
        ((stamped.table ⟨1⟩).lookupText? (stamped.tableNames ⟨1⟩) "Form") "Form" params
        Evaluator.allowance (w, .error (.error err)) := by
    intro params err hparams herr
    have h := (Evaluator.first_check_decides built_stamped named_clerk.knows
      (presents_params hparams)).2.1 "Form"
    rw [show clerk.instantiate stamped "Form" params = (_, .error (.error err)) from
      Prod.ext rfl herr] at h
    exact ⟨_, h⟩
  have hpresents : ∀ v, some v ∈ [some flag, some inked] → stamped.Presents v :=
    presents_params (by simp)
  refine ⟨built_stamped, named_clerk.knows, hpresents, ?_, ?_, ?_, ?_⟩
  · exact hdecides _ _ (by simp) (by decide +kernel)
  · exact hdecides _ _ (by simp) (by decide +kernel)
  · exact hdecides _ _ (by simp) (by decide +kernel)
  · have hbool : (Intake.add ⟨1⟩ stamped {} flag).2.toOption.map
        (fun r => r.2.runtimeType r.1) = some .bool := by
      decide +kernel
    rcases hadd : Intake.add ⟨1⟩ stamped {} flag with ⟨w, f | ⟨id, intake⟩⟩
    · rw [hadd] at hbool
      cases hbool
    · rw [hadd] at hbool
      have hcopied : stamped.CopiedAs ⟨1⟩ [] flag w .bool := Option.some.inj hbool ▸ .intro rfl hadd
      have hnone : ∀ u ∈ ([] : List Value), some u ∈ [some flag, some inked] := by simp
      obtain ⟨-, hreports⟩ := (Evaluator.first_check_decides built_stamped named_clerk.knows
        hpresents).2.2 hnone List.mem_cons_self
      obtain ⟨own, hown, -⟩ := hreports hcopied
      exact ⟨w, own, hcopied, hown⟩

end Sample

end ObjectModel
