import ObjectModel.Proofs.Independence.Names
import ObjectModel.Proofs.Session.Completion
import Mathlib.Data.List.Find

/-!
# Requests with other names

Two environments with one class table, whose interners share the names of its classes
(`Environment.Parallel`). An instruction asks for the same in both, and so does a task whose value
has arrived, with carried names in the element types (`Frame.start_retype`, `Task.resume_retype`).
Names of other tables can get into element types only, and these are compared with each other and
shown by their texts.
-/

set_option autoImplicit false

namespace ObjectModel

/-! ## Names in classes -/

/-- The names in an instruction. -/
def Instr.names : Instr → List Name
  | .object target _ => [target]
  | .project _ path => path
  | .list elem _ => elem.names
  | .unknown op => [op]
  | _ => []

/-- The names in a declaration. -/
def Decl.names (d : Decl) : List Name := d.name :: d.type.names

/-- The names in a class. -/
def ClassDef.names (c : ClassDef) : List Name :=
  c.name :: ((c.params ++ c.fields).flatMap Decl.names ++ c.instrs.toList.flatMap Instr.names)

theorem ClassDef.mem_names_of_instr {c : ClassDef} {i : Instr} (hi : i ∈ c.instrs) {n : Name}
    (hn : n ∈ i.names) : n ∈ c.names :=
  List.mem_cons_of_mem _ (List.mem_append_right _
    (List.mem_flatMap.2 ⟨i, Array.mem_toList_iff.2 hi, hn⟩))

theorem ClassDef.mem_names_of_param {c : ClassDef} {d : Decl} (hd : d ∈ c.params) {n : Name}
    (hn : n ∈ d.names) : n ∈ c.names :=
  List.mem_cons_of_mem _ (List.mem_append_left _
    (List.mem_flatMap.2 ⟨d, List.mem_append_left _ hd, hn⟩))

theorem ClassDef.mem_names_of_field {c : ClassDef} {n : Name} (hn : n ∈ c.fieldNames) :
    n ∈ c.names := by
  obtain ⟨d, hd, rfl⟩ := List.mem_map.1 hn
  exact List.mem_cons_of_mem _ (List.mem_append_left _
    (List.mem_flatMap.2 ⟨d, List.mem_append_right _ hd, List.mem_cons_self⟩))

/-- Two environments with one class table and one set of limits, whose interners share the names of
the classes. -/
structure Environment.Parallel (env env' : Environment) : Prop where
  classes : env'.classes = env.classes
  limits : env'.limits = env.limits
  shares : env'.shares = env.shares
  names : ∀ c ∈ env.classes.classes, ∀ n ∈ c.names, env.names.Shares env'.names n

/-! ## Requests -/

/-- The names that a task looks for. -/
def Task.names : Task → List Name
  | .project field path => field :: path
  | _ => []

namespace Request

/-- The request with carried names. -/
def retype (f : Name → Name) : Request → Request
  | .produce n => .produce (n.retype f)
  | req => req

/-- What is asked for has shared names, and carried ones in element types. -/
def Carried (t u : Interner) : Request → Prop
  | .await task _ => ∀ n ∈ task.names, t.Shares u n
  | .produce n => n.Carried t u
  | .create target _ => t.Shares u target
  | _ => True

variable {α : Type} {t u : Interner}

theorem retype_about (f : Name → Name) (found : Option α) (req : α → Request) :
    (about found req).retype f = about found fun a => (req a).retype f := by
  cases found <;> rfl

theorem retype_ofExcept (f : Name → Name) (result : Except EvalError α) (req : α → Request) :
    (ofExcept result req).retype f = ofExcept result fun a => (req a).retype f := by
  cases result <;> rfl

theorem carried_about {found : Option α} {req : α → Request} (h : ∀ a, (req a).Carried t u) :
    (about found req).Carried t u := by
  cases found with
  | none => trivial
  | some a => exact h a

theorem carried_ofExcept {result : Except EvalError α} {req : α → Request}
    (h : ∀ a, result = .ok a → (req a).Carried t u) : (ofExcept result req).Carried t u := by
  cases result with
  | error e => trivial
  | ok a => exact h a rfl

end Request

/-- The list with a carried element type. -/
def TypedList.retype (f : Name → Name) (l : TypedList) : TypedList :=
  { l with elem := l.elem.rename f }

section Requests

variable {env env' : Environment} {a : Arena} {v : ValueId}

/-- An instruction of shared names asks for the same. -/
theorem Frame.start_retype {i : Instr} (f : Frame)
    (hi : ∀ n ∈ i.names, env.names.Shares env'.names n) :
    f.start env' i = (f.start env i).retype (env.names.carry env'.names) := by
  cases i with
  | constant l => rfl
  | object target args =>
    rw [start, start, Request.retype_about]
    rfl
  | project source path =>
    rw [start, start, Request.retype_about]
    cases path <;> rfl
  | list elem elements =>
    have helem : elem.rename (env.names.carry env'.names) = elem :=
      Ty.rename_eq_self fun n hn => (hi n hn).carry_eq
    rw [start, start, Request.retype_about]
    simp only [Request.retype, Node.retype, helem]
  | concat lists =>
    rw [start, start, Request.retype_about]
    congr 1
    funext ids
    cases ids <;> rfl
  | any operand =>
    rw [start, start, Request.retype_about]
    rfl
  | binary op lhs rhs =>
    rw [start, start, Request.retype_about]
    cases f.local? rhs <;> rfl
  | unknown op =>
    rw [start, start, (hi op List.mem_cons_self).text]
    rfl

theorem Frame.carried_start {i : Instr} (f : Frame)
    (hi : ∀ n ∈ i.names, env.names.Shares env'.names n) :
    (f.start env i).Carried env.names env'.names := by
  cases i with
  | constant l => trivial
  | object target args =>
    exact Request.carried_about fun _ => hi target List.mem_cons_self
  | project source path =>
    refine Request.carried_about fun _ => ?_
    cases path with
    | nil => exact fun _ hn => nomatch hn
    | cons field path => exact hi
  | list elem elements =>
    exact Request.carried_about fun _ n hn => (hi n hn).carries
  | concat lists =>
    refine Request.carried_about fun ids => ?_
    cases ids with
    | nil => trivial
    | cons id rest => exact fun _ hn => nomatch hn
  | any operand => exact Request.carried_about fun _ => trivial
  | binary op lhs rhs =>
    exact Request.carried_about fun _ => Request.carried_about fun _ _ hn => nomatch hn
  | unknown op => trivial

namespace Arena

theorem intAt_retype (f : Name → Name) (a : Arena) (v : ValueId) :
    (a.retype f).intAt v = a.intAt v := by
  rw [intAt, intAt, mismatch, mismatch, node?_retype, kind_retype]
  cases a.node? v with
  | none => rfl
  | some n => cases n <;> rfl

theorem listAt_retype (f : Name → Name) (a : Arena) (v : ValueId) :
    (a.retype f).listAt v = (a.listAt v).map (TypedList.retype f) := by
  rw [listAt, listAt, mismatch, mismatch, node?_retype, kind_retype]
  cases a.node? v with
  | none => rfl
  | some n => cases n <;> rfl

theorem mapM_listAt_retype (f : Name → Name) (a : Arena) (ids : List ValueId) :
    ids.mapM (a.retype f).listAt = (ids.mapM a.listAt).map (List.map (TypedList.retype f)) := by
  induction ids with
  | nil => rfl
  | cons id ids ih =>
    rw [List.mapM_cons, List.mapM_cons, listAt_retype, ih]
    cases a.listAt id with
    | error e => rfl
    | ok l => cases ids.mapM a.listAt <;> rfl

theorem fieldAt_retype (hclasses : env'.classes = env.classes) {field : Name}
    (hfield : env.names.Shares env'.names field) (f : Name → Name) (a : Arena) (v : ValueId) :
    (a.retype f).fieldAt env' v field = a.fieldAt env v field := by
  rw [fieldAt, fieldAt, mismatch, mismatch, node?_retype, kind_retype, hclasses, hfield.text]
  cases a.node? v with
  | none => rfl
  | some n => cases n <;> rfl

theorem Carried.listAt {t u : Interner} (h : a.Carried t u) {l : TypedList}
    (hl : a.listAt v = .ok l) : ∀ n ∈ l.elem.names, t.Carries u n :=
  h _ _ (listAt_eq_ok_iff.1 hl)

theorem Carried.listsAt {t u : Interner} (h : a.Carried t u) {ids : List ValueId}
    {ls : List TypedList} (hls : ids.mapM a.listAt = .ok ls) :
    ∀ l ∈ ls, ∀ n ∈ l.elem.names, t.Carries u n := by
  intro l hl
  obtain ⟨id, -, hid⟩ := exists_of_forall₂_of_mem (mapM_eq_ok_iff.1 hls).flip hl
  exact h.listAt hid

end Arena

/-- Lists are joined alike, since their element types differ exactly if the carried ones do. -/
theorem TypedList.concat_retype {t u : Interner} {ls : List TypedList}
    (h : ∀ l ∈ ls, ∀ n ∈ l.elem.names, t.Carries u n) :
    concat (ls.map (TypedList.retype (t.carry u))) =
      (concat ls).map (TypedList.retype (t.carry u)) := by
  cases ls with
  | nil => rfl
  | cons first rest =>
    have hfind : (rest.map (TypedList.retype (t.carry u))).find?
        (fun l => l.elem != (first.retype (t.carry u)).elem) =
          (rest.find? fun l => l.elem != first.elem).map (TypedList.retype (t.carry u)) := by
      rw [List.find?_map]
      congr 1
      apply List.find?_congr
      intro l hl
      have hbeq := Ty.beq_rename (h l (List.mem_cons_of_mem _ hl)) (h first List.mem_cons_self)
      exact congrArg not hbeq
    rw [List.map_cons, concat, hfind, concat]
    cases rest.find? fun l => l.elem != first.elem with
    | some l => simp only [Option.map_some, Except.map, outline, retype, Ty.outline_rename]
    | none =>
      simp only [Option.map_none, Except.map, retype, List.flatMap_map]

/-- A task that looks for shared names asks for the same. -/
theorem Task.resume_retype (hclasses : env'.classes = env.classes)
    (ha : a.Carried env.names env'.names) {task : Task}
    (htask : ∀ n ∈ task.names, env.names.Shares env'.names n) :
    task.resume env' (a.retype (env.names.carry env'.names)) v =
      (task.resume env a v).retype (env.names.carry env'.names) := by
  cases task with
  | forward => rfl
  | project field path =>
    rw [resume, resume, Arena.fieldAt_retype hclasses (htask field List.mem_cons_self),
      Request.retype_ofExcept]
    cases path <;> rfl
  | concat seen rest =>
    cases rest with
    | cons next rest => rfl
    | nil =>
      rw [resume, resume, Arena.mapM_listAt_retype, Request.retype_ofExcept]
      cases hls : (seen ++ [v]).mapM a.listAt with
      | error e => rfl
      | ok ls =>
        simp only [Except.map, Request.ofExcept]
        rw [TypedList.concat_retype (ha.listsAt hls)]
        cases TypedList.concat ls <;> rfl
  | left op rhs => rfl
  | right op lhs =>
    rw [resume, resume, Arena.intAt_retype, Arena.intAt_retype, Request.retype_ofExcept]
    congr 1
    funext l
    rw [Request.retype_ofExcept]
    congr 1
    funext r
    rw [Request.retype_ofExcept]
    rfl

theorem Task.carried_resume (ha : a.Carried env.names env'.names) {task : Task}
    (htask : ∀ n ∈ task.names, env.names.Shares env'.names n) :
    (task.resume env a v).Carried env.names env'.names := by
  cases task with
  | forward => trivial
  | project field path =>
    refine Request.carried_ofExcept fun slot _ => ?_
    cases path with
    | nil => exact fun _ hn => nomatch hn
    | cons field' path => exact fun n hn => htask n (List.mem_cons_of_mem _ hn)
  | concat seen rest =>
    cases rest with
    | cons next rest => exact fun _ hn => nomatch hn
    | nil =>
      refine Request.carried_ofExcept fun ls hls => Request.carried_ofExcept fun l hl => ?_
      -- The joined list has the element type of each list that it joins.
      obtain ⟨hne, helem, -⟩ := TypedList.concat_eq_ok hl
      obtain ⟨x, hx⟩ := List.exists_mem_of_ne_nil ls hne
      intro n hn
      rw [← helem x hx] at hn
      exact ha.listsAt hls x hx n hn
  | left op rhs => exact fun _ hn => nomatch hn
  | right op lhs =>
    exact Request.carried_ofExcept fun _ _ => Request.carried_ofExcept fun _ _ =>
      Request.carried_ofExcept fun _ _ => trivial

end Requests

end ObjectModel
