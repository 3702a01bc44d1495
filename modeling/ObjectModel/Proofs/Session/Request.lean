import ObjectModel.Session.Task
import ObjectModel.Proofs.Arena.Growth
import ObjectModel.Proofs.Traversal

/-!
# What instructions and tasks ask for

An instruction of a valid body asks for one thing when it starts (`Frame.Starts`), and so does a
task when the value that it waits for is there (`Task.Resumes`), or it fails (`Task.Fails`). The
relations list the cases with what each one has read, `starts_start`, `resumes_resume` and
`resume_eq_fail_iff` say that they are complete, and every later fact about requests is read off the
lists.
-/

set_option autoImplicit false

namespace ObjectModel

variable {env : Environment}

/-! ## Reading operands -/

/-- An error that has a kind of its own, not a message only. -/
def EvalError.Specific (e : EvalError) : Prop := ∀ message, e.kind ≠ .custom message

/-- What an integer operator fails with. -/
def ErrorKind.IsArithmetic : ErrorKind → Prop
  | .negativeShiftAmount _ => True
  | .shiftAmountTooLarge _ => True
  | .integerWidthExceeded _ _ _ => True
  | _ => False

/-- The errors of instructions: an operand of another kind, a field or an instruction that nobody
knows, and an operator that failed, which is the one error with a cause. -/
inductive EvalError.Reported : EvalError → Prop
  | mismatch (expected got : String) : Reported (.ofKind (.typeMismatch expected got))
  | field (name : String) : Reported (.ofKind (.unknownField name))
  | unknown (op : String) : Reported (.ofKind (.unknownInstruction op))
  | arithmetic {kind : ErrorKind} : kind.IsArithmetic →
      Reported (.integerOperationFailed (.ofKind kind))

theorem EvalError.Reported.specific {e : EvalError} (h : e.Reported) : e.Specific := by
  intro message hm
  cases h <;> cases hm

namespace Arena

variable {a b : Arena} {id : ValueId}

theorem intAt_eq_ok_iff {i : IntLit} :
    a.intAt id = .ok i ↔ a.node? id = some (.literal (.int i)) := by
  rw [intAt]
  split
  · rename_i j h
    rw [h]
    simp
  · rename_i h
    constructor
    · intro h'
      cases h'
    · exact fun h' => absurd h' (h i)

theorem intAt_eq_error {e : EvalError} (h : a.intAt id = .error e) :
    e = .ofKind (.typeMismatch "integer" (a.kind id)) := by
  rw [intAt] at h
  split at h
  · cases h
  · cases h
    rfl

theorem reported_of_intAt {e : EvalError} (h : a.intAt id = .error e) : e.Reported := by
  rw [intAt_eq_error h]
  exact .mismatch _ _

theorem listAt_eq_ok_iff {l : TypedList} :
    a.listAt id = .ok l ↔ a.node? id = some (.list l.elem l.elements) := by
  rw [listAt]
  split
  · rename_i elem elements h
    rw [h]
    constructor
    · intro h'
      cases h'
      rfl
    · intro h'
      cases h'
      rfl
  · rename_i h
    constructor
    · intro h'
      cases h'
    · exact fun h' => absurd h' (h l.elem l.elements)

theorem listAt_eq_error {e : EvalError} (h : a.listAt id = .error e) :
    e = .ofKind (.typeMismatch "list" (a.kind id)) := by
  rw [listAt] at h
  split at h
  · cases h
  · cases h
    rfl

/-- A field is read at an object of a known class that declares it. -/
theorem fieldAt_eq_ok_iff {field : Name} {slot : ValueId} :
    a.fieldAt env id field = .ok slot ↔
      ∃ cls fields c index, a.node? id = some (.object cls fields) ∧
        env.classes.lookup? cls = some c ∧ c.fieldIndex? field = some index ∧
          fields[index]? = some slot := by
  rw [fieldAt]
  split
  · rename_i cls fields h
    rw [h]
    cases hc : env.classes.lookup? cls with
    | none => simp [hc]
    | some c =>
      cases hi : c.fieldIndex? field with
      | none => simp [hc, hi]
      | some index =>
        cases hf : fields[index]? with
        | none => simp [hc, hi, hf]
        | some slot' => simp [hc, hi, hf]
  · rename_i h
    constructor
    · intro h'
      cases h'
    · rintro ⟨cls, fields, -, -, h', -⟩
      exact absurd h' (h cls fields)

theorem fieldAt_eq_error {field : Name} {e : EvalError} (h : a.fieldAt env id field = .error e) :
    e = .ofKind (.typeMismatch "object" (a.kind id)) ∨
      e = .ofKind (.unknownField (env.names.text field)) := by
  rw [fieldAt] at h
  split at h
  · dsimp only at h
    split at h
    · cases h
    · cases h
      exact Or.inr rfl
  · cases h
    exact Or.inl rfl

theorem reported_of_fieldAt {field : Name} {e : EvalError}
    (h : a.fieldAt env id field = .error e) : e.Reported := by
  rcases fieldAt_eq_error h with rfl | rfl
  · exact .mismatch _ _
  · exact .field _

theorem Grows.intAt (h : a.Grows b) {i : IntLit} (ha : a.intAt id = .ok i) :
    b.intAt id = .ok i := by
  rw [intAt_eq_ok_iff] at ha ⊢
  exact h.value ha rfl

theorem Grows.listAt (h : a.Grows b) {l : TypedList} (ha : a.listAt id = .ok l) :
    b.listAt id = .ok l := by
  rw [listAt_eq_ok_iff] at ha ⊢
  exact h.value ha rfl

theorem Grows.fieldAt (h : a.Grows b) {field : Name} {slot : ValueId}
    (ha : a.fieldAt env id field = .ok slot) : b.fieldAt env id field = .ok slot := by
  rw [fieldAt_eq_ok_iff] at ha ⊢
  obtain ⟨cls, fields, c, index, hn, hrest⟩ := ha
  exact ⟨cls, fields, c, index, h.value hn rfl, hrest⟩

theorem Grows.listsAt (h : a.Grows b) {ids : List ValueId} {ls : List TypedList}
    (ha : ids.mapM a.listAt = .ok ls) : ids.mapM b.listAt = .ok ls := by
  rw [mapM_eq_ok_iff] at ha ⊢
  exact ha.imp fun _ _ hl => h.listAt hl

theorem listsAt_eq_error {ids : List ValueId} {e : EvalError}
    (h : ids.mapM a.listAt = .error e) :
    ∃ id ∈ ids, e = .ofKind (.typeMismatch "list" (a.kind id)) := by
  induction ids with
  | nil => cases h
  | cons id ids ih =>
    rw [List.mapM_cons] at h
    cases hl : a.listAt id with
    | error e' =>
      rw [hl] at h
      cases h
      exact ⟨id, List.mem_cons_self, listAt_eq_error hl⟩
    | ok l =>
      rw [hl] at h
      cases hls : ids.mapM a.listAt with
      | error e' =>
        rw [hls] at h
        cases h
        obtain ⟨x, hx, he⟩ := ih hls
        exact ⟨x, List.mem_cons_of_mem _ hx, he⟩
      | ok ls =>
        rw [hls] at h
        cases h

/-- The lists to be joined are there with the last of them. -/
theorem listsAt_ne_nil {seen : List ValueId} {ls : List TypedList}
    (h : (seen ++ [id]).mapM a.listAt = .ok ls) : ls ≠ [] := by
  rintro rfl
  have hlength := (mapM_eq_ok_iff.1 h).length_eq
  simp at hlength

theorem reported_of_listsAt {ids : List ValueId} {e : EvalError}
    (h : ids.mapM a.listAt = .error e) : e.Reported := by
  obtain ⟨id, -, rfl⟩ := listsAt_eq_error h
  exact .mismatch _ _

end Arena

/-! ## Results of instructions -/

namespace TypedList

/-- The text of a list type is more than a word. -/
theorem outline_ne {s : String} (l : TypedList) (hs : '<' ∉ s.toList) : l.outline ≠ s := by
  rintro rfl
  simp [outline] at hs

/-- Lists are joined if there is one and all have one element type. -/
theorem concat_eq_ok {ls : List TypedList} {l : TypedList} (h : concat ls = .ok l) :
    ls ≠ [] ∧ (∀ x ∈ ls, x.elem = l.elem) ∧ l.elements = ls.flatMap elements := by
  cases ls with
  | nil => cases h
  | cons first rest =>
    have hall := (concat_eq_ok_iff first rest).1 ⟨l, h⟩
    rw [concat] at h
    split at h
    · cases h
    · cases h
      refine ⟨List.cons_ne_nil _ _, ?_, ?_⟩
      · intro x hx
        rcases List.mem_cons.1 hx with rfl | hx
        · rfl
        · exact hall x hx
      · rw [List.flatMap_cons]

/-- Lists of which there is at least one fail to be joined for their element types. -/
theorem concat_eq_error {ls : List TypedList} {e : EvalError} (hls : ls ≠ [])
    (h : concat ls = .error e) :
    ∃ l l' : TypedList, e = .ofKind (.typeMismatch l.outline l'.outline) := by
  cases ls with
  | nil => exact absurd rfl hls
  | cons first rest =>
    rw [concat] at h
    split at h
    · cases h
      exact ⟨_, _, rfl⟩
    · cases h

theorem reported_of_concat {ls : List TypedList} {e : EvalError} (hls : ls ≠ [])
    (h : concat ls = .error e) : e.Reported := by
  obtain ⟨l, l', rfl⟩ := concat_eq_error hls h
  exact .mismatch _ _

end TypedList

namespace IntOp

variable {op : IntOp} {l r : IntLit} {e : EvalError}

theorem checkWidth_eq_error {width : Nat} (h : op.checkWidth width = .error e) :
    ∃ kind, kind.IsArithmetic ∧ e = .ofKind kind := by
  rw [checkWidth] at h
  split at h
  · cases h
  · cases h
    exact ⟨.integerWidthExceeded _ _ _, trivial, rfl⟩

theorem conclude_eq_error {value : Int} {nominal : Nat}
    (h : op.conclude value nominal = .error e) : ∃ kind, kind.IsArithmetic ∧ e = .ofKind kind := by
  rw [conclude] at h
  cases hwidth : op.checkWidth (max nominal (IntLit.leastWidth value)) with
  | error e' =>
    rw [hwidth] at h
    cases h
    exact checkWidth_eq_error hwidth
  | ok u =>
    rw [hwidth] at h
    cases h

theorem shiftAmount_eq_error {amount : Int} (h : op.shiftAmount amount = .error e) :
    ∃ kind, kind.IsArithmetic ∧ e = .ofKind kind := by
  rw [shiftAmount] at h
  split at h
  · cases h
    exact ⟨.negativeShiftAmount _, trivial, rfl⟩
  · split at h
    · cases h
    · cases h
      exact ⟨.shiftAmountTooLarge _, trivial, rfl⟩

/-- An operator fails for the amount of a shift or for the width of the result. -/
theorem eval_eq_error (h : op.eval l r = .error e) :
    ∃ kind, kind.IsArithmetic ∧ e = .ofKind kind := by
  cases op with
  | add => exact conclude_eq_error h
  | mul => exact conclude_eq_error h
  | shl =>
    rw [eval] at h
    cases hamount : shiftAmount .shl r.value with
    | error e' =>
      rw [hamount] at h
      cases h
      exact shiftAmount_eq_error hamount
    | ok amount =>
      rw [hamount] at h
      dsimp only [bind, Except.bind] at h
      cases hwidth : checkWidth .shl (shiftedWidth l.width amount) with
      | error e' =>
        rw [hwidth] at h
        cases h
        exact checkWidth_eq_error hwidth
      | ok u =>
        rw [hwidth] at h
        exact conclude_eq_error h
  | shr =>
    rw [eval] at h
    cases hamount : shiftAmount .shr r.value with
    | error e' =>
      rw [hamount] at h
      cases h
      exact shiftAmount_eq_error hamount
    | ok amount =>
      rw [hamount] at h
      exact conclude_eq_error h

/-- A failed operator is reported as such. -/
theorem apply_eq_error (h : op.apply l r = .error e) :
    ∃ kind, kind.IsArithmetic ∧ e = .integerOperationFailed (.ofKind kind) := by
  rw [IntOp.apply] at h
  cases hop : op.eval l r with
  | ok i =>
    rw [hop] at h
    cases h
  | error e' =>
    rw [hop] at h
    cases h
    obtain ⟨kind, hkind, rfl⟩ := eval_eq_error hop
    exact ⟨kind, hkind, rfl⟩

theorem reported_of_apply (h : op.apply l r = .error e) : e.Reported := by
  obtain ⟨kind, hkind, rfl⟩ := apply_eq_error h
  exact .arithmetic hkind

end IntOp

/-! ## Starting an instruction -/

/-- What an instruction of a frame asks for when it starts, with the locals that it names. -/
inductive Frame.Starts (env : Environment) (f : Frame) : Instr → Request → Prop
  | constant (l : Literal) : Starts env f (.constant l) (.produce (.literal l))
  | object {target : Name} {args : List LocalRef} {ids : List ValueId} :
      f.locals? args = some ids → Starts env f (.object target args) (.create target ids)
  | value {source : LocalRef} {id : ValueId} : f.local? source = some id →
      Starts env f (.project source []) (.await .forward id)
  | project {source : LocalRef} {field : Name} {path : List Name} {id : ValueId} :
      f.local? source = some id →
      Starts env f (.project source (field :: path)) (.await (.project field path) id)
  | list {elem : Ty} {elements : List LocalRef} {ids : List ValueId} :
      f.locals? elements = some ids →
      Starts env f (.list elem elements) (.produce (.list elem ids))
  | concat {lists : List LocalRef} {id : ValueId} {rest : List ValueId} :
      f.locals? lists = some (id :: rest) →
      Starts env f (.concat lists) (.await (.concat [] rest) id)
  | any {operand : LocalRef} {id : ValueId} : f.local? operand = some id →
      Starts env f (.any operand) (.produce (.any id))
  | binary {op : IntOp} {lhs rhs : LocalRef} {l r : ValueId} : f.local? lhs = some l →
      f.local? rhs = some r → Starts env f (.binary op lhs rhs) (.await (.left op r) l)
  | unknown (op : Name) : Starts env f (.unknown op)
      (.fail (.error (.ofKind (.unknownInstruction (env.names.text op)))))

namespace Frame

variable {f : Frame}

theorem binding?_eq_some_iff {i : Nat} {id : ValueId} :
    f.binding? i = some id ↔ i < f.cls.instrs.size ∧ id = ⟨f.base + i⟩ := by
  rw [binding?]
  split
  · rename_i h
    constructor
    · intro h'
      exact ⟨h, (Option.some.inj h').symm⟩
    · rintro ⟨-, rfl⟩
      rfl
  · rename_i h
    constructor
    · intro h'
      cases h'
    · exact fun h' => absurd h'.1 h

theorem binding?_eq_none_iff {i : Nat} : f.binding? i = none ↔ f.cls.instrs.size ≤ i := by
  rw [binding?]
  split <;> simp <;> omega

/-- A frame has a local for each reference that its class has. -/
theorem exists_local? (hsize : f.params.size = f.cls.params.length) {r : LocalRef}
    (hr : r.InRange f.cls.params.length f.cls.instrs.size) : ∃ id, f.local? r = some id := by
  cases r with
  | param index =>
    have hlt : index < f.params.size := by
      rw [hsize]
      exact hr
    exact ⟨f.params[index], Array.getElem?_eq_some_iff.2 ⟨hlt, rfl⟩⟩
  | instr index => exact ⟨_, binding?_eq_some_iff.2 ⟨hr, rfl⟩⟩

theorem exists_locals? (hsize : f.params.size = f.cls.params.length) {rs : List LocalRef}
    (hr : ∀ r ∈ rs, r.InRange f.cls.params.length f.cls.instrs.size) :
    ∃ ids, f.locals? rs = some ids :=
  exists_mapM_eq_some fun r h => exists_local? hsize (hr r h)

/-- The list of the cases is complete. -/
theorem starts_start (hsize : f.params.size = f.cls.params.length) {i : Instr}
    (hi : i ∈ f.cls.instrs) : f.Starts env i (f.start env i) := by
  have hops := f.cls.valid.operands_inRange i hi
  have hconcat := f.cls.valid.concat_nonempty i hi
  cases i with
  | constant l => exact .constant l
  | object target args =>
    obtain ⟨ids, hids⟩ : ∃ ids, f.locals? args = some ids := exists_locals? hsize hops
    rw [start, hids]
    exact .object hids
  | project source path =>
    obtain ⟨id, hid⟩ := exists_local? hsize (hops source (List.mem_singleton.2 rfl))
    rw [start, hid]
    cases path with
    | nil => exact .value hid
    | cons field path => exact .project hid
  | list elem elements =>
    obtain ⟨ids, hids⟩ : ∃ ids, f.locals? elements = some ids := exists_locals? hsize hops
    rw [start, hids]
    exact .list hids
  | concat lists =>
    obtain ⟨ids, hids⟩ : ∃ ids, f.locals? lists = some ids := exists_locals? hsize hops
    rw [start, hids]
    cases ids with
    | nil =>
      have hnil := (mapM_eq_some_iff.1 hids).length_eq
      exact absurd (congrArg Instr.concat (List.length_eq_zero_iff.1 hnil)) hconcat
    | cons id rest => exact .concat hids
  | any operand =>
    obtain ⟨id, hid⟩ := exists_local? hsize (hops operand (List.mem_singleton.2 rfl))
    rw [start, hid]
    exact .any hid
  | binary op lhs rhs =>
    obtain ⟨l, hl⟩ := exists_local? hsize (hops lhs List.mem_cons_self)
    obtain ⟨r, hr⟩ := exists_local? hsize (hops rhs (List.mem_cons_of_mem _ List.mem_cons_self))
    rw [start, hl]
    show f.Starts env _ (Request.about (f.local? rhs) _)
    rw [hr]
    exact .binary hl hr
  | unknown op => exact .unknown op

end Frame

/-! ## Resuming a task -/

/-- What a task asks for when its value is there, with what it reads. -/
inductive Task.Resumes (env : Environment) (a : Arena) (v : ValueId) : Task → Request → Prop
  | forward : Resumes env a v .forward (.forward v)
  | last {field : Name} {slot : ValueId} : a.fieldAt env v field = .ok slot →
      Resumes env a v (.project field []) (.await .forward slot)
  | project {field next : Name} {path : List Name} {slot : ValueId} :
      a.fieldAt env v field = .ok slot →
      Resumes env a v (.project field (next :: path)) (.await (.project next path) slot)
  | gather (seen rest : List ValueId) (next : ValueId) :
      Resumes env a v (.concat seen (next :: rest)) (.await (.concat (seen ++ [v]) rest) next)
  | join {seen : List ValueId} {ls : List TypedList} {l : TypedList} :
      (seen ++ [v]).mapM a.listAt = .ok ls → TypedList.concat ls = .ok l →
      Resumes env a v (.concat seen []) (.produce (.list l.elem l.elements))
  | left (op : IntOp) (rhs : ValueId) :
      Resumes env a v (.left op rhs) (.await (.right op v) rhs)
  | operate {op : IntOp} {lhs : ValueId} {l r i : IntLit} : a.intAt lhs = .ok l →
      a.intAt v = .ok r → op.apply l r = .ok i →
      Resumes env a v (.right op lhs) (.produce (.literal (.int i)))
  | refuse {task : Task} {e : EvalError} : e.Specific → Resumes env a v task (.fail (.error e))

namespace Request

/-- If the request is a failure, then with an error of instructions. -/
def Reports (req : Request) : Prop := ∀ e, req = .fail (.error e) → e.Reported

theorem ofExcept_eq_fail {α : Type} {result : Except EvalError α} {request : α → Request}
    {e : EvalError} (h : ofExcept result request = .fail (.error e)) :
    result = .error e ∨ ∃ x, result = .ok x ∧ request x = .fail (.error e) := by
  cases result with
  | error e' =>
    cases h
    exact Or.inl rfl
  | ok x => exact Or.inr ⟨x, rfl, h⟩

end Request

theorem Frame.Starts.reports {f : Frame} {i : Instr} {req : Request} (h : f.Starts env i req) :
    req.Reports := by
  intro e he
  cases h <;> cases he
  exact .unknown _

/-- What a task fails with when its value is there, with what it reads before. -/
inductive Task.Fails (env : Environment) (a : Arena) (v : ValueId) : Task → EvalError → Prop
  | field {field : Name} {path : List Name} {e : EvalError} : a.fieldAt env v field = .error e →
      Fails env a v (.project field path) e
  | list {seen : List ValueId} {e : EvalError} : (seen ++ [v]).mapM a.listAt = .error e →
      Fails env a v (.concat seen []) e
  | concat {seen : List ValueId} {ls : List TypedList} {e : EvalError} :
      (seen ++ [v]).mapM a.listAt = .ok ls → TypedList.concat ls = .error e →
      Fails env a v (.concat seen []) e
  | left {op : IntOp} {lhs : ValueId} {e : EvalError} : a.intAt lhs = .error e →
      Fails env a v (.right op lhs) e
  | right {op : IntOp} {lhs : ValueId} {l : IntLit} {e : EvalError} : a.intAt lhs = .ok l →
      a.intAt v = .error e → Fails env a v (.right op lhs) e
  | operator {op : IntOp} {lhs : ValueId} {l r : IntLit} {e : EvalError} : a.intAt lhs = .ok l →
      a.intAt v = .ok r → op.apply l r = .error e → Fails env a v (.right op lhs) e

namespace Task

variable {a b : Arena} {v : ValueId} {task : Task} {e : EvalError}

theorem Fails.resume_eq (h : task.Fails env a v e) : task.resume env a v = .fail (.error e) := by
  cases h with
  | field hfield => rw [resume, hfield, Request.ofExcept]
  | list hlist => rw [resume, hlist, Request.ofExcept]
  | concat hls hconcat => rw [resume, hls, Request.ofExcept, hconcat, Request.ofExcept]
  | left hl => rw [resume, hl, Request.ofExcept]
  | right hl hr => rw [resume, hl, Request.ofExcept, hr, Request.ofExcept]
  | operator hl hr happly =>
    rw [resume, hl, Request.ofExcept, hr, Request.ofExcept, happly, Request.ofExcept]

/-- The list of the failures is complete. -/
theorem resume_eq_fail_iff : task.resume env a v = .fail (.error e) ↔ task.Fails env a v e := by
  refine ⟨fun h => ?_, Fails.resume_eq⟩
  cases task with
  | forward => cases h
  | project field path =>
    rcases Request.ofExcept_eq_fail h with hfield | ⟨slot, -, hslot⟩
    · exact .field hfield
    · cases path <;> cases hslot
  | concat seen rest =>
    cases rest with
    | cons next rest => cases h
    | nil =>
      rcases Request.ofExcept_eq_fail h with hlist | ⟨ls, hls, h⟩
      · exact .list hlist
      · rcases Request.ofExcept_eq_fail h with hconcat | ⟨l, -, hl⟩
        · exact .concat hls hconcat
        · cases hl
  | left op rhs => cases h
  | right op lhs =>
    rcases Request.ofExcept_eq_fail h with hlhs | ⟨l, hlhs, h⟩
    · exact .left hlhs
    · rcases Request.ofExcept_eq_fail h with hrhs | ⟨r, hrhs, h⟩
      · exact .right hlhs hrhs
      · rcases Request.ofExcept_eq_fail h with happly | ⟨i, -, hi⟩
        · exact .operator hlhs hrhs happly
        · cases hi

theorem Fails.reported (h : task.Fails env a v e) : e.Reported := by
  cases h with
  | field hfield => exact Arena.reported_of_fieldAt hfield
  | list hlist => exact Arena.reported_of_listsAt hlist
  | concat hls hconcat => exact TypedList.reported_of_concat (Arena.listsAt_ne_nil hls) hconcat
  | left hl => exact Arena.reported_of_intAt hl
  | right _ hr => exact Arena.reported_of_intAt hr
  | operator _ _ happly => exact IntOp.reported_of_apply happly

/-- A task ends in an error of instructions if it ends in one. -/
theorem reports_resume (env : Environment) (a : Arena) (v : ValueId) (task : Task) :
    (task.resume env a v).Reports :=
  fun _ he => (resume_eq_fail_iff.1 he).reported

/-- The list of the cases is complete. -/
theorem resumes_resume (env : Environment) (a : Arena) (v : ValueId) (task : Task) :
    task.Resumes env a v (task.resume env a v) := by
  cases task with
  | forward => exact .forward
  | project field path =>
    rw [resume]
    cases hslot : a.fieldAt env v field with
    | error e => exact .refuse (Arena.reported_of_fieldAt hslot).specific
    | ok slot =>
      cases path with
      | nil => exact .last hslot
      | cons next path => exact .project hslot
  | concat seen rest =>
    cases rest with
    | cons next rest => exact .gather seen rest next
    | nil =>
      rw [resume]
      cases hls : (seen ++ [v]).mapM a.listAt with
      | error e => exact .refuse (Arena.reported_of_listsAt hls).specific
      | ok ls =>
        rw [Request.ofExcept]
        cases hl : TypedList.concat ls with
        | ok l => exact .join hls hl
        | error e =>
          exact .refuse (TypedList.reported_of_concat (Arena.listsAt_ne_nil hls) hl).specific
  | left op rhs => exact .left op rhs
  | right op lhs =>
    rw [resume]
    cases hl : a.intAt lhs with
    | error e => exact .refuse (Arena.reported_of_intAt hl).specific
    | ok l =>
      rw [Request.ofExcept]
      cases hr : a.intAt v with
      | error e => exact .refuse (Arena.reported_of_intAt hr).specific
      | ok r =>
        rw [Request.ofExcept]
        cases hi : op.apply l r with
        | error e => exact .refuse (IntOp.reported_of_apply hi).specific
        | ok i => exact .operate hl hr hi

/-- What a task asks for once its value is there, unless that is an error, it goes on to ask for
while the arena grows. -/
theorem resume_of_grows {task : Task} (hab : a.Grows b)
    (h : ∀ f, task.resume env a v ≠ .fail f) : task.resume env b v = task.resume env a v := by
  have hres := resumes_resume env a v task
  generalize hreq : task.resume env a v = req at hres h
  cases hres with
  | forward => rfl
  | last hslot => rw [resume, hab.fieldAt hslot, Request.ofExcept]
  | project hslot => rw [resume, hab.fieldAt hslot, Request.ofExcept]
  | gather seen rest next => rfl
  | join hls hl => rw [resume, hab.listsAt hls, Request.ofExcept, hl, Request.ofExcept]
  | left op rhs => rfl
  | operate hl hr hi =>
    rw [resume, hab.intAt hl, Request.ofExcept, hab.intAt hr, Request.ofExcept, hi,
      Request.ofExcept]
  | refuse _ => exact absurd rfl (h _)

end Task

/-! ## Positions -/

/-- The positions that a task holds on to. -/
def Task.positions : Task → List ValueId
  | .forward => []
  | .project _ _ => []
  | .concat seen rest => seen ++ rest
  | .left _ rhs => [rhs]
  | .right _ lhs => [lhs]

/-- The positions that an activation holds on to. -/
def Work.positions : Work → List ValueId
  | .start => []
  | .await task focus _ => focus :: task.positions

end ObjectModel
