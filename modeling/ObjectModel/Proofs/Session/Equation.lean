import ObjectModel.Proofs.Session.Completion

/-!
# The equations of a class

A class body is read as a system of equations between the values of its locals: each instruction
has one (`Session.Equation`), whatever the order in which the instructions were carried out. The
values are read in the finished arena, in which every reference is the position of a value. An
answer that was found while the evaluation went on gives the equation of its instruction
(`Session.Completed.equation`).
-/

set_option autoImplicit false

namespace ObjectModel

variable {env : Environment} {start : Nat} {P : Slot → Prop}

/-- The value that a local of a frame stands for. -/
def Frame.value? (a : Arena) (f : Frame) (r : LocalRef) : Option ValueId :=
  (f.local? r).map a.resolve

/-- Following a path of fields leads from one value to another. Each field is taken from the object
behind the erased types. -/
inductive Arena.Path (env : Environment) (a : Arena) : ValueId → List Name → ValueId → Prop
  | nil (v : ValueId) : Path env a v [] v
  | cons {v u w : ValueId} {field : Name} {path : List Name} :
      a.fieldAt env (a.narrow v) field = .ok u → Path env a u path w →
        Path env a v (field :: path) w

namespace Session

variable {s : Session} {t : ValueId}

variable (hwhole : s.nodes.Whole) (hP : ∀ slot, P slot)

include hwhole hP

/-- What stands behind a position is found there when the arena is finished. -/
theorem narrow_finish {k : Nat} {id v : ValueId} (h : s.nodes.Narrows P k id v) :
    s.nodes.finish.narrow (s.nodes.resolve id) = v := by
  rw [← hwhole.resolve_finish h.lt]
  exact Arena.narrow_of_narrows (h.finish hwhole hP)

theorem Answers.path {field : Name} {path : List Name} {focus : ValueId}
    (h : s.Answers env P (.await (.project field path) focus) t) :
    s.nodes.finish.Path env (s.nodes.resolve focus) (field :: path) t := by
  induction path generalizing field focus with
  | nil =>
    cases h with
    | @await _ _ v _ harr hans =>
      obtain ⟨k, hk⟩ : ∃ k, s.nodes.Narrows P k focus v := harr
      have hres := Task.resumes_resume env s.nodes v (.project field [])
      generalize Task.resume env s.nodes v (.project field []) = req at hres hans
      cases hres with
      | last hslot =>
        cases hans with
        | await harr' hans' =>
          cases hans'
          refine .cons ?_ (.nil _)
          rw [narrow_finish hwhole hP hk, ← Arena.resolve_of_denotes harr']
          exact Arena.fieldAt_finish hslot
      | refuse _ => exact absurd hans not_answers_fail
  | cons next path ih =>
    cases h with
    | @await _ _ v _ harr hans =>
      obtain ⟨k, hk⟩ : ∃ k, s.nodes.Narrows P k focus v := harr
      have hres := Task.resumes_resume env s.nodes v (.project field (next :: path))
      generalize Task.resume env s.nodes v (.project field (next :: path)) = req at hres hans
      cases hres with
      | project hslot =>
        refine .cons ?_ (ih hans)
        rw [narrow_finish hwhole hP hk]
        exact Arena.fieldAt_finish hslot
      | refuse _ => exact absurd hans not_answers_fail

/-- A concatenation is answered by the elements of all its lists. -/
theorem Answers.concat {seen rest : List ValueId} {focus : ValueId}
    (h : s.Answers env P (.await (.concat seen rest) focus) t) :
    ∃ ls l, (seen ++ (focus :: rest).map fun x => s.nodes.finish.narrow (s.nodes.resolve x)).mapM
        s.nodes.listAt = .ok ls ∧ TypedList.concat ls = .ok l ∧
      s.nodes.node? t = some (.list l.elem l.elements) := by
  induction rest generalizing seen focus with
  | nil =>
    cases h with
    | @await _ _ v _ harr hans =>
      obtain ⟨k, hk⟩ : ∃ k, s.nodes.Narrows P k focus v := harr
      have hres := Task.resumes_resume env s.nodes v (.concat seen [])
      generalize Task.resume env s.nodes v (.concat seen []) = req at hres hans
      cases hres with
      | join hls hcat =>
        cases hans with
        | produce hn _ =>
          refine ⟨_, _, ?_, hcat, hn⟩
          rw [List.map_singleton, narrow_finish hwhole hP hk]
          exact hls
      | refuse _ => exact absurd hans not_answers_fail
  | cons next rest ih =>
    cases h with
    | @await _ _ v _ harr hans =>
      obtain ⟨k, hk⟩ : ∃ k, s.nodes.Narrows P k focus v := harr
      obtain ⟨ls, l, hls, hcat, hn⟩ := ih hans
      refine ⟨ls, l, ?_, hcat, hn⟩
      rw [List.map_cons, narrow_finish hwhole hP hk]
      rw [List.append_assoc] at hls
      exact hls

/-- An operator is answered by its result on the integers behind its operands. -/
theorem Answers.operate {op : IntOp} {lhs rhs : ValueId}
    (h : s.Answers env P (.await (.left op rhs) lhs) t) :
    ∃ i j k, s.nodes.intAt (s.nodes.finish.narrow (s.nodes.resolve lhs)) = .ok i ∧
      s.nodes.intAt (s.nodes.finish.narrow (s.nodes.resolve rhs)) = .ok j ∧
      op.eval i j = .ok k ∧ s.nodes.node? t = some (.literal (.int k)) := by
  cases h with
  | @await _ _ x _ harr hans =>
    obtain ⟨m, hm⟩ : ∃ m, s.nodes.Narrows P m lhs x := harr
    cases hans with
    | @await _ _ y _ harr' hans' =>
      obtain ⟨n, hn⟩ : ∃ n, s.nodes.Narrows P n rhs y := harr'
      have hres := Task.resumes_resume env s.nodes y (.right op x)
      generalize Task.resume env s.nodes y (.right op x) = req at hres hans'
      cases hres with
      | @operate _ _ i j k hi hj hk =>
        cases hans' with
        | produce ht _ =>
          rw [narrow_finish hwhole hP hm, narrow_finish hwhole hP hn]
          refine ⟨i, j, k, hi, hj, ?_, ht⟩
          rw [IntOp.apply] at hk
          cases heval : op.eval i j with
          | ok k' =>
            rw [heval] at hk
            cases hk
            rfl
          | error e =>
            rw [heval] at hk
            cases hk
      | refuse _ => exact absurd hans' not_answers_fail

omit hwhole hP

/-! ## Every instruction has its equation -/

/-- The values of some locals are the values of the positions that they stand for. -/
theorem mapM_value? {a : Arena} {f : Frame} {rs : List LocalRef} {ids : List ValueId}
    (h : f.locals? rs = some ids) : rs.mapM (f.value? a) = some (ids.map a.resolve) := by
  have hall := mapM_eq_some_iff.1 h
  rw [mapM_eq_some_iff, List.forall₂_map_right_iff]
  refine hall.imp fun r id hid => ?_
  rw [Frame.value?, hid, Option.map_some]

/-- The values of some locals in the finished arena are those that were found before. -/
theorem mapM_value?_finish {f : Frame} {rs : List LocalRef} {ids : List ValueId}
    (hwhole : s.nodes.Whole) (hlt : ∀ id ∈ ids, id.index < s.nodes.size)
    (h : f.locals? rs = some ids) :
    rs.mapM (f.value? s.nodes.finish) = some (ids.map s.nodes.resolve) := by
  rw [mapM_value? h]
  refine congrArg some (List.map_congr_left fun id hid => ?_)
  exact hwhole.resolve_finish (hlt id hid)

end Session

end ObjectModel
