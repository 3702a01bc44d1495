import ObjectModel.Session.Basic
import ObjectModel.Proofs.Arena.Narrowing
import ObjectModel.Proofs.Session.Request

/-!
# Answers

What a request comes to, told without the machine: a new node answers a request for one, an
instance with the same memo key answers an instantiation, and a task that waits is answered by
whatever answers it once the value it waits for has arrived (`Session.Answers`). An answer holds in
a session and may read some bindings only. It stays an answer while the session grows
(`Answers.mono`), and looking at a value too early does no harm: a task that looks through erased
types has no answer at one of them (`Answers.not_any`).
-/

set_option autoImplicit false

namespace ObjectModel

variable {env : Environment} {P Q : Slot → Prop} {s s' : Session} {t v : ValueId}

namespace Session

/-- What an evaluation may do to a session: the arena grows, frames stay, and so does what a value
is recognized by. -/
structure Grows (s s' : Session) : Prop where
  nodes : s.nodes.Grows s'.nodes
  frames : ∀ {k : Nat} {f : Frame}, s.frames[k]? = some f → s'.frames[k]? = some f
  memoArg : ∀ {id : ValueId} {m : MemoArg}, s.memoArg? id = some m → s'.memoArg? id = some m

namespace Grows

theorem refl (s : Session) : s.Grows s :=
  ⟨.refl _, fun h => h, fun h => h⟩

theorem trans {s₁ s₂ s₃ : Session} (h : s₁.Grows s₂) (h' : s₂.Grows s₃) : s₁.Grows s₃ :=
  ⟨h.nodes.trans h'.nodes, fun hk => h'.frames (h.frames hk), fun hm => h'.memoArg (h.memoArg hm)⟩

theorem frames_size_le (h : s.Grows s') : s.frames.size ≤ s'.frames.size := by
  by_contra hlt
  have hf := h.frames (Array.getElem?_eq_getElem (Nat.not_le.1 hlt))
  exact absurd (Array.getElem?_eq_some_iff.1 hf).1 (Nat.lt_irrefl _)

theorem memoKey (h : s.Grows s') {cls : Name} {args : List ValueId} {key : MemoKey}
    (hkey : s.memoKey? cls args = some key) : s'.memoKey? cls args = some key := by
  obtain ⟨ms, hms, rfl⟩ := Option.map_eq_some_iff.1 hkey
  refine Option.map_eq_some_iff.2 ⟨ms, ?_, rfl⟩
  rw [mapM_eq_some_iff] at hms ⊢
  exact hms.imp fun _ _ hm => h.memoArg hm

end Grows

end Session

/-- The value that a task waits for is there, behind erased types if the task looks through them. -/
def Task.Arrives (task : Task) (a : Arena) (P : Slot → Prop) (focus v : ValueId) : Prop :=
  if task.narrows then ∃ k, a.Narrows P k focus v else a.Denotes P focus v

theorem Task.Arrives.mono {task : Task} {a b : Arena} {focus : ValueId}
    (h : task.Arrives a P focus v) (hab : a.Grows b)
    (hPQ : ∀ {j t slot}, a.node? j = some (.binding slot (.resolved t)) → P slot → Q slot) :
    task.Arrives b Q focus v := by
  rw [Arrives] at h ⊢
  split at h
  · rename_i hn
    rw [if_pos hn]
    obtain ⟨k, hk⟩ := h
    exact ⟨k, hk.mono hab hPQ⟩
  · rename_i hn
    rw [if_neg hn]
    exact h.mono hab hPQ

/-- A task comes to one value, whatever bindings are allowed. -/
theorem Task.Arrives.unique {task : Task} {a : Arena} {focus w : ValueId}
    (h : task.Arrives a P focus v) (h' : task.Arrives a Q focus w) : v = w := by
  rw [Arrives] at h h'
  split at h
  · rename_i hn
    rw [if_pos hn] at h'
    obtain ⟨k, hk⟩ := h
    obtain ⟨l, hl⟩ := h'
    exact (hk.unique hl).2
  · rename_i hn
    rw [if_neg hn] at h'
    exact h.unique h'

/-! ## Answers -/

namespace Session

/-- A value answers a request, as far as the bindings that may be read tell. -/
inductive Answers (env : Environment) (s : Session) (P : Slot → Prop) : Request → ValueId → Prop
  | produce {n : Node} {t : ValueId} : s.nodes.node? t = some n → n.isBinding = false →
      Answers env s P (.produce n) t
  | forward {t : ValueId} : s.nodes.IsValue t → Answers env s P (.forward t) t
  | create {target : Name} {args : List ValueId} {k : Nat} {f : Frame} {key : MemoKey} :
      s.frames[k]? = some f → f.cls.name = target → s.memoKey? target args = some key →
      s.memoKey? target f.params.toList = some key → Answers env s P (.create target args) f.object
  | await {task : Task} {focus v t : ValueId} : task.Arrives s.nodes P focus v →
      Answers env s P (task.resume env s.nodes v) t → Answers env s P (.await task focus) t

theorem not_answers_fail {f : Failure} : ¬ s.Answers env P (.fail f) t := by
  intro h
  cases h

theorem Answers.ne_fail {req : Request} (h : s.Answers env P req t) (f : Failure) :
    req ≠ .fail f := by
  rintro rfl
  exact not_answers_fail h

theorem Answers.mono {req : Request} (h : s.Answers env P req t) (hs : s.Grows s')
    (hPQ : ∀ {j t slot}, s.nodes.node? j = some (.binding slot (.resolved t)) → P slot → Q slot) :
    s'.Answers env Q req t := by
  -- By induction on the answer: a task arrives at the same value, so it asks for the same next.
  induction h with
  | produce hn hb => exact .produce (hs.nodes.value hn hb) hb
  | forward hv => exact .forward (hs.nodes.isValue hv)
  | create hf hname hargs hparams =>
    exact .create (hs.frames hf) hname (hs.memoKey hargs) (hs.memoKey hparams)
  | await harr hans ih =>
    refine .await (harr.mono hs.nodes hPQ) ?_
    rw [Task.resume_of_grows hs.nodes hans.ne_fail]
    exact ih

/-- Every list that a concatenation has seen is a list. -/
theorem Answers.seen {seen rest : List ValueId} {focus : ValueId}
    (h : s.Answers env P (.await (.concat seen rest) focus) t) :
    ∀ u ∈ seen, ∃ l, s.nodes.listAt u = .ok l := by
  -- The lists seen so far are carried along until they are joined, where all of them are read.
  induction rest generalizing seen focus with
  | cons next rest ih =>
    cases h with
    | await _ hans =>
      intro u hu
      exact ih hans u (List.mem_append_left _ hu)
  | nil =>
    cases h with
    | @await _ _ v _ _ hans =>
      intro u hu
      have hres := Task.resumes_resume env s.nodes v (.concat seen [])
      generalize Task.resume env s.nodes v (.concat seen []) = req at hres hans
      cases hres with
      | join hls _ =>
        obtain ⟨l, -, hl⟩ :=
          exists_of_forall₂_of_mem (mapM_eq_ok_iff.1 hls) (List.mem_append_left _ hu)
        exact ⟨l, hl⟩
      | refuse _ => exact absurd hans not_answers_fail

/-- The left operand of an operator that has an answer is an integer. -/
theorem Answers.left {op : IntOp} {lhs focus : ValueId}
    (h : s.Answers env P (.await (.right op lhs) focus) t) : ∃ i, s.nodes.intAt lhs = .ok i := by
  cases h with
  | @await _ _ v _ _ hans =>
    have hres := Task.resumes_resume env s.nodes v (.right op lhs)
    generalize Task.resume env s.nodes v (.right op lhs) = req at hres hans
    cases hres with
    | operate hl _ _ => exact ⟨_, hl⟩
    | refuse _ => exact absurd hans not_answers_fail

/-- A task that looks through erased types has no answer at one of them. -/
theorem Answers.not_any {task : Task} (h : s.Answers env P (task.resume env s.nodes v) t)
    (hn : task.narrows) (p : ValueId) : s.nodes.node? v ≠ some (.any p) := by
  intro hv
  -- What such a task reads is a list, an integer or an object, none of which an erased type is.
  have hlist : ∀ l, s.nodes.listAt v ≠ .ok l := by
    intro l hl
    rw [Arena.listAt_eq_ok_iff, hv] at hl
    cases hl
  have hint : ∀ i, s.nodes.intAt v ≠ .ok i := by
    intro i hi
    rw [Arena.intAt_eq_ok_iff, hv] at hi
    cases hi
  have hfield : ∀ field slot, s.nodes.fieldAt env v field ≠ .ok slot := by
    intro field slot hslot
    obtain ⟨cls, fields, -, -, hobj, -⟩ := Arena.fieldAt_eq_ok_iff.1 hslot
    rw [hv] at hobj
    cases hobj
  have hres := task.resumes_resume env s.nodes v
  generalize task.resume env s.nodes v = req at hres h
  cases hres with
  | forward => cases hn
  | last hslot => exact hfield _ _ hslot
  | project hslot => exact hfield _ _ hslot
  | gather seen rest next =>
    obtain ⟨l, hl⟩ := h.seen v (List.mem_append_right _ (List.mem_singleton.2 rfl))
    exact hlist l hl
  | join hls _ =>
    obtain ⟨l, -, hl⟩ := exists_of_forall₂_of_mem (mapM_eq_ok_iff.1 hls)
      (List.mem_append_right _ (List.mem_singleton.2 rfl))
    exact hlist l hl
  | left op rhs =>
    obtain ⟨i, hi⟩ := h.left
    exact hint i hi
  | operate _ hr _ => exact hint _ hr
  | refuse _ => exact not_answers_fail h

/-- A value that is there answers a task as soon as what the task asks for next is answered. -/
theorem Answers.of_resume {task : Task} (hv : s.nodes.IsValue v) (hs : s.Grows s')
    (h : s'.Answers env P (task.resume env s.nodes v) t) :
    s'.Answers env P (.await task v) t := by
  have hans : s'.Answers env P (task.resume env s'.nodes v) t := by
    rw [Task.resume_of_grows hs.nodes h.ne_fail]
    exact h
  refine .await ?_ hans
  rw [Task.Arrives]
  split
  · rename_i hn
    exact ⟨0, .stop (.value (hs.nodes.isValue hv)) (hans.not_any hn)⟩
  · exact .value (hs.nodes.isValue hv)

/-- A task that waits at a binding is answered by what answers it at the binding's value. -/
theorem Answers.of_resolved {task : Task} {focus target : ValueId} {slot : Slot}
    (hn : s.nodes.node? focus = some (.binding slot (.resolved target)))
    (hv : s.nodes.IsValue target) (hP : P slot) (h : s.Answers env P (.await task target) t) :
    s.Answers env P (.await task focus) t := by
  cases h with
  | await harr hans =>
    refine .await ?_ hans
    rw [Task.Arrives] at harr ⊢
    split at harr
    · rename_i hnar
      rw [if_pos hnar]
      obtain ⟨k, hk⟩ := harr
      cases hk with
      | stop hd hany =>
        rw [hd.eq_of_isValue hv] at hany ⊢
        exact ⟨0, .stop (.binding hn hP hv) hany⟩
      | pass hd hp htail =>
        rw [hd.eq_of_isValue hv] at hp
        exact ⟨_, .pass (.binding hn hP hv) hp htail⟩
    · rename_i hnar
      rw [if_neg hnar, harr.eq_of_isValue hv]
      exact .binding hn hP hv

/-- A task that looks through erased types is answered by what answers it at the payload. -/
theorem Answers.of_any {task : Task} {focus payload : ValueId}
    (hn : s.nodes.node? focus = some (.any payload)) (hnar : task.narrows)
    (h : s.Answers env P (.await task payload) t) : s.Answers env P (.await task focus) t := by
  cases h with
  | await harr hans =>
    refine .await ?_ hans
    rw [Task.Arrives] at harr ⊢
    rw [if_pos hnar] at harr ⊢
    obtain ⟨k, hk⟩ := harr
    exact ⟨k + 1, .pass (.value ⟨_, hn, rfl⟩) hn hk⟩

end Session

end ObjectModel
