import ObjectModel.Proofs.Session.Counters

/-!
# Evaluations under other limits

Limits do nothing but cut an evaluation off. A step under limits is the step without them, or it
stops because that step would go beyond one of them (`Session.step_within`); so a run under limits
is the run without them, or it stops in one of its states (`Session.runFor_within`). Which of the
two it is can be read off the longest chain of demands (`Session.depths`) and the number of frames.
-/

set_option autoImplicit false

namespace ObjectModel

/-! ## Limits -/

namespace Limits

/-- No limits. -/
def unlimited : Limits := { depth := none, instances := none }

/-- Chains of demands of this length and so many objects stay within the limits. -/
structure Admits (l : Limits) (depth objects : ℕ) : Prop where
  depth : ∀ max, l.depth = some max → depth ≤ max
  instances : ∀ max, l.instances = some max → objects ≤ max

/-- The error of a limit that chains of this length, or so many objects, go beyond. -/
inductive Exceeded (l : Limits) (depth objects : ℕ) : EvalError → Prop
  | depth {max : ℕ} : l.depth = some max → max < depth →
      Exceeded l depth objects (.ofKind (.recursionLimit max))
  | instances {max : ℕ} : l.instances = some max → max < objects →
      Exceeded l depth objects (.ofKind (.instanceLimit max))

/-- The error of a limit. -/
inductive Refusal (l : Limits) : EvalError → Prop
  | depth {max : ℕ} : l.depth = some max → Refusal l (.ofKind (.recursionLimit max))
  | instances {max : ℕ} : l.instances = some max → Refusal l (.ofKind (.instanceLimit max))

/-- What stays within the limits goes beyond none of them. -/
theorem Admits.not_exceeded {l : Limits} {depth objects : ℕ} (h : l.Admits depth objects)
    {e : EvalError} : ¬ l.Exceeded depth objects e := by
  intro he
  cases he with
  | depth hmax hlt => exact absurd (h.depth _ hmax) (Nat.not_le.2 hlt)
  | instances hmax hlt => exact absurd (h.instances _ hmax) (Nat.not_le.2 hlt)

end Limits

/-- The same evaluation under other limits. -/
def Environment.within (env : Environment) (l : Limits) : Environment := { env with limits := l }

variable {env : Environment} {l : Limits}

namespace Session

variable {s : Session}

/-! ## Steps -/

/-- What a step comes to without limits, and what it comes to under limits: the same, or the error
of a limit that it would go beyond. -/
inductive Within (l : Limits) (s : Session) : Progress → Progress → Prop
  | same (r : Progress) : Within l s r r
  | depth {max : ℕ} {next last : Session} : l.depth = some max → max ≤ s.chain.depth →
      next.chain.depth = s.chain.depth + 1 →
      Within l s (.running next) (.stopped (.error (.ofKind (.recursionLimit max))) last)
  | instances {max : ℕ} {r : Progress} {last : Session} : l.instances = some max →
      max ≤ s.frames.size → (∀ next, r = .running next → next.frames.size = s.frames.size + 1) →
      (∀ final, r ≠ .finished final) →
      Within l s r (.stopped (.error (.ofKind (.instanceLimit max))) last)

/-- Only the chain and the frames of a session matter here. -/
theorem Within.of_same {s s' : Session} {r r' : Progress} (h : Within l s' r r')
    (hchain : s'.chain = s.chain) (hframes : s'.frames = s.frames) : Within l s r r' := by
  cases h with
  | same r => exact .same r
  | depth hmax hle hnext =>
    rw [hchain] at hle hnext
    exact .depth hmax hle hnext
  | instances hmax hle hnext hfinal =>
    rw [hframes] at hle hnext
    exact .instances hmax hle hnext hfinal

theorem demand_within (henv : env.limits = .unlimited) (id : ValueId) (slot : Slot) :
    Within l s (s.demand env id slot) (s.demand (env.within l) id slot) := by
  rw [demand, demand]
  cases hf : s.frames[slot.frame]? with
  | none => exact .same _
  | some f =>
    -- Without a limit every demand joins the chain, under a limit only a shorter chain takes one.
    simp only [henv, Limits.unlimited, Environment.within, DemandChain.push]
    cases hdepth : l.depth with
    | none => exact .same _
    | some max =>
      by_cases hlt : s.chain.depth < max
      · simp only [hlt, if_true]
        exact .same _
      · simp only [hlt, if_false]
        exact .depth hdepth (Nat.le_of_not_lt hlt) rfl

theorem enter_within (henv : env.limits = .unlimited) (id : ValueId) (slot : Slot)
    (state : BindingState) :
    Within l s (s.enter env id slot state) (s.enter (env.within l) id slot state) := by
  cases state with
  | unstarted => exact demand_within henv id slot
  | inProgress => exact .same _
  | failed => exact .same _
  | resolved target => exact .same _

/-- An instantiation is decided alike under limits, unless it needs a new frame beyond them. -/
theorem creation_within (henv : env.limits = .unlimited) (target : Name) (args : List ValueId) :
    s.creation (env.within l) target args = s.creation env target args ∨
      ∃ max, l.instances = some max ∧ max ≤ s.frames.size ∧
        s.creation (env.within l) target args = .error (.error (.ofKind (.instanceLimit max))) ∧
          ∀ c, s.creation env target args = .ok c → ∃ f key fields, c = .fresh f key fields := by
  have hclasses : (env.within l).classes = env.classes := rfl
  have hlimits : (env.within l).limits = l := rfl
  have hshares : (env.within l).shares = env.shares := rfl
  rw [creation, creation]
  simp only [henv, hclasses, hlimits, hshares, Limits.unlimited]
  cases hcls : env.classes.lookup? target with
  | none => exact Or.inl rfl
  | some cls =>
    by_cases hlength : args.length = cls.params.length
    · simp only [hlength, ne_eq, not_true_eq_false, if_false]
      cases hkey : s.memoKey? target args with
      | none => exact Or.inl rfl
      | some key =>
        simp only
        generalize (if env.shares = true then s.memo.get? key else none) = found
        cases found with
        | some o => exact Or.inl rfl
        | none =>
          cases hlimit : l.instances.filter (· ≤ s.frames.size) with
          | none => exact Or.inl rfl
          | some max =>
            obtain ⟨hmax, hle⟩ := Option.filter_eq_some_iff.1 hlimit
            refine Or.inr ⟨max, hmax, of_decide_eq_true hle, rfl, ?_⟩
            intro c hc
            dsimp only [Option.filter] at hc
            split at hc
            · cases hc
            · cases hc
              exact ⟨_, _, _, rfl⟩
    · simp only [hlength, ne_eq, not_false_eq_true, if_true]
      exact Or.inl trivial

theorem serve_within (henv : env.limits = .unlimited) (req : Request) :
    Within l s (s.serve env req) (s.serve (env.within l) req) := by
  cases req with
  | create target args =>
    rcases s.creation_within (l := l) henv target args with heq | ⟨max, hmax, hle, heq, hfresh⟩
    · rw [serve, serve, heq]
      exact .same _
    · rw [serve, serve, heq]
      apply Within.instances hmax hle
      · intro next hnext
        cases hc : s.creation env target args with
        | error f => simp [hc, abort] at hnext
        | ok c =>
          obtain ⟨f, key, fields, rfl⟩ := hfresh c hc
          simp only [hc] at hnext
          cases hnext
          rw [frames_settle]
          exact Array.size_push f
      · intro final hfinal
        split at hfinal <;> cases hfinal
  | await task focus => exact .same _
  | produce n => exact .same _
  | forward id => exact .same _
  | fail f => exact .same _

theorem start_within (henv : env.limits = .unlimited) (slot : Slot) :
    Within l s (s.start env slot) (s.start (env.within l) slot) := by
  rw [start, start]
  cases hf : s.frames[slot.frame]? with
  | none => exact .same _
  | some f =>
    cases hi : f.cls.instrs[slot.instr]? with
    | none =>
      simp only [hi]
      exact .same _
    | some i =>
      simp only [hi]
      exact (serve_within henv (f.start env i)).of_same rfl rfl

theorem look_within (henv : env.limits = .unlimited) (task : Task) (focus : ValueId)
    (unwrapped : ℕ) :
    Within l s (s.look env task focus unwrapped) (s.look (env.within l) task focus unwrapped) := by
  rw [look, look]
  cases hn : s.nodes.node? focus with
  | none => exact .same _
  | some n =>
    cases n with
    | binding slot state =>
      cases state with
      | resolved target => exact .same _
      | unstarted => exact enter_within henv focus slot _
      | inProgress => exact enter_within henv focus slot _
      | failed => exact enter_within henv focus slot _
    | any payload =>
      by_cases hlook : task.narrows = true ∧ unwrapped ≤ s.nodes.size
      · simp only [hlook]
        exact .same _
      · simp only [hlook, if_false]
        exact serve_within henv _
    | literal lit => exact serve_within henv _
    | object cls fields => exact serve_within henv _
    | list elem elements => exact serve_within henv _

theorem advance_within (henv : env.limits = .unlimited) :
    Within l s (s.advance env) (s.advance (env.within l)) := by
  rw [advance, advance]
  cases hf : s.frames[s.cursor.frame]? with
  | none => exact .same _
  | some f =>
    cases hid : f.binding? s.cursor.instr with
    | none =>
      simp only [hid]
      exact .same _
    | some id =>
      simp only [hid]
      cases hn : s.nodes.node? id with
      | none => exact .same _
      | some n =>
        cases n with
        | binding slot state => exact (enter_within henv id slot state).of_same rfl rfl
        | literal lit => exact .same _
        | object cls fields => exact .same _
        | list elem elements => exact .same _
        | any payload => exact .same _

/-- A step under limits is the step without them, unless that one goes beyond a limit. -/
theorem step_within (henv : env.limits = .unlimited) (s : Session) :
    Within l s (s.step env) (s.step (env.within l)) := by
  rw [step, step]
  cases hchain : s.chain.entries with
  | nil => exact advance_within henv
  | cons top rest =>
    cases hwork : top.work with
    | start =>
      simp only [hwork]
      exact start_within henv top.slot
    | await task focus unwrapped =>
      simp only [hwork]
      exact look_within henv task focus unwrapped

/-! ## Runs -/

/-- The next step of a run without limits goes beyond a limit. -/
inductive Exceeds (env : Environment) (l : Limits) (s : Session) : EvalError → Prop
  | depth {max : ℕ} {next : Session} : l.depth = some max → s.step env = .running next →
      max < next.chain.depth → Exceeds env l s (.ofKind (.recursionLimit max))
  | instances {max : ℕ} : l.instances = some max →
      (∀ next, s.step env = .running next → max < next.frames.size) →
      (∀ final, s.step env ≠ .finished final) → Exceeds env l s (.ofKind (.instanceLimit max))

theorem Exceeds.refusal {e : EvalError} (h : s.Exceeds env l e) : l.Refusal e := by
  cases h with
  | depth hmax _ _ => exact .depth hmax
  | instances hmax _ _ => exact .instances hmax

/-- A step under limits that differs from the one without them stops for a limit. -/
theorem step_within_eq (henv : env.limits = .unlimited) (s : Session) :
    s.step (env.within l) = s.step env ∨
      ∃ e last, s.Exceeds env l e ∧ s.step (env.within l) = .stopped (.error e) last := by
  have h := s.step_within (l := l) henv
  generalize hr : s.step env = r at h
  generalize s.step (env.within l) = r' at h
  cases h with
  | same r => exact Or.inl rfl
  | depth hmax hle hnext =>
    refine Or.inr ⟨_, _, .depth hmax hr ?_, rfl⟩
    omega
  | instances hmax hle hnext hfinal =>
    refine Or.inr ⟨_, _, .instances hmax ?_ ?_, rfl⟩
    · intro next hstep
      rw [hnext next (hr.symm.trans hstep)]
      omega
    · rw [hr]
      exact hfinal

/-- A run under limits is the run without them, or it stops in the state whose next step goes
beyond a limit. -/
theorem runFor_within (henv : env.limits = .unlimited) (n : ℕ) (s : Session) :
    s.runFor (env.within l) n = s.runFor env n ∨
      ∃ a e, Reaches env s a ∧ a.Exceeds env l e ∧
        s.runFor (env.within l) n = some (.error (.error e)) := by
  induction n generalizing s with
  | zero => exact Or.inl rfl
  | succ n ih =>
    rw [runFor, runFor]
    rcases s.step_within_eq (l := l) henv with heq | ⟨e, last, he, heq⟩
    · rw [heq]
      cases hstep : s.step env with
      | running next =>
        rcases ih next with hrun | ⟨a, e, hreach, he, hrun⟩
        · exact Or.inl hrun
        · exact Or.inr ⟨a, e, hreach.head hstep, he, hrun⟩
      | finished final => exact Or.inl rfl
      | stopped f last => exact Or.inl rfl
    · rw [heq]
      exact Or.inr ⟨s, e, .refl, he, rfl⟩

/-- A run that succeeds under limits ends alike without them. -/
theorem Ends.of_within (henv : env.limits = .unlimited) {final : Session}
    (h : s.Ends (env.within l) (.ok final)) : s.Ends env (.ok final) := by
  obtain ⟨n, hn⟩ := h
  rcases s.runFor_within (l := l) henv n with heq | ⟨a, e, -, -, herror⟩
  · exact ⟨n, heq.symm.trans hn⟩
  · rw [hn] at herror
    cases herror

/-- A run under limits that succeeds goes through all states of the run without them. -/
theorem Reaches.within (henv : env.limits = .unlimited) {a final : Session}
    (hends : s.Ends (env.within l) (.ok final)) (h : Reaches env s a) :
    Reaches (env.within l) s a := by
  induction h with
  | refl => exact .refl
  | @tail b c _ hstep ih =>
    rcases b.step_within_eq (l := l) henv with heq | ⟨e, last, -, heq⟩
    · exact ih.tail (heq.trans hstep)
    · -- It would have stopped there.
      have herror : b.Ends (env.within l) (.error (.error e)) := ⟨1, by rw [runFor, heq]⟩
      have hok := hends.of_reaches ih
      cases herror.unique hok

/-! ## Chains of demands -/

/-- The lengths of the chain of demands in the states of a run. -/
def depths (env : Environment) (s : Session) : Set ℕ :=
  { d | ∃ a, Reaches env s a ∧ a.chain.depth = d }

/-- The states of a run are its first one and those of the rest of the run. -/
theorem depths_of_running {next : Session} (h : s.step env = .running next) :
    s.depths env = insert s.chain.depth (next.depths env) := by
  ext d
  constructor
  · rintro ⟨a, hreach, rfl⟩
    cases hreach using Relation.ReflTransGen.head_induction_on with
    | refl => exact Or.inl rfl
    | head hstep hrest =>
      rw [h] at hstep
      cases hstep
      exact Or.inr ⟨a, hrest, rfl⟩
  · rintro (rfl | ⟨a, hreach, rfl⟩)
    · exact ⟨s, .refl, rfl⟩
    · exact ⟨a, hreach.head h, rfl⟩

theorem depths_of_not_running (h : ∀ next, s.step env ≠ .running next) :
    s.depths env = {s.chain.depth} := by
  ext d
  constructor
  · rintro ⟨a, hreach, rfl⟩
    cases hreach using Relation.ReflTransGen.head_induction_on with
    | refl => rfl
    | head hstep _ => exact absurd hstep (h _)
  · rintro rfl
    exact ⟨s, .refl, rfl⟩

/-- A run that ends has a longest chain of demands. -/
theorem exists_isGreatest_depths {r : Except Failure Session} (h : s.Ends env r) :
    ∃ d, IsGreatest (s.depths env) d := by
  obtain ⟨n, hn⟩ := h
  induction n generalizing s with
  | zero => cases hn
  | succ n ih =>
    rw [runFor] at hn
    cases hstep : s.step env with
    | running next =>
      simp only [hstep] at hn
      obtain ⟨d, hd⟩ := ih hn
      rw [depths_of_running hstep]
      exact ⟨_, hd.insert s.chain.depth⟩
    | finished final =>
      rw [depths_of_not_running (by simp [hstep])]
      exact ⟨_, isGreatest_singleton⟩
    | stopped f last =>
      rw [depths_of_not_running (by simp [hstep])]
      exact ⟨_, isGreatest_singleton⟩

/-- The chain is never longer than its limit. -/
theorem depth_le_of_reaches {max : ℕ} (hmax : env.limits.depth = some max) {s' : Session}
    (hs : s.chain.depth ≤ max) (h : Reaches env s s') : s'.chain.depth ≤ max := by
  -- Only a demand makes the chain longer, and it is refused at the limit.
  have hdemand : ∀ {r r' : Session} {id : ValueId} {slot : Slot}, r.chain.depth ≤ max →
      r.demand env id slot = .running r' → r'.chain.depth ≤ max := by
    intro r r' id slot hr hd
    rw [demand, hmax] at hd
    split at hd
    · cases hd
    · simp only [DemandChain.push] at hd
      by_cases hlt : r.chain.depth < max
      · simp only [hlt, if_true] at hd
        cases hd
        exact hlt
      · simp only [hlt, if_false] at hd
        cases hd
  have hsettle : ∀ {r : Session} {t : ValueId}, r.chain.depth ≤ max →
      (r.settle t).chain.depth ≤ max := by
    intro r t hr
    rw [settle]
    split
    · exact hr
    · exact Nat.le_trans (Nat.sub_le _ _) hr
  refine h.induct (I := fun r => r.chain.depth ≤ max) ?_ hs
  intro r r' hr ht
  cases ht with
  | pass _ _ _ => exact hr
  | skip _ _ _ _ _ => exact hr
  | next _ _ _ _ hd =>
    exact hdemand (r := { r with cursor := ⟨r.cursor.frame, r.cursor.instr + 1⟩ }) hr hd
  | demand _ _ _ hd => exact hdemand hr hd
  | follow _ _ _ => exact hr
  | unwrap _ _ _ _ _ => exact hr
  | @serve top rest req _ _ _ hserve =>
    have hcounted : (r.counted top).chain.depth ≤ max := by
      rw [chain_counted]
      exact hr
    rcases serve_running hserve with ⟨task, focus, rfl, rfl⟩ | ⟨n, rfl, rfl⟩ | ⟨id, rfl, rfl⟩ |
      ⟨target, args, c, rfl, hc, rfl⟩
    · exact hcounted
    · exact hsettle hcounted
    · exact hsettle hcounted
    · apply hsettle
      cases c <;> exact hcounted

end Session

end ObjectModel
