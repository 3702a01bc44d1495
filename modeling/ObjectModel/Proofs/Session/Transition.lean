import ObjectModel.Session.Run
import Mathlib.Logic.Relation

/-!
# What a step does

A step that goes on is one of seven transitions (`Session.Transition`): with nothing waiting, the
cursor passes a frame, skips a binding that was demanded before or demands the next one; otherwise
the most recent activation demands the binding that it waits for, follows a binding to its value,
looks through an erased type, or is served. `step_transition` reads a step as one of them, so that
whatever a step preserves is proved by one case for each transition. A request is served in one of
four ways (`serve_running`).
-/

set_option autoImplicit false

namespace ObjectModel.Session

variable {env : Environment} {s s' : Session}

/-- What the most recent activation asks for at this point: what its instruction asks for when it
starts, or what its task asks for at the value that has arrived. -/
inductive Asks (env : Environment) (s : Session) (top : Activation) : Request → Prop
  | start {f : Frame} {i : Instr} : top.work = .start → s.frames[top.slot.frame]? = some f →
      f.cls.instrs[top.slot.instr]? = some i → Asks env s top (f.start env i)
  | resume {task : Task} {focus : ValueId} {unwrapped : Nat} {n : Node} :
      top.work = .await task focus unwrapped → s.nodes.node? focus = some n →
      n.isBinding = false →
      (∀ p, n = .any p → ¬ (task.narrows ∧ unwrapped ≤ s.nodes.size)) →
      Asks env s top (task.resume env s.nodes focus)

/-- The most recent activation is at the task, and the value that it waits for is there. -/
inductive Faces (s : Session) (task : Task) (v : ValueId) : Prop
  | intro {top : Activation} {rest : List Activation} {unwrapped : Nat} {n : Node} :
      s.chain.entries = top :: rest → top.work = .await task v unwrapped →
      s.nodes.node? v = some n → n.isBinding = false →
      (∀ p, n = .any p → ¬ (task.narrows ∧ unwrapped ≤ s.nodes.size)) → Faces s task v

/-- The session with the start of an instruction counted, if the activation is at its start. -/
def counted (s : Session) (top : Activation) : Session :=
  match top.work with
  | .start => { s with stats := s.stats.countInstruction }
  | .await _ _ _ => s

/-- What a step that goes on does. -/
inductive Transition (env : Environment) (s : Session) : Session → Prop
  | pass {f : Frame} : s.chain.entries = [] → s.frames[s.cursor.frame]? = some f →
      f.binding? s.cursor.instr = none →
      Transition env s { s with cursor := ⟨s.cursor.frame + 1, 0⟩ }
  | skip {f : Frame} {id : ValueId} {n : Node} : s.chain.entries = [] →
      s.frames[s.cursor.frame]? = some f → f.binding? s.cursor.instr = some id →
      s.nodes.node? id = some n → (∀ slot, n ≠ .binding slot .unstarted) →
      Transition env s { s with cursor := ⟨s.cursor.frame, s.cursor.instr + 1⟩ }
  | next {f : Frame} {id : ValueId} {slot : Slot} {s' : Session} : s.chain.entries = [] →
      s.frames[s.cursor.frame]? = some f → f.binding? s.cursor.instr = some id →
      s.nodes.node? id = some (.binding slot .unstarted) →
      demand env { s with cursor := ⟨s.cursor.frame, s.cursor.instr + 1⟩ } id slot = .running s' →
      Transition env s s'
  | demand {top : Activation} {rest : List Activation} {task : Task} {focus : ValueId}
      {unwrapped : Nat} {slot : Slot} {s' : Session} : s.chain.entries = top :: rest →
      top.work = .await task focus unwrapped →
      s.nodes.node? focus = some (.binding slot .unstarted) →
      s.demand env focus slot = .running s' → Transition env s s'
  | follow {top : Activation} {rest : List Activation} {task : Task} {focus target : ValueId}
      {unwrapped : Nat} {slot : Slot} : s.chain.entries = top :: rest →
      top.work = .await task focus unwrapped →
      s.nodes.node? focus = some (.binding slot (.resolved target)) →
      Transition env s (s.setWork (.await task target unwrapped))
  | unwrap {top : Activation} {rest : List Activation} {task : Task} {focus payload : ValueId}
      {unwrapped : Nat} : s.chain.entries = top :: rest →
      top.work = .await task focus unwrapped → s.nodes.node? focus = some (.any payload) →
      task.narrows → unwrapped ≤ s.nodes.size →
      Transition env s (s.setWork (.await task payload (unwrapped + 1)))
  | serve {top : Activation} {rest : List Activation} {req : Request} {s' : Session} :
      s.chain.entries = top :: rest → s.Asks env top req →
      (s.counted top).serve env req = .running s' → Transition env s s'

/-! ## Reading a step -/

/-- At its value a task is served with what it asks for there. -/
theorem Faces.step_eq {task : Task} {v : ValueId} (h : s.Faces task v) (env : Environment) :
    s.step env = s.serve env (task.resume env s.nodes v) := by
  cases h with
  | @intro top rest unwrapped n hchain hwork hn hb hany =>
    rw [step, hchain]
    simp only [hwork, look, hn]
    cases n with
    | binding slot state => cases hb
    | any payload => exact if_neg (hany payload rfl)
    | _ => rfl

/-- A demand that is within the limit marks the binding and joins the chain. -/
theorem demand_running {id : ValueId} {slot : Slot} (h : s.demand env id slot = .running s') :
    ∃ f chain, s.frames[slot.frame]? = some f ∧
      chain.entries =
        { binding := id, slot, demand := ⟨f.cls.name, slot.instr⟩, work := .start } ::
          s.chain.entries ∧
      s' =
        { s with nodes := s.nodes.setIfInBounds id.index (.binding slot .inProgress), chain } := by
  rw [demand] at h
  cases hf : s.frames[slot.frame]? with
  | none => simp [hf, abort] at h
  | some f =>
    simp only [hf] at h
    split at h
    · rename_i chain hpush
      cases h
      exact ⟨f, chain, rfl, DemandChain.entries_of_push_eq_ok hpush, rfl⟩
    · simp [abort] at h

/-- A request that is served without an end of the evaluation is a wait, or it settles the most
recent activation with a new node, a value that is there, or an object. -/
theorem serve_running {req : Request} (h : s.serve env req = .running s') :
    (∃ task focus, req = .await task focus ∧ s' = s.setWork (.await task focus 0)) ∨
    (∃ n, req = .produce n ∧ s' = (s.alloc n).2.settle (s.alloc n).1) ∨
    (∃ id, req = .forward id ∧ s' = s.settle id) ∨
    (∃ target args c, req = .create target args ∧ s.creation env target args = .ok c ∧
      s' = (s.create c).2.settle (s.create c).1) := by
  cases req with
  | await task focus =>
    cases h
    exact Or.inl ⟨task, focus, rfl, rfl⟩
  | produce n =>
    cases h
    exact Or.inr (Or.inl ⟨n, rfl, rfl⟩)
  | forward id =>
    cases h
    exact Or.inr (Or.inr (Or.inl ⟨id, rfl, rfl⟩))
  | create target args =>
    rw [serve] at h
    cases hc : s.creation env target args with
    | ok c =>
      rw [hc] at h
      cases h
      exact Or.inr (Or.inr (Or.inr ⟨target, args, c, rfl, hc, rfl⟩))
    | error f => simp [hc, abort] at h
  | fail f => simp [serve, abort] at h

theorem enter_running {id : ValueId} {slot : Slot} {state : BindingState}
    (h : s.enter env id slot state = .running s') :
    (state = .unstarted ∧ s.demand env id slot = .running s') ∨
      ((∃ target, state = .resolved target) ∧ s' = s) := by
  cases state with
  | unstarted => exact Or.inl ⟨rfl, h⟩
  | inProgress => simp [enter, abort] at h
  | failed => simp [enter, abort] at h
  | resolved target =>
    cases h
    exact Or.inr ⟨⟨target, rfl⟩, rfl⟩

theorem advance_transition (hchain : s.chain.entries = []) (h : s.advance env = .running s') :
    Transition env s s' := by
  rw [advance] at h
  cases hf : s.frames[s.cursor.frame]? with
  | none => simp [hf] at h
  | some f =>
    simp only [hf] at h
    cases hid : f.binding? s.cursor.instr with
    | none =>
      simp only [hid] at h
      cases h
      exact .pass hchain hf hid
    | some id =>
      simp only [hid] at h
      cases hn : s.nodes.node? id with
      | none => simp [hn, abort] at h
      | some n =>
        cases n with
        | binding slot state =>
          simp only [hn] at h
          rcases enter_running h with ⟨rfl, hd⟩ | ⟨⟨target, rfl⟩, rfl⟩
          · exact .next hchain hf hid hn hd
          · exact .skip hchain hf hid hn (by simp)
        | _ =>
          simp only [hn] at h
          cases h
          exact .skip hchain hf hid hn (by simp)

theorem start_transition {top : Activation} {rest : List Activation}
    (hchain : s.chain.entries = top :: rest) (hwork : top.work = .start)
    (h : s.start env top.slot = .running s') : Transition env s s' := by
  rw [start] at h
  cases hf : s.frames[top.slot.frame]? with
  | none => simp [hf, abort] at h
  | some f =>
    simp only [hf] at h
    cases hi : f.cls.instrs[top.slot.instr]? with
    | none => simp [hi, abort] at h
    | some i =>
      simp only [hi] at h
      refine .serve hchain (.start hwork hf hi) ?_
      rw [counted, hwork]
      exact h

theorem look_transition {top : Activation} {rest : List Activation} {task : Task} {focus : ValueId}
    {unwrapped : Nat} (hchain : s.chain.entries = top :: rest)
    (hwork : top.work = .await task focus unwrapped)
    (h : s.look env task focus unwrapped = .running s') : Transition env s s' := by
  -- Every node that is not a binding is a value, at which the task goes on.
  have hserve : ∀ {n : Node}, s.nodes.node? focus = some n → n.isBinding = false →
      (∀ p, n = .any p → ¬ (task.narrows ∧ unwrapped ≤ s.nodes.size)) →
      s.serve env (task.resume env s.nodes focus) = .running s' → Transition env s s' := by
    intro n hn hb hany hs
    refine .serve hchain (.resume hwork hn hb hany) ?_
    rw [counted, hwork]
    exact hs
  rw [look] at h
  cases hn : s.nodes.node? focus with
  | none => simp [hn, abort] at h
  | some n =>
    cases n with
    | binding slot state =>
      simp only [hn] at h
      cases state with
      | resolved target =>
        cases h
        exact .follow hchain hwork hn
      | unstarted => exact .demand hchain hwork hn h
      | inProgress => simp [enter, abort] at h
      | failed => simp [enter, abort] at h
    | any payload =>
      simp only [hn] at h
      split at h
      · rename_i hlook
        cases h
        exact .unwrap hchain hwork hn hlook.1 hlook.2
      · rename_i hlook
        exact hserve hn rfl (fun _ _ => hlook) h
    | literal l =>
      simp only [hn] at h
      exact hserve hn rfl (by simp) h
    | object cls fields =>
      simp only [hn] at h
      exact hserve hn rfl (by simp) h
    | list elem elements =>
      simp only [hn] at h
      exact hserve hn rfl (by simp) h

/-- A step that goes on is a transition. -/
theorem step_transition (h : s.step env = .running s') : Transition env s s' := by
  rw [step] at h
  cases hchain : s.chain.entries with
  | nil =>
    simp only [hchain] at h
    exact advance_transition hchain h
  | cons top rest =>
    simp only [hchain] at h
    cases hwork : top.work with
    | start =>
      simp only [hwork] at h
      exact start_transition hchain hwork h
    | await task focus unwrapped =>
      simp only [hwork] at h
      exact look_transition hchain hwork h

/-- A session that has ended has nothing waiting, and its cursor is past the last frame. -/
theorem step_finished (h : s.step env = .finished s') :
    s' = s ∧ s.chain.entries = [] ∧ s.frames[s.cursor.frame]? = none := by
  -- Only the cursor finds out that nothing is left: neither a demand nor a request ends a session.
  have hdemand : ∀ (r r' : Session) (id : ValueId) (slot : Slot),
      r.demand env id slot ≠ .finished r' := by
    intro r r' id slot hr
    rw [demand] at hr
    split at hr
    · cases hr
    · split at hr <;> cases hr
  have henter : ∀ (r r' : Session) (id : ValueId) (slot : Slot) (state : BindingState),
      r.enter env id slot state ≠ .finished r' := by
    intro r r' id slot state hr
    cases state with
    | unstarted => exact hdemand r r' id slot hr
    | _ => cases hr
  have hserve : ∀ (r r' : Session) (req : Request), r.serve env req ≠ .finished r' := by
    intro r r' req hr
    cases req with
    | create target args =>
      rw [serve] at hr
      split at hr <;> cases hr
    | _ => cases hr
  rw [step] at h
  cases hchain : s.chain.entries with
  | nil =>
    simp only [hchain] at h
    rw [advance] at h
    split at h
    · rename_i hf
      cases h
      exact ⟨rfl, rfl, hf⟩
    · split at h
      · cases h
      · split at h
        · cases h
        · exact absurd h (henter _ _ _ _ _)
        · cases h
  | cons top rest =>
    simp only [hchain] at h
    split at h
    · rw [start] at h
      split at h
      · cases h
      · split at h
        · cases h
        · exact absurd h (hserve _ _ _)
    · rw [look] at h
      split at h
      · cases h
      · cases h
      · exact absurd h (henter _ _ _ _ _)
      · split at h
        · cases h
        · exact absurd h (hserve _ _ _)
      · exact absurd h (hserve _ _ _)

/-! ## Runs -/

/-- A later state of the same run. -/
abbrev Reaches (env : Environment) : Session → Session → Prop :=
  Relation.ReflTransGen fun s s' => s.step env = .running s'

/-- What every step preserves holds in every later state. -/
theorem Reaches.induct {I : Session → Prop} (hstep : ∀ s s', I s → Transition env s s' → I s')
    (h : Reaches env s s') (hs : I s) : I s' := by
  induction h with
  | refl => exact hs
  | tail _ hlast ih => exact hstep _ _ ih (step_transition hlast)

/-- A run that ends has a last state, and its end is that of a step there. -/
theorem Ends.last {r : Except Failure Session} (h : s.Ends env r) :
    ∃ last, Reaches env s last ∧
      ((∃ final, last.step env = .finished final ∧ r = .ok final) ∨
        ∃ f final, last.step env = .stopped f final ∧ r = .error f) := by
  obtain ⟨n, hn⟩ := h
  induction n generalizing s with
  | zero => cases hn
  | succ n ih =>
    rw [runFor] at hn
    cases hs : s.step env with
    | running next =>
      simp only [hs] at hn
      obtain ⟨last, hlast, hend⟩ := ih hn
      exact ⟨last, hlast.head hs, hend⟩
    | finished final =>
      simp only [hs] at hn
      exact ⟨s, .refl, Or.inl ⟨final, hs, (Option.some.inj hn).symm⟩⟩
    | stopped f final =>
      simp only [hs] at hn
      exact ⟨s, .refl, Or.inr ⟨f, final, hs, (Option.some.inj hn).symm⟩⟩

theorem runFor_succ {s' : Session} (hstep : s.step env = .running s') (n : Nat) :
    s.runFor env (n + 1) = s'.runFor env n := by
  rw [runFor, hstep]

theorem ends_of_finished {s' : Session} (h : s.step env = .finished s') :
    s.Ends env (.ok s') := by
  refine ⟨1, ?_⟩
  rw [runFor, h]

/-- A run ends as it ends from a later state. -/
theorem Reaches.ends {s' : Session} {r : Except Failure Session} (h : Reaches env s s')
    (hr : s'.Ends env r) : s.Ends env r := by
  induction h using Relation.ReflTransGen.head_induction_on with
  | refl => exact hr
  | head hstep _ ih =>
    obtain ⟨n, hn⟩ := ih
    exact ⟨n + 1, (runFor_succ hstep n).trans hn⟩

/-- A run goes on from each of its states to its end. -/
theorem Ends.of_reaches {s' : Session} {r : Except Failure Session} (h : s.Ends env r)
    (hr : Reaches env s s') : s'.Ends env r := by
  induction hr using Relation.ReflTransGen.head_induction_on with
  | refl => exact h
  | head hstep _ ih =>
    apply ih
    obtain ⟨n, hn⟩ := h
    cases n with
    | zero => cases hn
    | succ n => exact ⟨n, (runFor_succ hstep n).symm.trans hn⟩

/-- A run that succeeds makes a step from each state that is not its last one. -/
theorem Ends.exists_running {final : Session} (h : s.Ends env (.ok final))
    (hne : ∀ final, s.step env ≠ .finished final) : ∃ next, s.step env = .running next := by
  cases hstep : s.step env with
  | running next => exact ⟨next, rfl⟩
  | finished final => exact absurd hstep (hne final)
  | stopped f last =>
    have hstopped : s.Ends env (.error f) := ⟨1, by rw [runFor, hstep]⟩
    cases hstopped.unique h

/-- A run that succeeds ends in a state that it reaches. -/
theorem Ends.reaches {final : Session} (h : s.Ends env (.ok final)) : Reaches env s final := by
  obtain ⟨last, hreach, ⟨final', hstep, heq⟩ | ⟨f, final', -, heq⟩⟩ := h.last
  · cases heq
    obtain ⟨rfl, -, -⟩ := step_finished hstep
    exact hreach
  · cases heq

end ObjectModel.Session
