import ObjectModel.Proofs.Session.Completion

/-!
# Why an evaluation stops

A step of a sound session that gives up does so for one of four reasons (`Session.Stops`): a binding
is demanded while it is in progress, a demand exceeds the limit of the chain, an instruction or a
task reports an error, or an instantiation is refused. Each of these is an error of its own kind
(`Sound.specific_of_stops`); nothing is ever read out of range, and no binding has failed before.
-/

set_option autoImplicit false

namespace ObjectModel

variable {env : Environment} {start : Nat}

/-! ## The error of a cycle -/

/-- Notes are added behind those that are there, and nothing else changes. -/
theorem EvalError.foldl_withNote {α : Type} (note : α → String) (l : List α) (e : EvalError) :
    l.foldl (fun e a => e.withNote (note a)) e = { e with notes := e.notes ++ l.map note } := by
  induction l generalizing e with
  | nil => simp
  | cons a l ih =>
    rw [List.foldl_cons, ih]
    simp [withNote]

namespace Session

variable {s s' : Session} {e : Failure}

/-- The error of a cycle names the class of the frame that the binding belongs to, then the most
recent demands. -/
theorem cycleFailure_eq {slot : Slot} {f : Frame} (hf : s.frames[slot.frame]? = some f) :
    s.cycleFailure env slot = .error
      { kind := .dataflowCycle (env.names.text f.cls.name)
        notes := ("while evaluating class \"" ++ env.names.text f.cls.name ++ "\"") ::
          ((s.chain.entries.map Activation.demand).take (min 4 s.chain.depth)).map
            (Demand.describe env.names) } := by
  have htake : (s.chain.entries.map Activation.demand).take (min 4 s.chain.depth) =
      (s.chain.entries.take cycleNotes).map Activation.demand := by
    rw [← List.map_take, s.chain.depth_eq, ← List.take_eq_take_min]
    rfl
  rw [cycleFailure, hf, htake]
  simp only [EvalError.foldl_withNote (fun a : Activation => a.demand.describe env.names),
    List.map_map]
  rfl

/-! ## Reasons to stop -/

/-- Why a step gives up. -/
inductive Stops (env : Environment) (s : Session) : Failure → Prop
  | cycle {top : Activation} {rest : List Activation} {task : Task} {focus : ValueId}
      {unwrapped : Nat} {slot : Slot} : s.chain.entries = top :: rest →
      top.work = .await task focus unwrapped →
      s.nodes.node? focus = some (.binding slot .inProgress) → Stops env s (s.cycleFailure env slot)
  | depth {a : Activation} {e : EvalError} : s.chain.push env.limits.depth a = .error e →
      Stops env s (.error e)
  | request {top : Activation} {rest : List Activation} {e : EvalError} :
      s.chain.entries = top :: rest → Asks env s top (.fail (.error e)) → Stops env s (.error e)
  | creation {top : Activation} {rest : List Activation} {target : Name} {args : List ValueId}
      {e : Failure} : s.chain.entries = top :: rest → Asks env s top (.create target args) →
      (s.counted top).creation env target args = .error e → Stops env s e

/-! ## Reading a step that gives up -/

theorem demand_stopped {id : ValueId} {slot : Slot} (h : s.demand env id slot = .stopped e s') :
    (s.frames[slot.frame]? = none ∧ e = .dangling) ∨
      ∃ a err, s.chain.push env.limits.depth a = .error err ∧ e = .error err := by
  rw [demand] at h
  split at h
  · rename_i hf
    cases h
    exact Or.inl ⟨hf, rfl⟩
  · split at h
    · cases h
    · rename_i err hpush
      cases h
      exact Or.inr ⟨_, err, hpush, rfl⟩

theorem serve_stopped {req : Request} (h : s.serve env req = .stopped e s') :
    req = .fail e ∨ ∃ target args, req = .create target args ∧
      s.creation env target args = .error e := by
  cases req with
  | create target args =>
    rw [serve] at h
    split at h
    · cases h
    · rename_i f hc
      cases h
      exact Or.inr ⟨target, args, rfl, hc⟩
  | fail f =>
    cases h
    exact Or.inl rfl
  | _ => cases h

namespace Sound

/-- A binding of a sound session belongs to a frame. -/
theorem exists_frame (h : Sound env start s) {id : ValueId} {slot : Slot} {state : BindingState}
    (hn : s.nodes.node? id = some (.binding slot state)) : ∃ f, s.frames[slot.frame]? = some f := by
  obtain ⟨f, hf, -, -⟩ := h.layout.owned hn
  exact ⟨f, hf⟩

/-- A demand for a binding gives up at the limit of the chain only. -/
theorem demand_stops (h : Sound env start s) {id : ValueId} {slot : Slot} {cursor : Slot}
    (hn : s.nodes.node? id = some (.binding slot .unstarted))
    (hd : demand env { s with cursor } id slot = .stopped e s') : Stops env s e := by
  rcases demand_stopped hd with ⟨hnone, -⟩ | ⟨a, err, hpush, rfl⟩
  · obtain ⟨f, hf⟩ := h.exists_frame hn
    rw [show ({ s with cursor } : Session).frames = s.frames from rfl, hf] at hnone
    cases hnone
  · exact .depth hpush

/-- A request of the most recent activation is refused for an error of the request itself, or
because an instantiation is. -/
theorem serve_stops (h : Sound env start s) {top : Activation} {rest : List Activation}
    (hchain : s.chain.entries = top :: rest) {req : Request} (hreq : Asks env s top req)
    (hs : (s.counted top).serve env req = .stopped e s') : Stops env s e := by
  rcases serve_stopped hs with rfl | ⟨target, args, rfl, hc⟩
  · obtain ⟨err, rfl, -⟩ := h.safe hchain hreq
    exact .request hchain hreq
  · exact .creation hchain hreq hc

/-- What an activation reports is an error of instructions. -/
theorem reported (h : Sound env start s) {top : Activation} {e : EvalError}
    (hreq : Asks env s top (.fail (.error e))) : e.Reported := by
  generalize hfail : Request.fail (.error e) = req at hreq
  cases hreq with
  | @start f i _ hf hi =>
    have hstarts : f.Starts env i (f.start env i) :=
      Frame.starts_start (h.layout.params_size hf) (Array.mem_of_getElem? hi)
    exact hstarts.reports e hfail.symm
  | resume _ _ _ _ => exact Task.reports_resume env s.nodes _ _ e hfail.symm

/-- With nothing waiting, a step gives up at the limit of the chain only. -/
theorem advance_stops (h : Sound env start s) (hchain : s.chain.entries = [])
    (hs : s.advance env = .stopped e s') : Stops env s e := by
  rw [advance] at hs
  split at hs
  · cases hs
  · rename_i f hf
    split at hs
    · cases hs
    · rename_i id hid
      obtain ⟨hlt, rfl⟩ := Frame.binding?_eq_some_iff.1 hid
      obtain ⟨state, hn⟩ := h.layout.binding hf hlt
      simp only [hn] at hs
      cases state with
      | unstarted => exact h.demand_stops hn hs
      -- With nothing waiting nothing is in progress.
      | inProgress =>
        obtain ⟨a, ha, -⟩ := h.inProgress hn
        rw [hchain] at ha
        cases ha
      | resolved t => cases hs
      | failed => exact absurd hn h.not_failed

/-- An activation that waits looks at a position of the arena. -/
theorem look_stops (h : Sound env start s) {top : Activation} {rest : List Activation} {task : Task}
    {focus : ValueId} {unwrapped : Nat} (hchain : s.chain.entries = top :: rest)
    (hwork : top.work = .await task focus unwrapped)
    (hs : s.look env task focus unwrapped = .stopped e s') : Stops env s e := by
  have hpos := h.positions top (hchain ▸ List.mem_cons_self)
  rw [hwork] at hpos
  obtain ⟨n, hn⟩ := Arena.exists_node? (hpos focus List.mem_cons_self)
  -- At a value the task goes on with what it asks for there.
  have hserve : n.isBinding = false →
      (∀ p, n = .any p → ¬ (task.narrows ∧ unwrapped ≤ s.nodes.size)) →
        s.serve env (task.resume env s.nodes focus) = .stopped e s' → Stops env s e := by
    intro hb hany hresume
    have hcounted : (s.counted top).serve env (task.resume env s.nodes focus) = .stopped e s' := by
      rw [Session.counted, hwork]
      exact hresume
    exact h.serve_stops hchain (.resume hwork hn hb hany) hcounted
  rw [look] at hs
  cases n with
  | binding slot state =>
    simp only [hn] at hs
    cases state with
    | unstarted =>
      have hd : demand env { s with cursor := s.cursor } focus slot = .stopped e s' := hs
      exact h.demand_stops hn hd
    -- A binding in progress is waited for by an activation of this chain: a cycle.
    | inProgress =>
      cases hs
      exact .cycle hchain hwork hn
    | resolved t => cases hs
    | failed => exact absurd hn h.not_failed
  | any payload =>
    simp only [hn] at hs
    split at hs
    · cases hs
    · rename_i hlook
      exact hserve rfl (fun _ _ => hlook) hs
  | literal l =>
    simp only [hn] at hs
    exact hserve rfl (by simp) hs
  | object cls fields =>
    simp only [hn] at hs
    exact hserve rfl (by simp) hs
  | list elem elements =>
    simp only [hn] at hs
    exact hserve rfl (by simp) hs

/-- An activation that starts is there with its instruction, which is served. -/
theorem step_of_start (h : Sound env start s) {top : Activation} {rest : List Activation}
    (hchain : s.chain.entries = top :: rest) (hwork : top.work = .start) :
    ∃ req, Asks env s top req ∧ s.step env = (s.counted top).serve env req := by
  obtain ⟨f, i, hf, hi⟩ :=
    Located.of_binding h.layout (h.waiting top (hchain ▸ List.mem_cons_self))
  refine ⟨_, .start hwork hf hi, ?_⟩
  rw [step, hchain]
  simp only [hwork, Session.start, hf, hi, Session.counted]

/-- A step of a sound session that gives up has one of the four reasons. -/
theorem step_stops (h : Sound env start s) (hs : s.step env = .stopped e s') : Stops env s e := by
  cases hchain : s.chain.entries with
  | nil =>
    rw [step] at hs
    simp only [hchain] at hs
    exact h.advance_stops hchain hs
  | cons top rest =>
    cases hwork : top.work with
    | await task focus unwrapped =>
      rw [step] at hs
      simp only [hchain, hwork] at hs
      exact h.look_stops hchain hwork hs
    | start =>
      obtain ⟨req, hreq, heq⟩ := h.step_of_start hchain hwork
      rw [heq] at hs
      exact h.serve_stops hchain hreq hs

/-- Whatever stops a sound session is an error of its own kind. -/
theorem specific_of_stops (h : Sound env start s) (hs : Stops env s e) :
    ∃ err : EvalError, e = .error err ∧ err.Specific := by
  cases hs with
  | @cycle top rest task focus unwrapped slot hchain hwork hn =>
    obtain ⟨f, hf⟩ := h.exists_frame hn
    rw [cycleFailure_eq hf]
    refine ⟨_, rfl, ?_⟩
    intro message hm
    cases hm
  | depth hpush =>
    obtain ⟨max, -, -, rfl⟩ := DemandChain.push_eq_error hpush
    refine ⟨_, rfl, ?_⟩
    intro message hm
    cases hm
  | request hchain hreq =>
    obtain ⟨err, heq, hspecific⟩ := h.safe hchain hreq
    exact ⟨err, heq, hspecific⟩
  | @creation top rest target args e hchain hreq hc =>
    have hargs : ∀ id ∈ args, id.index < (s.counted top).nodes.size := by
      intro id hid
      rw [nodes_counted]
      exact (h.safe hchain hreq id hid).lt h.layout.start_le
    exact specific_of_creation hargs hc

/-- A run of a sound session that fails does so with an error of its own kind. -/
theorem specific_of_ends (h : Sound env start s) (hrun : s.Ends env (.error e)) :
    ∃ err : EvalError, e = .error err ∧ err.Specific := by
  obtain ⟨last, hreach, hend⟩ := hrun.last
  rcases hend with ⟨final, hstep, heq⟩ | ⟨f, final, hstep, heq⟩
  · cases heq
  · cases heq
    have hlast := (h.reaches hreach).2
    exact hlast.specific_of_stops (hlast.step_stops hstep)

end Sound

end Session

end ObjectModel
