import ObjectModel.Proofs.DataflowCycles

/-!
# Tasks that fail

A task fails at the value that it waited for if that is not what it needs (`Task.Fails`): a field is
read of what has none, lists are joined that are no lists or disagree, or an operator is applied to
what are no integers. Nothing else finds a value to be of the wrong type. So a request that fails
for that comes to such a task (`Evaluator.exists_fails_of_instantiateName`), and a request that
comes to a task which fails does fail (`Evaluator.exists_instantiateName_of_fails`).
-/

set_option autoImplicit false

namespace ObjectModel

variable {env : Environment} {e : EvalError}

/-! ## Sessions -/

namespace Session

variable {start : Nat} {s : Session} {task : Task} {v : ValueId}

theorem Faces.step_of_fails (h : s.Faces task v) (he : task.Fails env s.nodes v e) :
    ∃ s', s.step env = .stopped (.error e) s' := by
  rw [h.step_eq, he.resume_eq]
  exact ⟨_, rfl⟩

/-- A session that stops for a value of the wrong type is at a task that fails with it. -/
theorem Stops.fails {expected got : String} (h : Stops env s (.error e))
    (hk : e.kind = .typeMismatch expected got) (hs : Sound env start s) :
    ∃ task v, s.Faces task v ∧ task.Fails env s.nodes v e := by
  -- Neither a cycle nor the limits are a matter of types, and no instruction fails for them when it
  -- starts.
  generalize hfail : Failure.error e = failure at h
  cases h with
  | cycle _ _ hn =>
    obtain ⟨f, hf⟩ := hs.exists_frame hn
    rw [cycleFailure_eq hf] at hfail
    cases hfail
    cases hk
  | depth hpush =>
    cases hfail
    obtain ⟨max, -, -, rfl⟩ := DemandChain.push_eq_error hpush
    cases hk
  | request hchain hreq =>
    cases hfail
    generalize hreq' : Request.fail (.error e) = req at hreq
    cases hreq with
    | @start f i _ hf hi =>
      have hstarts : f.Starts env i (f.start env i) :=
        Frame.starts_start (hs.layout.params_size hf) (Array.mem_of_getElem? hi)
      rw [← hreq'] at hstarts
      cases hstarts
      cases hk
    | @resume task focus unwrapped n hwork hn hb hany =>
      exact ⟨task, focus, .intro hchain hwork hn hb hany, Task.resume_eq_fail_iff.1 hreq'.symm⟩
  | @creation top rest target args _ hchain hreq hc =>
    cases hfail
    have hargs : ∀ id ∈ args, id.index < (s.counted top).nodes.size := by
      intro id hid
      rw [nodes_counted]
      exact (hs.safe hchain hreq id hid).lt hs.layout.start_le
    rcases creation_eq_error hargs hc with ⟨-, he⟩ | ⟨_, -, -, he⟩ |
      ⟨_, _, _, -, -, -, -, -, -, he⟩
    all_goals
      cases he
      cases hk

end Session

/-! ## Requests -/

namespace Evaluator

variable {ev : Evaluator} {w w₁ : Workspace} {n : Name} {params : List (Option Value)}
  {p : Preparation} {f₀ : Frame} {s₀ : Session}

section

variable (hprepare : ev.prepare w n params = (w₁, .ok p))
  (hopens : p.env.Opens p.nodes n p.args f₀ s₀)

include hprepare hopens

/-- A request whose evaluation comes to a task that fails, fails with it, given enough steps. -/
theorem exists_instantiateName_of_fails {s : Session} {task : Task} {v : ValueId}
    (hr : Session.Reaches p.env s₀ s) (hs : s.Faces task v) (he : task.Fails p.env s.nodes v e) :
    ∃ m, ∀ steps ≥ m, ev.instantiateName w n params steps = (w₁, .error (.error e)) := by
  obtain ⟨s', hstep⟩ := hs.step_of_fails he
  obtain ⟨m, hm⟩ := hr.ends ⟨1, by rw [Session.runFor, hstep]⟩
  refine ⟨m, fun steps hle => instantiateName_of_runFor hprepare hopens ?_⟩
  rw [Session.runFor_of_le hle hm]
  rfl

/-- A request that fails for a value of the wrong type comes to a task that fails for it. -/
theorem exists_fails_of_instantiateName {steps : Nat} {expected got : String}
    (h : (ev.instantiateName w n params steps).2 = .error (.error e))
    (hk : e.kind = .typeMismatch expected got) :
    ∃ s task v, Session.Reaches p.env s₀ s ∧ s.Faces task v ∧ task.Fails p.env s.nodes v e := by
  obtain ⟨s, hr, ⟨final, -, heq⟩ | ⟨f, final, hstep, heq⟩⟩ :=
    Session.Ends.last ⟨steps, runFor_of_instantiateName hprepare hopens h⟩
  · cases heq
  -- The run ends at a session that stops, and a sound one has its reason.
  · cases heq
    have hs := ((hopens.sound (prepare_eq_ok hprepare).nodes).reaches hr).2
    obtain ⟨task, v, hfaces, hfails⟩ := (hs.step_stops hstep).fails hk hs
    exact ⟨s, task, v, hr, hfaces, hfails⟩

end

end Evaluator

end ObjectModel
