import ObjectModel.Proofs.Session.Limits
import ObjectModel.Proofs.Instantiation

/-!
# Resource limits

Limits decide whether a request succeeds, and never with what result. A request that succeeds
without limits succeeds with the same graph under all limits that admit its longest chain of demands
and its objects, and fails for a limit under all others; a request that fails without limits fails
in the same way, or for a limit (`Evaluator.instantiateName_limits`).
-/

set_option autoImplicit false

namespace ObjectModel

open Session (Reaches)

namespace Environment

variable {env : Environment} {l : Limits} {nodes : Arena} {target : Name} {args : List ValueId}
  {f : Frame} {s s₀ : Session} {e : EvalError} {steps : ℕ}

/-- The evaluation without limits goes beyond a limit with its first object, or in the step after
one of its states. -/
inductive CutOff (env : Environment) (l : Limits) (nodes : Arena) (target : Name)
    (args : List ValueId) : EvalError → Prop
  | first : l.instances = some 0 → CutOff env l nodes target args (.ofKind (.instanceLimit 0))
  | later {f : Frame} {s₀ a : Session} {e : EvalError} : env.Opens nodes target args f s₀ →
      Reaches env s₀ a → a.Exceeds env l e → CutOff env l nodes target args e

theorem CutOff.refusal (h : env.CutOff l nodes target args e) : l.Refusal e := by
  cases h with
  | first hmax => exact .instances hmax
  | later _ _ he => exact he.refusal

/-- The first state under limits is the first state without them. -/
theorem Opens.of_within (henv : env.limits = .unlimited)
    (h : (env.within l).Opens nodes target args f s) : env.Opens nodes target args f s := by
  cases h with
  | intro hf =>
    refine .intro { hf with limit := ?_ }
    intro max hmax
    rw [henv] at hmax
    cases hmax

/-- An evaluation under limits is the evaluation without them, or it is cut off. -/
theorem complete_within (henv : env.limits = .unlimited) (l : Limits) (nodes : Arena)
    (target : Name) (args : List ValueId) (steps : ℕ) :
    (env.within l).complete nodes target args steps = env.complete nodes target args steps ∨
      ∃ e, env.CutOff l nodes target args e ∧
        (env.within l).complete nodes target args steps = .error (.error e) := by
  rcases Session.creation_within (s := { nodes }) (l := l) henv target args with
    heq | ⟨max, hmax, hle, heq, -⟩
  · cases hc : Session.creation env { nodes } target args with
    | error f =>
      rw [complete, complete, Session.createObject, Session.createObject, heq, hc]
      exact Or.inl rfl
    | ok c =>
      obtain ⟨f, -, hopens⟩ := opens_of_creation hc
      rw [complete_of_creation (heq.trans hc), complete_of_creation hc]
      rcases Session.runFor_within (l := l) henv steps (Session.create { nodes } c).2 with
        hrun | ⟨a, e, hreach, he, hrun⟩
      · rw [hrun]
        exact Or.inl rfl
      · rw [hrun]
        exact Or.inr ⟨e, .later hopens hreach he, rfl⟩
  · -- There is no frame yet, so the limit is 0.
    obtain rfl : max = 0 := Nat.le_zero.1 hle
    rw [complete, Session.createObject, heq]
    exact Or.inr ⟨_, .first hmax, rfl⟩

theorem evaluate_within (henv : env.limits = .unlimited) (l : Limits) (table : TableId)
    (nodes : Arena) (target : Name) (args : List ValueId) (steps : ℕ) :
    (env.within l).evaluate table nodes target args steps =
        env.evaluate table nodes target args steps ∨
      ∃ e, env.CutOff l nodes target args e ∧
        (env.within l).evaluate table nodes target args steps = .error (.error e) := by
  rcases complete_within henv l nodes target args steps with heq | ⟨e, hcut, heq⟩
  · rw [evaluate, evaluate, heq]
    exact Or.inl rfl
  · rw [evaluate, heq]
    exact Or.inr ⟨e, hcut, rfl⟩

/-- What cuts off an evaluation that succeeds without limits is a limit below its longest chain of
demands, or below the number of its objects. -/
theorem CutOff.exceeded (h : env.CutOff l nodes target args e) (hnodes : nodes.SelfContained)
    (hopens : env.Opens nodes target args f s₀) (hends : s₀.Ends env (.ok s)) {peak : ℕ}
    (hpeak : IsGreatest (s₀.depths env) peak) : l.Exceeded peak s.frames.size e := by
  have hgrows : ∀ {a}, Reaches env s₀ a → a.frames.size ≤ s.frames.size := by
    intro a ha
    have hrest := (((hopens.sound hnodes).reaches ha).2.ends
      ((hopens.explained hnodes).reaches (hopens.sound hnodes) ha) (hends.of_reaches ha)).1
    exact (((hopens.sound hnodes).reaches ha).2.reaches hrest).1.frames_size_le
  cases h with
  | first hmax =>
    apply Limits.Exceeded.instances hmax
    have hone := hgrows .refl
    rw [hopens.frames] at hone
    exact hone
  | later hopens' hreach he =>
    obtain ⟨-, rfl⟩ := hopens.unique hopens'
    cases he with
    | depth hmax hstep hlt =>
      apply Limits.Exceeded.depth hmax
      exact Nat.lt_of_lt_of_le hlt (hpeak.2 ⟨_, hreach.tail hstep, rfl⟩)
    | instances hmax hnext hfinal =>
      -- The run goes on from here, so it makes the step.
      obtain ⟨next, hstep⟩ := (hends.of_reaches hreach).exists_running hfinal
      apply Limits.Exceeded.instances hmax
      exact Nat.lt_of_lt_of_le (hnext next hstep) (hgrows (hreach.tail hstep))

/-- An evaluation that succeeds under limits stays within them. -/
theorem Opens.admits (henv : env.limits = .unlimited) (hnodes : nodes.SelfContained)
    (hopens : (env.within l).Opens nodes target args f s₀)
    (hends : s₀.Ends (env.within l) (.ok s)) {peak : ℕ}
    (hpeak : IsGreatest (s₀.depths env) peak) : l.Admits peak s.frames.size where
  depth := by
    intro max hmax
    obtain ⟨a, ha, hdepth⟩ := hpeak.1
    rw [← hdepth]
    have hstart : s₀.chain.depth ≤ max := by
      have hlength := s₀.chain.depth_eq
      rw [hopens.chain, List.length_nil] at hlength
      omega
    have hmax' : (env.within l).limits.depth = some max := hmax
    exact Session.depth_le_of_reaches hmax' hstart (ha.within henv hends)
  instances := by
    intro max hmax
    have hreach := (hopens.ends hnodes hends).1
    exact ((hopens.counted hnodes).reaches (hopens.sound hnodes) (hopens.builders hnodes)
      hreach).limit max hmax

end Environment

/-! ## Requests -/

/-- The same request under other limits. -/
def Preparation.within (p : Preparation) (l : Limits) : Preparation :=
  { p with env := p.env.within l }

namespace Evaluator

variable {e : Evaluator} {l : Limits} {w w' : Workspace} {n : Name} {params : List (Option Value)}
  {v : Value} {steps : ℕ}

/-- The same evaluator under other limits. -/
def within (e : Evaluator) (l : Limits) : Evaluator := { e with limits := l }

/-- The checks of a request know nothing of limits. -/
theorem prepare_within (e : Evaluator) (l : Limits) (w : Workspace) (n : Name)
    (params : List (Option Value)) :
    (e.within l).prepare w n params =
      ((e.prepare w n params).1, (e.prepare w n params).2.map (·.within l)) := by
  have htable : (e.within l).table = e.table := rfl
  rw [prepare, prepare, htable]
  cases (w.table e.table).lookup? n with
  | none => rfl
  | some cls =>
    by_cases hlength : params.length = cls.params.length
    · simp only [hlength, ne_eq, not_true_eq_false, if_false]
      cases presentParams cls.params params with
      | error decl => rfl
      | ok present =>
        simp only
        rcases Intake.addParams e.table present w {} with ⟨w₁, f | ⟨args, intake⟩⟩
        · rfl
        · rfl
    · simp only [hlength, ne_eq, not_false_eq_true, if_true]
      rfl

/-- A request under limits comes to what it comes to without them, or it is cut off. -/
theorem instantiateName_within (e : Evaluator) (l : Limits) (w : Workspace) (n : Name)
    (params : List (Option Value)) (steps : ℕ) :
    (e.within l).instantiateName w n params steps =
        (e.within .unlimited).instantiateName w n params steps ∨
      ∃ w₁ p err, (e.within .unlimited).prepare w n params = (w₁, .ok p) ∧
        p.env.CutOff l p.nodes n p.args err ∧
          (e.within l).instantiateName w n params steps = (w₁, .error (.error err)) := by
  rcases hprepare : e.prepare w n params with ⟨w₁, f | p⟩
  · rw [instantiateName, instantiateName, prepare_within, prepare_within, hprepare]
    exact Or.inl rfl
  -- Preparing asks for no limit, so the two evaluations start from the same nodes.
  · have h : ∀ l, (e.within l).prepare w n params = (w₁, .ok (p.within l)) := by
      intro l
      rw [prepare_within, hprepare]
      rfl
    have henv : (p.within l).env = (p.within .unlimited).env.within l := rfl
    have hnodes : ∀ l, (p.within l).nodes = p.nodes := fun _ => rfl
    have hargs : ∀ l, (p.within l).args = p.args := fun _ => rfl
    have htable : ∀ l, (e.within l).table = e.table := fun _ => rfl
    rw [instantiateName_of_prepare (h l), instantiateName_of_prepare (h .unlimited), henv,
      hnodes, hnodes, hargs, hargs, htable, htable]
    have hunlimited : (p.within .unlimited).env.limits = .unlimited := rfl
    rcases Environment.evaluate_within hunlimited l e.table p.nodes n p.args steps with
      heq | ⟨err, hcut, heq⟩
    · rw [heq]
      exact Or.inl rfl
    · rw [heq]
      exact Or.inr ⟨w₁, p.within .unlimited, err, h .unlimited, hcut, rfl⟩

/-- A request that succeeds under limits stays within them. -/
theorem Evaluates.admits {l : Limits} {w₂ : Workspace} {v₂ : Value} {p : Preparation} {f : Frame}
    {s₀ s : Session} {peak : ℕ} (h : Evaluates (e.within .unlimited) w n params w' v p f s₀ s)
    (hpeak : IsGreatest (s₀.depths p.env) peak)
    (hl : (e.within l).instantiateName w n params steps = (w₂, .ok v₂)) :
    l.Admits peak s.frames.size := by
  obtain ⟨w₁, hprepare⟩ := h.prepared
  have henv : p.env.limits = .unlimited := (prepare_eq_ok hprepare).limits
  obtain ⟨p', f', s₀', s', heval⟩ := exists_evaluates hl
  obtain rfl : p' = p.within l := by
    obtain ⟨w₃, hprepare'⟩ := heval.prepared
    have hwithin : e.within l = (e.within .unlimited).within l := rfl
    rw [hwithin, prepare_within, hprepare] at hprepare'
    cases hprepare'
    rfl
  obtain ⟨-, rfl⟩ := h.opens.unique (heval.opens.of_within henv)
  have hfinal := h.ends.unique (heval.ends.of_within henv)
  cases hfinal
  exact heval.opens.admits henv h.selfContained heval.ends hpeak

/-- Limits cut a request off and do nothing else. A request that succeeds without limits, with a
longest chain of demands and with so many objects, has the same result under limits that admit both,
and under others fails for a limit that it goes beyond. A request that fails without limits fails in
the same way under limits, or for one of them. -/
theorem instantiateName_limits (e : Evaluator) (w : Workspace) (n : Name)
    (params : List (Option Value)) (steps : ℕ) :
    (∀ {w' v}, (e.within .unlimited).instantiateName w n params steps = (w', .ok v) →
      ∃ p f s₀ s peak, Evaluates (e.within .unlimited) w n params w' v p f s₀ s ∧
        IsGreatest (s₀.depths p.env) peak ∧
        (w'.graph v.graph).stats.objects = UInt64.ofNat s.frames.size ∧
        ∀ l : Limits,
          (l.Admits peak s.frames.size →
            (e.within l).instantiateName w n params steps = (w', .ok v)) ∧
          (¬ l.Admits peak s.frames.size →
            ∃ w₁ err, (e.within l).instantiateName w n params steps = (w₁, .error (.error err)) ∧
              l.Exceeded peak s.frames.size err)) ∧
    ∀ {w' f}, (e.within .unlimited).instantiateName w n params steps = (w', .error f) →
      ∀ l : Limits, (e.within l).instantiateName w n params steps = (w', .error f) ∨
        ∃ err, (e.within l).instantiateName w n params steps = (w', .error (.error err)) ∧
          l.Refusal err := by
  constructor
  · intro w' v h
    obtain ⟨p, f, s₀, s, heval⟩ := exists_evaluates h
    obtain ⟨w₁, hp⟩ := heval.spec
    have hnodes := hp.nodes
    obtain ⟨peak, hpeak⟩ := Session.exists_isGreatest_depths heval.ends
    have hcounted := ((heval.opens.counted hnodes).reaches (heval.opens.sound hnodes)
      (heval.opens.builders hnodes) heval.completed.1)
    refine ⟨p, f, s₀, s, peak, heval, hpeak, ?_, ?_⟩
    · rw [heval.graph]
      exact hcounted.objects
    · intro l
      have hexceeded : ∀ {w₂ : Workspace} {p₂ : Preparation} {err},
          (e.within .unlimited).prepare w n params = (w₂, .ok p₂) →
          p₂.env.CutOff l p₂.nodes n p₂.args err → l.Exceeded peak s.frames.size err := by
        intro w₂ p₂ err hprepare hcut
        obtain ⟨w₃, hprepare'⟩ := heval.prepared
        rw [hprepare] at hprepare'
        cases hprepare'
        exact hcut.exceeded hnodes heval.opens heval.ends hpeak
      rcases instantiateName_within e l w n params steps with
        heq | ⟨w₂, p₂, err, hprepare, hcut, heq⟩
      · exact ⟨fun _ => heq.trans h, fun hnot => absurd (heval.admits hpeak (heq.trans h)) hnot⟩
      · refine ⟨fun hadmits => absurd (hexceeded hprepare hcut) hadmits.not_exceeded, ?_⟩
        intro _
        exact ⟨w₂, err, heq, hexceeded hprepare hcut⟩
  · intro w' f h l
    rcases instantiateName_within e l w n params steps with
      heq | ⟨w₂, p₂, err, hprepare, hcut, heq⟩
    · exact Or.inl (heq.trans h)
    · -- The workspace is the one of the preparation in both.
      have hw : w₂ = w' := by
        rw [instantiateName_of_prepare hprepare] at h
        split at h
        · cases h
          rfl
        · cases h
      rw [← hw]
      exact Or.inr ⟨err, heq, hcut.refusal⟩

end Evaluator

namespace Sample

/-- The class with two boxes, which are one object, needs one demand at a time and two objects: it
stays what it is under these limits, and one object is too few. -/
theorem pair_limits : ∃ w v,
    (evaluator.within .unlimited).instantiateName workspace ⟨3⟩ [] 12 = (w, .ok v) ∧
      (evaluator.within ⟨some 1, some 2⟩).instantiateName workspace ⟨3⟩ [] 12 = (w, .ok v) ∧
        ∃ w₁, (evaluator.within ⟨some 1, some 1⟩).instantiateName workspace ⟨3⟩ [] 12 =
          (w₁, .error (.error (.ofKind (.instanceLimit 1)))) := by
  obtain ⟨w, v, h⟩ := exists_of_isOk
    (show ((evaluator.within .unlimited).instantiateName workspace ⟨3⟩ [] 12).2.isOk = true by
      decide +kernel)
  obtain ⟨w₂, v₂, hsame⟩ := exists_of_isOk
    (show ((evaluator.within ⟨some 1, some 2⟩).instantiateName workspace ⟨3⟩ [] 12).2.isOk =
      true by decide +kernel)
  have hfew : ((evaluator.within ⟨some 1, some 1⟩).instantiateName workspace ⟨3⟩ [] 12).2.isOk =
      false := by decide +kernel
  obtain ⟨p, f, s₀, s, peak, heval, hpeak, -, hlimits⟩ :=
    (Evaluator.instantiateName_limits evaluator workspace ⟨3⟩ [] 12).1 h
  have hadmits : Limits.Admits ⟨some 1, some 2⟩ peak s.frames.size := heval.admits hpeak hsame
  refine ⟨w, v, h, (hlimits _).1 hadmits, ?_⟩
  have hnot : ¬ Limits.Admits ⟨some 1, some 1⟩ peak s.frames.size := by
    intro hone
    rw [(hlimits _).1 hone] at hfew
    cases hfew
  obtain ⟨w₁, err, herror, hexceeded⟩ := (hlimits _).2 hnot
  refine ⟨w₁, herror.trans ?_⟩
  cases hexceeded with
  | depth hmax hlt =>
    cases hmax
    exact absurd (hadmits.depth 1 rfl) (Nat.not_le.2 hlt)
  | instances hmax hlt =>
    cases hmax
    rfl

end Sample

end ObjectModel
