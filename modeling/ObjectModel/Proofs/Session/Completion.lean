import ObjectModel.Proofs.Session.Explained
import ObjectModel.Proofs.Intake.Copies
import ObjectModel.Proofs.Arena.Sealing

/-!
# Completed evaluations

From the first state of an evaluation to its last. An evaluation that starts in a self-contained
arena starts sound and explained (`Environment.Opens`), and every later state grows out of the first
one. When it ends, every binding of every frame names a value (`Session.Completed`), so the arena
can be sealed (`Session.Completed.whole`).
-/

set_option autoImplicit false

namespace ObjectModel

variable {env : Environment} {start : Nat}

namespace Session

variable {s s' : Session}

/-! ## The first state -/

/-- A session without frames is sound. -/
theorem Sound.initial {nodes : Arena} (h : nodes.SelfContained) :
    Sound env nodes.size { nodes } := by
  -- The first arena has values only, and there are no frames.
  have hvalue : ∀ {id : ValueId} {slot : Slot} {state : BindingState},
      nodes.node? id ≠ some (.binding slot state) := by
    intro id slot state hn
    have := h.value hn
    cases this
  have hframe : ∀ {k : Nat} {f : Frame}, (#[] : Array Frame)[k]? ≠ some f := by
    intro k f hk
    simp at hk
  refine
    { layout :=
        { imported := fun hid => h.isValue hid
          known := fun hf => absurd hf hframe
          params_size := fun hf => absurd hf hframe
          params_local := fun hf => absurd hf hframe
          base_le := fun hf => absurd hf hframe
          apart := fun hf => absurd hf hframe
          binding := fun hf => absurd hf hframe
          object := fun hf => absurd hf hframe
          owned := fun hn => absurd hn hvalue
          children := h.children
          resolved := fun hn => absurd hn hvalue }
      memoized := ⟨fun _ _ _ _ hf => absurd hf hframe, ?_⟩
      waiting := fun a ha => by cases ha
      nodup := List.nodup_nil
      inProgress := fun hn => absurd hn hvalue
      not_failed := hvalue
      positions := fun a ha => by cases ha
      passed := fun hn => absurd hn hvalue
      ahead := ?_ }
  · intro key o ho
    rw [show ({ nodes } : Session).memo = Index.empty from rfl, Index.get?_empty] at ho
    cases ho
  · rintro slot (hlt | ⟨-, hlt⟩) <;> exact absurd hlt (Nat.not_lt_zero _)

/-- A session in which no binding is evaluated and nothing waits is explained. -/
theorem Explained.initial
    (hn : ∀ {id t : ValueId} {slot : Slot}, s.nodes.node? id ≠ some (.binding slot (.resolved t)))
    (hchain : s.chain.entries = []) : Explained env s where
  ranked := ⟨fun _ => 0, 1, fun _ => Nat.one_pos, fun h => absurd h hn, fun h => absurd h hn⟩
  waits := by
    intro a ha
    rw [hchain] at ha
    cases ha

/-- An argument of an instantiation that is not refused is a position of the arena. -/
theorem lt_of_creation {target : Name} {args : List ValueId} {c : Creation}
    (h : s.creation env target args = .ok c) : ∀ id ∈ args, id.index < s.nodes.size := by
  have hkey : ∃ key, s.memoKey? target args = some key := by
    cases c with
    | known o =>
      obtain ⟨-, key, hkey, -⟩ := creation_eq_known h
      exact ⟨key, hkey⟩
    | fresh f key fields => exact ⟨key, (creation_eq_fresh h).keyed⟩
  -- Each argument is recognized by something, so it is there.
  obtain ⟨key, hkey⟩ := hkey
  obtain ⟨ms, hms, -⟩ := Option.map_eq_some_iff.1 hkey
  intro id hid
  obtain ⟨m, -, hm⟩ := exists_of_forall₂_of_mem (mapM_eq_some_iff.1 hms) hid
  obtain ⟨n, hn, -⟩ := Option.map_eq_some_iff.1 hm
  exact Arena.node?_lt hn

/-! ## Runs -/

/-- Every later state grows out of a sound state and is sound. -/
theorem Sound.reaches (h : Sound env start s) (hr : Reaches env s s') :
    s.Grows s' ∧ Sound env start s' :=
  hr.induct (I := fun r => s.Grows r ∧ Sound env start r)
    (fun _ _ hr ht => ⟨hr.1.trans (hr.2.transition ht).1, (hr.2.transition ht).2⟩) ⟨.refl s, h⟩

theorem Explained.reaches (h : Explained env s) (hs : Sound env start s)
    (hr : Reaches env s s') : Explained env s' :=
  (hr.induct (I := fun r => Sound env start r ∧ Explained env r)
    (fun _ _ hr ht => ⟨(hr.1.transition ht).2, hr.2.transition hr.1 ht⟩) ⟨hs, h⟩).2

/-- The state of a session at the end of its run. -/
structure Completed (env : Environment) (start : Nat) (s : Session) : Prop where
  sound : Sound env start s
  explained : Explained env s
  /-- Every binding names its value. -/
  resolved : ∀ {id : ValueId} {slot : Slot} {state : BindingState},
    s.nodes.node? id = some (.binding slot state) → ∃ t, state = .resolved t

/-- At the end every slot with an instruction has its value. -/
theorem Completed.known (h : s.Completed env start) {slot : Slot} {f : Frame} {i : Instr}
    (hloc : s.Located slot f i) : s.Known slot := by
  obtain ⟨hlt, -⟩ := Array.getElem?_eq_some_iff.1 hloc.instr
  obtain ⟨state, hn⟩ := h.sound.layout.binding hloc.frame hlt
  obtain ⟨t, rfl⟩ := h.resolved hn
  exact ⟨_, t, hn⟩

/-- With nothing waiting and the cursor past the last frame, every binding names its value. -/
theorem Sound.completed (h : Sound env start s) (he : Explained env s)
    (hchain : s.chain.entries = []) (hcursor : s.frames[s.cursor.frame]? = none) :
    Completed env start s where
  sound := h
  explained := he
  resolved := by
    intro id slot state hn
    cases state with
    -- The cursor has passed every frame, and it passes started bindings only.
    | unstarted =>
      obtain ⟨f, hf, -, -⟩ := h.layout.owned hn
      have hlt := (Array.getElem?_eq_some_iff.1 hf).1
      have hle := Array.getElem?_eq_none_iff.1 hcursor
      exact absurd (Or.inl (by omega)) (h.passed hn)
    -- Whatever is in progress waits in the chain, which is empty.
    | inProgress =>
      obtain ⟨a, ha, -⟩ := h.inProgress hn
      rw [hchain] at ha
      cases ha
    | resolved t => exact ⟨t, rfl⟩
    | failed => exact absurd hn h.not_failed

/-- A run that ends well ends in a later state in which all bindings are evaluated. -/
theorem Sound.ends (h : Sound env start s) (he : Explained env s) (hrun : s.Ends env (.ok s')) :
    Reaches env s s' ∧ Completed env start s' := by
  obtain ⟨last, hreach, hend⟩ := hrun.last
  rcases hend with ⟨final, hstep, heq⟩ | ⟨f, final, hstep, heq⟩
  · cases heq
    obtain ⟨rfl, hchain, hcursor⟩ := step_finished hstep
    exact ⟨hreach, (h.reaches hreach).2.completed (he.reaches h hreach) hchain hcursor⟩
  · cases heq

end Session

/-! ## Evaluations -/

namespace Environment

variable {nodes : Arena} {target : Name} {args : List ValueId} {root : ValueId} {f : Frame}
  {s s₀ : Session} {steps : Nat}

/-- The first state of an evaluation has one frame, for the class that is asked for. -/
inductive Opens (env : Environment) (nodes : Arena) (target : Name) (args : List ValueId)
    (f : Frame) : Session → Prop
  | intro {key : MemoKey} {fields : List ValueId} :
      Session.Fresh env { nodes } target args f key fields →
        Opens env nodes target args f (Session.addFrame { nodes } f key fields)

/-- The first instantiation of an evaluation is new. -/
theorem opens_of_creation {c : Session.Creation}
    (h : Session.creation env { nodes } target args = .ok c) :
    ∃ f, (Session.create { nodes } c).1 = f.object ∧
      env.Opens nodes target args f (Session.create { nodes } c).2 := by
  cases c with
  | known o =>
    obtain ⟨-, key, -, hget⟩ := Session.creation_eq_known h
    rw [show ({ nodes } : Session).memo = Index.empty from rfl, Index.get?_empty] at hget
    cases hget
  | fresh f key fields => exact ⟨f, rfl, .intro (Session.creation_eq_fresh h)⟩

namespace Opens

theorem frames (h : env.Opens nodes target args f s) : s.frames = #[f] := by
  cases h
  rfl

theorem chain (h : env.Opens nodes target args f s) : s.chain.entries = [] := by
  cases h
  rfl

theorem cls_name (h : env.Opens nodes target args f s) : f.cls.name = target := by
  cases h with
  | intro hf => exact hf.cls_name

theorem params (h : env.Opens nodes target args f s) : f.params = args.toArray := by
  cases h with
  | intro hf => exact hf.params

theorem lookup (h : env.Opens nodes target args f s) :
    env.classes.lookup? target = some f.cls := by
  cases h with
  | intro hf => exact hf.lookup

/-- There is one first state. -/
theorem unique {g : Frame} {s' : Session} (h : env.Opens nodes target args f s)
    (h' : env.Opens nodes target args g s') : f = g ∧ s = s' := by
  cases h with
  | intro hf =>
    cases h' with
    | intro hg =>
      cases Except.ok.inj (hf.creation.symm.trans hg.creation)
      exact ⟨rfl, rfl⟩

/-- The first state is sound. -/
theorem sound (h : env.Opens nodes target args f s) (hnodes : nodes.SelfContained) :
    s.Sound env nodes.size := by
  cases h with
  | intro hf =>
    apply ((Session.Sound.initial hnodes).addFrame hf _).2
    intro id hid
    exact Or.inl (Session.lt_of_creation hf.creation id hid)

/-- No binding of the first state is started. -/
theorem unstarted (h : env.Opens nodes target args f s) (hnodes : nodes.SelfContained)
    {id : ValueId} {slot : Slot} {state : BindingState}
    (hn : s.nodes.node? id = some (.binding slot state)) : state = .unstarted := by
  cases h with
  | intro hf =>
    -- A binding of the first state lies in the block of its only frame.
    rcases (Arena.node?_addBlock hf.base).1 hn with hn | ⟨_, -, -, hn⟩ | ⟨-, hn⟩
    · have := hnodes.value hn
      cases this
    · cases hn
      rfl
    · cases hn

/-- The first state is explained. -/
theorem explained (h : env.Opens nodes target args f s) (hnodes : nodes.SelfContained) :
    s.Explained env := by
  refine .initial ?_ h.chain
  intro id t slot hn
  have := h.unstarted hnodes hn
  cases this

/-- The arguments of the first instantiation are copies of parameters. -/
theorem args_lt (h : env.Opens nodes target args f s) : ∀ x ∈ args, x.index < nodes.size := by
  cases h with
  | intro hf => exact Session.lt_of_creation hf.creation

/-- The first state has the nodes that the evaluation starts with. -/
theorem node? (h : env.Opens nodes target args f s) {x : ValueId} (hx : x.index < nodes.size) :
    s.nodes.node? x = nodes.node? x := by
  obtain ⟨n, hn⟩ := Arena.exists_node? hx
  rw [hn]
  cases h with
  | intro hf => exact (Arena.node?_addBlock hf.base).2 (Or.inl hn)

/-- A copy of a parameter is the same at the end. -/
theorem imported (h : env.Opens nodes target args f s) (hnodes : nodes.SelfContained)
    {s' : Session} (hreach : Session.Reaches env s s') {x : ValueId} (hx : x.index < nodes.size) :
    s'.nodes.node? x = nodes.node? x := by
  obtain ⟨n, hn, hb⟩ := hnodes.isValue hx
  have hn₀ := h.node? hx
  rw [hn] at hn₀ ⊢
  exact ((h.sound hnodes).reaches hreach).1.nodes.value hn₀ hb

/-- The first frame stays there. -/
theorem first (h : env.Opens nodes target args f s) (hnodes : nodes.SelfContained)
    {s' : Session} (hreach : Session.Reaches env s s') : s'.frames[0]? = some f := by
  have hframe : s.frames[0]? = some f := by
    rw [h.frames]
    rfl
  exact ((h.sound hnodes).reaches hreach).1.frames hframe

end Opens

/-- An evaluation creates the first object and runs. -/
theorem complete_eq_ok_iff :
    env.complete nodes target args steps = .ok (root, s) ↔
      ∃ f s₀, env.Opens nodes target args f s₀ ∧ f.object = root ∧
        s₀.runFor env steps = some (.ok s) := by
  rw [complete]
  constructor
  · intro h
    cases hcreate : Session.createObject env { nodes } target args with
    | error f =>
      rw [hcreate] at h
      cases h
    | ok r =>
      rw [hcreate] at h
      obtain ⟨c, hc, rfl⟩ := Session.createObject_eq_ok_iff.1 hcreate
      obtain ⟨f, hobj, hopens⟩ := opens_of_creation hc
      change ((Session.runFor env steps (Session.create { nodes } c).2).getD
        (.error .exhausted)).bind (fun s => .ok (_, s)) = _ at h
      cases hrun : (Session.create { nodes } c).2.runFor env steps with
      | none =>
        rw [hrun] at h
        cases h
      | some result =>
        rw [hrun] at h
        cases result with
        | error f => cases h
        | ok s' =>
          cases h
          exact ⟨f, _, hopens, hobj.symm, hrun⟩
  · rintro ⟨f, s₀, hopens, rfl, hrun⟩
    cases hopens with
    | @intro key fields hf =>
      have hcreate : Session.createObject env { nodes } target args =
          .ok (f.object, Session.addFrame { nodes } f key fields) :=
        Session.createObject_eq_ok_iff.2 ⟨_, hf.creation, rfl⟩
      rw [hcreate]
      show ((Session.runFor env steps _).getD (.error .exhausted)).bind (fun s => .ok (_, s)) = _
      rw [hrun]
      rfl

/-- An evaluation whose first instantiation is not refused is a run. -/
theorem complete_of_creation {c : Session.Creation}
    (h : Session.creation env { nodes } target args = .ok c) :
    env.complete nodes target args steps =
      (((Session.create { nodes } c).2.runFor env steps).getD (.error .exhausted)).map
        fun s => ((Session.create { nodes } c).1, s) := by
  rw [complete, Session.createObject, h]
  simp only [Except.map, bind, Except.bind, pure, Except.pure]

/-- An evaluation fails in its first instantiation, in its run, or by taking too many steps. -/
theorem complete_eq_error {e : Failure} (h : env.complete nodes target args steps = .error e) :
    Session.creation env { nodes } target args = .error e ∨
      ∃ f s₀, env.Opens nodes target args f s₀ ∧
        (s₀.runFor env steps = some (.error e) ∨
          s₀.runFor env steps = none ∧ e = .exhausted) := by
  rw [complete] at h
  cases hcreation : Session.creation env { nodes } target args with
  | error f =>
    rw [Session.createObject, hcreation] at h
    cases h
    exact Or.inl rfl
  | ok c =>
    obtain ⟨f, hobj, hopens⟩ := opens_of_creation hcreation
    refine Or.inr ⟨f, _, hopens, ?_⟩
    rw [Session.createObject, hcreation] at h
    change ((Session.runFor env steps (Session.create { nodes } c).2).getD
      (.error .exhausted)).bind (fun s => .ok (_, s)) = _ at h
    cases hrun : (Session.create { nodes } c).2.runFor env steps with
    | none =>
      rw [hrun] at h
      cases h
      exact Or.inr ⟨rfl, rfl⟩
    | some result =>
      rw [hrun] at h
      cases result with
      | error f =>
        cases h
        exact Or.inl rfl
      | ok s' => cases h

/-- An evaluation that succeeds ends in a later state in which all bindings are evaluated. -/
theorem Opens.ends (h : env.Opens nodes target args f s₀) (hnodes : nodes.SelfContained)
    (hrun : s₀.Ends env (.ok s)) : Session.Reaches env s₀ s ∧ s.Completed env nodes.size :=
  (h.sound hnodes).ends (h.explained hnodes) hrun

end Environment

/-- At the end of a run every position stands for a value. -/
theorem Session.Completed.whole {s : Session} (h : s.Completed env start) : s.nodes.Whole where
  resolved := by
    intro id slot state hn
    obtain ⟨t, rfl⟩ := h.resolved hn
    exact ⟨t, rfl, h.sound.layout.resolved hn⟩
  children := h.sound.layout.children

/-- What an evaluation gives is the sealed arena of the last state of its run. -/
theorem Environment.evaluate_eq_ok_iff {nodes : Arena} (hnodes : nodes.SelfContained)
    {table : TableId} {target : Name} {args : List ValueId} {steps : Nat} {g : Graph}
    {root : ValueId} :
    env.evaluate table nodes target args steps = .ok (g, root) ↔
      ∃ f s₀ s, env.Opens nodes target args f s₀ ∧ s₀.runFor env steps = some (.ok s) ∧
        f.object = root ∧
          g = { nodes := s.nodes.finish, table := some table, stats := s.stats } := by
  rw [evaluate]
  constructor
  · intro h
    cases hcomplete : env.complete nodes target args steps with
    | error e =>
      rw [hcomplete] at h
      cases h
    | ok r =>
      obtain ⟨root', s⟩ := r
      obtain ⟨f, s₀, hopens, rfl, hrun⟩ := complete_eq_ok_iff.1 hcomplete
      rw [hcomplete] at h
      simp only [bind, Except.bind, (hopens.ends hnodes ⟨steps, hrun⟩).2.whole.sealed] at h
      cases h
      exact ⟨f, s₀, s, hopens, hrun, rfl, rfl⟩
  · rintro ⟨f, s₀, s, hopens, hrun, rfl, rfl⟩
    rw [complete_eq_ok_iff.2 ⟨f, s₀, hopens, rfl, hrun⟩]
    simp only [bind, Except.bind, (hopens.ends hnodes ⟨steps, hrun⟩).2.whole.sealed]
    rfl

end ObjectModel
