import ObjectModel.Proofs.Reordering.Results

/-!
# Runs along a guide

An evaluation that follows a guide comes to its end (`Pairing.Follows.finishes`): each demand of the
cursor ends with a value, and there are no more frames to pass than the guide has.
-/

set_option autoImplicit false

namespace ObjectModel

variable {env : Environment}

/-! ## Steps of the cursor -/

namespace Session

variable {s : Session}

theorem step_past (hchain : s.chain.entries = []) (hframe : s.frames[s.cursor.frame]? = none) :
    s.step env = .finished s := by
  rw [step, hchain]
  show s.advance env = _
  rw [advance, hframe]

theorem step_pass (hchain : s.chain.entries = []) {f : Frame}
    (hframe : s.frames[s.cursor.frame]? = some f) (hend : f.binding? s.cursor.instr = none) :
    s.step env = .running { s with cursor := ⟨s.cursor.frame + 1, 0⟩ } := by
  rw [step, hchain]
  show s.advance env = _
  rw [advance, hframe]
  dsimp only
  rw [hend]

theorem step_enter (hchain : s.chain.entries = []) {f : Frame} {id : ValueId} {slot : Slot}
    {state : BindingState} (hframe : s.frames[s.cursor.frame]? = some f)
    (hid : f.binding? s.cursor.instr = some id)
    (hn : s.nodes.node? id = some (.binding slot state)) :
    s.step env =
      { s with cursor := ⟨s.cursor.frame, s.cursor.instr + 1⟩ }.enter env id slot state := by
  rw [step, hchain]
  show s.advance env = _
  rw [advance, hframe]
  dsimp only
  rw [hid]
  dsimp only
  rw [hn]

end Session

namespace Pairing

variable {guide : Guide env} {p q r : Pairing guide.toReference}

/-! ## Passing frames -/

/-- The evaluation has gone on, and nothing waits. -/
structure Passes (p q : Pairing guide.toReference) : Prop where
  reaches : Session.Reaches env p.session q.session
  extends' : p.Extends q
  follows : q.Follows
  idle : q.session.chain.entries = []

theorem Passes.refl (h : p.Follows) (hchain : p.session.chain.entries = []) : p.Passes p :=
  ⟨.refl, .refl p, h, hchain⟩

theorem Passes.trans (h : p.Passes q) (h' : q.Passes r) : p.Passes r :=
  ⟨h.reaches.trans h'.reaches, h.extends'.trans h'.extends', h'.follows, h'.idle⟩

namespace Follows

variable {f : Frame}

/-- The cursor may move. -/
theorem moves (h : p.Follows) (hchain : p.session.chain.entries = []) {cursor : Slot}
    (hstep : p.session.step env = .running { p.session with cursor }) :
    ∃ q, p.Passes q ∧ q.session.cursor = cursor := by
  have hreach : Session.Reaches env p.session { p.session with cursor } := .single hstep
  obtain ⟨hgrows, hsound⟩ := h.sound.reaches hreach
  exact ⟨p.goTo { p.session with cursor },
    ⟨hreach, .of_grows hgrows, h.of_same hsound hgrows rfl fun hx => hx, hchain⟩, rfl⟩

/-- The cursor passes an instruction once its binding has a value. -/
theorem passes_next (h : p.Follows) (hchain : p.session.chain.entries = [])
    (hframe : p.session.frames[p.session.cursor.frame]? = some f)
    (hlt : p.session.cursor.instr < f.cls.instrs.size) :
    ∃ q, p.Passes q ∧
      q.session.cursor = ⟨p.session.cursor.frame, p.session.cursor.instr + 1⟩ := by
  obtain ⟨state, hn⟩ := h.sound.layout.binding hframe hlt
  have hid : f.binding? p.session.cursor.instr = some ⟨f.base + p.session.cursor.instr⟩ :=
    Frame.binding?_eq_some_iff.2 ⟨hlt, rfl⟩
  have hstep : p.session.step env = _ := Session.step_enter hchain hframe hid hn
  let next : Session :=
    { p.session with cursor := ⟨p.session.cursor.frame, p.session.cursor.instr + 1⟩ }
  cases state with
  | unstarted =>
    obtain ⟨f', i, hloc⟩ := Session.Located.of_binding h.sound.layout hn
    obtain ⟨b, hab⟩ := h.exists_slots hloc
    obtain ⟨s₁, hs₁⟩ := Session.exists_demand (s := next) guide.depth
      ⟨f.base + p.session.cursor.instr⟩ hloc.frame
    obtain ⟨g, chain, -, hentries, hshape⟩ := Session.demand_running hs₁
    have hreach : Session.Reaches env p.session s₁ := .single (hstep.trans hs₁)
    obtain ⟨hgrows, hsound⟩ := h.sound.reaches hreach
    have hguard : p.Guarded (guide.rank b + 1) := by
      intro a ha
      rw [hchain] at ha
      cases ha
    obtain ⟨q, hreach', hset⟩ := h.evaluates hgrows hsound (by rw [hshape]) hn (by rw [hshape])
      (by rw [hshape]; exact hentries) rfl rfl hab (evaluable guide _) hguard
    refine ⟨q, ⟨hreach.trans hreach', .trans (.of_grows hgrows) hset.extends', hset.follows,
      hset.chain.trans hchain⟩, ?_⟩
    rw [hset.cursor]
    show s₁.cursor = _
    rw [hshape]
  | inProgress =>
    -- Nothing is in progress while nothing waits.
    obtain ⟨a, ha, -⟩ := h.sound.inProgress hn
    rw [hchain] at ha
    cases ha
  | resolved t => exact h.moves hchain hstep
  | failed => exact absurd hn h.sound.not_failed

/-- The cursor passes a frame. -/
theorem passes_frame (h : p.Follows) (hchain : p.session.chain.entries = [])
    (hframe : p.session.frames[p.session.cursor.frame]? = some f) :
    ∃ q, p.Passes q ∧ q.session.cursor = ⟨p.session.cursor.frame + 1, 0⟩ := by
  -- By induction on the instructions that the cursor has still to pass in the frame.
  obtain ⟨n, hn⟩ : ∃ n, f.cls.instrs.size - p.session.cursor.instr = n := ⟨_, rfl⟩
  induction n generalizing p with
  | zero =>
    apply h.moves hchain
    apply Session.step_pass hchain hframe
    exact Frame.binding?_eq_none_iff.2 (by omega)
  | succ n ih =>
    obtain ⟨q, hpass, hcursor⟩ := h.passes_next hchain hframe (by omega)
    have hframe' : q.session.frames[q.session.cursor.frame]? = some f := by
      rw [hcursor]
      exact hpass.extends'.session.frames hframe
    obtain ⟨r, hpass', hcursor'⟩ :=
      ih hpass.follows hpass.idle hframe' (by rw [hcursor]; dsimp only; omega)
    refine ⟨r, hpass.trans hpass', ?_⟩
    rw [hcursor', hcursor]

/-- An evaluation that follows a guide comes to its end. -/
theorem finishes (h : p.Follows) (hchain : p.session.chain.entries = []) :
    ∃ q, p.Passes q ∧ q.session.step env = .finished q.session := by
  -- By induction on the frames of the guide that the cursor has not reached: each one passed may
  -- add frames here, but never more than the guide has.
  obtain ⟨n, hn⟩ : ∃ n, guide.session.frames.size - p.session.cursor.frame = n := ⟨_, rfl⟩
  induction n generalizing p with
  | zero =>
    -- The evaluation has no frame that the guide has no place for.
    have hle := h.frames_size_le
    refine ⟨p, .refl h hchain, Session.step_past hchain ?_⟩
    exact Array.getElem?_eq_none_iff.2 (by omega)
  | succ n ih =>
    cases hframe : p.session.frames[p.session.cursor.frame]? with
    | none => exact ⟨p, .refl h hchain, Session.step_past hchain hframe⟩
    | some f =>
      obtain ⟨q, hpass, hcursor⟩ := h.passes_frame hchain hframe
      obtain ⟨r, hpass', hend⟩ := ih hpass.follows hpass.idle (by rw [hcursor]; dsimp only; omega)
      exact ⟨r, hpass.trans hpass', hend⟩

end Follows

end Pairing

end ObjectModel
