import ObjectModel.Proofs.Reordering.Following

/-!
# Values that a guide has

An evaluation that follows a guide gets the values that its guide has. What an instruction waits for
has a lower rank in the guide than the instruction itself, and whatever is in progress has a higher
one, so no demand meets a binding in progress. While erased types are looked through, the induction
is on their number in the guide, and the evaluation passes no more of them than it has nodes
(`Pairing.Follows.arrive`).
-/

set_option autoImplicit false

namespace ObjectModel

variable {env : Environment}

/-! ## Making a step -/

namespace Session

variable {s : Session} {top : Activation} {rest : List Activation} {task : Task}
  {focus target payload : ValueId} {unwrapped : ℕ} {slot : Slot}

theorem step_await (hchain : s.chain.entries = top :: rest)
    (hwork : top.work = .await task focus unwrapped) :
    s.step env = s.look env task focus unwrapped := by
  rw [step, hchain]
  simp only [hwork]

/-- An activation at its start asks for what its instruction asks for. -/
theorem step_start (hchain : s.chain.entries = top :: rest) (hwork : top.work = .start)
    {f : Frame} {i : Instr} (hloc : s.Located top.slot f i) :
    s.step env = (s.counted top).serve env (f.start env i) := by
  rw [step, hchain]
  simp only [hwork, start, hloc.frame, hloc.instr, counted]

theorem step_follow (hchain : s.chain.entries = top :: rest)
    (hwork : top.work = .await task focus unwrapped)
    (hn : s.nodes.node? focus = some (.binding slot (.resolved target))) :
    s.step env = .running (s.setWork (.await task target unwrapped)) := by
  rw [step_await hchain hwork, look, hn]

theorem step_demand (hchain : s.chain.entries = top :: rest)
    (hwork : top.work = .await task focus unwrapped)
    (hn : s.nodes.node? focus = some (.binding slot .unstarted)) :
    s.step env = s.demand env focus slot := by
  rw [step_await hchain hwork, look, hn]
  rfl

theorem step_unwrap (hchain : s.chain.entries = top :: rest)
    (hwork : top.work = .await task focus unwrapped)
    (hn : s.nodes.node? focus = some (.any payload)) (hnarrows : task.narrows = true)
    (hle : unwrapped ≤ s.nodes.size) :
    s.step env = .running (s.setWork (.await task payload (unwrapped + 1))) := by
  rw [step_await hchain hwork, look, hn]
  exact if_pos ⟨hnarrows, hle⟩

/-- An activation whose value has arrived asks for what its task asks for. -/
theorem step_resume (hchain : s.chain.entries = top :: rest)
    (hwork : top.work = .await task focus unwrapped) (hvalue : s.nodes.IsValue focus)
    (hany : task.narrows = true → ∀ x, s.nodes.node? focus ≠ some (.any x)) :
    s.step env = s.serve env (task.resume env s.nodes focus) := by
  obtain ⟨n, hn, hb⟩ := hvalue
  have hfaces : s.Faces task focus := by
    refine .intro hchain hwork hn hb ?_
    rintro x rfl ⟨hnarrows, -⟩
    exact hany hnarrows x hn
  exact hfaces.step_eq env

/-- Without a limit on the chain every demand joins it. -/
theorem exists_demand (hdepth : env.limits.depth = none) (id : ValueId) {f : Frame}
    (hf : s.frames[slot.frame]? = some f) : ∃ s', s.demand env id slot = .running s' := by
  rw [demand, hf, hdepth]
  exact ⟨_, rfl⟩

end Session

namespace Pairing

variable {guide : Guide env} {p q r : Pairing guide.toReference}

/-! ## Going on -/

/-- The evaluation goes on from one state to the other, which follows the guide too. -/
structure Leads (p q : Pairing guide.toReference) : Prop where
  reaches : Session.Reaches env p.session q.session
  extends' : p.Extends q
  follows : q.Follows
  cursor : q.session.cursor = p.session.cursor

theorem Leads.refl (h : p.Follows) : p.Leads p := ⟨.refl, .refl p, h, rfl⟩

theorem Leads.trans (h : p.Leads q) (h' : q.Leads r) : p.Leads r :=
  ⟨h.reaches.trans h'.reaches, h.extends'.trans h'.extends', h'.follows,
    h'.cursor.trans h.cursor⟩

/-- Every activation that waits has a partner of at least this rank. -/
def Guarded (p : Pairing guide.toReference) (n : ℕ) : Prop :=
  ∀ a ∈ p.session.chain.entries, ∃ b, p.Slots a.slot b ∧ n ≤ guide.rank b

/-- A later state with the same slots in its chain is as well guarded. -/
theorem Guarded.extends' {n : ℕ} (h : p.Guarded n) (hpq : p.Extends q)
    (hchain : ∀ a ∈ q.session.chain.entries, ∃ a' ∈ p.session.chain.entries, a'.slot = a.slot) :
    q.Guarded n := by
  intro a ha
  obtain ⟨a', ha', hslot⟩ := hchain a ha
  obtain ⟨b, hb, hle⟩ := h a' ha'
  rw [hslot] at hb
  exact ⟨b, hb.mono hpq, hle⟩

/-- The most recent activation has ended with a value, and the activations below it wait as they
did. -/
structure Settles (p q : Pairing guide.toReference) (top : Activation) (rest : List Activation) :
    Prop where
  extends' : p.Extends q
  follows : q.Follows
  cursor : q.session.cursor = p.session.cursor
  chain : q.session.chain.entries = rest
  resolved : ∃ v, q.session.nodes.node? top.binding = some (.binding top.slot (.resolved v))

theorem Settles.after {top : Activation} {rest : List Activation} (h : q.Settles r top rest)
    (hpq : p.Extends q) (hcursor : q.session.cursor = p.session.cursor) :
    p.Settles r top rest where
  extends' := hpq.trans h.extends'
  follows := h.follows
  cursor := h.cursor.trans hcursor
  chain := h.chain
  resolved := h.resolved

/-- An activation at its start ends with a value, if its partner has that rank and everything that
waits for it has a higher one. -/
def Evaluable (guide : Guide env) (n : ℕ) : Prop :=
  ∀ {p : Pairing guide.toReference} {top : Activation} {rest : List Activation} {b : Slot},
    p.Follows → p.session.chain.entries = top :: rest → top.work = .start → p.Slots top.slot b →
      guide.rank b = n → (∀ a ∈ rest, ∃ c, p.Slots a.slot c ∧ n < guide.rank c) →
        ∃ q, Session.Reaches env p.session q.session ∧ p.Settles q top rest

namespace Follows

/-! ## Demands -/

/-- Once a binding is in progress, its activation ends with a value. -/
theorem evaluates (h : p.Follows) {s₁ : Session} (hgrows : p.session.Grows s₁)
    (hsound : s₁.Sound env guide.start) (hframes : s₁.frames = p.session.frames) {x : ValueId}
    {a b : Slot} (hx : p.session.nodes.node? x = some (.binding a .unstarted))
    (hnodes : s₁.nodes = p.session.nodes.setIfInBounds x.index (.binding a .inProgress))
    {top : Activation} (hentries : s₁.chain.entries = top :: p.session.chain.entries)
    (hslot : top.slot = a) (hwork : top.work = .start) (hab : p.Slots a b)
    (heval : Evaluable guide (guide.rank b)) (hguard : p.Guarded (guide.rank b + 1)) :
    ∃ q, Session.Reaches env s₁ q.session ∧
      (p.goTo s₁).Settles q top p.session.chain.entries := by
  have hext : p.Extends (p.goTo s₁) := .of_grows hgrows
  have hfollows : (p.goTo s₁).Follows := by
    refine h.of_same hsound hgrows hframes ?_
    intro j v slot hj
    rw [hnodes, Arena.node?_set hx] at hj
    split at hj
    · cases hj
    · exact hj
  subst hslot
  apply heval hfollows hentries hwork (hab.mono hext) rfl
  intro act hact
  obtain ⟨c, hc, hle⟩ := hguard act hact
  exact ⟨c, hc.mono hext, hle⟩

/-- A demand for a binding ends with its value, and the chain is as before. -/
theorem demand (h : p.Follows) {x : ValueId} {a b : Slot}
    (hx : p.session.nodes.node? x = some (.binding a .unstarted)) (hab : p.Slots a b)
    (heval : Evaluable guide (guide.rank b)) (hguard : p.Guarded (guide.rank b + 1)) :
    ∃ s₁ q v, p.session.demand env x a = .running s₁ ∧ Session.Reaches env s₁ q.session ∧
      p.Extends q ∧ q.Follows ∧ q.session.cursor = p.session.cursor ∧
        q.session.chain.entries = p.session.chain.entries ∧
          q.session.nodes.node? x = some (.binding a (.resolved v)) := by
  obtain ⟨f, hf, -, -⟩ := h.sound.layout.owned hx
  obtain ⟨s₁, hs₁⟩ := Session.exists_demand guide.depth x hf
  obtain ⟨g, chain, -, hentries, hshape⟩ := Session.demand_running hs₁
  obtain ⟨hgrows, hsound⟩ := h.sound.mark hx hentries
  rw [← hshape] at hgrows hsound
  obtain ⟨q, hreach, hset⟩ := h.evaluates hgrows hsound (by rw [hshape]) hx (by rw [hshape])
    (by rw [hshape]; exact hentries) rfl rfl hab heval hguard
  obtain ⟨v, hv⟩ := hset.resolved
  refine ⟨s₁, q, v, hs₁, hreach, .trans (.of_grows hgrows) hset.extends', hset.follows, ?_,
    hset.chain, hv⟩
  rw [hset.cursor]
  show s₁.cursor = _
  rw [hshape]

variable {top : Activation} {rest : List Activation} {task : Task} {x y v w : ValueId} {u n : ℕ}
  {a b : Slot}

/-- The most recent activation may go on to wait elsewhere. -/
theorem setWork (h : p.Follows) {work : Work}
    (hstep : p.session.step env = .running (p.session.setWork work)) :
    p.Leads (p.goTo (p.session.setWork work)) := by
  have hreach : Session.Reaches env p.session (p.session.setWork work) := .single hstep
  obtain ⟨hgrows, hsound⟩ := h.sound.reaches hreach
  exact ⟨hreach, .of_grows hgrows, h.of_same hsound hgrows rfl fun hx => hx, rfl⟩

/-- An activation that waits at a binding comes to the value of the binding. -/
theorem reach_binding (h : p.Follows) (hchain : p.session.chain.entries = top :: rest)
    (hwork : top.work = .await task x u) (hn : ∀ m < n, Evaluable guide m) (hguard : p.Guarded n)
    {state : BindingState} (hx : p.session.nodes.node? x = some (.binding a state))
    (hab : p.Slots a b) (hy : guide.session.nodes.node? y = some (.binding b (.resolved w)))
    (hlt : guide.rank b < n) :
    ∃ q v, p.Leads q ∧ q.session.chain.entries = { top with work := .await task v u } :: rest ∧
      q.Values v w := by
  -- It is enough to get to a state in which the binding has a value: then it is followed.
  have hfollow : ∀ {q : Pairing guide.toReference} {v : ValueId}, q.Follows →
      q.session.chain.entries = top :: rest → q.Slots a b →
        q.session.nodes.node? x = some (.binding a (.resolved v)) →
          ∃ r, q.Leads r ∧ r.session.chain.entries = { top with work := .await task v u } :: rest ∧
            r.Values v w := by
    intro q v hq hqchain hqab hqx
    have hleads := hq.setWork (Session.step_follow hqchain hwork hqx)
    refine ⟨_, hleads, Session.chain_setWork hqchain _, ?_⟩
    obtain ⟨y', w', hy', hv⟩ := hq.resolved hqx hqab
    cases guide.completed.sound.layout.binding_unique hy hy'
    rw [hy] at hy'
    cases hy'
    exact hv.mono hleads.extends'
  cases state with
  -- The demand is for a binding of lower rank, so it ends with a value by assumption.
  | unstarted =>
    have hguard' : p.Guarded (guide.rank b + 1) := by
      intro act hact
      obtain ⟨c, hc, hle⟩ := hguard act hact
      exact ⟨c, hc, by omega⟩
    obtain ⟨s₁, q, v, hs₁, hreach, hext, hq, hcursor, hqchain, hqx⟩ :=
      h.demand hx hab (hn _ hlt) hguard'
    have hstep := (Session.step_demand hchain hwork hx).trans hs₁
    obtain ⟨r, hleads, hrchain, hv⟩ :=
      hfollow hq (hqchain.trans hchain) (hab.mono hext) hqx
    exact ⟨r, v, .trans ⟨hreach.head hstep, hext, hq, hcursor⟩ hleads, hrchain, hv⟩
  | inProgress =>
    -- Whatever is in progress waits in the chain and has a rank that is not below `n`.
    obtain ⟨act, hact, rfl⟩ := h.sound.inProgress hx
    have hslot := h.sound.waiting act hact
    rw [hx] at hslot
    cases hslot
    obtain ⟨c, hc, hle⟩ := hguard act hact
    have := guide.rank_eq (h.slots_right_twins hab hc)
    omega
  | resolved v =>
    obtain ⟨r, hleads, hrchain, hv⟩ := hfollow h hchain hab hx
    exact ⟨r, v, hleads, hrchain, hv⟩
  | failed => exact absurd hx h.sound.not_failed

end Follows

end Pairing

/-! ## Literals -/

/-- What is recognized by a literal stands for that literal in the guide. -/
theorem Guide.literal_of_denotes {guide : Guide env} {P : Slot → Prop} {y w : ValueId} {l : Literal}
    (hy : guide.session.memoArg? y = some (.literal l)) (hd : guide.session.nodes.Denotes P y w) :
    guide.session.nodes.node? w = some (.literal l) :=
  guide.ranked.literal_of_denotes guide.completed.sound.layout hy hd

namespace Pairing

variable {guide : Guide env} {p q r : Pairing guide.toReference}

namespace Follows

variable {top : Activation} {rest : List Activation} {task : Task} {x y v w : ValueId} {u n : ℕ}
  {a b : Slot}

/-! ## Values -/

/-- An activation that waits at a local comes to the value of its partner. -/
theorem reach (h : p.Follows) (hchain : p.session.chain.entries = top :: rest)
    (hwork : top.work = .await task x u) (hn : ∀ m < n, Evaluable guide m) (hpos : 0 < n)
    (hguard : p.Guarded n) (hxy : p.Locals x y)
    (hd : guide.session.nodes.Denotes (fun b => guide.rank b < n) y w) :
    ∃ q v, p.Leads q ∧ q.session.chain.entries = { top with work := .await task v u } :: rest ∧
      q.Values v w := by
  have hstay : p.session.chain.entries = { top with work := .await task x u } :: rest := by
    rw [hchain, ← hwork]
  cases hxy with
  | imported hx =>
    obtain ⟨m, hm, hb⟩ := guide.completed.sound.layout.imported hx
    cases hd.eq_of_isValue ⟨m, hm, hb⟩
    exact ⟨p, x, .refl h, hstay, h.values_imported hx⟩
  | binding hx hy hab =>
    obtain ⟨rfl, hlt⟩ := hd.eq_of_binding hy
    exact h.reach_binding hchain hwork hn hguard hx hab hy hlt
  -- Both are recognized by one literal, but their nodes need not be of one kind.
  | @literal _ l hx hy =>
    have hw := Guide.literal_of_denotes hy hd
    rcases Session.literal_of_memoArg? h.sound.layout hx with
      hm | ⟨a, state, f, i, hm, hloc, hlit⟩
    · exact ⟨p, x, .refl h, hstay, .literal hm hw⟩
    · -- A constant may have to be evaluated here although the guide has a literal already.
      obtain ⟨b, hab⟩ := h.exists_slots hloc
      obtain ⟨y', w', hy'⟩ := h.exists_resolved hab hloc
      obtain ⟨g, -, hloc'⟩ := h.located hab hloc
      rw [← Instr.literal?_move] at hlit
      have hzero := (guide.ranked.constant hy' hloc').2 ⟨l, hlit⟩
      have hw' := guide.ranked.literal hy' hloc' hlit
      obtain ⟨q, v, hleads, hqchain, hv⟩ :=
        h.reach_binding hchain hwork hn hguard hm hab hy' (by omega)
      exact ⟨q, v, hleads, hqchain, .literal (hv.literal_left hw') hw⟩

/-- However a local is paired, as many erased types stand around the values of its partners. -/
theorem narrows_unique (h : p.Follows) {P Q : Slot → Prop} {y' w' : ValueId} {j k : ℕ}
    (hxy : p.Locals x y) (hxy' : p.Locals x y') (hj : guide.session.nodes.Narrows P j y w)
    (hk : guide.session.nodes.Narrows Q k y' w') : j = k := by
  have hyy := (h.memoArg?_eq_iff hxy hxy').1 rfl
  obtain ⟨u, hu, -⟩ := guide.reads.narrows (hj.mono (.refl _) fun _ _ => trivial) hyy
  exact (hu.unique hk).1

end Follows

/-- The activation has looked through the erased type at `z`, and at least `k` more of them are to
come before `w` in the guide. -/
def LookedThrough (p : Pairing guide.toReference) (n k : ℕ) (w z : ValueId) : Prop :=
  ∃ x y j, p.session.nodes.node? z = some (.any x) ∧ p.Locals x y ∧
    guide.session.nodes.Narrows (fun b => guide.rank b < n) j y w ∧ k ≤ j

theorem LookedThrough.mono {n k l : ℕ} {w z : ValueId} (h : p.LookedThrough n k w z)
    (hpq : p.Extends q) (hle : l ≤ k) : q.LookedThrough n l w z := by
  obtain ⟨x, y, j, hz, hxy, hj, hk⟩ := h
  exact ⟨x, y, j, hpq.session.nodes.value hz rfl, hxy.mono hpq, hj, by omega⟩

theorem Guarded.work {n : ℕ} (h : p.Guarded n) (hpq : p.Extends q) {top : Activation}
    {rest : List Activation} {work : Work} (hp : p.session.chain.entries = top :: rest)
    (hq : q.session.chain.entries = { top with work } :: rest) : q.Guarded n := by
  refine h.extends' hpq fun a ha => ?_
  rw [hq] at ha
  rcases List.mem_cons.1 ha with rfl | ha
  · exact ⟨top, hp ▸ List.mem_cons_self, rfl⟩
  · exact ⟨a, hp ▸ List.mem_cons_of_mem _ ha, rfl⟩

namespace Follows

variable {top : Activation} {rest : List Activation} {task : Task} {x y w : ValueId} {u k n : ℕ}

/-- An activation that looks through erased types comes to the value behind them. The ones that it
has passed are different nodes, since different numbers of them were still to come, so the bound on
the looks is not met. -/
theorem reach_narrow (hk : guide.session.nodes.Narrows (fun b => guide.rank b < n) k y w)
    (hn : ∀ m < n, Evaluable guide m) (hpos : 0 < n) (hnarrows : task.narrows = true)
    (passed : List ValueId) (h : p.Follows) (hchain : p.session.chain.entries = top :: rest)
    (hwork : top.work = .await task x u) (hguard : p.Guarded n) (hxy : p.Locals x y)
    (hlength : passed.length = u) (hnodup : passed.Nodup)
    (hpassed : ∀ z ∈ passed, p.LookedThrough n k w z) :
    ∃ q v u', p.Leads q ∧ q.session.chain.entries = { top with work := .await task v u' } :: rest ∧
      q.Values v w ∧ ∀ z, q.session.nodes.node? v ≠ some (.any z) := by
  induction hk generalizing p top x u passed with
  | stop hd hany =>
    obtain ⟨q, v, hleads, hqchain, hv⟩ := h.reach hchain hwork hn hpos hguard hxy hd
    refine ⟨q, v, u, hleads, hqchain, hv, ?_⟩
    intro z hz
    obtain ⟨m, m', hm, hm', halike⟩ := hv.nodes
    rw [hz] at hm
    cases hm
    cases halike with
    | any _ => exact hany _ hm'
  | @pass y v' y₁ w k hd hany htail ih =>
    obtain ⟨q, v, hleads, hqchain, hv⟩ := h.reach hchain hwork hn hpos hguard hxy hd
    obtain ⟨x₁, hv₁, hxy₁⟩ : ∃ x₁, q.session.nodes.node? v = some (.any x₁) ∧ q.Locals x₁ y₁ := by
      obtain ⟨m, m', hm, hm', halike⟩ := hv.nodes
      rw [hany] at hm'
      cases hm'
      cases halike with
      | any hx => exact ⟨_, hm, hx⟩
    have hpassed' : ∀ z ∈ passed, q.LookedThrough n (k + 1) w z :=
      fun z hz => (hpassed z hz).mono hleads.extends' (Nat.le_refl _)
    -- Distinct positions fit into the arena, so it may look through one more erased type.
    have hsize : u ≤ q.session.nodes.size := by
      rw [← hlength]
      apply Arena.length_le_of_nodup hnodup
      intro z hz
      obtain ⟨_, _, _, hz', -⟩ := hpassed' z hz
      exact Arena.node?_lt hz'
    -- An erased type that was passed before would have more of them before the value.
    have hnew : v ∉ passed := by
      intro hmem
      obtain ⟨x', y', j, hz, hxy', hj, hle⟩ := hpassed' v hmem
      rw [hv₁] at hz
      cases hz
      have := hleads.follows.narrows_unique hxy₁ hxy' htail hj
      omega
    have hstep : q.session.step env = _ :=
      Session.step_unwrap hqchain rfl hv₁ hnarrows hsize
    have hlook := hleads.follows.setWork hstep
    have hentries := Session.chain_setWork hqchain (.await task x₁ (u + 1))
    obtain ⟨r, v₁, u', hleads', hrchain, hvalues, hlast⟩ :=
      ih (v :: passed) hlook.follows hentries rfl
        ((hguard.work hleads.extends' hchain hqchain).work hlook.extends' hqchain hentries)
        (hxy₁.mono hlook.extends') (by rw [List.length_cons, hlength])
        (List.nodup_cons.2 ⟨hnew, hnodup⟩) (by
          intro z hz
          rcases List.mem_cons.1 hz with rfl | hz
          · exact ⟨x₁, y₁, k, hv₁, hxy₁.mono hlook.extends', htail, Nat.le_refl k⟩
          · exact (hpassed' z hz).mono hlook.extends' (Nat.le_succ k))
    exact ⟨r, v₁, u', (hleads.trans hlook).trans hleads', hrchain, hvalues, hlast⟩

/-- An activation that begins to wait comes to a value that its task does not look through. -/
theorem arrive (h : p.Follows) (hchain : p.session.chain.entries = top :: rest)
    (hwork : top.work = .await task x 0) (hn : ∀ m < n, Evaluable guide m) (hpos : 0 < n)
    (hguard : p.Guarded n) (hxy : p.Locals x y) {task' : Task} (htask : p.Tasks task task')
    (harr : task'.Arrives guide.session.nodes (fun b => guide.rank b < n) y w) :
    ∃ q v u, p.Leads q ∧ q.session.chain.entries = { top with work := .await task v u } :: rest ∧
      q.Values v w ∧ (task.narrows = true → ∀ z, q.session.nodes.node? v ≠ some (.any z)) := by
  rw [Task.Arrives, htask.narrows] at harr
  split at harr
  · rename_i hnarrows
    obtain ⟨k, hk⟩ := harr
    obtain ⟨q, v, u, hleads, hqchain, hv, hlast⟩ :=
      reach_narrow hk hn hpos hnarrows [] h hchain hwork hguard hxy rfl List.nodup_nil
        (fun _ hz => by cases hz)
    exact ⟨q, v, u, hleads, hqchain, hv, fun _ => hlast⟩
  · rename_i hnarrows
    obtain ⟨q, v, hleads, hqchain, hv⟩ := h.reach hchain hwork hn hpos hguard hxy harr
    exact ⟨q, v, 0, hleads, hqchain, hv, fun htrue => absurd htrue hnarrows⟩

end Follows

end Pairing

end ObjectModel
