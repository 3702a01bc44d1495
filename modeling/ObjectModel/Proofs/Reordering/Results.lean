import ObjectModel.Proofs.Reordering.Evaluation

/-!
# Results that a guide has

Every binding that an evaluation demands while it follows a guide gets its value
(`Pairing.evaluable`). The induction is on the rank of the partner in the guide, and within one
instruction on the answer that the guide has found for it (`Pairing.Follows.serve`).
-/

set_option autoImplicit false

namespace ObjectModel

variable {env : Environment}

/-- A constant waits for nothing. -/
theorem Task.Serves.literal?_eq_none {i : Instr} {task : Task} (h : task.Serves i) :
    i.literal? = none := by
  cases h <;> rfl

theorem Session.cursor_settle (s : Session) (t : ValueId) : (s.settle t).cursor = s.cursor := by
  rw [settle]
  split <;> rfl

theorem Session.cursor_create (s : Session) (c : Session.Creation) :
    (s.create c).2.cursor = s.cursor := by
  cases c <;> rfl

namespace Pairing

variable {guide : Guide env} {p q : Pairing guide.toReference}

namespace Follows

variable {top : Activation} {rest : List Activation} {f : Frame} {i : Instr} {b : Slot}
  {y t v : ValueId}

/-! ## Giving a result -/

/-- The most recent activation ends with a value that is paired with the result in the guide. -/
theorem settles (h : p.Follows) (hchain : p.session.chain.entries = top :: rest)
    (hab : p.Slots top.slot b) (hy : guide.session.nodes.node? y = some (.binding b (.resolved t)))
    (hvalue : p.session.nodes.IsValue v) (hv : (p.goTo (p.session.settle v)).Values v t) :
    p.Settles (p.goTo (p.session.settle v)) top rest := by
  obtain ⟨hext, hfollows⟩ := h.settle hchain hab hy hvalue hv
  refine ⟨hext, hfollows, Session.cursor_settle _ _, Session.chain_settle hchain v, v, ?_⟩
  show (p.session.settle v).nodes.node? top.binding = _
  rw [h.sound.node?_settle hchain, if_pos rfl]

/-- The most recent activation ends with a new node. -/
theorem serve_produce (h : p.Follows) (hchain : p.session.chain.entries = top :: rest)
    (hloc : p.session.Located top.slot f i) (hab : p.Slots top.slot b)
    (hy : guide.session.nodes.node? y = some (.binding b (.resolved t))) {m m' : Node}
    (halike : m.Alike p.Locals m') (ht : guide.session.nodes.node? t = some m')
    (hsafe : (Request.produce m).Safe guide.start p.session.nodes)
    (hserves : (Request.produce m).Serves i) :
    ∃ q, p.session.serve env (.produce m) = .running q.session ∧ p.Settles q top rest := by
  obtain ⟨hgrows, hsound⟩ := h.sound.alloc hsafe.1 hsafe.2
  have hnew : (p.session.alloc m).2.nodes.node? (p.session.alloc m).1 = some m :=
    Arena.node?_push_size p.session.nodes m
  have hext : p.Extends (p.goTo (p.session.alloc m).2) := .of_grows hgrows
  have hfollows : (p.goTo (p.session.alloc m).2).Follows := by
    apply h.of_same hsound hgrows rfl
    intro x v a hx
    exact (Arena.binding_push_iff hsafe.1).1 hx
  have hvalue : (p.session.alloc m).2.nodes.IsValue (p.session.alloc m).1 := ⟨m, hnew, hsafe.1⟩
  obtain ⟨hgrows', -⟩ := hsound.settle (t := (p.session.alloc m).1) hchain hvalue
  let q := (p.goTo (p.session.alloc m).2).goTo ((p.session.alloc m).2.settle (p.session.alloc m).1)
  have hext' : (p.goTo (p.session.alloc m).2).Extends q := .of_grows hgrows'
  have hnew' := hgrows'.nodes.value hnew hsafe.1
  have hv : q.Values (p.session.alloc m).1 t := by
    refine ⟨?_, m, m', hnew', ht, halike.imp fun _ _ hx => (hx.mono hext).mono hext'⟩
    cases hserves with
    | literal l _ _ =>
      cases halike
      exact .literal hnew' ht
    | built hbuilds _ =>
      -- The new list or erased type is built for the slot, as the guide's is for its partner.
      obtain ⟨g, -, hloc'⟩ := h.located hab hloc
      have hresolved : q.session.nodes.node? top.binding =
          some (.binding top.slot (.resolved (p.session.alloc m).1)) := by
        show ((p.session.alloc m).2.settle (p.session.alloc m).1).nodes.node? top.binding = _
        rw [hsound.node?_settle hchain, if_pos rfl]
      refine .built ((hab.mono hext).mono hext') ?_ ?_
      · exact ⟨⟨_, hresolved⟩, f, i, (hloc.grows hgrows).grows hgrows', hbuilds⟩
      · refine ⟨⟨y, hy⟩, g, _, hloc', ?_⟩
        rw [Instr.builds_move]
        exact hbuilds
  exact ⟨q, rfl, (hfollows.settles hchain (hab.mono hext) hy hvalue hv).after hext rfl⟩

/-- The most recent activation ends with a value that is there. -/
theorem serve_forward (h : p.Follows) (hchain : p.session.chain.entries = top :: rest)
    (hab : p.Slots top.slot b) (hy : guide.session.nodes.node? y = some (.binding b (.resolved t)))
    (hv : p.Values v t) :
    ∃ q, p.session.serve env (.forward v) = .running q.session ∧ p.Settles q top rest := by
  obtain ⟨hgrows, -⟩ := h.sound.settle hchain hv.isValue
  have hext : p.Extends (p.goTo (p.session.settle v)) := .of_grows hgrows
  exact ⟨_, rfl, h.settles hchain hab hy hv.isValue (hv.mono hext)⟩

/-- The most recent activation ends with an instance. -/
theorem serve_create (h : p.Follows) (hchain : p.session.chain.entries = top :: rest)
    (hab : p.Slots top.slot b) {k : ℕ} {g : Frame}
    (hy : guide.session.nodes.node? y = some (.binding b (.resolved g.object))) {target : Name}
    {xs ys : List ValueId} {key : MemoKey} (hxy : List.Forall₂ p.Locals xs ys)
    (hsafe : (Request.create target xs).Safe guide.start p.session.nodes)
    (hg : guide.session.frames[k]? = some g) (hname : g.cls.name = target)
    (hkey : guide.session.memoKey? target ys = some key)
    (hkey' : guide.session.memoKey? target g.params.toList = some key) :
    ∃ q, p.session.serve env (.create target xs) = .running q.session ∧
      p.Settles q top rest := by
  obtain ⟨c, hc, q, hq, hext, hfollows, hv⟩ := h.create hxy hsafe hg hname hkey hkey'
  obtain ⟨-, -, -, hsame⟩ := h.sound.create hc hsafe
  have hqchain : q.session.chain.entries = top :: rest := by rw [hq, hsame, hchain]
  obtain ⟨r, hr, hset⟩ := hfollows.serve_forward hqchain (hab.mono hext) hy hv
  have hserve : p.session.serve env (.create target xs) =
      .running ((p.session.create c).2.settle (p.session.create c).1) := by
    rw [Session.serve, hc]
  refine ⟨r, ?_, hset.after hext ?_⟩
  · rw [hserve, ← hr, hq]
    rfl
  · rw [hq, Session.cursor_create]

/-! ## Answers -/

/-- What waits is not a constant, so its partner does not have rank zero. -/
theorem rank_pos (h : p.Follows) (hloc : p.session.Located top.slot f i)
    (hab : p.Slots top.slot b) (hy : guide.session.nodes.node? y = some (.binding b (.resolved t)))
    {task : Task} {x : ValueId} (hserves : (Request.await task x).Serves i) : 0 < guide.rank b := by
  obtain ⟨g, -, hloc'⟩ := h.located hab hloc
  apply Nat.pos_of_ne_zero
  intro hzero
  obtain ⟨l, hl⟩ := (guide.ranked.constant hy hloc').1 hzero
  cases hserves with
  | await _ htask =>
    rw [Instr.literal?_move, htask.literal?_eq_none] at hl
    cases hl

/-- A request that is answered in the guide is served, and the most recent activation ends with a
value in the end. -/
theorem serve {req' : Request} {n : ℕ}
    (hans : guide.session.Answers guide.env' (fun c => guide.rank c < n) req' t)
    (hn : ∀ m < n, Evaluable guide m) (hrank : guide.rank b = n)
    (hy : guide.session.nodes.node? y = some (.binding b (.resolved t))) {req : Request}
    (h : p.Follows) (hchain : p.session.chain.entries = top :: rest)
    (hloc : p.session.Located top.slot f i) (hab : p.Slots top.slot b) (hguard : p.Guarded n)
    (hreq : p.Requests req req') (hsafe : req.Safe guide.start p.session.nodes)
    (hserves : req.Serves i) :
    ∃ s₁ q, p.session.serve env req = .running s₁ ∧ Session.Reaches env s₁ q.session ∧
      p.Settles q top rest := by
  -- By induction on the answer in the guide: each task that it waits for is gone through here too.
  induction hans generalizing p top req with
  | produce ht _ =>
    cases hreq with
    | produce halike =>
      obtain ⟨q, hq, hset⟩ := h.serve_produce hchain hloc hab hy halike ht hsafe hserves
      exact ⟨_, q, hq, .refl, hset⟩
  | forward _ =>
    cases hreq with
    | forward hv =>
      obtain ⟨q, hq, hset⟩ := h.serve_forward hchain hab hy hv
      exact ⟨_, q, hq, .refl, hset⟩
  | create hg hname hkey hkey' =>
    cases hreq with
    | create _ hxy =>
      obtain ⟨q, hq, hset⟩ := h.serve_create hchain hab hy hxy hsafe hg hname hkey hkey'
      exact ⟨_, q, hq, .refl, hset⟩
  | await harr hans ih =>
    cases hreq with
    | @await task _ x _ htask hxy =>
      have hpos : 0 < n := hrank ▸ h.rank_pos hloc hab hy hserves
      obtain ⟨hgrows, hsound⟩ := h.sound.serve hchain hsafe rfl
      let p₁ := p.goTo (p.session.setWork (.await task x 0))
      have hext : p.Extends p₁ := .of_grows hgrows
      have hfollows : p₁.Follows := h.of_same hsound hgrows rfl fun hx => hx
      have hentries := Session.chain_setWork hchain (.await task x 0)
      obtain ⟨q, v, u, hleads, hqchain, hv, hany⟩ :=
        hfollows.arrive hentries rfl hn hpos (hguard.work hext hchain hentries) (hxy.mono hext)
          (htask.mono hext) harr
      have hreq' := hv.resume ((htask.mono hext).mono hleads.extends') hans.ne_fail
      have hserves' := (Task.resumes_resume env q.session.nodes v task).serves hserves.task
      have hloc' := (hloc.grows hext.session).grows hleads.extends'.session
      have hresume : q.session.step env = _ := Session.step_resume hqchain rfl hv.isValue hany
      have hsafe' : (task.resume env q.session.nodes v).Safe guide.start q.session.nodes := by
        obtain ⟨n, hnode, hb⟩ := hv.isValue
        apply hleads.follows.sound.safe hqchain
        refine .resume rfl hnode hb ?_
        rintro z rfl ⟨hnarrows, -⟩
        exact hany hnarrows z hnode
      obtain ⟨s₁, r, hs₁, hreach, hset⟩ := ih hy hleads.follows hqchain hloc'
        ((hab.mono hext).mono hleads.extends')
        ((hguard.work hext hchain hentries).work hleads.extends' hentries hqchain) hreq' hsafe'
        hserves'
      refine ⟨_, r, rfl, hleads.reaches.trans (hreach.head (hresume.trans hs₁)), ?_⟩
      have hset' := hset.after (hext.trans hleads.extends') hleads.cursor
      exact ⟨hset'.extends', hset'.follows, hset'.cursor, hset'.chain, hset'.resolved⟩

end Follows

/-- Every activation at its start ends with a value. -/
theorem evaluable (guide : Guide env) (n : ℕ) : Evaluable guide n := by
  induction n using Nat.strong_induction_on with
  | _ n ih =>
    intro p top rest b h hchain hwork hab hrank hrest
    have hwaiting := h.sound.waiting top (hchain ▸ List.mem_cons_self)
    obtain ⟨f, i, hloc⟩ := Session.Located.of_binding h.sound.layout hwaiting
    obtain ⟨g, hfg, hloc'⟩ := h.located hab hloc
    obtain ⟨y, t, hy⟩ := h.exists_resolved hab hloc
    -- In the guide the value of this slot answers its instruction through slots of lower rank.
    have hans := guide.ranked.answers hy hloc'
    rw [hrank] at hans
    have hi : i ∈ f.cls.instrs := Array.mem_of_getElem? hloc.instr
    have hgrows := Session.Grows.counted p.session top
    have hext : p.Extends (p.goTo (p.session.counted top)) := .of_grows hgrows
    have hnodes := Session.nodes_counted p.session top
    have hfollows : (p.goTo (p.session.counted top)).Follows := by
      refine h.of_same (h.sound.counted top) hgrows ?_ ?_
      · rw [Session.counted]
        split <;> rfl
      · intro x v a hx
        rw [← hnodes]
        exact hx
    have hstarts : f.Starts env i _ := Frame.starts_start (h.sound.layout.params_size hloc.frame) hi
    have hentries : (p.session.counted top).chain.entries = top :: rest := by
      rw [Session.chain_counted, hchain]
    have hsafe := hstarts.safe hfollows.sound.layout (hloc.grows hgrows).frame
    have hguard : (p.goTo (p.session.counted top)).Guarded n := by
      intro a ha
      rw [show (p.goTo (p.session.counted top)).session.chain.entries = top :: rest from hentries]
        at ha
      rcases List.mem_cons.1 ha with rfl | ha
      · exact ⟨b, hab.mono hext, hrank.ge⟩
      · obtain ⟨c, hc, hlt⟩ := hrest a ha
        exact ⟨c, hc.mono hext, hlt.le⟩
    have hreq := (hfg.mono hext).start hfollows.toAligned hi hans.ne_fail
    obtain ⟨s₁, q, hs₁, hreach, hset⟩ := hfollows.serve hans ih hrank hy hentries
      (hloc.grows hgrows) (hab.mono hext) hguard hreq hsafe hstarts.serves
    refine ⟨q, hreach.head ?_, hset.after hext ?_⟩
    · rw [← hs₁]
      exact Session.step_start hchain hwork hloc
    · show (p.session.counted top).cursor = _
      rw [Session.counted]
      split <;> rfl

end Pairing

end ObjectModel
