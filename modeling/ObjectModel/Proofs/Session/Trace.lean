import ObjectModel.Proofs.Session.Counters

/-!
# What a run evaluates

The slots whose instructions a run evaluates, one after the other (`Session.trace`). A step starts
at most one slot, which nothing has started before (`Session.Sound.started_transition`), so no
instruction is evaluated twice (`Session.Regular.trace_nodup`), and a run that succeeds has
evaluated every instruction of every frame (`Session.Completed.mem_trace_iff`).
-/

set_option autoImplicit false

namespace ObjectModel

variable {env : Environment} {start : ℕ}

namespace ClassTable

/-- The number of instructions of the longest class body. -/
def longestBody (t : ClassTable) : ℕ := (t.classes.map fun c => c.instrs.size).foldr max 0

theorem size_le_longestBody {t : ClassTable} {n : Name} {c : ClassDef} (h : t.lookup? n = some c) :
    c.instrs.size ≤ t.longestBody := by
  obtain ⟨hmem, -⟩ := of_lookup?_eq_some h
  exact List.le_max_of_le (List.mem_map.2 ⟨c, hmem, rfl⟩) le_rfl

end ClassTable

namespace Session

variable {s s' : Session}

/-- The slot whose instruction the next step evaluates. -/
def starting? (s : Session) : Option Slot :=
  match s.chain.entries with
  | [] => none
  | top :: _ => if top.work = .start then some top.slot else none

/-- The slots whose instructions the first steps of a run evaluate, in order. -/
def trace (env : Environment) : ℕ → Session → List Slot
  | 0, _ => []
  | n + 1, s =>
    match s.step env with
    | .running next => s.starting?.toList ++ next.trace env n
    | .finished _ => s.starting?.toList
    | .stopped _ _ => s.starting?.toList

/-! ## Slots that start -/

theorem starting?_nil (h : s.chain.entries = []) : s.starting? = none := by
  rw [starting?, h]

theorem starting?_of_start {top : Activation} {rest : List Activation}
    (h : s.chain.entries = top :: rest) (hwork : top.work = .start) :
    s.starting? = some top.slot := by
  rw [starting?, h]
  exact if_pos hwork

theorem starting?_of_ne_start {top : Activation} {rest : List Activation}
    (h : s.chain.entries = top :: rest) (hwork : top.work ≠ .start) : s.starting? = none := by
  rw [starting?, h]
  exact if_neg hwork

/-- Once the most recent activation ends, the next one waits. -/
theorem starting?_settle {top : Activation} {rest : List Activation}
    (hchain : s.chain.entries = top :: rest)
    (hwaits : ∀ a ∈ s.chain.entries.tail, a.work ≠ .start) (t : ValueId) :
    (s.settle t).starting? = none := by
  rw [hchain, List.tail_cons] at hwaits
  cases rest with
  | nil => exact starting?_nil (chain_settle hchain t)
  | cons next rest =>
    exact starting?_of_ne_start (chain_settle hchain t) (hwaits next List.mem_cons_self)

namespace Sound

/-- A slot that is about to start counts as started. -/
theorem mem_started (h : Sound env start s) {slot : Slot} (hslot : s.starting? = some slot) :
    slot ∈ s.started := by
  cases hchain : s.chain.entries with
  | nil =>
    rw [starting?_nil hchain] at hslot
    cases hslot
  | cons top rest =>
    by_cases hwork : top.work = .start
    · rw [starting?_of_start hchain hwork] at hslot
      cases hslot
      exact ⟨top.binding, .inProgress, h.waiting top (hchain ▸ List.mem_cons_self), by simp⟩
    · rw [starting?_of_ne_start hchain hwork] at hslot
      cases hslot

/-- A demand is about to start the slot of its binding. -/
theorem started_demand (h : Sound env start s) {id : ValueId} {slot cursor : Slot}
    (hn : s.nodes.node? id = some (.binding slot .unstarted))
    (hd : demand env { s with cursor } id slot = .running s') :
    s'.starting? = some slot ∧ slot ∉ s.started ∧ s'.started = insert slot s.started := by
  obtain ⟨g, chain, -, hentries, rfl⟩ := demand_running hd
  refine ⟨?_, h.started_insert hn rfl⟩
  rw [starting?, hentries]
  exact if_pos rfl

/-- A request that is served starts nothing. -/
theorem started_serve (h : Sound env start s) (hwaits : ∀ a ∈ s.chain.entries.tail, a.work ≠ .start)
    {top : Activation} {rest : List Activation} (hchain : s.chain.entries = top :: rest)
    {req : Request} (hsafe : req.Safe start s.nodes) (hserve : s.serve env req = .running s') :
    s'.starting? = none ∧ s'.started = s.started := by
  rcases serve_running hserve with ⟨task, focus, rfl, rfl⟩ | ⟨n, rfl, rfl⟩ | ⟨id, rfl, rfl⟩ |
    ⟨target, args, c, rfl, hc, rfl⟩
  · exact ⟨starting?_of_ne_start (chain_setWork hchain _) (by simp), rfl⟩
  · obtain ⟨-, hsound⟩ := h.alloc hsafe.1 hsafe.2
    have hmchain : (s.alloc n).2.chain.entries = top :: rest := hchain
    refine ⟨starting?_settle hmchain hwaits _, ?_⟩
    rw [hsound.started_settle hmchain, started_alloc hsafe.1]
  · exact ⟨starting?_settle hchain hwaits _, h.started_settle hchain _⟩
  · obtain ⟨-, hsound, -, hsame⟩ := h.create hc hsafe
    have hmchain : (s.create c).2.chain.entries = top :: rest := by rw [hsame, hchain]
    refine ⟨starting?_settle hmchain (by rw [hsame]; exact hwaits) _, ?_⟩
    rw [hsound.started_settle hmchain]
    cases c with
    | known o => rfl
    | fresh f key fields => exact started_addFrame (creation_eq_fresh hc).base

/-- What the most recent activation asks for starts nothing. -/
theorem started_asks (h : Sound env start s) (hwaits : ∀ a ∈ s.chain.entries.tail, a.work ≠ .start)
    {top : Activation} {rest : List Activation} (hchain : s.chain.entries = top :: rest)
    {req : Request} (hreq : s.Asks env top req)
    (hserve : (s.counted top).serve env req = .running s') :
    s'.starting? = none ∧ s'.started = s.started := by
  have hsafe : req.Safe start (s.counted top).nodes := by
    rw [nodes_counted]
    exact h.safe hchain hreq
  have hcchain : (s.counted top).chain.entries = top :: rest := by rw [chain_counted, hchain]
  have hcounted : (s.counted top).started = s.started := by
    rw [started, nodes_counted]
    rfl
  rw [← hcounted]
  apply (h.counted top).started_serve _ hcchain hsafe hserve
  rw [chain_counted]
  exact hwaits

/-- A step starts nothing, or a slot that was not started before. -/
theorem started_transition (h : Sound env start s)
    (hwaits : ∀ a ∈ s.chain.entries.tail, a.work ≠ .start) (ht : Transition env s s') :
    s'.starting? = none ∧ s'.started = s.started ∨
      ∃ slot, s'.starting? = some slot ∧ slot ∉ s.started ∧ s'.started = insert slot s.started := by
  cases ht with
  | pass hchain _ _ => exact Or.inl ⟨starting?_nil hchain, rfl⟩
  | skip hchain _ _ _ _ => exact Or.inl ⟨starting?_nil hchain, rfl⟩
  | next hchain hf hid hn hd => exact Or.inr ⟨_, h.started_demand hn hd⟩
  | demand hchain hwork hn hd => exact Or.inr ⟨_, h.started_demand hn hd⟩
  | follow hchain hwork hn =>
    exact Or.inl ⟨starting?_of_ne_start (chain_setWork hchain _) (by simp), rfl⟩
  | unwrap hchain hwork hn _ _ =>
    exact Or.inl ⟨starting?_of_ne_start (chain_setWork hchain _) (by simp), rfl⟩
  | serve hchain hreq hserve => exact Or.inl (h.started_asks hwaits hchain hreq hserve)

end Sound

/-! ## Traces -/

/-- What holds of every state of an evaluation. -/
structure Regular (env : Environment) (start : ℕ) (s : Session) : Prop where
  sound : Sound env start s
  builders : Builders start s fun _ => False
  counted : Counted env s.arriving 0 s

namespace Regular

theorem transition (h : Regular env start s) (ht : Transition env s s') : Regular env start s' :=
  ⟨(h.sound.transition ht).2, h.builders.transition h.sound ht,
    h.counted.transition h.sound h.builders ht⟩

theorem reaches (h : Regular env start s) (hr : Reaches env s s') : Regular env start s' :=
  hr.induct (I := Regular env start) (fun _ _ hr ht => hr.transition ht) h

/-- What is started stays started. -/
theorem started_subset (h : Regular env start s) (hr : Reaches env s s') :
    s.started ⊆ s'.started := by
  refine (hr.induct (I := fun r => Regular env start r ∧ s.started ⊆ r.started) ?_
    ⟨h, subset_rfl⟩).2
  rintro r r' ⟨hr, hsub⟩ ht
  refine ⟨hr.transition ht, hsub.trans ?_⟩
  rcases hr.sound.started_transition hr.counted.waits ht with ⟨-, heq⟩ | ⟨slot, -, -, heq⟩
  · exact heq.ge
  · rw [heq]
    exact Set.subset_insert slot _

end Regular

theorem trace_of_running {next : Session} (h : s.step env = .running next) (n : ℕ) :
    s.trace env (n + 1) = s.starting?.toList ++ next.trace env n := by
  rw [trace, h]

/-- A trace goes on with the run, or it has what the last step evaluates. -/
theorem trace_succ (env : Environment) (s : Session) (n : ℕ) :
    (∃ next, s.step env = .running next ∧
      s.trace env (n + 1) = s.starting?.toList ++ next.trace env n) ∨
      s.trace env (n + 1) = s.starting?.toList := by
  rw [trace]
  cases s.step env with
  | running next => exact Or.inl ⟨next, rfl, rfl⟩
  | finished final => exact Or.inr rfl
  | stopped f last => exact Or.inr rfl

/-- Every slot of a trace is about to start in some state of the run. -/
theorem exists_of_mem_trace {n : ℕ} {slot : Slot} (h : slot ∈ s.trace env n) :
    ∃ a, Reaches env s a ∧ a.starting? = some slot := by
  induction n generalizing s with
  | zero => cases h
  | succ n ih =>
    rcases trace_succ env s n with ⟨next, hstep, heq⟩ | heq
    · rw [heq] at h
      rcases List.mem_append.1 h with hs | hrest
      · exact ⟨s, .refl, Option.mem_toList.1 hs⟩
      · obtain ⟨a, hreach, ha⟩ := ih hrest
        exact ⟨a, hreach.head hstep, ha⟩
    · rw [heq] at h
      exact ⟨s, .refl, Option.mem_toList.1 h⟩

theorem nodup_starting (s : Session) : s.starting?.toList.Nodup := by
  cases s.starting? <;> simp

namespace Regular

/-- No instruction is evaluated twice, and of those that are started only the one that is about to
start is evaluated. -/
theorem trace_nodup (h : Regular env start s) (n : ℕ) :
    (s.trace env n).Nodup ∧ ∀ slot ∈ s.trace env n, s.starting? = some slot ∨ slot ∉ s.started := by
  induction n generalizing s with
  | zero => simp [trace]
  | succ n ih =>
    rcases trace_succ env s n with ⟨next, hstep, heq⟩ | heq
    · have ht := step_transition hstep
      obtain ⟨hnodup, hnew⟩ := ih (h.transition ht)
      -- What the rest of the run evaluates was not started before this step.
      have hrest : ∀ slot ∈ next.trace env n, slot ∉ s.started := by
        intro slot hslot
        rcases h.sound.started_transition h.counted.waits ht with
          ⟨hnone, hsame⟩ | ⟨new, hsome, hfresh, hsame⟩
        · rcases hnew slot hslot with hs | hs
          · rw [hnone] at hs
            cases hs
          · rw [← hsame]
            exact hs
        · rcases hnew slot hslot with hs | hs
          · rw [hsome] at hs
            cases hs
            exact hfresh
          · rw [hsame] at hs
            exact fun hmem => hs (Or.inr hmem)
      rw [heq]
      constructor
      · refine List.nodup_append'.2 ⟨s.nodup_starting, hnodup, ?_⟩
        intro slot hs hslot
        exact hrest slot hslot (h.sound.mem_started (Option.mem_toList.1 hs))
      · intro slot hslot
        rcases List.mem_append.1 hslot with hs | hs
        · exact Or.inl (Option.mem_toList.1 hs)
        · exact Or.inr (hrest slot hs)
    · rw [heq]
      exact ⟨s.nodup_starting, fun slot hs => Or.inl (Option.mem_toList.1 hs)⟩

/-- A run that succeeds evaluates whatever it starts. -/
theorem mem_started_of_runFor (h : Regular env start s) {n : ℕ} {final : Session}
    (hrun : s.runFor env n = some (.ok final)) {slot : Slot} (hslot : slot ∈ final.started) :
    slot ∈ s.started ∧ s.starting? ≠ some slot ∨ slot ∈ s.trace env n := by
  induction n generalizing s with
  | zero => cases hrun
  | succ n ih =>
    -- Either this step starts the slot, or it was started before, or the rest of the run starts it.
    by_cases hstart : s.starting? = some slot
    · right
      rcases trace_succ env s n with ⟨next, hstep, heq⟩ | heq
      · rw [heq]
        exact List.mem_append_left _ (Option.mem_toList.2 hstart)
      · rw [heq]
        exact Option.mem_toList.2 hstart
    · cases hstep : s.step env with
      | running next =>
        have ht := step_transition hstep
        rw [runFor_succ hstep] at hrun
        rcases ih (h.transition ht) hrun with ⟨hmem, hnext⟩ | hmem
        · left
          refine ⟨?_, hstart⟩
          rcases h.sound.started_transition h.counted.waits ht with
            ⟨-, hsame⟩ | ⟨new, hsome, -, hsame⟩
          · rw [← hsame]
            exact hmem
          · rw [hsame] at hmem
            refine Set.mem_of_mem_insert_of_ne hmem ?_
            rintro rfl
            exact hnext hsome
        · right
          rw [trace_of_running hstep]
          exact List.mem_append_right _ hmem
      | finished last =>
        rw [runFor, hstep] at hrun
        cases hrun
        obtain ⟨rfl, -, -⟩ := step_finished hstep
        exact Or.inl ⟨hslot, hstart⟩
      | stopped f last =>
        rw [runFor, hstep] at hrun
        cases hrun

end Regular

/-! ## Slots within bounds -/

/-- The slots of so many frames with so many instructions each. -/
def slotsWithin (frames instrs : ℕ) : Finset Slot :=
  (Finset.range frames ×ˢ Finset.range instrs).map
    ⟨fun p => ⟨p.1, p.2⟩, fun p q h => by cases p; cases q; cases h; rfl⟩

theorem mem_slotsWithin {frames instrs : ℕ} {slot : Slot} :
    slot ∈ slotsWithin frames instrs ↔ slot.frame < frames ∧ slot.instr < instrs := by
  simp only [slotsWithin, Finset.mem_map, Finset.mem_product, Finset.mem_range,
    Prod.exists]
  constructor
  · rintro ⟨k, i, h, rfl⟩
    exact h
  · intro h
    exact ⟨slot.frame, slot.instr, h, rfl⟩

theorem card_slotsWithin (frames instrs : ℕ) :
    (slotsWithin frames instrs).card = frames * instrs := by
  rw [slotsWithin, Finset.card_map, Finset.card_product, Finset.card_range, Finset.card_range]

/-- Whatever is started under a limit on instances is one of so many slots. -/
theorem Regular.mem_slotsWithin (h : Regular env start s) {max : ℕ}
    (hmax : env.limits.instances = some max) {slot : Slot} (hslot : slot ∈ s.started) :
    slot ∈ slotsWithin max env.classes.longestBody := by
  obtain ⟨id, state, hn, -⟩ := hslot
  obtain ⟨f, i, hloc⟩ := Located.of_binding h.sound.layout hn
  rw [Session.mem_slotsWithin]
  constructor
  · have hlt := (Array.getElem?_eq_some_iff.1 hloc.frame).1
    exact Nat.lt_of_lt_of_le hlt (h.counted.limit max hmax)
  · have hlt := (Array.getElem?_eq_some_iff.1 hloc.instr).1
    exact Nat.lt_of_lt_of_le hlt
      (ClassTable.size_le_longestBody (h.sound.layout.known hloc.frame))

theorem Regular.started_ncard_le (h : Regular env start s) {max : ℕ}
    (hmax : env.limits.instances = some max) :
    s.started.ncard ≤ max * env.classes.longestBody := by
  rw [← card_slotsWithin, ← Set.ncard_coe_finset]
  exact Set.ncard_le_ncard (fun slot hslot => h.mem_slotsWithin hmax hslot)

/-- Under a limit on instances a run evaluates so many instructions at most, however long it
goes on. -/
theorem Regular.trace_length_le (h : Regular env start s) {max : ℕ}
    (hmax : env.limits.instances = some max) (n : ℕ) :
    (s.trace env n).length ≤ max * env.classes.longestBody := by
  classical
  rw [← card_slotsWithin, ← List.toFinset_card_of_nodup (h.trace_nodup n).1]
  apply Finset.card_le_card
  intro slot hslot
  obtain ⟨a, hreach, ha⟩ := exists_of_mem_trace (List.mem_toFinset.1 hslot)
  exact (h.reaches hreach).mem_slotsWithin hmax ((h.reaches hreach).sound.mem_started ha)

/-- A run that succeeds has evaluated every instruction of every frame, each one once. -/
theorem Completed.mem_trace_iff (h : s'.Completed env start) (hs : Regular env start s)
    (hempty : s.started = ∅) {n : ℕ} (hrun : s.runFor env n = some (.ok s')) {slot : Slot} :
    slot ∈ s.trace env n ↔ ∃ f i, s'.Located slot f i := by
  constructor
  · intro hslot
    obtain ⟨a, hreach, ha⟩ := exists_of_mem_trace hslot
    have hrest : Reaches env a s' := (Ends.of_reaches ⟨n, hrun⟩ hreach).reaches
    have hmem : slot ∈ s'.started := (hs.reaches hreach).started_subset hrest
      ((hs.reaches hreach).sound.mem_started ha)
    rw [h.started_eq] at hmem
    exact hmem
  · intro hloc
    have hslot : slot ∈ s'.started := by
      rw [h.started_eq]
      exact hloc
    rcases hs.mem_started_of_runFor hrun hslot with ⟨hmem, -⟩ | hmem
    · rw [hempty] at hmem
      exact absurd hmem (Set.notMem_empty slot)
    · exact hmem

end Session

/-- An evaluation starts regular. -/
theorem Environment.Opens.regular {nodes : Arena} {target : Name} {args : List ValueId} {f : Frame}
    {s : Session} (h : env.Opens nodes target args f s) (hnodes : nodes.SelfContained) :
    s.Regular env nodes.size :=
  ⟨h.sound hnodes, h.builders hnodes, h.counted hnodes⟩

end ObjectModel
