import ObjectModel.Proofs.Session.Builders
import Mathlib.Data.Set.Card
import Mathlib.Data.Set.Finite.Lattice

/-!
# What the counters count

The counters of an evaluation can be read off its state (`Session.Counted`). The instructions that
were carried out are the slots whose bindings are started, except for an activation that has just
joined the chain. Every object belongs to a frame, and all but the first request for one came from
an instruction that is evaluated. As long as the evaluation goes on, the limit on instances is kept.
-/

set_option autoImplicit false

namespace ObjectModel

variable {env : Environment} {start : ℕ}

namespace Session

variable {s s' : Session} {q : Instr → Bool}

/-! ## Slots -/

/-- The slots whose bindings were demanded. -/
def started (s : Session) : Set Slot :=
  { slot | ∃ id state, s.nodes.node? id = some (.binding slot state) ∧ state ≠ .unstarted }

/-- The slots of instantiations that are evaluated. -/
def instantiated (s : Session) : Set Slot :=
  { slot | s.Known slot ∧ ∃ f i, s.Located slot f i ∧ i.creates = true }

/-- The slots of instructions of a kind that are evaluated. -/
def evaluated (s : Session) (q : Instr → Bool) : Set Slot :=
  { slot | s.Known slot ∧ ∃ f i, s.Located slot f i ∧ q i = true }

/-- The number of activations that have not begun with their instruction. Only the most recent one
may be among them. -/
def arriving (s : Session) : ℕ :=
  match s.chain.entries with
  | [] => 0
  | top :: _ => if top.work = .start then 1 else 0

theorem arriving_nil (h : s.chain.entries = []) : s.arriving = 0 := by
  rw [arriving, h]

/-- An activation that has just joined the chain has not begun. -/
theorem arriving_of_start {top : Activation} {rest : List Activation}
    (h : s.chain.entries = top :: rest) (hwork : top.work = .start) : s.arriving = 1 := by
  rw [arriving, h]
  exact if_pos hwork

theorem arriving_of_await {top : Activation} {rest : List Activation} {task : Task}
    {focus : ValueId} {unwrapped : ℕ} (h : s.chain.entries = top :: rest)
    (hwork : top.work = .await task focus unwrapped) : s.arriving = 0 := by
  rw [arriving, h]
  exact if_neg (by simp [hwork])

theorem started_finite (s : Session) : s.started.Finite := by
  -- Every position holds the binding of one slot at most.
  have hsub : ∀ i, { slot | ∃ state, s.nodes.node? ⟨i⟩ = some (.binding slot state) }.Finite := by
    intro i
    apply Set.Subsingleton.finite
    rintro slot ⟨state, hn⟩ slot' ⟨state', hn'⟩
    rw [hn] at hn'
    cases hn'
    rfl
  refine (Set.Finite.biUnion (Set.finite_lt_nat s.nodes.size) fun i _ => hsub i).subset ?_
  rintro slot ⟨id, state, hn, -⟩
  exact Set.mem_biUnion (Arena.node?_lt hn) ⟨state, hn⟩

theorem Known.started {slot : Slot} (h : s.Known slot) : slot ∈ s.started := by
  obtain ⟨id, t, hn⟩ := h
  exact ⟨id, _, hn, by simp⟩

theorem evaluated_finite (s : Session) (q : Instr → Bool) : (s.evaluated q).Finite :=
  s.started_finite.subset fun _ h => h.1.started

/-! ## The invariant -/

/-- What the counters of a session tell, when so many activations have not been counted yet as
instructions, and so many objects were given that no binding names yet. -/
structure Counted (env : Environment) (arriving given : ℕ) (s : Session) : Prop where
  instructions : ∃ n, s.stats.instructions = UInt64.ofNat n ∧ n + arriving = s.started.ncard
  objects : s.stats.objects = UInt64.ofNat s.frames.size
  memoHits : ∃ n, s.stats.memoHits = UInt64.ofNat n ∧
    s.frames.size + n = s.instantiated.ncard + 1 + given
  /-- The limit on instances is kept. -/
  limit : ∀ max, env.limits.instances = some max → s.frames.size ≤ max
  /-- Every activation but the most recent one waits. -/
  waits : ∀ a ∈ s.chain.entries.tail, a.work ≠ .start

/-! ## Updates -/

theorem evaluated_congr (hknown : ∀ slot, s'.Known slot ↔ s.Known slot)
    (hloc : ∀ {slot f i}, s.Known slot → (s'.Located slot f i ↔ s.Located slot f i)) :
    s'.evaluated q = s.evaluated q := by
  ext slot
  constructor
  · rintro ⟨hk, f, i, hf, hi⟩
    have hk' := (hknown slot).1 hk
    exact ⟨hk', f, i, (hloc hk').1 hf, hi⟩
  · rintro ⟨hk, f, i, hf, hi⟩
    exact ⟨(hknown slot).2 hk, f, i, (hloc hk).2 hf, hi⟩

theorem evaluated_of_nodes (hnodes : s'.nodes = s.nodes) (hframes : s'.frames = s.frames) :
    s'.evaluated q = s.evaluated q := by
  apply evaluated_congr
  · intro slot
    rw [Known, Known, hnodes]
  · intro slot f i _
    exact ⟨fun hf => ⟨hframes ▸ hf.frame, hf.instr⟩, fun hf => ⟨hframes ▸ hf.frame, hf.instr⟩⟩

/-- A demand starts a new slot, that of the binding. -/
theorem Sound.started_insert (h : Sound env start s) {id : ValueId} {slot : Slot}
    (hn : s.nodes.node? id = some (.binding slot .unstarted))
    (hs' : s'.nodes = s.nodes.setIfInBounds id.index (.binding slot .inProgress)) :
    slot ∉ s.started ∧ s'.started = insert slot s.started := by
  constructor
  · -- An unstarted binding is the only one of its slot, so the slot is new.
    rintro ⟨j, state, hj, hstate⟩
    cases h.layout.binding_unique hn hj
    rw [hn] at hj
    cases hj
    exact hstate rfl
  · ext x
    constructor
    · rintro ⟨j, state, hj, hstate⟩
      rw [hs', Arena.node?_set hn] at hj
      split at hj
      · cases hj
        exact Or.inl rfl
      · exact Or.inr ⟨j, state, hj, hstate⟩
    · rintro (rfl | ⟨j, state, hj, hstate⟩)
      · refine ⟨id, .inProgress, ?_, by simp⟩
        rw [hs', Arena.node?_set hn, if_pos rfl]
      · refine ⟨j, state, ?_, hstate⟩
        rw [hs', Arena.node?_set hn]
        split
        · rename_i heq
          rw [heq, hn] at hj
          cases hj
          exact absurd rfl hstate
        · exact hj

/-- A demand starts one more slot. -/
theorem Sound.started_mark (h : Sound env start s) {id : ValueId} {slot : Slot}
    (hn : s.nodes.node? id = some (.binding slot .unstarted))
    (hs' : s'.nodes = s.nodes.setIfInBounds id.index (.binding slot .inProgress)) :
    s'.started.ncard = s.started.ncard + 1 := by
  obtain ⟨hnew, heq⟩ := h.started_insert hn hs'
  rw [heq, Set.ncard_insert_of_notMem hnew s.started_finite]

theorem evaluated_mark {id : ValueId} {slot : Slot}
    (hn : s.nodes.node? id = some (.binding slot .unstarted))
    (hs' : s'.nodes = s.nodes.setIfInBounds id.index (.binding slot .inProgress))
    (hframes : s'.frames = s.frames) : s'.evaluated q = s.evaluated q := by
  apply evaluated_congr
  · intro x
    constructor
    · rintro ⟨j, t, hj⟩
      rw [hs', Arena.node?_set hn] at hj
      split at hj
      · cases hj
      · exact ⟨j, t, hj⟩
    · rintro ⟨j, t, hj⟩
      refine ⟨j, t, ?_⟩
      rw [hs', Arena.node?_set hn]
      split
      · rename_i heq
        rw [heq, hn] at hj
        cases hj
      · exact hj
  · intro x f i _
    exact ⟨fun h => ⟨hframes ▸ h.frame, h.instr⟩, fun h => ⟨hframes ▸ h.frame, h.instr⟩⟩

/-- A value that is added starts nothing. -/
theorem started_alloc {n : Node} (hn : n.isBinding = false) :
    (s.alloc n).2.started = s.started := by
  have hread : ∀ {id slot state}, (s.alloc n).2.nodes.node? id = some (.binding slot state) ↔
      s.nodes.node? id = some (.binding slot state) := Arena.binding_push_iff hn
  ext slot
  constructor
  · rintro ⟨id, state, hid, hstate⟩
    exact ⟨id, state, hread.1 hid, hstate⟩
  · rintro ⟨id, state, hid, hstate⟩
    exact ⟨id, state, hread.2 hid, hstate⟩

/-- A value that is added evaluates nothing. -/
theorem evaluated_alloc {n : Node} (hn : n.isBinding = false) :
    (s.alloc n).2.evaluated q = s.evaluated q := by
  have hread : ∀ {id slot state}, (s.alloc n).2.nodes.node? id = some (.binding slot state) ↔
      s.nodes.node? id = some (.binding slot state) := Arena.binding_push_iff hn
  apply evaluated_congr
  · intro slot
    constructor
    · rintro ⟨id, t, hid⟩
      exact ⟨id, t, hread.1 hid⟩
    · rintro ⟨id, t, hid⟩
      exact ⟨id, t, hread.2 hid⟩
  · intro slot f i _
    exact ⟨fun hf => ⟨hf.frame, hf.instr⟩, fun hf => ⟨hf.frame, hf.instr⟩⟩

namespace Sound

variable {top : Activation} {rest : List Activation} {f : Frame} {key : MemoKey}
  {fields : List ValueId}

/-- No binding of a new frame is started. -/
theorem started_addFrame (hbase : f.base = s.nodes.size) :
    (s.addFrame f key fields).started = s.started := by
  have hread := @Arena.node?_addBlock s.nodes f s.frames.size fields hbase
  ext slot
  constructor
  · rintro ⟨id, state, hid, hstate⟩
    rcases hread.1 hid with hid | ⟨_, -, -, hid⟩ | ⟨-, hid⟩
    · exact ⟨id, state, hid, hstate⟩
    · cases hid
      exact absurd rfl hstate
    · cases hid
  · rintro ⟨id, state, hid, hstate⟩
    exact ⟨id, state, hread.2 (Or.inl hid), hstate⟩

/-- No instruction of a new frame is evaluated. -/
theorem evaluated_addFrame (h : Sound env start s) (hbase : f.base = s.nodes.size) :
    (s.addFrame f key fields).evaluated q = s.evaluated q := by
  have hread := @Arena.node?_addBlock s.nodes f s.frames.size fields hbase
  apply evaluated_congr
  · intro slot
    constructor
    · rintro ⟨id, t, hid⟩
      rcases hread.1 hid with hid | ⟨_, -, -, hid⟩ | ⟨-, hid⟩
      · exact ⟨id, t, hid⟩
      · cases hid
      · cases hid
    · rintro ⟨id, t, hid⟩
      exact ⟨id, t, hread.2 (Or.inl hid)⟩
  · rintro slot g i ⟨id, t, hid⟩
    -- The frame of a binding that is there is not the new one.
    obtain ⟨g', hg', -, -⟩ := h.layout.owned hid
    have hsame : (s.addFrame f key fields).frames[slot.frame]? = s.frames[slot.frame]? :=
      (getElem?_push_of_eq_some hg' f).trans hg'.symm
    exact ⟨fun hg => ⟨hsame ▸ hg.frame, hg.instr⟩, fun hg => ⟨hsame ▸ hg.frame, hg.instr⟩⟩

/-- The end of an activation starts nothing. -/
theorem started_settle (h : Sound env start s) (hchain : s.chain.entries = top :: rest)
    (t : ValueId) : (s.settle t).started = s.started := by
  have hn := h.waiting top (hchain ▸ List.mem_cons_self)
  ext slot
  constructor
  · -- Only the state of the top binding changes, from in progress to resolved.
    rintro ⟨id, state, hid, hstate⟩
    rw [h.node?_settle hchain] at hid
    split at hid
    · cases hid
      exact ⟨top.binding, .inProgress, hn, by simp⟩
    · exact ⟨id, state, hid, hstate⟩
  · rintro ⟨id, state, hid, hstate⟩
    by_cases heq : id = top.binding
    · rw [heq, hn] at hid
      cases hid
      exact ⟨top.binding, .resolved t, by rw [h.node?_settle hchain, if_pos rfl], by simp⟩
    · exact ⟨id, state, by rw [h.node?_settle hchain, if_neg heq, hid], hstate⟩

theorem known_settle (h : Sound env start s) (hchain : s.chain.entries = top :: rest)
    {t : ValueId} {slot : Slot} :
    (s.settle t).Known slot ↔ s.Known slot ∨ slot = top.slot := by
  constructor
  · rintro ⟨id, u, hid⟩
    rw [h.node?_settle hchain] at hid
    split at hid
    · cases hid
      exact Or.inr rfl
    · exact Or.inl ⟨id, u, hid⟩
  · rintro (⟨id, u, hid⟩ | rfl)
    · refine ⟨id, u, ?_⟩
      rw [h.node?_settle hchain, if_neg, hid]
      rintro rfl
      rw [h.waiting top (hchain ▸ List.mem_cons_self)] at hid
      cases hid
    · exact ⟨top.binding, t, by rw [h.node?_settle hchain, if_pos rfl]⟩

/-- The end of an activation is counted among those of the kind of its instruction. -/
theorem evaluated_settle (h : Sound env start s) (hchain : s.chain.entries = top :: rest)
    {t : ValueId} {f : Frame} {i : Instr} (hloc : s.Located top.slot f i) :
    ((s.settle t).evaluated q).ncard = (s.evaluated q).ncard + if q i = true then 1 else 0 := by
  split
  · -- An instruction of the kind ends: its slot joins the others.
    rename_i hi
    have hnew : top.slot ∉ s.evaluated q := fun hk => h.not_known_top hchain hk.1
    rw [← Set.ncard_insert_of_notMem hnew (s.evaluated_finite q)]
    congr 1
    ext slot
    constructor
    · rintro ⟨hk, g, j, hj, hq⟩
      rcases (h.known_settle hchain).1 hk with hk | rfl
      · exact Or.inr ⟨hk, g, j, located_settle.1 hj, hq⟩
      · exact Or.inl rfl
    · rintro (rfl | ⟨hk, g, j, hj, hq⟩)
      · exact ⟨(h.known_settle hchain).2 (Or.inr rfl), f, i, located_settle.2 hloc, hi⟩
      · exact ⟨(h.known_settle hchain).2 (Or.inl hk), g, j, located_settle.2 hj, hq⟩
  · -- Any other instruction ends: its slot is known now, but it does not count.
    rename_i hi
    rw [Nat.add_zero]
    congr 1
    ext slot
    constructor
    · rintro ⟨hk, g, j, hj, hq⟩
      rcases (h.known_settle hchain).1 hk with hk | rfl
      · exact ⟨hk, g, j, located_settle.1 hj, hq⟩
      · obtain ⟨-, rfl⟩ := hloc.unique (located_settle.1 hj)
        exact absurd hq hi
    · rintro ⟨hk, g, j, hj, hq⟩
      exact ⟨(h.known_settle hchain).2 (Or.inl hk), g, j, located_settle.2 hj, hq⟩

end Sound

theorem arriving_settle {top : Activation} {rest : List Activation}
    (hchain : s.chain.entries = top :: rest)
    (hwaits : ∀ a ∈ s.chain.entries.tail, a.work ≠ .start) (t : ValueId) :
    (s.settle t).arriving = 0 := by
  rw [arriving, chain_settle hchain]
  rw [hchain, List.tail_cons] at hwaits
  cases rest with
  | nil => rfl
  | cons next rest => exact if_neg (hwaits next List.mem_cons_self)

theorem stats_settle (s : Session) (t : ValueId) : (s.settle t).stats = s.stats := by
  rw [settle]
  split <;> rfl

namespace Counted

variable {arriving given : ℕ} {top : Activation} {rest : List Activation}

theorem of_same (h : Counted env arriving given s) (hstarted : s'.started = s.started)
    (hinst : s'.instantiated = s.instantiated) (hframes : s'.frames = s.frames)
    (hstats : s'.stats = s.stats) (hwaits : ∀ a ∈ s'.chain.entries.tail, a.work ≠ .start) :
    Counted env arriving given s' := by
  refine ⟨?_, ?_, ?_, ?_, hwaits⟩
  · rw [hstats, hstarted]
    exact h.instructions
  · rw [hstats, hframes]
    exact h.objects
  · rw [hstats, hframes, hinst]
    exact h.memoHits
  · rw [hframes]
    exact h.limit

/-- A step that changes neither a binding nor a counter keeps the counters in order. -/
theorem of_nodes (h : Counted env arriving given s) (hnodes : s'.nodes = s.nodes)
    (hframes : s'.frames = s.frames) (hstats : s'.stats = s.stats)
    (hwaits : ∀ a ∈ s'.chain.entries.tail, a.work ≠ .start) : Counted env arriving given s' := by
  refine h.of_same ?_ (evaluated_of_nodes hnodes hframes) hframes hstats hwaits
  rw [started, started, hnodes]

/-- A demand is not counted as an instruction until its activation begins. -/
theorem mark (h : Counted env 0 0 s) (hs : Sound env start s)
    (hall : ∀ a ∈ s.chain.entries, a.work ≠ .start) {id : ValueId} {slot : Slot} {a : Activation}
    (hn : s.nodes.node? id = some (.binding slot .unstarted))
    (hnodes : s'.nodes = s.nodes.setIfInBounds id.index (.binding slot .inProgress))
    (hframes : s'.frames = s.frames) (hstats : s'.stats = s.stats)
    (hchain : s'.chain.entries = a :: s.chain.entries) : Counted env 1 0 s' := by
  obtain ⟨n, hcount, hsum⟩ := h.instructions
  refine ⟨⟨n, by rw [hstats, hcount], ?_⟩, ?_, ?_, ?_, ?_⟩
  · rw [hs.started_mark hn hnodes, ← hsum, Nat.add_zero]
  · rw [hstats, hframes]
    exact h.objects
  · have hinst : s'.instantiated = s.instantiated := evaluated_mark hn hnodes hframes
    rw [hstats, hframes, hinst]
    exact h.memoHits
  · rw [hframes]
    exact h.limit
  · rw [hchain, List.tail_cons]
    exact hall

/-- The most recent activation begins. -/
theorem counted (h : Counted env s.arriving given s) (hchain : s.chain.entries = top :: rest) :
    Counted env 0 given (s.counted top) := by
  rw [Session.counted]
  have harriving : s.arriving = if top.work = .start then 1 else 0 := by
    rw [Session.arriving, hchain]
  obtain ⟨n, hcount, hsum⟩ := h.instructions
  split
  · rename_i hwork
    rw [harriving, if_pos hwork] at hsum
    refine ⟨⟨n + 1, ?_, hsum⟩, h.objects, ?_, h.limit, h.waits⟩
    · rw [UInt64.ofNat_add, ← hcount]
      rfl
    · have hinst : instantiated { s with stats := s.stats.countInstruction } = s.instantiated :=
        evaluated_of_nodes rfl rfl
      rw [hinst]
      exact h.memoHits
  · rename_i hwork
    rw [harriving, hwork, if_neg (by simp)] at hsum
    exact ⟨⟨n, hcount, hsum⟩, h.objects, h.memoHits, h.limit, h.waits⟩

/-- A value may be added. -/
theorem alloc (h : Counted env arriving given s) {n : Node} (hn : n.isBinding = false) :
    Counted env arriving given (s.alloc n).2 :=
  h.of_same (started_alloc hn) (evaluated_alloc hn) rfl rfl h.waits

/-- An object may be given, an old one or a new one. -/
theorem create (h : Counted env arriving given s) (hs : Sound env start s) {target : Name}
    {args : List ValueId} {c : Creation} (hc : s.creation env target args = .ok c) :
    Counted env arriving (given + 1) (s.create c).2 := by
  obtain ⟨hits, hcount, hsum⟩ := h.memoHits
  cases c with
  | known o =>
    refine ⟨h.instructions, h.objects, ⟨hits + 1, ?_, ?_⟩, h.limit, h.waits⟩
    · rw [UInt64.ofNat_add, ← hcount]
      rfl
    · have hinst : (s.create (.known o)).2.instantiated = s.instantiated :=
        evaluated_of_nodes rfl rfl
      show s.frames.size + (hits + 1) = _
      rw [hinst]
      omega
  | fresh f key fields =>
    have hf := creation_eq_fresh hc
    have hsize : (s.addFrame f key fields).frames.size = s.frames.size + 1 := Array.size_push _
    refine ⟨?_, ?_, ⟨hits, hcount, ?_⟩, ?_, h.waits⟩
    · show ∃ n, _ ∧ n + arriving = (s.addFrame f key fields).started.ncard
      rw [Sound.started_addFrame hf.base]
      exact h.instructions
    · show s.stats.objects + 1 = UInt64.ofNat (s.addFrame f key fields).frames.size
      rw [hsize, UInt64.ofNat_add, ← h.objects]
      rfl
    · have hinst : (s.addFrame f key fields).instantiated = s.instantiated :=
        hs.evaluated_addFrame hf.base
      show (s.addFrame f key fields).frames.size + hits =
        (s.addFrame f key fields).instantiated.ncard + 1 + (given + 1)
      rw [hsize, hinst]
      omega
    · intro max hmax
      show (s.addFrame f key fields).frames.size ≤ max
      rw [hsize]
      exact hf.limit max hmax

/-- The most recent activation may wait for something. -/
theorem setWork (h : Counted env 0 given s) (hchain : s.chain.entries = top :: rest) (task : Task)
    (focus : ValueId) (unwrapped : ℕ) :
    Counted env (s.setWork (.await task focus unwrapped)).arriving given
      (s.setWork (.await task focus unwrapped)) := by
  have hentries := chain_setWork hchain (.await task focus unwrapped)
  rw [arriving_of_await hentries rfl]
  refine h.of_nodes rfl rfl rfl ?_
  intro a ha
  rw [hentries, List.tail_cons] at ha
  apply h.waits a
  rw [hchain, List.tail_cons]
  exact ha

/-- The most recent activation may end. If it instantiates a class, then one more object that was
given has a binding now. -/
theorem settle (hs : Sound env start s) (hchain : s.chain.entries = top :: rest) {f : Frame}
    {i : Instr} (hloc : s.Located top.slot f i)
    (h : Counted env arriving (given + if i.creates = true then 1 else 0) s) (t : ValueId) :
    Counted env arriving given (s.settle t) := by
  obtain ⟨hits, hcount, hsum⟩ := h.memoHits
  refine ⟨?_, ?_, ⟨hits, by rw [stats_settle, hcount], ?_⟩, ?_, ?_⟩
  · rw [stats_settle, hs.started_settle hchain]
    exact h.instructions
  · rw [stats_settle, frames_settle]
    exact h.objects
  · have hinst : (s.settle t).instantiated.ncard =
        s.instantiated.ncard + if i.creates = true then 1 else 0 := hs.evaluated_settle hchain hloc
    rw [frames_settle, hinst]
    omega
  · rw [frames_settle]
    exact h.limit
  · intro a ha
    rw [chain_settle hchain] at ha
    apply h.waits a
    rw [hchain, List.tail_cons]
    exact List.mem_of_mem_tail ha

/-! ## Transitions -/

/-- A request that is served leaves no activation that has not begun. -/
theorem serve (h : Counted env 0 0 s) (hs : Sound env start s)
    (hchain : s.chain.entries = top :: rest) {f : Frame} {i : Instr}
    (hloc : s.Located top.slot f i) {req : Request} (hserves : req.Serves i)
    (hsafe : req.Safe start s.nodes) (hserve : s.serve env req = .running s') :
    Counted env s'.arriving 0 s' := by
  rcases serve_running hserve with ⟨task, focus, rfl, rfl⟩ | ⟨n, rfl, rfl⟩ | ⟨id, rfl, rfl⟩ |
    ⟨target, args, c, rfl, hc, rfl⟩
  · exact h.setWork hchain task focus 0
  · have hmid := h.alloc hsafe.1
    obtain ⟨hg, hsound⟩ := hs.alloc hsafe.1 hsafe.2
    have hmchain : (s.alloc n).2.chain.entries = top :: rest := hchain
    rw [arriving_settle hmchain hmid.waits]
    refine settle hsound hmchain (hloc.grows hg) ?_ _
    cases hserves with
    | literal _ _ hcreates =>
      rw [hcreates]
      exact hmid
    | built hbuilds _ =>
      rw [if_neg]
      · exact hmid
      · intro hcreates
        rw [Instr.builds_eq_false_of_creates hcreates] at hbuilds
        cases hbuilds
  · rw [arriving_settle hchain h.waits]
    refine settle hs hchain hloc ?_ _
    cases hserves with
    | forward _ _ hcreates =>
      rw [hcreates]
      exact h
  · obtain ⟨hg, hsound, -, hsame⟩ := hs.create hc hsafe
    have hmid := h.create hs hc
    have hmchain : (s.create c).2.chain.entries = top :: rest := by rw [hsame, hchain]
    rw [arriving_settle hmchain hmid.waits]
    refine settle hsound hmchain (hloc.grows hg) ?_ _
    cases hserves with
    | create _ _ hcreates =>
      rw [if_pos hcreates]
      exact hmid

/-- A step that goes on keeps the counters in order. -/
theorem transition (h : Counted env s.arriving 0 s) (hs : Sound env start s)
    (hb : Builders start s fun _ => False) (ht : Transition env s s') :
    Counted env s'.arriving 0 s' := by
  -- Only a served request is counted; the other steps change what waits to be.
  cases ht with
  | pass hchain _ _ =>
    rw [arriving_nil hchain] at h
    rw [arriving_nil (by exact hchain)]
    exact h.of_nodes rfl rfl rfl h.waits
  | skip hchain _ _ _ _ =>
    rw [arriving_nil hchain] at h
    rw [arriving_nil (by exact hchain)]
    exact h.of_nodes rfl rfl rfl h.waits
  | next hchain hf hid hn hd =>
    obtain ⟨g, chain, -, hentries, rfl⟩ := demand_running hd
    rw [arriving_nil hchain] at h
    rw [arriving_of_start hentries rfl]
    refine h.mark hs ?_ hn rfl rfl rfl hentries
    intro a ha
    rw [hchain] at ha
    cases ha
  | @demand top rest task focus unwrapped slot s' hchain hwork hn hd =>
    obtain ⟨g, chain, -, hentries, rfl⟩ := demand_running hd
    have hall := h.waits
    rw [arriving_of_await hchain hwork] at h
    rw [arriving_of_start hentries rfl]
    refine h.mark hs ?_ hn rfl rfl rfl hentries
    intro a ha
    rw [hchain] at ha hall
    rcases List.mem_cons.1 ha with rfl | ha
    · simp [hwork]
    · exact hall a ha
  | follow hchain hwork hn =>
    rw [arriving_of_await hchain hwork] at h
    exact h.setWork hchain _ _ _
  | unwrap hchain hwork hn _ _ =>
    rw [arriving_of_await hchain hwork] at h
    exact h.setWork hchain _ _ _
  | @serve top rest req s' hchain hreq hserve =>
    have hwaiting := hs.waiting top (hchain ▸ List.mem_cons_self)
    obtain ⟨f, i, hloc⟩ := Located.of_binding hs.layout hwaiting
    have hsafe : req.Safe start (s.counted top).nodes := by
      rw [nodes_counted]
      exact hs.safe hchain hreq
    have hrchain : (s.counted top).chain.entries = top :: rest := by rw [chain_counted, hchain]
    exact (h.counted hchain).serve (hs.counted top) hrchain (hloc.grows (Grows.counted s top))
      (hb.serves hs hchain hreq hloc) hsafe hserve

/-- The counters are in order in every later state. -/
theorem reaches (h : Counted env s.arriving 0 s) (hs : Sound env start s)
    (hb : Builders start s fun _ => False) (hr : Reaches env s s') :
    Counted env s'.arriving 0 s' :=
  (hr.induct (I := fun r => (Sound env start r ∧ Builders start r fun _ => False) ∧
      Counted env r.arriving 0 r)
    (fun _ _ hr ht => ⟨⟨(hr.1.1.transition ht).2, hr.1.2.transition hr.1.1 ht⟩,
      hr.2.transition hr.1.1 hr.1.2 ht⟩) ⟨⟨hs, hb⟩, h⟩).2

end Counted

/-! ## The end of a run -/

namespace Completed

theorem chain_eq (h : s.Completed env start) : s.chain.entries = [] := by
  cases hchain : s.chain.entries with
  | nil => rfl
  | cons top rest =>
    obtain ⟨t, ht⟩ := h.resolved (h.sound.waiting top (hchain ▸ List.mem_cons_self))
    cases ht

/-- At the end every instruction of every frame was carried out. -/
theorem started_eq (h : s.Completed env start) :
    s.started = { slot | ∃ f i, s.Located slot f i } := by
  ext slot
  constructor
  · rintro ⟨id, state, hn, -⟩
    exact Located.of_binding h.sound.layout hn
  · rintro ⟨f, i, hloc⟩
    exact (h.known hloc).started

theorem evaluated_eq (h : s.Completed env start) (q : Instr → Bool) :
    s.evaluated q = { slot | ∃ f i, s.Located slot f i ∧ q i = true } := by
  ext slot
  constructor
  · exact fun hslot => hslot.2
  · rintro ⟨f, i, hloc, hi⟩
    exact ⟨h.known hloc, f, i, hloc, hi⟩

theorem instantiated_eq (h : s.Completed env start) :
    s.instantiated = { slot | ∃ f i, s.Located slot f i ∧ i.creates = true } :=
  h.evaluated_eq Instr.creates

end Completed

end Session

/-- In the first state of an evaluation nothing is started. -/
theorem Environment.Opens.started_eq {nodes : Arena} {target : Name} {args : List ValueId}
    {f : Frame} {s : Session} (h : env.Opens nodes target args f s) (hnodes : nodes.SelfContained) :
    s.started = ∅ := by
  rw [Set.eq_empty_iff_forall_notMem]
  rintro slot ⟨id, state, hn, hstate⟩
  exact hstate (h.unstarted hnodes hn)

theorem Environment.Opens.evaluated_eq {nodes : Arena} {target : Name} {args : List ValueId}
    {f : Frame} {s : Session} (h : env.Opens nodes target args f s) (hnodes : nodes.SelfContained)
    (q : Instr → Bool) : s.evaluated q = ∅ := by
  rw [Set.eq_empty_iff_forall_notMem]
  rintro slot ⟨hknown, -⟩
  have hmem := hknown.started
  rw [h.started_eq hnodes] at hmem
  exact hmem

/-- In the first state of an evaluation one object is counted, which nothing but the request has
asked for. -/
theorem Environment.Opens.counted {nodes : Arena} {target : Name} {args : List ValueId} {f : Frame}
    {s : Session} (h : env.Opens nodes target args f s) (hnodes : nodes.SelfContained) :
    s.Counted env s.arriving 0 := by
  have hstarted := h.started_eq hnodes
  have hinst : s.instantiated = ∅ := h.evaluated_eq hnodes Instr.creates
  have hempty := h.chain
  cases h with
  | intro hf =>
    refine ⟨⟨0, rfl, ?_⟩, rfl, ⟨0, rfl, ?_⟩, ?_, ?_⟩
    · rw [hstarted, Set.ncard_empty]
      rfl
    · rw [hinst, Set.ncard_empty]
      rfl
    · intro max hmax
      exact hf.limit max hmax
    · rw [hempty]
      exact fun _ ha => by cases ha

end ObjectModel
