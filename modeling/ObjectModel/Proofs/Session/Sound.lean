import ObjectModel.Proofs.Session.Creation
import ObjectModel.Proofs.Session.Transition

/-!
# Sound sessions

What holds of a session all along its run (`Session.Sound`): its layout and its memo table are in
order, the bindings in progress are those of the activations that wait, none has failed, every
activation holds on to positions of the arena, and the bindings that the cursor has passed are
started. Each update of a session keeps this, and so does each transition (`Sound.transition`), by
which the session grows.
-/

set_option autoImplicit false

namespace ObjectModel

variable {env : Environment} {start : Nat}

/-! ## Safe requests -/

/-- A request that can be served: what it mentions is there, what it gives is a value, and a
failure has a kind of its own. -/
def Request.Safe (start : Nat) (a : Arena) : Request → Prop
  | .await task focus => focus.index < a.size ∧ ∀ p ∈ task.positions, p.index < a.size
  | .produce n => n.isBinding = false ∧ ∀ c ∈ n.children, c.index < a.size
  | .forward id => a.IsValue id
  | .create _ args => ∀ id ∈ args, a.IsLocal start id
  | .fail f => ∃ e : EvalError, f = .error e ∧ e.Specific

/-- What an instruction asks for when it starts is safe. -/
theorem Frame.Starts.safe {nodes : Arena} {frames : Array Frame}
    (hl : Layout env start nodes frames) {k : Nat} {f : Frame} (hf : frames[k]? = some f)
    {i : Instr} {req : Request} (h : f.Starts env i req) : req.Safe start nodes := by
  have hlocal : ∀ {r : LocalRef} {id : ValueId}, f.local? r = some id → id.index < nodes.size :=
    fun hr => (hl.isLocal hf hr).lt hl.start_le
  have hlocals : ∀ {rs : List LocalRef} {ids : List ValueId}, f.locals? rs = some ids →
      ∀ id ∈ ids, id.index < nodes.size :=
    fun hids id hid => (hl.isLocal_of_locals? hf hids id hid).lt hl.start_le
  -- The locals of a frame are there, so whatever an instruction starts with is there.
  cases h with
  | constant l => exact ⟨rfl, by simp [Node.children]⟩
  | object hids => exact hl.isLocal_of_locals? hf hids
  | value hid => exact ⟨hlocal hid, by simp [Task.positions]⟩
  | project hid => exact ⟨hlocal hid, by simp [Task.positions]⟩
  | list hids => exact ⟨rfl, hlocals hids⟩
  | concat hids =>
    refine ⟨hlocals hids _ List.mem_cons_self, ?_⟩
    intro p hp
    exact hlocals hids p (List.mem_cons_of_mem _ hp)
  | any hid =>
    refine ⟨rfl, ?_⟩
    intro c hc
    rw [List.mem_singleton.1 hc]
    exact hlocal hid
  | binary hlhs hrhs =>
    refine ⟨hlocal hlhs, ?_⟩
    intro p hp
    rw [List.mem_singleton.1 hp]
    exact hlocal hrhs
  | unknown op =>
    refine ⟨_, rfl, ?_⟩
    intro message hm
    cases hm

/-- What a task asks for when its value is there is safe. -/
theorem Task.Resumes.safe {nodes : Arena} {frames : Array Frame}
    (hl : Layout env start nodes frames) {v : ValueId} (hv : nodes.IsValue v) {task : Task}
    (hpos : ∀ p ∈ task.positions, p.index < nodes.size) {req : Request}
    (h : task.Resumes env nodes v req) : req.Safe start nodes := by
  -- A field is a child of the object that has arrived.
  have hfield : ∀ {field : Name} {slot : ValueId}, nodes.fieldAt env v field = .ok slot →
      slot.index < nodes.size := by
    intro field slot hslot
    obtain ⟨cls, fields, c, index, hn, -, -, hget⟩ := Arena.fieldAt_eq_ok_iff.1 hslot
    exact hl.children hn slot (List.mem_of_getElem? hget)
  cases h with
  | forward => exact hv
  | last hslot => exact ⟨hfield hslot, by simp [Task.positions]⟩
  | project hslot => exact ⟨hfield hslot, by simp [Task.positions]⟩
  | gather seen rest next =>
    have hseen : ∀ p ∈ seen ++ next :: rest, p.index < nodes.size := hpos
    refine ⟨hseen next (by simp), ?_⟩
    intro p hp
    change p ∈ seen ++ [v] ++ rest at hp
    rw [List.mem_append, List.mem_append, List.mem_singleton] at hp
    rcases hp with (hp | rfl) | hp
    · exact hseen p (List.mem_append_left _ hp)
    · exact hv.lt
    · exact hseen p (List.mem_append_right _ (List.mem_cons_of_mem _ hp))
  -- The elements of the joined list are children of the lists that were seen.
  | join hls hcat =>
    refine ⟨rfl, ?_⟩
    intro c hc
    change c ∈ _ at hc
    rw [Node.children, (TypedList.concat_eq_ok hcat).2.2, List.mem_flatMap] at hc
    obtain ⟨l, hmem, hc⟩ := hc
    obtain ⟨u, -, hu⟩ := exists_of_forall₂_of_mem (mapM_eq_ok_iff.1 hls).flip hmem
    exact hl.children (Arena.listAt_eq_ok_iff.1 hu) c hc
  | left op rhs =>
    refine ⟨hpos rhs (List.mem_singleton.2 rfl), ?_⟩
    intro p hp
    rw [List.mem_singleton.1 hp]
    exact hv.lt
  | operate _ _ _ => exact ⟨rfl, by simp [Node.children]⟩
  | refuse he => exact ⟨_, rfl, he⟩

namespace Session

variable {s s' : Session}

/-! ## The invariant -/

/-- The cursor has passed an instruction. -/
def Passed (s : Session) (slot : Slot) : Prop :=
  slot.frame < s.cursor.frame ∨ slot.frame = s.cursor.frame ∧ slot.instr < s.cursor.instr

/-- What holds of a session all along its run. -/
structure Sound (env : Environment) (start : Nat) (s : Session) : Prop where
  layout : Layout env start s.nodes s.frames
  memoized : Memoized env s
  waiting : ∀ a ∈ s.chain.entries, s.nodes.node? a.binding = some (.binding a.slot .inProgress)
  nodup : (s.chain.entries.map Activation.binding).Nodup
  inProgress : ∀ {id : ValueId} {slot : Slot},
    s.nodes.node? id = some (.binding slot .inProgress) → ∃ a ∈ s.chain.entries, a.binding = id
  not_failed : ∀ {id : ValueId} {slot : Slot}, s.nodes.node? id ≠ some (.binding slot .failed)
  positions : ∀ a ∈ s.chain.entries, ∀ p ∈ a.work.positions, p.index < s.nodes.size
  passed : ∀ {id : ValueId} {slot : Slot}, s.nodes.node? id = some (.binding slot .unstarted) →
    ¬ s.Passed slot
  ahead : ∀ {slot : Slot}, s.Passed slot → slot.frame < s.frames.size

theorem nodes_counted (s : Session) (top : Activation) : (s.counted top).nodes = s.nodes := by
  rw [counted]
  split <;> rfl

theorem chain_counted (s : Session) (top : Activation) : (s.counted top).chain = s.chain := by
  rw [counted]
  split <;> rfl

theorem chain_setWork {top : Activation} {rest : List Activation}
    (hchain : s.chain.entries = top :: rest) (work : Work) :
    (s.setWork work).chain.entries = { top with work } :: rest := by
  show s.chain.entries.modifyHead _ = _
  rw [hchain, List.modifyHead_cons]

theorem chain_settle {top : Activation} {rest : List Activation}
    (hchain : s.chain.entries = top :: rest) (t : ValueId) :
    (s.settle t).chain.entries = rest := by
  rw [Session.settle, hchain]
  show s.chain.pop.entries = rest
  rw [DemandChain.entries_pop, hchain, List.tail_cons]

theorem frames_settle (s : Session) (t : ValueId) : (s.settle t).frames = s.frames := by
  rw [Session.settle]
  split <;> rfl

theorem Grows.counted (s : Session) (top : Activation) : s.Grows (s.counted top) := by
  rw [Session.counted]
  split <;> exact ⟨.refl _, fun hk => hk, fun hm => hm⟩

namespace Sound

/-! ## Updates that leave the arena alone -/

theorem counted (h : Sound env start s) (top : Activation) : Sound env start (s.counted top) := by
  rw [Session.counted]
  split
  · exact { h with memoized := ⟨h.memoized.keyed, h.memoized.origin⟩ }
  · exact h

/-- The cursor may move past an instruction that is started. -/
theorem move (h : Sound env start s) {cursor : Slot}
    (hc : ∀ {id slot}, s.nodes.node? id = some (.binding slot .unstarted) →
      ¬ Passed { s with cursor } slot)
    (ha : ∀ {slot}, Passed { s with cursor } slot → slot.frame < s.frames.size) :
    Sound env start { s with cursor } :=
  { h with memoized := ⟨h.memoized.keyed, h.memoized.origin⟩, passed := hc, ahead := ha }

/-- The cursor may pass an instruction that is started. -/
theorem passed_next (h : Sound env start s) {f : Frame} {id : ValueId}
    (hf : s.frames[s.cursor.frame]? = some f) (hid : f.binding? s.cursor.instr = some id)
    (hn : ∀ slot, s.nodes.node? id ≠ some (.binding slot .unstarted)) {j : ValueId} {slot : Slot}
    (hj : s.nodes.node? j = some (.binding slot .unstarted)) :
    ¬ Passed { s with cursor := ⟨s.cursor.frame, s.cursor.instr + 1⟩ } slot := by
  rintro (hlt | ⟨heq, hlt⟩)
  · exact h.passed hj (Or.inl hlt)
  · change slot.frame = s.cursor.frame at heq
    change slot.instr < s.cursor.instr + 1 at hlt
    rcases Nat.lt_or_eq_of_le (Nat.le_of_lt_succ hlt) with hlt | hinstr
    · exact h.passed hj (Or.inr ⟨heq, hlt⟩)
    · obtain ⟨g, hg, -, rfl⟩ := h.layout.owned hj
      rw [heq, hf] at hg
      cases hg
      obtain ⟨-, rfl⟩ := Frame.binding?_eq_some_iff.1 hid
      rw [hinstr] at hj
      exact hn slot hj

theorem ahead_next (h : Sound env start s) {f : Frame} (hf : s.frames[s.cursor.frame]? = some f)
    {slot : Slot} (hp : Passed { s with cursor := ⟨s.cursor.frame, s.cursor.instr + 1⟩ } slot) :
    slot.frame < s.frames.size := by
  rcases hp with hlt | ⟨heq, -⟩
  · exact h.ahead (Or.inl hlt)
  · rw [show slot.frame = s.cursor.frame from heq]
    exact (Array.getElem?_eq_some_iff.1 hf).1

/-- The most recent activation may hold on to other positions of the arena. -/
theorem setWork (h : Sound env start s) {work : Work}
    (hw : ∀ p ∈ work.positions, p.index < s.nodes.size) : Sound env start (s.setWork work) := by
  -- Without activations nothing changes; otherwise the top of the chain keeps its binding.
  cases hchain : s.chain.entries with
  | nil =>
    have hentries : (s.setWork work).chain.entries = [] := by
      show s.chain.entries.modifyHead _ = _
      rw [hchain, List.modifyHead_nil]
    exact
      { layout := h.layout
        memoized := ⟨h.memoized.keyed, h.memoized.origin⟩
        waiting := by rw [hentries]; simp
        nodup := by rw [hentries]; simp
        inProgress := by
          intro id slot hn
          obtain ⟨a, ha, -⟩ := h.inProgress hn
          rw [hchain] at ha
          cases ha
        not_failed := h.not_failed
        positions := by rw [hentries]; simp
        passed := h.passed
        ahead := h.ahead }
  | cons top rest =>
    have hentries := chain_setWork hchain work
    have hwaiting := h.waiting
    have hnodup := h.nodup
    have hpositions := h.positions
    rw [hchain] at hwaiting hnodup hpositions
    refine
      { layout := h.layout
        memoized := ⟨h.memoized.keyed, h.memoized.origin⟩
        waiting := ?_
        nodup := ?_
        inProgress := ?_
        not_failed := h.not_failed
        positions := ?_
        passed := h.passed
        ahead := h.ahead }
    · rw [hentries]
      intro a ha
      rcases List.mem_cons.1 ha with rfl | ha
      · exact hwaiting top List.mem_cons_self
      · exact hwaiting a (List.mem_cons_of_mem _ ha)
    · rw [hentries]
      exact hnodup
    · intro id slot hn
      obtain ⟨a, ha, hid⟩ := h.inProgress hn
      rw [hchain] at ha
      rw [hentries]
      rcases List.mem_cons.1 ha with rfl | ha
      · exact ⟨_, List.mem_cons_self, hid⟩
      · exact ⟨a, List.mem_cons_of_mem _ ha, hid⟩
    · rw [hentries]
      intro a ha
      rcases List.mem_cons.1 ha with rfl | ha
      · exact hw
      · exact hpositions a (List.mem_cons_of_mem _ ha)

/-! ## Updates of the arena -/

/-- A binding that nothing has demanded may be marked while its activation joins the chain. -/
theorem mark (h : Sound env start s) {id : ValueId} {slot : Slot} {demand : Demand}
    {chain : DemandChain Activation}
    (hn : s.nodes.node? id = some (.binding slot .unstarted))
    (hchain : chain.entries = { binding := id, slot, demand, work := .start } :: s.chain.entries) :
    s.Grows { s with nodes := s.nodes.setIfInBounds id.index (.binding slot .inProgress), chain } ∧
      Sound env start
        { s with nodes := s.nodes.setIfInBounds id.index (.binding slot .inProgress), chain } := by
  have hs : ¬ (Node.binding slot .unstarted).Settled := fun h => h
  have hset := Arena.node?_set hn (.binding slot .inProgress)
  have hgrows : s.Grows
      { s with nodes := s.nodes.setIfInBounds id.index (.binding slot .inProgress), chain } :=
    .of_layout h.layout (Arena.Grows.of_set hn hs (by simp)) fun hk => hk
  refine ⟨hgrows, ?_⟩
  refine
    { layout := h.layout.set hn hs (by simp) (by simp)
      memoized := h.memoized.of_grows h.layout hgrows rfl rfl
      waiting := ?_
      nodup := ?_
      inProgress := ?_
      not_failed := ?_
      positions := ?_
      passed := ?_
      ahead := h.ahead }
  · -- The new activation waits at the marked binding, which no other activation has.
    intro a ha
    rw [hset]
    rw [hchain] at ha
    rcases List.mem_cons.1 ha with rfl | ha
    · rw [if_pos rfl]
    · have hold := h.waiting a ha
      split
      · rename_i heq
        rw [heq, hn] at hold
        cases hold
      · exact hold
  · rw [hchain, List.map_cons, List.nodup_cons]
    -- An old activation at this binding would have found it in progress.
    refine ⟨?_, h.nodup⟩
    intro hmem
    obtain ⟨a, ha, hid⟩ := List.mem_map.1 hmem
    have hold := h.waiting a ha
    rw [hid, hn] at hold
    cases hold
  · -- What is in progress is the marked binding or was in progress before.
    intro j slot' hj
    rw [hset] at hj
    rw [hchain]
    split at hj
    · rename_i heq
      exact ⟨_, List.mem_cons_self, heq.symm⟩
    · obtain ⟨a, ha, hid⟩ := h.inProgress hj
      exact ⟨a, List.mem_cons_of_mem _ ha, hid⟩
  · intro j slot' hj
    rw [hset] at hj
    split at hj
    · cases hj
    · exact h.not_failed hj
  · intro a ha p hp
    rw [Array.size_setIfInBounds]
    rw [hchain] at ha
    rcases List.mem_cons.1 ha with rfl | ha
    · cases hp
    · exact h.positions a ha p hp
  · intro j slot' hj
    rw [hset] at hj
    split at hj
    · cases hj
    · exact h.passed hj

/-- A value may be added. -/
theorem alloc (h : Sound env start s) {n : Node} (hn : n.isBinding = false)
    (hc : ∀ c ∈ n.children, c.index < s.nodes.size) :
    s.Grows (s.alloc n).2 ∧ Sound env start (s.alloc n).2 := by
  have hg := Arena.Grows.of_push s.nodes n
  have hgrows : s.Grows (s.alloc n).2 := .of_layout h.layout hg fun hk => hk
  have hread : ∀ {id : ValueId} {slot : Slot} {state : BindingState},
      (s.alloc n).2.nodes.node? id = some (.binding slot state) →
        s.nodes.node? id = some (.binding slot state) :=
    fun hid => (Arena.binding_push_iff hn).1 hid
  refine ⟨hgrows, ?_⟩
  exact
    { layout := h.layout.push hn hc
      memoized := h.memoized.of_grows h.layout hgrows rfl rfl
      waiting := fun a ha => Arena.node?_push_of_eq_some (h.waiting a ha) n
      nodup := h.nodup
      inProgress := fun hid => h.inProgress (hread hid)
      not_failed := fun hid => h.not_failed (hread hid)
      positions := fun a ha p hp => Nat.lt_of_lt_of_le (h.positions a ha p hp) hg.size_le
      passed := fun hid => h.passed (hread hid)
      ahead := h.ahead }

/-- A new frame may be added. -/
theorem addFrame (h : Sound env start s) {target : Name} {args : List ValueId} {f : Frame}
    {key : MemoKey} {fields : List ValueId} (hf : Fresh env s target args f key fields)
    (hargs : ∀ id ∈ args, s.nodes.IsLocal start id) :
    s.Grows (s.addFrame f key fields) ∧ Sound env start (s.addFrame f key fields) := by
  have hg := Arena.Grows.of_addBlock s.nodes f s.frames.size fields
  have hgrows : s.Grows (s.addFrame f key fields) := by
    refine .of_layout h.layout hg ?_
    intro k g hk
    exact getElem?_push_of_eq_some hk f
  -- The bindings of the new frame are not started, and their frame is the last.
  have hread : ∀ {id : ValueId} {slot : Slot} {state : BindingState},
      (s.addFrame f key fields).nodes.node? id = some (.binding slot state) →
        s.nodes.node? id = some (.binding slot state) ∨
          state = .unstarted ∧ slot.frame = s.frames.size := by
    intro id slot state hid
    rcases (Arena.node?_addBlock hf.base).1 hid with hid | ⟨i, -, -, hid⟩ | ⟨-, hid⟩
    · exact Or.inl hid
    · cases hid
      exact Or.inr ⟨rfl, rfl⟩
    · cases hid
  refine ⟨hgrows, ?_⟩
  refine
    { layout := hf.layout h.layout hargs
      memoized := h.memoized.addFrame h.layout hf hgrows
      waiting := fun a ha => (Arena.node?_addBlock hf.base).2 (Or.inl (h.waiting a ha))
      nodup := h.nodup
      inProgress := ?_
      not_failed := ?_
      positions := fun a ha p hp => Nat.lt_of_lt_of_le (h.positions a ha p hp) hg.size_le
      passed := ?_
      ahead := ?_ }
  · intro id slot hid
    rcases hread hid with hid | ⟨hid, -⟩
    · exact h.inProgress hid
    · cases hid
  · intro id slot hid
    rcases hread hid with hid | ⟨hid, -⟩
    · exact h.not_failed hid
    · cases hid
  · intro id slot hid
    rcases hread hid with hid | ⟨-, hk⟩
    · exact h.passed hid
    · -- The cursor has not passed a frame that was not there.
      intro hpassed
      have hlt : slot.frame < s.frames.size := h.ahead hpassed
      omega
  · intro slot hpassed
    show slot.frame < (s.frames.push f).size
    rw [Array.size_push]
    exact Nat.lt_succ_of_lt (h.ahead hpassed)

/-- When the most recent activation ends, its binding names the result, and nothing else changes. -/
theorem node?_settle (h : Sound env start s) {top : Activation} {rest : List Activation}
    (hchain : s.chain.entries = top :: rest) (t j : ValueId) :
    (s.settle t).nodes.node? j =
      if j = top.binding then some (.binding top.slot (.resolved t)) else s.nodes.node? j := by
  rw [Session.settle, hchain]
  exact Arena.node?_set (h.waiting top (hchain ▸ List.mem_cons_self)) _ j

/-- The most recent activation may end with a value that is there. -/
theorem settle (h : Sound env start s) {top : Activation} {rest : List Activation}
    (hchain : s.chain.entries = top :: rest) {t : ValueId} (ht : s.nodes.IsValue t) :
    s.Grows (s.settle t) ∧ Sound env start (s.settle t) := by
  have hsettle : s.settle t =
      { s with
        nodes := s.nodes.setIfInBounds top.binding.index (.binding top.slot (.resolved t))
        chain := s.chain.pop } := by
    rw [Session.settle, hchain]
  have hpop : s.chain.pop.entries = rest := by
    rw [DemandChain.entries_pop, hchain, List.tail_cons]
  have hwaiting := h.waiting
  have hnodup := h.nodup
  have hpositions := h.positions
  rw [hchain] at hwaiting hnodup hpositions
  have hn := hwaiting top List.mem_cons_self
  have hs : ¬ (Node.binding top.slot .inProgress).Settled := fun h => h
  have hset := Arena.node?_set hn (.binding top.slot (.resolved t))
  have hgrows : s.Grows (s.settle t) := by
    rw [hsettle]
    exact .of_layout h.layout (Arena.Grows.of_set hn hs (by simp)) fun hk => hk
  -- The other activations wait at other bindings, so they go on waiting.
  have hother : ∀ a ∈ rest, a.binding ≠ top.binding := by
    intro a ha heq
    rw [List.map_cons, List.nodup_cons] at hnodup
    exact hnodup.1 (List.mem_map.2 ⟨a, ha, heq⟩)
  refine ⟨hgrows, ?_⟩
  have hmemo := h.memoized.of_grows h.layout hgrows (by rw [hsettle]) (by rw [hsettle])
  rw [hsettle] at hmemo ⊢
  refine
    { layout := h.layout.set hn hs (by simp) ?_
      memoized := hmemo
      waiting := ?_
      nodup := ?_
      inProgress := ?_
      not_failed := ?_
      positions := ?_
      passed := ?_
      ahead := h.ahead }
  · intro target htarget
    cases htarget
    exact ht
  · intro a ha
    rw [hpop] at ha
    rw [hset, if_neg (hother a ha)]
    exact hwaiting a (List.mem_cons_of_mem _ ha)
  · rw [hpop]
    exact (List.nodup_cons.1 hnodup).2
  · intro id slot hid
    rw [hset] at hid
    rw [hpop]
    split at hid
    · cases hid
    · -- What is still in progress belongs to an activation that remains.
      rename_i hne
      obtain ⟨a, ha, heq⟩ := h.inProgress hid
      rw [hchain] at ha
      rcases List.mem_cons.1 ha with rfl | ha
      · exact absurd heq.symm hne
      · exact ⟨a, ha, heq⟩
  · intro id slot hid
    rw [hset] at hid
    split at hid
    · cases hid
    · exact h.not_failed hid
  · intro a ha p hp
    rw [Array.size_setIfInBounds]
    rw [hpop] at ha
    exact hpositions a (List.mem_cons_of_mem _ ha) p hp
  · intro id slot hid
    rw [hset] at hid
    split at hid
    · cases hid
    · exact h.passed hid

/-! ## Transitions -/

/-- The most recent activation may create an instance, or find one. -/
theorem create (h : Sound env start s) {target : Name} {args : List ValueId} {c : Creation}
    (hc : s.creation env target args = .ok c) (hargs : ∀ id ∈ args, s.nodes.IsLocal start id) :
    s.Grows (s.create c).2 ∧ Sound env start (s.create c).2 ∧
      (s.create c).2.nodes.IsValue (s.create c).1 ∧
        (s.create c).2.chain = s.chain := by
  cases c with
  | known o =>
    obtain ⟨-, key, -, hget⟩ := creation_eq_known hc
    obtain ⟨k, f, hf, rfl, -⟩ := h.memoized.origin hget
    obtain ⟨fields, -, hobj⟩ := h.layout.object hf
    exact ⟨⟨.refl _, fun hk => hk, fun hm => hm⟩,
      { h with memoized := ⟨h.memoized.keyed, h.memoized.origin⟩ }, ⟨_, hobj, rfl⟩, rfl⟩
  | fresh f key fields =>
    have hf := creation_eq_fresh hc
    obtain ⟨hgrows, hsound⟩ := h.addFrame hf hargs
    refine ⟨hgrows, hsound, ⟨.object f.cls.name fields, ?_, rfl⟩, rfl⟩
    exact (Arena.node?_addBlock hf.base).2 (Or.inr (Or.inr ⟨rfl, rfl⟩))

/-- An instance that is created or found is the object of a frame of its class with its key. -/
theorem created (h : Sound env start s) {target : Name} {args : List ValueId} {c : Creation}
    (hc : s.creation env target args = .ok c) (hargs : ∀ id ∈ args, s.nodes.IsLocal start id) :
    ∃ (k : Nat) (f : Frame) (key : MemoKey), (s.create c).2.frames[k]? = some f ∧
      f.cls.name = target ∧ f.object = (s.create c).1 ∧
        (s.create c).2.memoKey? target args = some key ∧
          (s.create c).2.memoKey? target f.params.toList = some key := by
  have hg := (h.create hc hargs).1
  cases c with
  | known o =>
    obtain ⟨-, key, hkey, hget⟩ := creation_eq_known hc
    obtain ⟨k, f, hf, rfl, hfkey⟩ := h.memoized.origin hget
    have hname : f.cls.name = target :=
      (memoKey?_cls hfkey).symm.trans (memoKey?_cls hkey)
    rw [hname] at hfkey
    exact ⟨k, f, key, hg.frames hf, hname, rfl, hg.memoKey hkey, hg.memoKey hfkey⟩
  | fresh f key fields =>
    have hf := creation_eq_fresh hc
    refine ⟨s.frames.size, f, key, Array.getElem?_push_size, hf.cls_name, rfl, ?_, ?_⟩
    · exact hg.memoKey hf.keyed
    · rw [hf.toList_params]
      exact hg.memoKey hf.keyed

/-- What the most recent activation asks for is safe. -/
theorem safe (h : Sound env start s) {top : Activation} {rest : List Activation}
    (hchain : s.chain.entries = top :: rest) {req : Request} (hreq : s.Asks env top req) :
    req.Safe start s.nodes := by
  cases hreq with
  | @start f i _ hf hi =>
    exact (Frame.starts_start (h.layout.params_size hf) (Array.mem_of_getElem? hi)).safe h.layout hf
  | @resume task focus unwrapped n hwork hn hb _ =>
    have hpos := h.positions top (hchain ▸ List.mem_cons_self)
    rw [hwork] at hpos
    exact (Task.resumes_resume env s.nodes focus task).safe h.layout ⟨n, hn, hb⟩
      fun p hp => hpos p (List.mem_cons_of_mem _ hp)

/-- A served request keeps the session sound. -/
theorem serve (h : Sound env start s) {top : Activation} {rest : List Activation}
    (hchain : s.chain.entries = top :: rest) {req : Request} (hreq : req.Safe start s.nodes)
    (hs : s.serve env req = .running s') : s.Grows s' ∧ Sound env start s' := by
  rcases serve_running hs with ⟨task, focus, rfl, rfl⟩ | ⟨n, rfl, rfl⟩ | ⟨id, rfl, rfl⟩ |
    ⟨target, args, c, rfl, hc, rfl⟩
  · refine ⟨⟨.refl _, fun hk => hk, fun hm => hm⟩, h.setWork ?_⟩
    intro p hp
    rcases List.mem_cons.1 hp with rfl | hp
    · exact hreq.1
    · exact hreq.2 p hp
  · obtain ⟨hgrows, hsound⟩ := h.alloc hreq.1 hreq.2
    obtain ⟨hgrows', hsound'⟩ := hsound.settle (t := (s.alloc n).1) hchain
      ⟨n, Arena.node?_push_size s.nodes n, hreq.1⟩
    exact ⟨hgrows.trans hgrows', hsound'⟩
  · exact h.settle hchain hreq
  · obtain ⟨hgrows, hsound, hvalue, hsame⟩ := h.create hc hreq
    obtain ⟨hgrows', hsound'⟩ := hsound.settle (by rw [hsame, hchain]) hvalue
    exact ⟨hgrows.trans hgrows', hsound'⟩

/-- A step that goes on lets the session grow and keeps it sound. -/
theorem transition (h : Sound env start s) (hs : Transition env s s') :
    s.Grows s' ∧ Sound env start s' := by
  -- A pass or a skip moves the cursor, a demand marks a binding, and following one changes the work
  -- of the top activation; anything else that changes is changed by a served request.
  cases hs with
  | @pass f hchain hf hend =>
    refine ⟨⟨.refl _, fun hk => hk, fun hm => hm⟩, h.move ?_ ?_⟩
    · rintro id slot hn (hlt | ⟨-, hlt⟩)
      · obtain ⟨g, hg, hi, -⟩ := h.layout.owned hn
        have hle := Frame.binding?_eq_none_iff.1 hend
        refine h.passed hn ?_
        rcases Nat.lt_or_eq_of_le (Nat.le_of_lt_succ hlt) with hlt | heq
        · exact Or.inl hlt
        · rw [heq, hf] at hg
          cases hg
          exact Or.inr ⟨heq, by omega⟩
      · exact absurd hlt (Nat.not_lt_zero _)
    · rintro slot (hlt | ⟨-, hlt⟩)
      · have := (Array.getElem?_eq_some_iff.1 hf).1
        change slot.frame < s.cursor.frame + 1 at hlt
        omega
      · exact absurd hlt (Nat.not_lt_zero _)
  | @skip f id n hchain hf hid hn hstarted =>
    refine ⟨⟨.refl _, fun hk => hk, fun hm => hm⟩, h.move ?_ ?_⟩
    · exact h.passed_next hf hid fun slot heq => hstarted slot (Option.some.inj (hn.symm.trans heq))
    · exact h.ahead_next hf
  | @next f id slot s' hchain hf hid hn hd =>
    obtain ⟨g, chain, -, hentries, rfl⟩ := demand_running hd
    obtain ⟨hgrows, hsound⟩ := h.mark hn hentries
    refine ⟨⟨hgrows.nodes, hgrows.frames, hgrows.memoArg⟩, hsound.move ?_ ?_⟩
    · refine hsound.passed_next hf hid fun slot' heq => ?_
      change Arena.node? (s.nodes.setIfInBounds id.index _) id = _ at heq
      rw [Arena.node?_set hn, if_pos rfl] at heq
      cases heq
    · exact hsound.ahead_next hf
  | @demand top rest task focus unwrapped slot s' hchain hwork hn hd =>
    obtain ⟨g, chain, -, hentries, rfl⟩ := demand_running hd
    exact h.mark hn hentries
  | @follow top rest task focus target unwrapped slot hchain hwork hn =>
    have hpos := h.positions top (hchain ▸ List.mem_cons_self)
    rw [hwork] at hpos
    refine ⟨⟨.refl _, fun hk => hk, fun hm => hm⟩, h.setWork ?_⟩
    intro p hp
    rcases List.mem_cons.1 hp with rfl | hp
    · exact (h.layout.resolved hn).lt
    · exact hpos p (List.mem_cons_of_mem _ hp)
  | @unwrap top rest task focus payload unwrapped hchain hwork hn _ _ =>
    have hpos := h.positions top (hchain ▸ List.mem_cons_self)
    rw [hwork] at hpos
    refine ⟨⟨.refl _, fun hk => hk, fun hm => hm⟩, h.setWork ?_⟩
    intro p hp
    rcases List.mem_cons.1 hp with rfl | hp
    · exact h.layout.children hn p (List.mem_singleton.2 rfl)
    · exact hpos p (List.mem_cons_of_mem _ hp)
  | @serve top rest req s' hchain hreq hs =>
    have hsafe : req.Safe start (s.counted top).nodes := by
      rw [nodes_counted]
      exact h.safe hchain hreq
    obtain ⟨hgrows, hsound⟩ := (h.counted top).serve (by rw [chain_counted, hchain]) hsafe hs
    exact ⟨(Grows.counted s top).trans hgrows, hsound⟩

end Sound

end Session

end ObjectModel
