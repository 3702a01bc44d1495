import ObjectModel.Proofs.Session.Completion

/-!
# Where values come from

Every value that an evaluation adds has one origin. An object is the object of its frame, and a list
or an erased type was built for one binding, whose instruction is a list, a concatenation or a cast
(`Session.Builders`). So positions of values can be told apart by frames and slots. The invariant
rests on the tasks: an instruction waits with tasks of its own kind only (`Task.Serves`), so what a
task produces in the end is what its instruction is there for.
-/

set_option autoImplicit false

namespace ObjectModel

variable {env : Environment} {start : ℕ}

/-! ## Kinds of instructions -/

/-- The value of the instruction is a list or an erased type that was not there before. -/
def Instr.builds : Instr → Bool
  | .list _ _ => true
  | .concat _ => true
  | .any _ => true
  | _ => false

/-- The instruction instantiates a class. -/
def Instr.creates : Instr → Bool
  | .object _ _ => true
  | _ => false

theorem Instr.builds_eq_false_of_creates {i : Instr} (h : i.creates = true) :
    i.builds = false := by
  cases i with
  | object _ _ => rfl
  | _ => cases h

/-- The node is a list or an erased type. -/
def Node.isBuilt : Node → Bool
  | .list _ _ => true
  | .any _ => true
  | _ => false

theorem Node.isBinding_eq_false_of_isBuilt {n : Node} (h : n.isBuilt = true) :
    n.isBinding = false := by
  cases n with
  | binding _ _ => cases h
  | _ => rfl

/-- The tasks that an instruction waits with. -/
inductive Task.Serves : Instr → Task → Prop
  | forward {source : LocalRef} {path : List Name} : Serves (.project source path) .forward
  | project {source : LocalRef} {path : List Name} (field : Name) (rest : List Name) :
      Serves (.project source path) (.project field rest)
  | concat {lists : List LocalRef} (seen rest : List ValueId) :
      Serves (.concat lists) (.concat seen rest)
  | left {op : IntOp} {lhs rhs : LocalRef} (o : IntOp) (r : ValueId) :
      Serves (.binary op lhs rhs) (.left o r)
  | right {op : IntOp} {lhs rhs : LocalRef} (o : IntOp) (l : ValueId) :
      Serves (.binary op lhs rhs) (.right o l)

/-- The requests that an instruction makes. -/
inductive Request.Serves : Instr → Request → Prop
  | await {i : Instr} {task : Task} (focus : ValueId) : task.Serves i → Serves i (.await task focus)
  /-- A literal comes from a constant or an operator. -/
  | literal {i : Instr} (l : Literal) : i.builds = false → i.creates = false →
      Serves i (.produce (.literal l))
  | built {i : Instr} {n : Node} : i.builds = true → n.isBuilt = true → Serves i (.produce n)
  | forward {i : Instr} (id : ValueId) : i.builds = false → i.creates = false →
      Serves i (.forward id)
  | create {i : Instr} (target : Name) (args : List ValueId) : i.creates = true →
      Serves i (.create target args)
  | fail {i : Instr} (f : Failure) : Serves i (.fail f)

theorem Request.Serves.task {i : Instr} {task : Task} {focus : ValueId}
    (h : (Request.await task focus).Serves i) : task.Serves i := by
  cases h with
  | await _ htask => exact htask

theorem Frame.Starts.serves {f : Frame} {i : Instr} {req : Request} (h : f.Starts env i req) :
    req.Serves i := by
  cases h with
  | constant l => exact .literal l rfl rfl
  | object _ => exact .create _ _ rfl
  | value _ => exact .await _ .forward
  | project _ => exact .await _ (.project _ _)
  | list _ => exact .built rfl rfl
  | concat _ => exact .await _ (.concat _ _)
  | any _ => exact .built rfl rfl
  | binary _ _ => exact .await _ (.left _ _)
  | unknown _ => exact .fail _

theorem Task.Resumes.serves {a : Arena} {v : ValueId} {task : Task} {req : Request}
    (h : task.Resumes env a v req) {i : Instr} (hi : task.Serves i) : req.Serves i := by
  cases h with
  | forward =>
    cases hi
    exact .forward _ rfl rfl
  | last _ =>
    cases hi
    exact .await _ .forward
  | project _ =>
    cases hi
    exact .await _ (.project _ _)
  | gather _ _ _ =>
    cases hi
    exact .await _ (.concat _ _)
  | join _ _ =>
    cases hi
    exact .built rfl rfl
  | left _ _ =>
    cases hi
    exact .await _ (.right _ _)
  | operate _ _ _ =>
    cases hi
    exact .literal _ rfl rfl
  | refuse _ => exact .fail _

namespace Session

variable {s s' : Session} {pending pending' : ValueId → Prop}

/-! ## The invariant -/

/-- The value was built for the slot. -/
structure BuiltBy (s : Session) (slot : Slot) (v : ValueId) : Prop where
  resolved : ∃ id, s.nodes.node? id = some (.binding slot (.resolved v))
  builds : ∃ f i, s.Located slot f i ∧ i.builds = true

/-- Where the values come from that the evaluation has added; the pending ones are not accounted
for. -/
structure Builders (start : ℕ) (s : Session) (pending : ValueId → Prop) : Prop where
  /-- Each activation waits with a task of its instruction. -/
  kinds : ∀ a ∈ s.chain.entries, ∀ {f : Frame} {i : Instr}, s.Located a.slot f i →
    ∀ {task : Task} {focus : ValueId} {unwrapped : ℕ}, a.work = .await task focus unwrapped →
      task.Serves i
  objects : ∀ {v : ValueId} {cls : Name} {fields : List ValueId}, start ≤ v.index →
    s.nodes.node? v = some (.object cls fields) → ∃ (k : ℕ) (f : Frame), s.frames[k]? = some f ∧
      f.object = v
  built : ∀ {v : ValueId} {n : Node}, start ≤ v.index → s.nodes.node? v = some n →
    n.isBuilt = true → ¬ pending v → ∃ slot, s.BuiltBy slot v
  new : ∀ {slot : Slot} {v : ValueId}, s.BuiltBy slot v → start ≤ v.index ∧
    ∃ n, s.nodes.node? v = some n ∧ n.isBuilt = true
  unique : ∀ {a b : Slot} {v : ValueId}, s.BuiltBy a v → s.BuiltBy b v → a = b

theorem BuiltBy.grows {slot : Slot} {v : ValueId} (h : s.BuiltBy slot v) (hs : s.Grows s') :
    s'.BuiltBy slot v := by
  obtain ⟨⟨id, hn⟩, f, i, hloc, hi⟩ := h
  exact ⟨⟨id, hs.nodes.resolved hn⟩, f, i, hloc.grows hs, hi⟩

/-- One value is built for a slot. -/
theorem BuiltBy.value_unique {slot : Slot} {v w : ValueId} (hv : s.BuiltBy slot v)
    (hl : Layout env start s.nodes s.frames) (hw : s.BuiltBy slot w) : v = w := by
  obtain ⟨id, hid⟩ := hv.resolved
  obtain ⟨id', hid'⟩ := hw.resolved
  cases hl.binding_unique hid hid'
  rw [hid] at hid'
  cases hid'
  rfl

/-- What a later state has built was built before, if the same bindings are evaluated. -/
theorem BuiltBy.of_grows {slot : Slot} {v : ValueId} (h : s'.BuiltBy slot v)
    (hs : Sound env start s) (hg : s.Grows s')
    (hres : ∀ {id t : ValueId} {slot : Slot},
      s'.nodes.node? id = some (.binding slot (.resolved t)) →
        s.nodes.node? id = some (.binding slot (.resolved t))) : s.BuiltBy slot v := by
  obtain ⟨⟨id, hn⟩, f, i, hloc, hi⟩ := h
  exact ⟨⟨id, hres hn⟩, f, i, .of_grows hs.layout hg (hres hn) hloc, hi⟩

/-- What is built when the most recent activation ends: what was built before, and the result if
the instruction builds one. -/
theorem BuiltBy.of_settle (h : Sound env start s) {top : Activation} {rest : List Activation}
    (hchain : s.chain.entries = top :: rest) {t v : ValueId} {slot : Slot}
    (hb : (s.settle t).BuiltBy slot v) : s.BuiltBy slot v ∨
      (slot = top.slot ∧ v = t ∧ ∃ f i, s.Located top.slot f i ∧ i.builds = true) := by
  obtain ⟨⟨id, hn⟩, f, i, hloc, hi⟩ := hb
  have hloc' := located_settle.1 hloc
  rw [h.node?_settle hchain] at hn
  split at hn
  · cases hn
    exact Or.inr ⟨rfl, rfl, f, i, hloc', hi⟩
  · exact Or.inl ⟨⟨id, hn⟩, f, i, hloc', hi⟩

namespace Builders

/-! ## Updates -/

/-- A later state accounts for its values if it has the same evaluated bindings, only waits that
were there before, and no values that are new, except for pending ones and objects of frames. -/
theorem of_same (h : Builders start s pending) (hs : Sound env start s) (hg : s.Grows s')
    (hres : ∀ {id t : ValueId} {slot : Slot},
      s'.nodes.node? id = some (.binding slot (.resolved t)) →
        s.nodes.node? id = some (.binding slot (.resolved t)))
    (hchain : ∀ a ∈ s'.chain.entries, a.work = .start ∨ a ∈ s.chain.entries)
    (hobj : ∀ {v : ValueId} {cls : Name} {fields : List ValueId},
      s'.nodes.node? v = some (.object cls fields) →
        s.nodes.node? v = some (.object cls fields) ∨
          ∃ (k : ℕ) (f : Frame), s'.frames[k]? = some f ∧ f.object = v)
    (hval : ∀ {v : ValueId} {n : Node}, s'.nodes.node? v = some n → n.isBuilt = true →
      ¬ pending' v → s.nodes.node? v = some n ∧ ¬ pending v) :
    Builders start s' pending' where
  kinds := by
    intro a ha f i hf task focus unwrapped hwork
    rcases hchain a ha with hstart | hmem
    · rw [hstart] at hwork
      cases hwork
    · exact h.kinds a hmem (.of_grows hs.layout hg (hs.waiting a hmem) hf) hwork
  objects := by
    intro v cls fields hv hn
    rcases hobj hn with hn | hframe
    · obtain ⟨k, f, hf, ho⟩ := h.objects hv hn
      exact ⟨k, f, hg.frames hf, ho⟩
    · exact hframe
  built := by
    intro v n hv hn hbuilt hp
    obtain ⟨hn', hp'⟩ := hval hn hbuilt hp
    obtain ⟨slot, hslot⟩ := h.built hv hn' hbuilt hp'
    exact ⟨slot, hslot.grows hg⟩
  new := by
    intro slot v hb
    obtain ⟨hv, n, hn, hbuilt⟩ := h.new (hb.of_grows hs hg hres)
    exact ⟨hv, n, hg.nodes.value hn (Node.isBinding_eq_false_of_isBuilt hbuilt), hbuilt⟩
  unique := by
    intro a b v ha hb
    exact h.unique (ha.of_grows hs hg hres) (hb.of_grows hs hg hres)

/-- The most recent activation may wait for something else with a task of its instruction. -/
theorem setWork (h : Builders start s pending) {top : Activation} {rest : List Activation}
    (hchain : s.chain.entries = top :: rest) {task : Task} {focus : ValueId} {unwrapped : ℕ}
    (htask : ∀ {f : Frame} {i : Instr}, s.Located top.slot f i → task.Serves i) :
    Builders start (s.setWork (.await task focus unwrapped)) pending where
  kinds := by
    intro a ha f i hf task' focus' unwrapped' hwork
    rw [chain_setWork hchain] at ha
    rcases List.mem_cons.1 ha with rfl | ha
    · cases hwork
      exact htask ⟨hf.frame, hf.instr⟩
    · exact h.kinds a (hchain ▸ List.mem_cons_of_mem _ ha) ⟨hf.frame, hf.instr⟩ hwork
  objects := h.objects
  built := by
    intro v n hv hn hbuilt hp
    obtain ⟨slot, hb⟩ := h.built hv hn hbuilt hp
    exact ⟨slot, hb.grows ⟨.refl _, fun hk => hk, fun hm => hm⟩⟩
  new := by
    intro slot v hb
    exact h.new (hb.grows ⟨.refl _, fun hk => hk, fun hm => hm⟩)
  unique := by
    intro a b v ha hb
    have hsame : (s.setWork (.await task focus unwrapped)).Grows s :=
      ⟨.refl _, fun hk => hk, fun hm => hm⟩
    exact h.unique (ha.grows hsame) (hb.grows hsame)

/-- The most recent activation may end with a value. If its instruction builds one, then the value
is pending and was not built for another slot. -/
theorem settle (h : Builders start s pending) (hs : Sound env start s) {top : Activation}
    {rest : List Activation} (hchain : s.chain.entries = top :: rest) {t : ValueId}
    (ht : s.nodes.IsValue t)
    (hpending : ∀ {v}, pending v →
      v = t ∧ ∃ f i, s.Located top.slot f i ∧ i.builds = true)
    (hnew : ∀ {f : Frame} {i : Instr}, s.Located top.slot f i → i.builds = true →
      (start ≤ t.index ∧ ∃ n, s.nodes.node? t = some n ∧ n.isBuilt = true) ∧
        ∀ slot, ¬ s.BuiltBy slot t) :
    Builders start (s.settle t) (fun _ => False) := by
  have hg := (hs.settle hchain ht).1
  have hset := hs.node?_settle hchain t
  -- A value is not a binding, so it is what it was.
  have hread : ∀ {v n}, (s.settle t).nodes.node? v = some n → n.isBinding = false →
      s.nodes.node? v = some n := by
    intro v n hn hb
    rw [hset] at hn
    split at hn
    · cases hn
      cases hb
    · exact hn
  refine ⟨?_, ?_, ?_, ?_, ?_⟩
  · intro a ha f i hf task focus unwrapped hwork
    rw [chain_settle hchain] at ha
    have hmem : a ∈ s.chain.entries := hchain ▸ List.mem_cons_of_mem _ ha
    exact h.kinds a hmem (.of_grows hs.layout hg (hs.waiting a hmem) hf) hwork
  · intro v cls fields hv hn
    obtain ⟨k, f, hf, ho⟩ := h.objects hv (hread hn rfl)
    exact ⟨k, f, hg.frames hf, ho⟩
  · intro v n hv hn hbuilt _
    have hn' := hread hn (Node.isBinding_eq_false_of_isBuilt hbuilt)
    by_cases hp : pending v
    · -- The value that was pending is now the result of the activation.
      obtain ⟨rfl, f, i, hloc, hi⟩ := hpending hp
      refine ⟨top.slot, ⟨top.binding, ?_⟩, f, i, hloc.grows hg, hi⟩
      rw [hset, if_pos rfl]
    · obtain ⟨slot, hb⟩ := h.built hv hn' hbuilt hp
      exact ⟨slot, hb.grows hg⟩
  · -- What is built now was built before, or is the result of this activation.
    intro slot v hb
    have hold : start ≤ v.index ∧ ∃ n, s.nodes.node? v = some n ∧ n.isBuilt = true := by
      rcases hb.of_settle hs hchain with hb | ⟨-, rfl, f, i, hloc, hi⟩
      · exact h.new hb
      · exact (hnew hloc hi).1
    obtain ⟨hv, n, hn, hbuilt⟩ := hold
    exact ⟨hv, n, hg.nodes.value hn (Node.isBinding_eq_false_of_isBuilt hbuilt), hbuilt⟩
  · intro a b v ha hb
    rcases ha.of_settle hs hchain with ha' | ⟨rfl, rfl, f, i, hloc, hi⟩
    · rcases hb.of_settle hs hchain with hb' | ⟨-, rfl, f, i, hloc, hi⟩
      · exact h.unique ha' hb'
      · exact absurd ha' ((hnew hloc hi).2 a)
    · rcases hb.of_settle hs hchain with hb' | ⟨rfl, -, -⟩
      · exact absurd hb' ((hnew hloc hi).2 b)
      · rfl

/-- A value that is not an object may be added. Until a binding names it, it is pending if it is a
list or an erased type. -/
theorem alloc (h : Builders start s fun _ => False) (hs : Sound env start s) {n : Node}
    (hb : n.isBinding = false) (hc : ∀ c ∈ n.children, c.index < s.nodes.size)
    (hobj : ∀ {cls : Name} {fields : List ValueId}, n ≠ .object cls fields) :
    Builders start (s.alloc n).2 fun v => v = (s.alloc n).1 ∧ n.isBuilt = true := by
  have hread : ∀ {v m}, (s.alloc n).2.nodes.node? v = some m →
      (v = (s.alloc n).1 ∧ m = n) ∨ s.nodes.node? v = some m := Arena.eq_or_of_node?_push
  apply h.of_same hs (hs.alloc hb hc).1 (Arena.binding_push_iff hb).1 fun a ha => Or.inr ha
  · intro v cls fields hv
    rcases hread hv with ⟨-, rfl⟩ | hv
    · exact absurd rfl hobj
    · exact Or.inl hv
  · intro v m hv hbuilt hp
    rcases hread hv with ⟨rfl, rfl⟩ | hv
    · exact absurd ⟨rfl, hbuilt⟩ hp
    · exact ⟨hv, not_false⟩

/-- The most recent activation may end with a new value of the kind that its instruction builds. -/
theorem produce (h : Builders start s fun _ => False) (hs : Sound env start s) {top : Activation}
    {rest : List Activation} (hchain : s.chain.entries = top :: rest) {f : Frame} {i : Instr}
    (hloc : s.Located top.slot f i) {n : Node} (hb : n.isBinding = false)
    (hc : ∀ c ∈ n.children, c.index < s.nodes.size) (hserves : (Request.produce n).Serves i) :
    Builders start ((s.alloc n).2.settle (s.alloc n).1) fun _ => False := by
  obtain ⟨hg, hsound⟩ := hs.alloc hb hc
  have hnew : (s.alloc n).2.nodes.node? (s.alloc n).1 = some n :=
    Arena.node?_push_size s.nodes n
  have hmid := h.alloc hs hb hc <| by
    rintro cls fields rfl
    cases hserves with
    | built _ hbuilt => cases hbuilt
  apply hmid.settle hsound hchain ⟨n, hnew, hb⟩
  · rintro v ⟨rfl, hbuilt⟩
    refine ⟨rfl, f, i, hloc.grows hg, ?_⟩
    cases hserves with
    | literal _ _ _ => cases hbuilt
    | built hi _ => exact hi
  · intro f' i' hloc' hi
    obtain ⟨rfl, rfl⟩ := hloc'.unique (hloc.grows hg)
    refine ⟨⟨hs.layout.start_le, n, hnew, ?_⟩, ?_⟩
    · cases hserves with
      | literal _ hbuilds _ =>
        rw [hi] at hbuilds
        cases hbuilds
      | built _ hbuilt => exact hbuilt
    · -- Nothing was built at a position that was not there.
      intro slot hslot
      obtain ⟨-, m, hm, -⟩ := h.new (hslot.of_grows hs hg (Arena.binding_push_iff hb).1)
      exact absurd (Arena.node?_lt hm) (Nat.lt_irrefl _)

/-- A class may be instantiated: the only value that is new is the object of a new frame. -/
theorem create (h : Builders start s fun _ => False) (hs : Sound env start s) {target : Name}
    {args : List ValueId} {c : Creation} (hc : s.creation env target args = .ok c)
    (hargs : ∀ id ∈ args, s.nodes.IsLocal start id) :
    Builders start (s.create c).2 fun _ => False := by
  have hg := (hs.create hc hargs).1
  cases c with
  | known o =>
    exact h.of_same hs hg (fun hid => hid) (fun a ha => Or.inr ha) (fun hv => Or.inl hv)
      fun hv _ _ => ⟨hv, not_false⟩
  | fresh f key fields =>
    have hread := @Arena.node?_addBlock s.nodes f s.frames.size fields (creation_eq_fresh hc).base
    apply h.of_same hs hg
    · intro id t slot hid
      rcases hread.1 hid with hid | ⟨_, -, -, hid⟩ | ⟨-, hid⟩
      · exact hid
      · cases hid
      · cases hid
    · exact fun a ha => Or.inr ha
    · intro v cls fields hv
      rcases hread.1 hv with hv | ⟨_, -, -, hv⟩ | ⟨rfl, -⟩
      · exact Or.inl hv
      · cases hv
      · exact Or.inr ⟨_, f, Array.getElem?_push_size, rfl⟩
    · intro v n hv hbuilt _
      rcases hread.1 hv with hv | ⟨_, -, -, rfl⟩ | ⟨-, rfl⟩
      · exact ⟨hv, not_false⟩
      · cases hbuilt
      · cases hbuilt

/-! ## Transitions -/

/-- The most recent activation asks for what its instruction may ask for. -/
theorem serves (h : Builders start s pending) (hs : Sound env start s) {top : Activation}
    {rest : List Activation} (hchain : s.chain.entries = top :: rest) {req : Request}
    (hreq : s.Asks env top req) {f : Frame} {i : Instr} (hloc : s.Located top.slot f i) :
    req.Serves i := by
  cases hreq with
  | start hwork hf hi =>
    obtain ⟨rfl, rfl⟩ := hloc.unique ⟨hf, hi⟩
    exact (Frame.starts_start (hs.layout.params_size hf) (Array.mem_of_getElem? hi)).serves
  | resume hwork _ _ _ =>
    apply (Task.resumes_resume env s.nodes _ _).serves
    exact h.kinds top (hchain ▸ List.mem_cons_self) hloc hwork

/-- A served request leaves every value accounted for. -/
theorem serve (h : Builders start s fun _ => False) (hs : Sound env start s) {top : Activation}
    {rest : List Activation} (hchain : s.chain.entries = top :: rest) {req : Request}
    (hsafe : req.Safe start s.nodes)
    (hserves : ∀ {f : Frame} {i : Instr}, s.Located top.slot f i → req.Serves i)
    (hserve : s.serve env req = .running s') : Builders start s' fun _ => False := by
  have hn := hs.waiting top (hchain ▸ List.mem_cons_self)
  obtain ⟨f, i, hloc⟩ := Located.of_binding hs.layout hn
  rcases serve_running hserve with ⟨task, focus, rfl, rfl⟩ | ⟨n, rfl, rfl⟩ | ⟨id, rfl, rfl⟩ |
    ⟨target, args, c, rfl, hc, rfl⟩
  · apply h.setWork hchain
    intro f' i' hloc'
    cases hserves hloc' with
    | await _ htask => exact htask
  · exact h.produce hs hchain hloc hsafe.1 hsafe.2 (hserves hloc)
  · apply h.settle hs hchain hsafe (fun hp => hp.elim)
    intro f' i' hloc' hi
    cases hserves hloc' with
    | forward _ hbuilds _ =>
      rw [hi] at hbuilds
      cases hbuilds
  · obtain ⟨hg, hsound, hvalue, hsame⟩ := hs.create hc hsafe
    apply (h.create hs hc hsafe).settle hsound (by rw [hsame, hchain]) hvalue (fun hp => hp.elim)
    -- An instruction that instantiates a class builds nothing else.
    intro f' i' hloc' hi
    obtain ⟨rfl, rfl⟩ := hloc'.unique (hloc.grows hg)
    cases hserves hloc with
    | create _ _ hcreates =>
      rw [Instr.builds_eq_false_of_creates hcreates] at hi
      cases hi

/-- A step that goes on leaves every value accounted for. -/
theorem transition (h : Builders start s fun _ => False) (hs : Sound env start s)
    (ht : Transition env s s') : Builders start s' fun _ => False := by
  have hg := (hs.transition ht).1
  -- A demand changes nothing but the state of a binding that has no value.
  have hmark : ∀ {id : ValueId} {slot : Slot} {r : Session},
      s.nodes.node? id = some (.binding slot .unstarted) →
      r.nodes = s.nodes.setIfInBounds id.index (.binding slot .inProgress) →
      ∀ {j : ValueId} {n : Node}, r.nodes.node? j = some n → n.Settled →
        s.nodes.node? j = some n := by
    intro id slot r hn hr j n hj hsettled
    rw [hr, Arena.node?_set hn] at hj
    split at hj
    · cases hj
      exact hsettled.elim
    · exact hj
  have hsettled : ∀ {n : Node}, n.isBuilt = true → n.Settled := fun hn =>
    Node.settled_of_isBinding_eq_false (Node.isBinding_eq_false_of_isBuilt hn)
  cases ht with
  | pass hchain _ _ =>
    exact h.of_same hs hg (fun hn => hn) (fun a ha => Or.inr ha) (fun hv => Or.inl hv)
      fun hv _ hp => ⟨hv, hp⟩
  | skip hchain _ _ _ _ =>
    exact h.of_same hs hg (fun hn => hn) (fun a ha => Or.inr ha) (fun hv => Or.inl hv)
      fun hv _ hp => ⟨hv, hp⟩
  | next hchain hf hid hn hd =>
    obtain ⟨g, chain, -, hentries, rfl⟩ := demand_running hd
    apply h.of_same hs hg (fun hj => hmark hn rfl hj trivial)
    · intro a ha
      change a ∈ chain.entries at ha
      rw [hentries] at ha
      rcases List.mem_cons.1 ha with rfl | ha
      · exact Or.inl rfl
      · exact Or.inr ha
    · exact fun hv => Or.inl (hmark hn rfl hv trivial)
    · exact fun hv hbuilt hp => ⟨hmark hn rfl hv (hsettled hbuilt), hp⟩
  | demand hchain hwork hn hd =>
    obtain ⟨g, chain, -, hentries, rfl⟩ := demand_running hd
    apply h.of_same hs hg (fun hj => hmark hn rfl hj trivial)
    · intro a ha
      change a ∈ chain.entries at ha
      rw [hentries] at ha
      rcases List.mem_cons.1 ha with rfl | ha
      · exact Or.inl rfl
      · exact Or.inr ha
    · exact fun hv => Or.inl (hmark hn rfl hv trivial)
    · exact fun hv hbuilt hp => ⟨hmark hn rfl hv (hsettled hbuilt), hp⟩
  | follow hchain hwork hn =>
    exact h.setWork hchain fun hloc => h.kinds _ (hchain ▸ List.mem_cons_self) hloc hwork
  | unwrap hchain hwork hn _ _ =>
    exact h.setWork hchain fun hloc => h.kinds _ (hchain ▸ List.mem_cons_self) hloc hwork
  | @serve top rest req s' hchain hreq hserve =>
    have hsafe := hs.safe hchain hreq
    have hserves : ∀ {f i}, s.Located top.slot f i → req.Serves i := h.serves hs hchain hreq
    -- The session in which the request is served: nothing but a counter has changed.
    generalize hcounted : s.counted top = r at hserve
    have hgr : s.Grows r := hcounted ▸ Grows.counted s top
    have hr : Sound env start r := hcounted ▸ hs.counted top
    have hnodes : r.nodes = s.nodes := hcounted ▸ nodes_counted s top
    have hrchain : r.chain.entries = s.chain.entries := by rw [← hcounted, chain_counted]
    rw [← hnodes] at hsafe
    have hmid : Builders start r fun _ => False := by
      apply h.of_same hs hgr
      · exact fun hn => hnodes ▸ hn
      · exact fun a ha => Or.inr (hrchain ▸ ha)
      · exact fun hv => Or.inl (hnodes ▸ hv)
      · exact fun hv _ hp => ⟨hnodes ▸ hv, hp⟩
    apply hmid.serve hr (hrchain.trans hchain) hsafe _ hserve
    intro f i hloc
    have hwaiting := hs.waiting top (hchain ▸ List.mem_cons_self)
    exact hserves (.of_grows hs.layout hgr hwaiting hloc)

/-- Every later state accounts for its values. -/
theorem reaches (h : Builders start s fun _ => False) (hs : Sound env start s)
    (hr : Reaches env s s') : Builders start s' fun _ => False :=
  (hr.induct (I := fun r => Sound env start r ∧ Builders start r fun _ => False)
    (fun _ _ hr ht => ⟨(hr.1.transition ht).2, hr.2.transition hr.1 ht⟩) ⟨hs, h⟩).2

end Builders

end Session

/-- In the first state of an evaluation nothing is built, and the only object is that of the first
frame. -/
theorem Environment.Opens.builders {nodes : Arena} {target : Name} {args : List ValueId} {f : Frame}
    {s : Session} (h : env.Opens nodes target args f s) (hnodes : nodes.SelfContained) :
    s.Builders nodes.size fun _ => False := by
  have hnone : ∀ {slot v}, ¬ s.BuiltBy slot v := by
    rintro slot v ⟨⟨id, hn⟩, -⟩
    cases h.unstarted hnodes hn
  have hadded : ∀ {v n}, nodes.size ≤ v.index → s.nodes.node? v = some n →
      (∃ slot, n = .binding slot .unstarted) ∨ v = f.object ∧ n.isBuilt = false := by
    intro v n hv hn
    cases h with
    | intro hf =>
      rcases (Arena.node?_addBlock hf.base).1 hn with hn | ⟨_, -, -, rfl⟩ | ⟨rfl, rfl⟩
      · exact absurd (Arena.node?_lt hn) (Nat.not_lt.2 hv)
      · exact Or.inl ⟨_, rfl⟩
      · exact Or.inr ⟨rfl, rfl⟩
  refine ⟨?_, ?_, ?_, fun hb => absurd hb hnone, fun hb => absurd hb hnone⟩
  · intro a ha
    rw [h.chain] at ha
    cases ha
  · intro v cls fields hv hn
    rcases hadded hv hn with ⟨slot, hslot⟩ | ⟨rfl, -⟩
    · cases hslot
    · exact ⟨0, f, by rw [h.frames]; rfl, rfl⟩
  · intro v n hv hn hbuilt _
    rcases hadded hv hn with ⟨slot, rfl⟩ | ⟨-, hnot⟩
    · cases hbuilt
    · rw [hnot] at hbuilt
      cases hbuilt

end ObjectModel
