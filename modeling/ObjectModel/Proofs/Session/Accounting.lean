import ObjectModel.Proofs.Session.Trace

/-!
# The size of an arena

The arena of an evaluation has the nodes that it started with, a block for each frame, and the
results of the instructions that allocate one and are evaluated (`Session.Accounted`). At the end
all of them are, so size and counters are sums over the bodies of the frames
(`Session.Completed.ncard_evaluated`).
-/

set_option autoImplicit false

namespace ObjectModel

variable {env : Environment} {start : ℕ}

/-! ## Instructions that allocate -/

/-- The value of the instruction is a node of its own. -/
def Instr.allocates : Instr → Bool
  | .constant _ => true
  | .list _ _ => true
  | .concat _ => true
  | .any _ => true
  | .binary _ _ _ => true
  | .object _ _ => false
  | .project _ _ => false
  | .unknown _ => false

/-- A new node is asked for by instructions that allocate only, and these end with nothing else. -/
def Request.Allots (i : Instr) : Request → Prop
  | .produce _ => i.allocates = true
  | .forward _ => i.allocates = false
  | .create _ _ => i.allocates = false
  | .await _ _ => True
  | .fail _ => True

theorem Frame.Starts.allots {f : Frame} {i : Instr} {req : Request} (h : f.Starts env i req) :
    req.Allots i := by
  cases h <;> trivial

theorem Task.Resumes.allots {a : Arena} {v : ValueId} {task : Task} {req : Request}
    (h : task.Resumes env a v req) {i : Instr} (hi : task.Serves i) : req.Allots i := by
  cases h <;> cases hi <;> trivial

namespace Session

variable {s s' : Session}

/-- What the most recent activation asks for fits its instruction. -/
theorem Builders.allots (h : Builders start s fun _ => False) (hs : Sound env start s)
    {top : Activation} {rest : List Activation} (hchain : s.chain.entries = top :: rest)
    {req : Request} (hreq : s.Asks env top req) {f : Frame} {i : Instr}
    (hloc : s.Located top.slot f i) : req.Allots i := by
  cases hreq with
  | start hwork hf hi =>
    obtain ⟨rfl, rfl⟩ := hloc.unique ⟨hf, hi⟩
    exact (Frame.starts_start (hs.layout.params_size hf) (Array.mem_of_getElem? hi)).allots
  | @resume task focus unwrapped n hwork hn hb _ =>
    exact (task.resumes_resume env s.nodes focus).allots
      (h.kinds top (hchain ▸ List.mem_cons_self) hloc hwork)

/-! ## The size -/

/-- A number for each frame, added up. -/
def total (s : Session) (count : ClassDef → ℕ) : ℕ := (s.frames.toList.map fun f => count f.cls).sum

/-- The nodes of the arena: those it started with, the bindings and the object of each frame, and
the nodes of the instructions that allocate one and are evaluated, when so many of these have no
binding that names them. -/
def Accounted (start unnamed : ℕ) (s : Session) : Prop :=
  s.nodes.size =
    start + s.total (fun c => c.instrs.size + 1) + (s.evaluated Instr.allocates).ncard + unnamed

theorem total_push (s : Session) (f : Frame) (key : MemoKey) (fields : List ValueId)
    (count : ClassDef → ℕ) :
    (s.addFrame f key fields).total count = s.total count + count f.cls := by
  show ((s.frames.push f).toList.map fun f => count f.cls).sum = _
  rw [Array.toList_push, List.map_append, List.sum_append, List.map_singleton, List.sum_singleton]
  rfl

theorem total_add (s : Session) (count count' : ClassDef → ℕ) :
    (s.total fun c => count c + count' c) = s.total count + s.total count' :=
  List.sum_map_add

theorem size_settle (s : Session) (t : ValueId) : (s.settle t).nodes.size = s.nodes.size := by
  rw [settle]
  split
  · rfl
  · exact Array.size_setIfInBounds

namespace Accounted

variable {unnamed : ℕ} {top : Activation} {rest : List Activation}

theorem of_same (h : Accounted start unnamed s) (hsize : s'.nodes.size = s.nodes.size)
    (hframes : s'.frames = s.frames)
    (hevaluated : s'.evaluated Instr.allocates = s.evaluated Instr.allocates) :
    Accounted start unnamed s' := by
  rw [Accounted, hsize, total, hframes, hevaluated]
  exact h

/-- The most recent activation may end. If its instruction allocates, its node has a binding now. -/
theorem settle (hs : Sound env start s) (hchain : s.chain.entries = top :: rest) {f : Frame}
    {i : Instr} (hloc : s.Located top.slot f i)
    (h : Accounted start (if i.allocates = true then 1 else 0) s) (t : ValueId) :
    Accounted start 0 (s.settle t) := by
  rw [Accounted, size_settle, total, frames_settle, hs.evaluated_settle hchain hloc]
  rw [Accounted, total] at h
  omega

theorem demand (h : Accounted start 0 s) {id : ValueId} {slot cursor : Slot}
    (hn : s.nodes.node? id = some (.binding slot .unstarted))
    (hd : Session.demand env { s with cursor } id slot = .running s') : Accounted start 0 s' := by
  obtain ⟨g, chain, -, -, rfl⟩ := demand_running hd
  exact h.of_same Array.size_setIfInBounds rfl (evaluated_mark hn rfl rfl)

/-- A request that is served adds a node for an instruction that allocates, and a block for a new
frame. -/
theorem serve (h : Accounted start 0 s) (hs : Sound env start s)
    (hchain : s.chain.entries = top :: rest) {f : Frame} {i : Instr}
    (hloc : s.Located top.slot f i) {req : Request} (hallots : req.Allots i)
    (hsafe : req.Safe start s.nodes) (hserve : s.serve env req = .running s') :
    Accounted start 0 s' := by
  rcases serve_running hserve with ⟨task, focus, rfl, rfl⟩ | ⟨n, rfl, rfl⟩ | ⟨id, rfl, rfl⟩ |
    ⟨target, args, c, rfl, hc, rfl⟩
  · exact h.of_same rfl rfl (evaluated_of_nodes rfl rfl)
  · obtain ⟨hg, hsound⟩ := hs.alloc hsafe.1 hsafe.2
    have hmchain : (s.alloc n).2.chain.entries = top :: rest := hchain
    apply settle hsound hmchain (hloc.grows hg)
    have hallocates : i.allocates = true := hallots
    have hsize : (s.alloc n).2.nodes.size = s.nodes.size + 1 := Array.size_push n
    have hframes : (s.alloc n).2.frames = s.frames := rfl
    rw [if_pos hallocates, Accounted, hsize, total, hframes, evaluated_alloc hsafe.1]
    rw [Accounted, total] at h
    omega
  · apply settle hs hchain hloc
    have hallocates : i.allocates = false := hallots
    rw [hallocates]
    exact h
  · obtain ⟨hg, hsound, -, hsame⟩ := hs.create hc hsafe
    have hmchain : (s.create c).2.chain.entries = top :: rest := by rw [hsame, hchain]
    apply settle hsound hmchain (hloc.grows hg)
    have hallocates : i.allocates = false := hallots
    rw [hallocates]
    cases c with
    | known o => exact h.of_same rfl rfl (evaluated_of_nodes rfl rfl)
    | fresh f key fields =>
      have hf := creation_eq_fresh hc
      have hsize : (s.addFrame f key fields).nodes.size = s.nodes.size + f.cls.instrs.size + 1 :=
        Arena.size_addBlock
      show Accounted start 0 (s.addFrame f key fields)
      rw [Accounted, hsize, total_push, hs.evaluated_addFrame hf.base]
      rw [Accounted] at h
      omega

/-- A step that goes on keeps account of the arena. -/
theorem transition (h : Accounted start 0 s) (hs : Regular env start s)
    (ht : Transition env s s') : Accounted start 0 s' := by
  cases ht with
  | pass _ _ _ => exact h.of_same rfl rfl (evaluated_of_nodes rfl rfl)
  | skip _ _ _ _ _ => exact h.of_same rfl rfl (evaluated_of_nodes rfl rfl)
  | next _ _ _ hn hd => exact h.demand hn hd
  | demand _ _ hn hd => exact h.demand hn hd
  | follow _ _ _ => exact h.of_same rfl rfl (evaluated_of_nodes rfl rfl)
  | unwrap _ _ _ _ _ => exact h.of_same rfl rfl (evaluated_of_nodes rfl rfl)
  | @serve top rest req s' hchain hreq hserve =>
    have hwaiting := hs.sound.waiting top (hchain ▸ List.mem_cons_self)
    obtain ⟨f, i, hloc⟩ := Located.of_binding hs.sound.layout hwaiting
    have hsafe : req.Safe start (s.counted top).nodes := by
      rw [nodes_counted]
      exact hs.sound.safe hchain hreq
    have hgrows := Grows.counted s top
    have hcounted : Accounted start 0 (s.counted top) := by
      have hframes : (s.counted top).frames = s.frames := by
        rw [counted]
        split <;> rfl
      have hnodes := nodes_counted s top
      exact h.of_same (by rw [hnodes]) hframes (evaluated_of_nodes hnodes hframes)
    have hcchain : (s.counted top).chain.entries = top :: rest := by rw [chain_counted, hchain]
    exact hcounted.serve (hs.sound.counted top) hcchain (hloc.grows hgrows)
      (hs.builders.allots hs.sound hchain hreq hloc) hsafe hserve

theorem reaches (h : Accounted start 0 s) (hs : Regular env start s) (hr : Reaches env s s') :
    Accounted start 0 s' :=
  (hr.induct (I := fun r => Regular env start r ∧ Accounted start 0 r)
    (fun _ _ hr ht => ⟨hr.1.transition ht, hr.2.transition hr.1 ht⟩) ⟨hs, h⟩).2

end Accounted

/-! ## Sums over frames -/

/-- The positions of the elements of a kind are as many as these elements. -/
theorem encard_positions {α : Type} (q : α → Bool) (l : List α) :
    { i : ℕ | ∃ x, l[i]? = some x ∧ q x = true }.encard = l.countP q := by
  induction l with
  | nil => simp
  | cons x l ih =>
    have hrest :
        (Nat.succ '' { i : ℕ | ∃ y, l[i]? = some y ∧ q y = true }).encard = l.countP q := by
      rw [Nat.succ_injective.encard_image, ih]
    by_cases hx : q x = true
    · have hset : { i : ℕ | ∃ y, (x :: l)[i]? = some y ∧ q y = true } =
          insert 0 (Nat.succ '' { i : ℕ | ∃ y, l[i]? = some y ∧ q y = true }) := by
        ext i
        cases i with
        | zero => simp [hx]
        | succ i => simp
      rw [hset, Set.encard_insert_of_notMem (by simp), hrest, List.countP_cons_of_pos hx]
      rfl
    · have hset : { i : ℕ | ∃ y, (x :: l)[i]? = some y ∧ q y = true } =
          Nat.succ '' { i : ℕ | ∃ y, l[i]? = some y ∧ q y = true } := by
        ext i
        cases i with
        | zero => simp [hx]
        | succ i => simp
      rw [hset, hrest, List.countP_cons_of_neg hx]

/-- The slots of the instructions of a kind are as many as these instructions in all frames. -/
theorem encard_slots (q : Instr → Bool) (frames : List Frame) :
    { slot : Slot | ∃ f i, frames[slot.frame]? = some f ∧ f.cls.instrs[slot.instr]? = some i ∧
      q i = true }.encard = (frames.map fun f => f.cls.instrs.toList.countP q).sum := by
  induction frames with
  | nil => simp
  | cons f frames ih =>
    -- The slots of the first frame, and those of the others one frame further on.
    have hset : { slot : Slot | ∃ g i, (f :: frames)[slot.frame]? = some g ∧
          g.cls.instrs[slot.instr]? = some i ∧ q i = true } =
        Slot.mk 0 '' { k : ℕ | ∃ i, f.cls.instrs.toList[k]? = some i ∧ q i = true } ∪
          (fun slot : Slot => (⟨slot.frame + 1, slot.instr⟩ : Slot)) ''
            { slot : Slot | ∃ g i, frames[slot.frame]? = some g ∧
              g.cls.instrs[slot.instr]? = some i ∧ q i = true } := by
      ext ⟨k, j⟩
      cases k with
      | zero => simp
      | succ k =>
        simp only [Set.mem_ofPred_eq, List.getElem?_cons_succ, Set.mem_union, Set.mem_image]
        constructor
        · rintro ⟨g, i, hg, hi, hq⟩
          exact Or.inr ⟨⟨k, j⟩, ⟨g, i, hg, hi, hq⟩, rfl⟩
        · rintro (⟨i, -, heq⟩ | ⟨slot, ⟨g, i, hg, hi, hq⟩, heq⟩)
          · cases heq
          · cases heq
            exact ⟨g, i, hg, hi, hq⟩
    have hdisjoint : Disjoint
        (Slot.mk 0 '' { k : ℕ | ∃ i, f.cls.instrs.toList[k]? = some i ∧ q i = true })
        ((fun slot : Slot => (⟨slot.frame + 1, slot.instr⟩ : Slot)) ''
            { slot : Slot | ∃ g i, frames[slot.frame]? = some g ∧
              g.cls.instrs[slot.instr]? = some i ∧ q i = true }) := by
      rw [Set.disjoint_left]
      rintro _ ⟨k, -, rfl⟩ ⟨slot, -, heq⟩
      cases heq
    have hfirst : Function.Injective (Slot.mk 0) := by
      intro k j heq
      cases heq
      rfl
    have hnext : Function.Injective fun slot : Slot => (⟨slot.frame + 1, slot.instr⟩ : Slot) := by
      rintro ⟨k, i⟩ ⟨k', i'⟩ heq
      cases heq
      rfl
    rw [hset, Set.encard_union_eq hdisjoint, hfirst.encard_image, hnext.encard_image,
      encard_positions, ih, List.map_cons, List.sum_cons]
    rfl

/-- At the end the evaluated instructions of a kind are all of them in all frames. -/
theorem Completed.ncard_evaluated (h : s.Completed env start) (q : Instr → Bool) :
    (s.evaluated q).ncard = s.total fun c => c.instrs.toList.countP q := by
  have hset : s.evaluated q = { slot : Slot | ∃ f i, s.frames.toList[slot.frame]? = some f ∧
      f.cls.instrs[slot.instr]? = some i ∧ q i = true } := by
    rw [h.evaluated_eq]
    ext slot
    constructor
    · rintro ⟨f, i, hloc, hq⟩
      exact ⟨f, i, by rw [Array.getElem?_toList]; exact hloc.frame, hloc.instr, hq⟩
    · rintro ⟨f, i, hf, hi, hq⟩
      rw [Array.getElem?_toList] at hf
      exact ⟨f, i, ⟨hf, hi⟩, hq⟩
  rw [hset, Set.ncard_def, encard_slots, ENat.toNat_natCast]
  rfl

/-- At the end the started slots are those of all instructions. -/
theorem Completed.ncard_started (h : s.Completed env start) :
    s.started.ncard = s.total fun c => c.instrs.size := by
  have hset : s.started = s.evaluated fun _ => true := by
    rw [h.started_eq, h.evaluated_eq]
    simp
  rw [hset, h.ncard_evaluated]
  simp [total]

end Session

/-- In the first state of an evaluation nothing but the first frame was added. -/
theorem Environment.Opens.accounted {nodes : Arena} {target : Name} {args : List ValueId}
    {f : Frame} {s : Session} (h : env.Opens nodes target args f s) (hnodes : nodes.SelfContained) :
    s.Accounted nodes.size 0 := by
  have hevaluated := h.evaluated_eq hnodes Instr.allocates
  rw [Session.Accounted, Session.total, h.frames, hevaluated, Set.ncard_empty]
  cases h with
  | @intro key fields hf =>
    have hsize : (Session.addFrame { nodes } f key fields).nodes.size =
        nodes.size + f.cls.instrs.size + 1 := Arena.size_addBlock
    rw [hsize]
    simp
    omega

end ObjectModel
