import ObjectModel.Proofs.Session.Answer

/-!
# The layout of a session

Where things lie in the arena of a session (`Layout`): first the copies of the parameters, then one
block per frame with its bindings and its object. Every binding belongs to the instruction of one
frame, every reference is a position of the arena, and a binding that is resolved names a value.
The updates of an evaluation keep the layout: a binding changes its state (`Layout.set`), a value
is added (`Layout.push`), or a frame is (`Layout.addBlock`).
-/

set_option autoImplicit false

namespace ObjectModel

/-- What a local of a frame can be: the copy of a parameter, or a binding. -/
def Arena.IsLocal (a : Arena) (start : Nat) (id : ValueId) : Prop :=
  id.index < start ∨ ∃ slot state, a.node? id = some (.binding slot state)

/-- Where the copies of the parameters, the frames and what they refer to lie in an arena. -/
structure Layout (env : Environment) (start : Nat) (nodes : Arena) (frames : Array Frame) :
    Prop where
  /-- The copies of the parameters are values. -/
  imported : ∀ {id : ValueId}, id.index < start → nodes.IsValue id
  /-- The class of a frame is a class of the table. -/
  known : ∀ {k : Nat} {f : Frame}, frames[k]? = some f →
    env.classes.lookup? f.cls.name = some f.cls
  params_size : ∀ {k : Nat} {f : Frame}, frames[k]? = some f → f.params.size = f.cls.params.length
  params_local : ∀ {k : Nat} {f : Frame} {p : ValueId}, frames[k]? = some f → p ∈ f.params →
    nodes.IsLocal start p
  base_le : ∀ {k : Nat} {f : Frame}, frames[k]? = some f → start ≤ f.base
  /-- Blocks do not overlap. -/
  apart : ∀ {j k : Nat} {f g : Frame}, frames[j]? = some f → frames[k]? = some g → j < k →
    f.object.index < g.base
  binding : ∀ {k i : Nat} {f : Frame}, frames[k]? = some f → i < f.cls.instrs.size →
    ∃ state, nodes.node? ⟨f.base + i⟩ = some (.binding ⟨k, i⟩ state)
  /-- The fields of an object are the locals that its class yields. -/
  object : ∀ {k : Nat} {f : Frame}, frames[k]? = some f →
    ∃ fields, f.locals? f.cls.yields = some fields ∧
      nodes.node? f.object = some (.object f.cls.name fields)
  /-- A binding lies in the block of its frame, at the place of its instruction. -/
  owned : ∀ {id : ValueId} {slot : Slot} {state : BindingState},
    nodes.node? id = some (.binding slot state) →
      ∃ f, frames[slot.frame]? = some f ∧ slot.instr < f.cls.instrs.size ∧
        id = ⟨f.base + slot.instr⟩
  children : ∀ {id : ValueId} {n : Node}, nodes.node? id = some n →
    ∀ c ∈ n.children, c.index < nodes.size
  resolved : ∀ {id target : ValueId} {slot : Slot},
    nodes.node? id = some (.binding slot (.resolved target)) → nodes.IsValue target

namespace Frame

/-- A local of a frame is a parameter or lies in the block before the object. -/
theorem mem_params_or_lt_object {f : Frame} {r : LocalRef} {id : ValueId}
    (h : f.local? r = some id) : id ∈ f.params ∨ id.index < f.object.index := by
  cases r with
  | param index => exact Or.inl (Array.mem_of_getElem? h)
  | instr index =>
    obtain ⟨hi, rfl⟩ := Frame.binding?_eq_some_iff.1 h
    exact Or.inr (Nat.add_lt_add_left hi f.base)

/-- The nodes of the bindings of a frame that is frame number `k`. -/
def block (f : Frame) (k : Nat) : Arena :=
  (Array.range f.cls.instrs.size).map fun i => Node.binding ⟨k, i⟩ .unstarted

theorem size_block (f : Frame) (k : Nat) : (f.block k).size = f.cls.instrs.size := by
  rw [block, Array.size_map, Array.size_range]

theorem node?_block {f : Frame} {k : Nat} {id : ValueId} {n : Node} :
    (f.block k).node? id = some n ↔
      id.index < f.cls.instrs.size ∧ n = .binding ⟨k, id.index⟩ .unstarted := by
  rw [Arena.node?, block]
  by_cases h : id.index < f.cls.instrs.size
  · simp [h, eq_comm]
  · simp [h]

end Frame

namespace Arena

/-- The arena with a new frame's bindings and object. -/
def addBlock (a : Arena) (f : Frame) (k : Nat) (fields : List ValueId) : Arena :=
  (a ++ f.block k).push (.object f.cls.name fields)

variable {a : Arena} {f : Frame} {k : Nat} {fields : List ValueId}

theorem size_addBlock : (a.addBlock f k fields).size = a.size + f.cls.instrs.size + 1 := by
  rw [addBlock, Array.size_push, Array.size_append, f.size_block]

theorem Grows.of_addBlock (a : Arena) (f : Frame) (k : Nat) (fields : List ValueId) :
    a.Grows (a.addBlock f k fields) :=
  (Grows.of_append a _).trans (Grows.of_push _ _)

/-- What stands in an arena with a new frame: what stood there, or a binding of the frame, or its
object. -/
theorem node?_addBlock (hbase : f.base = a.size) {id : ValueId} {n : Node} :
    (a.addBlock f k fields).node? id = some n ↔
      a.node? id = some n ∨
        (∃ i, i < f.cls.instrs.size ∧ id = ⟨f.base + i⟩ ∧ n = .binding ⟨k, i⟩ .unstarted) ∨
          (id = f.object ∧ n = .object f.cls.name fields) := by
  have hsize : Array.size (a ++ f.block k) = a.size + f.cls.instrs.size := by
    rw [Array.size_append, f.size_block]
  rw [addBlock, node?_push, hsize]
  have hobj : id.index = a.size + f.cls.instrs.size ↔ id = f.object := by
    rw [Frame.object, hbase]
    constructor
    · intro h
      cases id
      exact congrArg ValueId.mk h
    · rintro rfl
      rfl
  -- The new arena is the old one, then the block of bindings, then the object.
  by_cases hid : id.index = a.size + f.cls.instrs.size
  · rw [if_pos hid]
    constructor
    · intro h
      exact Or.inr (Or.inr ⟨hobj.1 hid, (Option.some.inj h).symm⟩)
    · rintro (h | ⟨i, hi, rfl, -⟩ | ⟨-, rfl⟩)
      · have := node?_lt h
        omega
      · simp only at hid
        omega
      · rfl
  · rw [if_neg hid]
    -- A position below the old size is read in the old arena, any other in the block.
    by_cases hlt : id.index < a.size
    · have hleft : Arena.node? (a ++ f.block k) id = a.node? id := by
        rw [node?, Array.getElem?_append_left hlt, node?]
      rw [hleft]
      constructor
      · exact Or.inl
      · rintro (h | ⟨i, hi, rfl, -⟩ | ⟨h, -⟩)
        · exact h
        · simp only [hbase] at hlt
          omega
        · exact absurd (hobj.2 h) hid
    · have hright : Arena.node? (a ++ f.block k) id = (f.block k).node? ⟨id.index - a.size⟩ := by
        rw [node?, Array.getElem?_append_right (Nat.le_of_not_lt hlt), node?]
      rw [hright, Frame.node?_block]
      constructor
      · rintro ⟨hi, rfl⟩
        refine Or.inr (Or.inl ⟨_, hi, ?_, rfl⟩)
        cases id
        exact congrArg ValueId.mk (by simp only [hbase] at *; omega)
      · rintro (h | ⟨i, hi, rfl, rfl⟩ | ⟨h, -⟩)
        · exact absurd (node?_lt h) hlt
        · have hsub : f.base + i - a.size = i := by omega
          simp only [hsub]
          exact ⟨hi, trivial⟩
        · exact absurd (hobj.2 h) hid

theorem IsLocal.lt {start : Nat} {id : ValueId} (h : a.IsLocal start id) (hs : start ≤ a.size) :
    id.index < a.size := by
  rcases h with h | ⟨slot, state, hn⟩
  · omega
  · exact node?_lt hn

theorem Grows.isLocal {b : Arena} (h : a.Grows b) {start : Nat} {id : ValueId}
    (hid : a.IsLocal start id) : b.IsLocal start id := by
  rcases hid with hlt | ⟨slot, state, hn⟩
  · exact Or.inl hlt
  · obtain ⟨state', hn'⟩ := h.binding hn
    exact Or.inr ⟨slot, state', hn'⟩

end Arena

namespace Layout

variable {env : Environment} {start : Nat} {nodes : Arena} {frames : Array Frame}

theorem start_le (h : Layout env start nodes frames) : start ≤ nodes.size := by
  by_contra hlt
  have hv : nodes.IsValue ⟨nodes.size⟩ := h.imported (by show nodes.size < start; omega)
  exact absurd hv.lt (Nat.lt_irrefl _)

/-- A local of a frame is the copy of a parameter or a binding. -/
theorem isLocal (h : Layout env start nodes frames) {k : Nat} {f : Frame}
    (hf : frames[k]? = some f) {r : LocalRef} {id : ValueId} (hr : f.local? r = some id) :
    nodes.IsLocal start id := by
  cases r with
  | param index => exact h.params_local hf (Array.mem_of_getElem? hr)
  | instr index =>
    obtain ⟨hi, rfl⟩ := Frame.binding?_eq_some_iff.1 hr
    obtain ⟨state, hn⟩ := h.binding hf hi
    exact Or.inr ⟨_, state, hn⟩

theorem isLocal_of_locals? (h : Layout env start nodes frames) {k : Nat} {f : Frame}
    (hf : frames[k]? = some f) {rs : List LocalRef} {ids : List ValueId}
    (hids : f.locals? rs = some ids) : ∀ id ∈ ids, nodes.IsLocal start id := by
  have hall := mapM_eq_some_iff.1 hids
  clear hids
  induction hall with
  | nil => simp
  | cons hr _ ih =>
    intro id hid
    rcases List.mem_cons.1 hid with rfl | hid
    · exact h.isLocal hf hr
    · exact ih id hid

/-- An instruction has one binding. -/
theorem binding_unique (h : Layout env start nodes frames) {x y : ValueId} {slot : Slot}
    {state state' : BindingState} (hx : nodes.node? x = some (.binding slot state))
    (hy : nodes.node? y = some (.binding slot state')) : x = y := by
  obtain ⟨f, hf, -, rfl⟩ := h.owned hx
  obtain ⟨g, hg, -, rfl⟩ := h.owned hy
  cases Option.some.inj (hf.symm.trans hg)
  rfl

/-- Two frames with one object are one frame. -/
theorem frame_of_object (h : Layout env start nodes frames) {j k : Nat} {f g : Frame}
    (hf : frames[j]? = some f) (hg : frames[k]? = some g) (ho : f.object = g.object) : j = k := by
  have hf' : f.object.index = f.base + f.cls.instrs.size := rfl
  have hg' : g.object.index = g.base + g.cls.instrs.size := rfl
  have ho' : f.object.index = g.object.index := by rw [ho]
  rcases Nat.lt_trichotomy j k with hlt | rfl | hlt
  · have := h.apart hf hg hlt
    omega
  · rfl
  · have := h.apart hg hf hlt
    omega

/-! ## Updates -/

/-- A binding without a value may get any other state, and one with a value. -/
theorem set (h : Layout env start nodes frames) {id : ValueId} {slot : Slot}
    {state state' : BindingState} (hn : nodes.node? id = some (.binding slot state))
    (hs : ¬ (Node.binding slot state).Settled) (hs' : state' ≠ .unstarted)
    (hv : ∀ target, state' = .resolved target → nodes.IsValue target) :
    Layout env start (nodes.setIfInBounds id.index (.binding slot state')) frames := by
  have hg := Arena.Grows.of_set hn hs hs'
  refine
    { imported := fun hid => hg.isValue (h.imported hid)
      known := h.known
      params_size := h.params_size
      params_local := fun hf hp => hg.isLocal (h.params_local hf hp)
      base_le := h.base_le
      apart := h.apart
      binding := ?_
      object := ?_
      owned := ?_
      children := ?_
      resolved := ?_ }
  · -- A binding keeps its place, only its state may differ.
    intro k i f hf hi
    obtain ⟨state₁, hn₁⟩ := h.binding hf hi
    exact hg.binding hn₁
  · -- The object of a frame is a value, and values stay.
    intro k f hf
    obtain ⟨fields, hfields, hobj⟩ := h.object hf
    exact ⟨fields, hfields, hg.value hobj rfl⟩
  · -- The binding that is set belongs to the instruction to which it belonged.
    intro j slot₁ state₁ hj
    rw [Arena.node?_set hn] at hj
    split at hj
    · rename_i heq
      subst heq
      cases hj
      exact h.owned hn
    · exact h.owned hj
  · -- A binding refers to nothing.
    intro j n hj c hc
    rw [Array.size_setIfInBounds]
    rw [Arena.node?_set hn] at hj
    split at hj
    · cases hj
      cases hc
    · exact h.children hj c hc
  · intro j target slot₁ hj
    rw [Arena.node?_set hn] at hj
    split at hj
    · cases hj
      exact hg.isValue (hv target rfl)
    · exact hg.isValue (h.resolved hj)

/-- A value whose references are positions of the arena may be added. -/
theorem push (h : Layout env start nodes frames) {n : Node} (hn : n.isBinding = false)
    (hc : ∀ c ∈ n.children, c.index < nodes.size) : Layout env start (nodes.push n) frames := by
  have hg := Arena.Grows.of_push nodes n
  have hread : ∀ {id : ValueId} {m : Node}, Arena.node? (nodes.push n) id = some m →
      m = n ∨ nodes.node? id = some m := by
    intro id m hm
    exact (Arena.eq_or_of_node?_push hm).imp_left And.right
  refine
    { imported := fun hid => hg.isValue (h.imported hid)
      known := h.known
      params_size := h.params_size
      params_local := fun hf hp => hg.isLocal (h.params_local hf hp)
      base_le := h.base_le
      apart := h.apart
      binding := ?_
      object := ?_
      owned := ?_
      children := ?_
      resolved := ?_ }
  · intro k i f hf hi
    obtain ⟨state, hb⟩ := h.binding hf hi
    exact ⟨state, Arena.node?_push_of_eq_some hb n⟩
  · intro k f hf
    obtain ⟨fields, hfields, hobj⟩ := h.object hf
    exact ⟨fields, hfields, hg.value hobj rfl⟩
  · -- The new node is not a binding, so the bindings are the old ones.
    intro id slot state hm
    rcases hread hm with rfl | hm
    · simp [Node.isBinding] at hn
    · exact h.owned hm
  · intro id m hm c hcm
    rw [Array.size_push]
    rcases hread hm with rfl | hm
    · exact Nat.lt_succ_of_lt (hc c hcm)
    · exact Nat.lt_succ_of_lt (h.children hm c hcm)
  · intro id target slot hm
    rcases hread hm with rfl | hm
    · simp [Node.isBinding] at hn
    · exact hg.isValue (h.resolved hm)

/-- A frame of a known class may be added at the end of the arena. -/
theorem addBlock (h : Layout env start nodes frames) {f : Frame} {fields : List ValueId}
    (hbase : f.base = nodes.size) (hcls : env.classes.lookup? f.cls.name = some f.cls)
    (hsize : f.params.size = f.cls.params.length)
    (hparams : ∀ p ∈ f.params, nodes.IsLocal start p)
    (hfields : f.locals? f.cls.yields = some fields) :
    Layout env start (nodes.addBlock f frames.size fields) (frames.push f) := by
  have hg := Arena.Grows.of_addBlock nodes f frames.size fields
  have hread : ∀ {id : ValueId} {n : Node}, Arena.node? (nodes.addBlock f frames.size fields) id =
      some n ↔ _ := fun {id n} => Arena.node?_addBlock hbase
  have hframe : ∀ {k : Nat} {g : Frame}, (frames.push f)[k]? = some g →
      frames[k]? = some g ∨ (k = frames.size ∧ g = f) :=
    fun hk => (eq_or_of_getElem?_push hk).symm
  have hobj : ∀ {k : Nat} {g : Frame}, frames[k]? = some g → g.object.index < nodes.size := by
    intro k g hk
    obtain ⟨_, -, hn⟩ := h.object hk
    exact Arena.node?_lt hn
  refine
    { imported := fun hid => hg.isValue (h.imported hid)
      known := ?_
      params_size := ?_
      params_local := ?_
      base_le := ?_
      apart := ?_
      binding := ?_
      object := ?_
      owned := ?_
      children := ?_
      resolved := ?_ }
  · intro k g hk
    rcases hframe hk with hk₀ | ⟨-, rfl⟩
    · exact h.known hk₀
    · exact hcls
  · intro k g hk
    rcases hframe hk with hk₀ | ⟨-, rfl⟩
    · exact h.params_size hk₀
    · exact hsize
  · intro k g p hk hp
    rcases hframe hk with hk₀ | ⟨-, rfl⟩
    · exact hg.isLocal (h.params_local hk₀ hp)
    · exact hg.isLocal (hparams p hp)
  · intro k g hk
    rcases hframe hk with hk₀ | ⟨-, rfl⟩
    · exact h.base_le hk₀
    · rw [hbase]
      exact h.start_le
  · -- The block of the new frame begins where the arena ended, behind every other object.
    intro j k g g' hj hk hjk
    rcases hframe hk with hk₀ | ⟨rfl, rfl⟩
    · rcases hframe hj with hj₀ | ⟨rfl, rfl⟩
      · exact h.apart hj₀ hk₀ hjk
      · have := (Array.getElem?_eq_some_iff.1 hk₀).1
        omega
    · rcases hframe hj with hj₀ | ⟨rfl, rfl⟩
      · rw [hbase]
        exact hobj hj₀
      · omega
  · intro k i g hk hi
    rcases hframe hk with hk₀ | ⟨rfl, rfl⟩
    · obtain ⟨state, hn⟩ := h.binding hk₀ hi
      exact ⟨state, hread.2 (Or.inl hn)⟩
    · exact ⟨.unstarted, hread.2 (Or.inr (Or.inl ⟨i, hi, rfl, rfl⟩))⟩
  · intro k g hk
    rcases hframe hk with hk₀ | ⟨rfl, rfl⟩
    · obtain ⟨fields', hfields', hn⟩ := h.object hk₀
      exact ⟨fields', hfields', hread.2 (Or.inl hn)⟩
    · exact ⟨fields, hfields, hread.2 (Or.inr (Or.inr ⟨rfl, rfl⟩))⟩
  · -- The bindings of the new block belong to the instructions of the new frame.
    intro id slot state hn
    rcases hread.1 hn with hn₀ | ⟨i, hi, rfl, hn₀⟩ | ⟨-, hn₀⟩
    · obtain ⟨g, hk, hi, rfl⟩ := h.owned hn₀
      exact ⟨g, getElem?_push_of_eq_some hk f, hi, rfl⟩
    · cases hn₀
      exact ⟨f, by simp, hi, rfl⟩
    · cases hn₀
  · intro id n hn c hc
    rw [Arena.size_addBlock]
    rcases hread.1 hn with hn₀ | ⟨i, -, -, rfl⟩ | ⟨-, rfl⟩
    · have := h.children hn₀ c hc
      omega
    · cases hc
    · -- The fields of the object are parameters of the frame or bindings of its block.
      have hlocals := (mapM_eq_some_iff.1 hfields).flip
      obtain ⟨r, -, hr⟩ := exists_of_forall₂_of_mem hlocals hc
      rcases Frame.mem_params_or_lt_object hr with hp | hlt
      · have := (hparams c hp).lt h.start_le
        omega
      · rw [Frame.object, hbase] at hlt
        exact Nat.lt_succ_of_lt hlt
  · -- No binding of the new block names a value.
    intro id target slot hn
    rcases hread.1 hn with hn₀ | ⟨i, -, -, hn₀⟩ | ⟨-, hn₀⟩
    · exact hg.isValue (h.resolved hn₀)
    · cases hn₀
    · cases hn₀

end Layout

end ObjectModel
