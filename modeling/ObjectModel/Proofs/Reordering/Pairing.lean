import ObjectModel.Proofs.Reordering.Classes
import ObjectModel.Proofs.Arena.Unfolding
import ObjectModel.Proofs.Session.Places

/-!
# Pairing an evaluation with a completed one

An evaluation is compared with a completed one whose classes have their instructions in another
order, its reference. The frames of the evaluation are paired with frames of the reference, and this
pairs slots, locals and values (`Pairing.Slots`, `Pairing.Locals`, `Pairing.Values`). Positions say
little here: what is paired are the copies of the parameters with themselves, the bindings of paired
slots, the objects of paired frames, and the lists and erased types that were built for paired
slots. Literals are paired by what they are, since equal constants may share an instance that was
made for either of them.

If paired frames are for one class and have paired parameters (`Pairing.Aligned`), paired slots
belong to one instruction (`Aligned.located`), and paired locals are recognized by one literal or
both by none (`Aligned.memoArg?_literal_iff`).
-/

set_option autoImplicit false

namespace ObjectModel

variable {env : Environment}

theorem Node.Alike.isComposite_eq {R : ValueId → ValueId → Prop} {n m : Node} (h : n.Alike R m) :
    n.isComposite = m.isComposite := by
  cases h <;> rfl

/-- A completed evaluation whose classes have their instructions in another order. -/
structure Reference (env : Environment) where
  env' : Environment
  order : Name → Equiv.Perm ℕ
  classes : env.classes.Reorders order env'.classes
  start : ℕ
  session : Session
  completed : session.Completed env' start
  builders : session.Builders start fun _ => False
  /-- The copies of the parameters refer to each other only. -/
  closed : ∀ {x : ValueId} {n : Node}, x.index < start → session.nodes.node? x = some n →
    ∀ c ∈ n.children, c.index < start

/-- A state of an evaluation, with the pairs of its frames and those of the reference. -/
structure Pairing (ref : Reference env) where
  session : Session
  frames : ℕ → ℕ → Prop

namespace Pairing

variable {ref : Reference env} {p q : Pairing ref}

/-! ## Pairs -/

/-- An instruction of the evaluation and the place where the ref has it. -/
inductive Slots (p : Pairing ref) : Slot → Slot → Prop
  | intro {j k i : ℕ} {f : Frame} : p.frames j k → p.session.frames[j]? = some f →
      Slots p ⟨j, i⟩ ⟨k, ref.order f.cls.name i⟩

/-- Two positions that a local may stand for, or a child of a value. -/
inductive Locals (p : Pairing ref) : ValueId → ValueId → Prop
  | imported {x : ValueId} : x.index < ref.start → Locals p x x
  | binding {x y : ValueId} {a b : Slot} {state state' : BindingState} :
      p.session.nodes.node? x = some (.binding a state) →
      ref.session.nodes.node? y = some (.binding b state') → p.Slots a b → Locals p x y
  /-- Both are recognized by one literal. -/
  | literal {x y : ValueId} {l : Literal} : p.session.memoArg? x = some (.literal l) →
      ref.session.memoArg? y = some (.literal l) → Locals p x y

/-- Two values that come from the same place. -/
inductive Origin (p : Pairing ref) : ValueId → ValueId → Prop
  | imported {v : ValueId} : v.index < ref.start → Origin p v v
  | literal {v w : ValueId} {l : Literal} : p.session.nodes.node? v = some (.literal l) →
      ref.session.nodes.node? w = some (.literal l) → Origin p v w
  | object {j k : ℕ} {f g : Frame} : p.frames j k → p.session.frames[j]? = some f →
      ref.session.frames[k]? = some g → Origin p f.object g.object
  | built {a b : Slot} {v w : ValueId} : p.Slots a b → p.session.BuiltBy a v →
      ref.session.BuiltBy b w → Origin p v w

/-- Two values that come from the same place and look the same. -/
structure Values (p : Pairing ref) (v w : ValueId) : Prop where
  origin : p.Origin v w
  nodes : ∃ n m, p.session.nodes.node? v = some n ∧ ref.session.nodes.node? w = some m ∧
    n.Alike p.Locals m

/-- Two frames for the class of one name, one with the other's instructions in another order, whose
parameters are paired. -/
structure Frames (p : Pairing ref) (j k : ℕ) (f g : Frame) : Prop where
  pair : p.frames j k
  left : p.session.frames[j]? = some f
  right : ref.session.frames[k]? = some g
  reorders : f.cls.Reorders (ref.order f.cls.name) g.cls
  params : List.Forall₂ p.Locals f.params.toList g.params.toList

/-- The state is one of a sound evaluation that starts with the same nodes, and its pairs are pairs
of frames for one class with paired parameters. -/
structure Aligned (p : Pairing ref) : Prop where
  sound : p.session.Sound env ref.start
  imported : ∀ {x : ValueId}, x.index < ref.start →
    p.session.nodes.node? x = ref.session.nodes.node? x
  frames : ∀ {j k : ℕ}, p.frames j k → ∃ f g, p.Frames j k f g

/-- Two places of which the one is the partner of the other. -/
inductive Places (p : Pairing ref) : Session.Place → Session.Place → Prop
  | imported (x : ValueId) : Places p (.imported x) (.imported x)
  | object {j k : ℕ} : p.frames j k → Places p (.object j) (.object k)
  | built {a b : Slot} : p.Slots a b → Places p (.built a) (.built b)

/-- Another state of the evaluation with the same pairs of frames. -/
def goTo (p : Pairing ref) (s : Session) : Pairing ref := { p with session := s }

/-- A later state of the same evaluation, with more pairs. -/
structure Extends (p q : Pairing ref) : Prop where
  session : p.session.Grows q.session
  frames : ∀ {j k : ℕ}, p.frames j k → q.frames j k

/-! ## More pairs -/

namespace Extends

theorem refl (p : Pairing ref) : p.Extends p := ⟨.refl _, fun h => h⟩

theorem trans {r : Pairing ref} (h : p.Extends q) (h' : q.Extends r) : p.Extends r :=
  ⟨h.session.trans h'.session, fun hjk => h'.frames (h.frames hjk)⟩

/-- The state may go on while the pairs of frames stay. -/
theorem of_grows {s : Session} (h : p.session.Grows s) : p.Extends (p.goTo s) :=
  ⟨h, fun hjk => hjk⟩

end Extends

theorem Slots.mono {a b : Slot} (h : p.Slots a b) (hpq : p.Extends q) : q.Slots a b := by
  cases h with
  | intro hjk hf => exact .intro (hpq.frames hjk) (hpq.session.frames hf)

theorem Locals.mono {x y : ValueId} (h : p.Locals x y) (hpq : p.Extends q) : q.Locals x y := by
  cases h with
  | imported hx => exact .imported hx
  | binding hx hy hab =>
    obtain ⟨state, hx'⟩ := hpq.session.nodes.binding hx
    exact .binding hx' hy (hab.mono hpq)
  | literal hx hy => exact .literal (hpq.session.memoArg hx) hy

theorem Origin.mono {v w : ValueId} (h : p.Origin v w) (hpq : p.Extends q) : q.Origin v w := by
  cases h with
  | imported hv => exact .imported hv
  | literal hv hw => exact .literal (hpq.session.nodes.value hv rfl) hw
  | object hjk hf hg => exact .object (hpq.frames hjk) (hpq.session.frames hf) hg
  | built hab hv hw => exact .built (hab.mono hpq) (hv.grows hpq.session) hw

theorem Values.isValue {v w : ValueId} (h : p.Values v w) : p.session.nodes.IsValue v := by
  obtain ⟨n, m, hv, -, halike⟩ := h.nodes
  refine ⟨n, hv, ?_⟩
  cases halike <;> rfl

/-- Equal literals are paired. -/
theorem Values.literal {v w : ValueId} {l : Literal}
    (hv : p.session.nodes.node? v = some (.literal l))
    (hw : ref.session.nodes.node? w = some (.literal l)) : p.Values v w :=
  ⟨.literal hv hw, _, _, hv, hw, .literal l⟩

theorem Values.literal_left {v w : ValueId} {l : Literal} (h : p.Values v w)
    (hw : ref.session.nodes.node? w = some (.literal l)) :
    p.session.nodes.node? v = some (.literal l) := by
  obtain ⟨n, m, hv, hw', halike⟩ := h.nodes
  rw [hw] at hw'
  cases hw'
  cases halike with
  | literal l => exact hv

theorem Values.mono {v w : ValueId} (h : p.Values v w) (hpq : p.Extends q) : q.Values v w := by
  refine ⟨h.origin.mono hpq, ?_⟩
  obtain ⟨n, m, hv, hw, halike⟩ := h.nodes
  obtain ⟨n', hv', hb⟩ := h.isValue
  cases Option.some.inj (hv.symm.trans hv')
  exact ⟨n, m, hpq.session.nodes.value hv hb, hw, halike.imp fun _ _ hxy => hxy.mono hpq⟩

theorem Frames.mono {j k : ℕ} {f g : Frame} (h : p.Frames j k f g) (hpq : p.Extends q) :
    q.Frames j k f g where
  pair := hpq.frames h.pair
  left := hpq.session.frames h.left
  right := h.right
  reorders := h.reorders
  params := h.params.imp fun _ _ hxy => hxy.mono hpq

/-- Paired values that are no literals are from places that are partners of each other. -/
theorem Values.exists_places {x y : ValueId} (h : p.Values x y)
    (hx : x ∈ p.session.nodes.composites) :
    ∃ place other, p.Places place other ∧ p.session.From ref.start place x ∧
      ref.session.From ref.start other y := by
  have horigin := h.origin
  cases horigin with
  | imported hlt => exact ⟨_, _, .imported x, .imported hlt, .imported hlt⟩
  | literal hl _ =>
    obtain ⟨n, hn, hcomp⟩ := hx
    cases Option.some.inj (hn.symm.trans hl)
    cases hcomp
  | object hjk hf hg => exact ⟨_, _, .object hjk, .object hf, .object hg⟩
  | built hab hv hw => exact ⟨_, _, .built hab, .built hv, .built hw⟩

/-- Paired values are both composite, or neither is. -/
theorem Values.composite_iff {x y : ValueId} (h : p.Values x y) :
    x ∈ p.session.nodes.composites ↔ y ∈ ref.session.nodes.composites := by
  obtain ⟨n, n', hn, hn', halike⟩ := h.nodes
  constructor
  · rintro ⟨n₁, hn₁, hcomp⟩
    cases Option.some.inj (hn.symm.trans hn₁)
    exact ⟨n', hn', halike.isComposite_eq.symm.trans hcomp⟩
  · rintro ⟨n₁, hn₁, hcomp⟩
    cases Option.some.inj (hn'.symm.trans hn₁)
    exact ⟨n, hn, halike.isComposite_eq.trans hcomp⟩

namespace Aligned

theorem frames_lt (h : p.Aligned) {j k : ℕ} (hjk : p.frames j k) :
    j < p.session.frames.size := by
  obtain ⟨f, g, hfg⟩ := h.frames hjk
  exact (Array.getElem?_eq_some_iff.1 hfg.left).1

/-! ## Slots -/

variable {a b : Slot}

/-- Paired slots belong to one instruction, which has moved. -/
theorem located (h : p.Aligned) (hab : p.Slots a b) {f : Frame} {i : Instr}
    (ha : p.session.Located a f i) :
    ∃ g, p.Frames a.frame b.frame f g ∧
      ref.session.Located b g (i.move (ref.order f.cls.name)) := by
  cases hab with
  | intro hjk hf =>
    cases Option.some.inj (hf.symm.trans ha.frame)
    obtain ⟨f', g, hfg⟩ := h.frames hjk
    cases Option.some.inj (hf.symm.trans hfg.left)
    exact ⟨g, hfg, hfg.right, hfg.reorders.instr_eq_some ha.instr⟩

/-- The partner of a slot is evaluated in the ref. -/
theorem exists_resolved (h : p.Aligned) (hab : p.Slots a b) {f : Frame} {i : Instr}
    (ha : p.session.Located a f i) :
    ∃ y w, ref.session.nodes.node? y = some (.binding b (.resolved w)) := by
  obtain ⟨g, -, hb⟩ := h.located hab ha
  obtain ⟨hlt, -⟩ := Array.getElem?_eq_some_iff.1 hb.instr
  obtain ⟨state, hy⟩ := ref.completed.sound.layout.binding hb.frame hlt
  obtain ⟨w, rfl⟩ := ref.completed.resolved hy
  exact ⟨_, w, hy⟩

/-- The copies of parameters are paired with themselves. -/
theorem values_imported (h : p.Aligned) {x : ValueId} (hx : x.index < ref.start) :
    p.Values x x := by
  refine ⟨.imported hx, ?_⟩
  obtain ⟨m, hm, hb⟩ := h.sound.layout.imported hx
  have hm' : ref.session.nodes.node? x = some m := by rw [← h.imported hx, hm]
  have hchild : ∀ c ∈ m.children, p.Locals c c :=
    fun c hc => .imported (ref.closed hx hm' c hc)
  refine ⟨m, m, hm, hm', ?_⟩
  cases m with
  | literal l => exact .literal l
  | object cls fields => exact .object (List.forall₂_same.2 hchild)
  | list elem elements => exact .list (List.forall₂_same.2 hchild)
  | any payload => exact .any (hchild payload (List.mem_singleton.2 rfl))
  | binding slot state => cases hb

end Aligned

/-! ## Locals of paired frames -/

namespace Frames

variable {j k : ℕ} {f g : Frame}

/-- A local of the one frame and the same local of the other frame are paired. -/
theorem local? (h : p.Frames j k f g) (hp : p.Aligned) {r : LocalRef} {x : ValueId}
    (hx : f.local? r = some x) :
    ∃ y, g.local? (r.move (ref.order f.cls.name)) = some y ∧ p.Locals x y := by
  cases r with
  -- A parameter is read at the same index on both sides.
  | param i =>
    have hi : f.params.toList[i]? = some x := by
      rw [Array.getElem?_toList]
      exact hx
    obtain ⟨hlt, hget⟩ := List.getElem?_eq_some_iff.1 hi
    have hlt' : i < g.params.toList.length := by
      rw [← h.params.length_eq]
      exact hlt
    refine ⟨g.params.toList[i], ?_, ?_⟩
    · show g.params[i]? = _
      rw [← Array.getElem?_toList, List.getElem?_eq_getElem hlt']
    · rw [← hget]
      exact h.params.get hlt hlt'
  -- A binding is read where its instruction has moved.
  | instr i =>
    obtain ⟨hi, rfl⟩ := Frame.binding?_eq_some_iff.1 hx
    have hi' := h.reorders.lt_size hi
    obtain ⟨state, hn⟩ := hp.sound.layout.binding h.left hi
    obtain ⟨state', hn'⟩ := ref.completed.sound.layout.binding h.right hi'
    exact ⟨_, Frame.binding?_eq_some_iff.2 ⟨hi', rfl⟩, .binding hn hn' (.intro h.pair h.left)⟩

theorem locals? (h : p.Frames j k f g) (hp : p.Aligned) {rs : List LocalRef} {xs : List ValueId}
    (hxs : f.locals? rs = some xs) :
    ∃ ys, g.locals? (rs.map (LocalRef.move (ref.order f.cls.name))) = some ys ∧
      List.Forall₂ p.Locals xs ys := by
  have hall := mapM_eq_some_iff.1 hxs
  clear hxs
  induction hall with
  | nil => exact ⟨[], rfl, .nil⟩
  | cons hx _ ih =>
    obtain ⟨y, hy, hxy⟩ := h.local? hp hx
    obtain ⟨ys, hys, hall⟩ := ih
    refine ⟨y :: ys, ?_, .cons hxy hall⟩
    rw [Frame.locals?, mapM_eq_some_iff] at hys ⊢
    exact .cons hy hys

/-- The objects of paired frames are paired. -/
theorem object (h : p.Frames j k f g) (hp : p.Aligned) : p.Values f.object g.object := by
  refine ⟨.object h.pair h.left h.right, ?_⟩
  obtain ⟨xs, hxs, hf⟩ := hp.sound.layout.object h.left
  obtain ⟨ys, hys, hg⟩ := ref.completed.sound.layout.object h.right
  obtain ⟨ys', hys', hall⟩ := h.locals? hp hxs
  rw [← h.reorders.yields, hys] at hys'
  cases hys'
  refine ⟨_, _, hf, hg, ?_⟩
  rw [h.reorders.name]
  exact .object hall

end Frames

/-! ## Keys -/

namespace Aligned

variable {x y : ValueId}

/-- Paired locals are recognized by the same literal, or neither is recognized by one. -/
theorem memoArg?_literal_iff (h : p.Aligned) (hxy : p.Locals x y) (l : Literal) :
    p.session.memoArg? x = some (.literal l) ↔ ref.session.memoArg? y = some (.literal l) := by
  cases hxy with
  -- A copy of a parameter is the same node on both sides.
  | imported hx =>
    obtain ⟨n, hn, hb⟩ := h.sound.layout.imported hx
    rw [Session.memoArg?, Session.memoArg?, ← h.imported hx, hn]
    cases n with
    | binding slot state => cases hb
    | _ => exact Iff.rfl
  -- A binding is recognized by its instruction, and moving keeps constants what they are.
  | @binding _ a b state state' hx hy hab =>
    obtain ⟨f, i, ha⟩ := Session.Located.of_binding h.sound.layout hx
    obtain ⟨g, -, hb⟩ := h.located hab ha
    rw [Session.memoArg?, Session.memoArg?, hx, hy, Option.map_some, Option.map_some]
    simp only [ha.instr?_eq, hb.instr?_eq, Option.bind_some, Instr.literal?_move]
    cases i.literal? with
    | none => simp
    | some l' => exact Iff.rfl
  | literal hx hy => rw [hx, hy]

theorem exists_memoArg? (h : p.Aligned) (hxy : p.Locals x y) :
    (∃ m, p.session.memoArg? x = some m) ∧ ∃ m, ref.session.memoArg? y = some m := by
  cases hxy with
  | imported hx =>
    exact ⟨Session.exists_memoArg? (h.sound.layout.imported hx).lt,
      Session.exists_memoArg? (ref.completed.sound.layout.imported hx).lt⟩
  | binding hx hy _ =>
    exact ⟨Session.exists_memoArg? (Arena.node?_lt hx), Session.exists_memoArg? (Arena.node?_lt hy)⟩
  | literal hx hy => exact ⟨⟨_, hx⟩, ⟨_, hy⟩⟩

/-- A local is paired with everything that is recognized by the same as its partner. -/
theorem locals_of_memoArg?_eq (h : p.Aligned) {y' : ValueId} (hxy : p.Locals x y)
    (hy : ∃ m, ref.session.memoArg? y = some m ∧ ref.session.memoArg? y' = some m) :
    p.Locals x y' := by
  obtain ⟨m, hm, hm'⟩ := hy
  cases m with
  | literal l => exact .literal ((h.memoArg?_literal_iff hxy l).2 hm) hm'
  | ref id =>
    cases Session.memoArg?_eq_ref hm (by simp)
    cases Session.memoArg?_eq_ref hm' (by simp)
    exact hxy

/-- A frame of the reference that has the key of some arguments has their partners for
parameters. -/
theorem locals_params (h : p.Aligned) {target : Name} {xs ys : List ValueId} {g : Frame}
    {key : MemoKey} (hxy : List.Forall₂ p.Locals xs ys)
    (hkey : ref.session.memoKey? target ys = some key)
    (hkey' : ref.session.memoKey? target g.params.toList = some key) :
    List.Forall₂ p.Locals xs g.params.toList := by
  refine forall₂_trans ?_ hxy (Session.forall₂_memoArg?_of_memoKey? hkey hkey')
  intro x y y' hx hm
  exact h.locals_of_memoArg?_eq hx hm

/-- Lists of paired locals have keys. -/
theorem exists_memoKey? (h : p.Aligned) (cls : Name) {xs ys : List ValueId}
    (hxy : List.Forall₂ p.Locals xs ys) :
    (∃ key, p.session.memoKey? cls xs = some key) ∧
      ∃ key, ref.session.memoKey? cls ys = some key := by
  constructor
  · obtain ⟨ms, hms⟩ := exists_mapM_eq_some fun x hx => by
      obtain ⟨y, -, hxy'⟩ := exists_of_forall₂_of_mem hxy hx
      exact (h.exists_memoArg? hxy').1
    rw [Session.memoKey?, hms]
    exact ⟨_, rfl⟩
  · obtain ⟨ms, hms⟩ := exists_mapM_eq_some fun y hy => by
      obtain ⟨x, -, hxy'⟩ := exists_of_forall₂_of_mem hxy.flip hy
      exact (h.exists_memoArg? hxy').2
    rw [Session.memoKey?, hms]
    exact ⟨_, rfl⟩

end Aligned

end Pairing

end ObjectModel
