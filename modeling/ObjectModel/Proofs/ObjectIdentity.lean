import ObjectModel.Proofs.Instantiation

/-!
# Which instantiations give one object

An instantiation of a completed evaluation is the request itself or an object instruction of a
frame (`Session.Instantiates`). Two of them give one object exactly if they name the same class and
their arguments are recognized by the same things (`Session.Completed.object_eq_iff`). What an
argument is recognized by does not depend on how far the evaluation is
(`Session.Sound.memoArg?_of_reaches`): it is a literal exactly for the copy of a literal and for the
binding of a constant (`Session.memoArg?_eq_literal_iff`).
-/

set_option autoImplicit false

namespace ObjectModel

variable {env : Environment} {start : Nat}

namespace Session

variable {s s' : Session} {id : ValueId}

/-! ## What a local is recognized by -/

/-- A local is recognized by a literal if it is the copy of that literal, or the binding of a
constant instruction with that literal. -/
theorem memoArg?_eq_literal_iff {l : Literal} (hid : s.nodes.IsLocal start id) :
    s.memoArg? id = some (.literal l) ↔
      (id.index < start ∧ s.nodes.node? id = some (.literal l)) ∨
        ∃ slot state f, s.nodes.node? id = some (.binding slot state) ∧
          s.Located slot f (.constant l) := by
  constructor
  · intro h
    obtain ⟨n, hn, hm⟩ := Option.map_eq_some_iff.1 h
    cases n with
    -- A literal that is a local was copied with the parameters.
    | literal l' =>
      cases hm
      rcases hid with hlt | ⟨slot, state, hn'⟩
      · exact Or.inl ⟨hlt, hn⟩
      · rw [hn] at hn'
        cases hn'
    -- A binding is recognized by a literal only where its instruction is that constant.
    | binding slot state =>
      dsimp only at hm
      split at hm
      · rename_i l' hinstr
        cases hm
        obtain ⟨i, hi, hlit⟩ := Option.bind_eq_some_iff.1 hinstr
        obtain ⟨f, hf, hget⟩ := Option.bind_eq_some_iff.1 hi
        cases i with
        | constant l'' =>
          cases hlit
          exact Or.inr ⟨slot, state, f, hn, hf, hget⟩
        | _ => cases hlit
      · cases hm
    | _ => cases hm
  · rintro (⟨-, hn⟩ | ⟨slot, state, f, hn, hf, hget⟩)
    · rw [memoArg?, hn]
      rfl
    · have hinstr : s.instr? slot = some (.constant l) := by
        rw [instr?, hf]
        exact hget
      rw [memoArg?, hn, Option.map_some]
      simp only [hinstr, Option.bind_some, Instr.literal?]

/-- What a local of a frame is recognized by stays the same in every later state. -/
theorem Sound.memoArg?_of_reaches (h : s.Sound env start) (hr : Reaches env s s') {k : Nat}
    {f : Frame} (hf : s.frames[k]? = some f) {r : LocalRef} (hid : f.local? r = some id) :
    ∃ m, s.memoArg? id = some m ∧ s'.memoArg? id = some m := by
  obtain ⟨m, hm⟩ : ∃ m, s.memoArg? id = some m :=
    exists_memoArg? ((h.layout.isLocal hf hid).lt h.layout.start_le)
  exact ⟨m, hm, (h.reaches hr).1.memoArg hm⟩

/-! ## Instantiations and their objects -/

/-- The instantiations that an evaluation carries out, with their arguments and their objects: the
request, and the object instructions of all frames. -/
inductive Instantiates (s : Session) (target : Name) (args : List ValueId) (root : ValueId) :
    Name → List ValueId → ValueId → Prop
  | request : Instantiates s target args root target args root
  | instr {k i : Nat} {f : Frame} {cls : Name} {rs : List LocalRef} {ids : List ValueId}
      {id : ValueId} : s.frames[k]? = some f → f.cls.instrs[i]? = some (.object cls rs) →
      f.locals? rs = some ids → f.local? (.instr i) = some id →
      Instantiates s target args root cls ids (s.nodes.resolve id)

namespace Completed

variable {target cls cls' : Name} {args ids ids' : List ValueId} {root o o' : ValueId} {f₀ : Frame}

/-- An instantiation gives the object of a frame of its class with its key. -/
theorem frame_of_instantiates (h : s.Completed env start) (hfirst : s.frames[0]? = some f₀)
    (hparams : f₀.params = args.toArray)
    (hi : s.Instantiates f₀.cls.name args f₀.object cls ids o) :
    ∃ (k : Nat) (f : Frame) (key : MemoKey), s.frames[k]? = some f ∧ f.cls.name = cls ∧
      f.object = o ∧ s.memoKey? cls ids = some key ∧
        s.memoKey? cls f.params.toList = some key := by
  cases hi with
  | request =>
    obtain ⟨key, hkey⟩ := exists_memoKey?_of_layout h.sound.layout hfirst
    refine ⟨0, f₀, key, hfirst, rfl, rfl, ?_, hkey⟩
    rw [hparams] at hkey
    exact hkey
  | @instr k i f _ rs _ id hf hget hids hid =>
    obtain ⟨hlt, hpos⟩ := Frame.binding?_eq_some_iff.1 hid
    obtain ⟨state, hbinding⟩ := h.sound.layout.binding hf hlt
    rw [← hpos] at hbinding
    obtain ⟨t, rfl⟩ := h.resolved hbinding
    -- The binding is evaluated, so its value answers the instantiation it asked for.
    obtain ⟨rank, bound, -, hrank⟩ := h.explained.ranked
    have hans := hrank.answers hbinding ⟨hf, hget⟩
    have hstart : f.start env (.object cls rs) = .create cls ids := by
      rw [Frame.start, hids]
      rfl
    rw [hstart] at hans
    cases hans with
    | @create _ _ j g key hg hname hargs hparams' =>
      refine ⟨j, g, key, hg, hname, ?_, hargs, hparams'⟩
      exact (Arena.resolve_of_denotes (.binding (P := fun _ => True) hbinding trivial
        (h.sound.layout.resolved hbinding))).symm

/-- Two instantiations give one object exactly if they name the same class and their arguments are
recognized by the same things, one by one. -/
theorem object_eq_iff (h : s.Completed env start) (hshares : env.shares = true)
    (hfirst : s.frames[0]? = some f₀) (hparams : f₀.params = args.toArray)
    (hi : s.Instantiates f₀.cls.name args f₀.object cls ids o)
    (hi' : s.Instantiates f₀.cls.name args f₀.object cls' ids' o') :
    o = o' ↔ cls = cls' ∧ List.Forall₂ (fun x y => s.memoArg? x = s.memoArg? y) ids ids' := by
  obtain ⟨k, f, key, hf, hname, hobj, hkey, hfkey⟩ := h.frame_of_instantiates hfirst hparams hi
  obtain ⟨k', f', key', hf', hname', hobj', hkey', hfkey'⟩ :=
    h.frame_of_instantiates hfirst hparams hi'
  constructor
  · intro ho
    -- One object is the object of one frame, and its key is the key of both.
    have hk : k = k' := h.sound.layout.frame_of_object hf hf' (by rw [hobj, hobj', ho])
    subst hk
    cases Option.some.inj (hf.symm.trans hf')
    have hcls : cls = cls' := hname.symm.trans hname'
    subst hcls
    refine ⟨rfl, ?_⟩
    cases Option.some.inj (hfkey.symm.trans hfkey')
    refine (forall₂_memoArg?_of_memoKey? hkey hkey').imp ?_
    rintro x y ⟨m, hx, hy⟩
    exact hx.trans hy.symm
  · rintro ⟨rfl, hall⟩
    -- Equal keys find the same object in the memo table.
    have hsame : key = key' := by
      have heq : s.memoKey? cls ids = s.memoKey? cls ids' := memoKey?_eq_of_forall₂ hall
      rw [hkey, hkey'] at heq
      exact Option.some.inj heq
    rw [← hname] at hfkey
    rw [← hname'] at hfkey'
    have hget := h.sound.memoized.keyed hshares hf hfkey
    have hget' := h.sound.memoized.keyed hshares hf' hfkey'
    rw [← hsame, hget] at hget'
    rw [← hobj, ← hobj']
    exact Option.some.inj hget'

end Completed

end Session

/-! ## Requests -/

namespace Evaluator

/-- In a request that succeeds, any two instantiations give one object exactly if they name the same
class and their arguments are recognized by the same things; and a local is recognized by the same
in every later state of the evaluation, by a literal exactly if it is the copy of that literal or
the binding of a constant instruction with it, and else by its own position. -/
theorem instantiateName_object_eq_iff {e : Evaluator} {w w' : Workspace} {n : Name}
    {params : List (Option Value)} {steps : Nat} {v : Value}
    (h : e.instantiateName w n params steps = (w', .ok v)) :
    ∃ p f₀ s₀ s, Evaluates e w n params w' v p f₀ s₀ s ∧
      (∀ {cls cls' : Name} {ids ids' : List ValueId} {o o' : ValueId},
        s.Instantiates n p.args v.id cls ids o → s.Instantiates n p.args v.id cls' ids' o' →
          (o = o' ↔
            cls = cls' ∧ List.Forall₂ (fun x y => s.memoArg? x = s.memoArg? y) ids ids')) ∧
      ∀ {s₁ s₂ : Session}, Session.Reaches p.env s₀ s₁ → Session.Reaches p.env s₁ s₂ →
        ∀ {k : Nat} {f : Frame} {r : LocalRef} {id : ValueId}, s₁.frames[k]? = some f →
          f.local? r = some id → ∃ m, s₁.memoArg? id = some m ∧ s₂.memoArg? id = some m ∧
            (∀ l, m = .literal l ↔
              (id.index < p.nodes.size ∧ s₁.nodes.node? id = some (.literal l)) ∨
                ∃ slot state g, s₁.nodes.node? id = some (.binding slot state) ∧
                  s₁.Located slot g (.constant l)) ∧
            ((∀ l, m ≠ .literal l) → m = .ref id) := by
  obtain ⟨p, f₀, s₀, s, heval⟩ := exists_evaluates h
  obtain ⟨w₁, hp⟩ := heval.spec
  obtain ⟨hreach, hdone⟩ := heval.completed
  have hsound₀ := heval.opens.sound heval.selfContained
  refine ⟨p, f₀, s₀, s, heval, ?_, ?_⟩
  · intro cls cls' ids ids' o o' hi hi'
    rw [heval.root, ← heval.opens.cls_name] at hi hi'
    exact hdone.object_eq_iff hp.shares heval.first heval.opens.params hi hi'
  · intro s₁ s₂ hr₁ hr₂ k f r id hf hid
    have hsound₁ := (hsound₀.reaches hr₁).2
    obtain ⟨m, hm, hm'⟩ := hsound₁.memoArg?_of_reaches hr₂ hf hid
    refine ⟨m, hm, hm', ?_, Session.memoArg?_eq_ref hm⟩
    intro l
    rw [← Session.memoArg?_eq_literal_iff (hsound₁.layout.isLocal hf hid), hm]
    exact ⟨congrArg some, Option.some.inj⟩

end Evaluator

namespace Sample

/-- The two boxes of the example, each one made for a constant of its own, are one object. -/
theorem boxes_eq : ∃ w v, evaluator.instantiateName workspace ⟨3⟩ [] 12 = (w, .ok v) ∧
    ∃ (s : Session) (x y o o' : ValueId), x ≠ y ∧ s.Instantiates ⟨3⟩ [] v.id ⟨1⟩ [x] o ∧
      s.Instantiates ⟨3⟩ [] v.id ⟨1⟩ [y] o' ∧ o = o' := by
  obtain ⟨w, v, h⟩ := exists_pair
  obtain ⟨p, f₀, s₀, s, heval, hobject, hkey⟩ := Evaluator.instantiateName_object_eq_iff h
  obtain ⟨w₁, hprepare⟩ := heval.prepared
  cases hprepare
  obtain ⟨hreach, -⟩ := heval.completed
  have hcls : f₀.cls = pair := (Option.some.inj heval.opens.lookup).symm
  have hfirst : s₀.frames[0]? = some f₀ := by
    rw [heval.opens.frames]
    rfl
  -- The constants are the third and the fourth instruction of the first frame.
  have hlocal : ∀ i, i < 4 → f₀.local? (.instr i) = some ⟨f₀.base + i⟩ := by
    intro i hi
    exact Frame.binding?_eq_some_iff.2 ⟨by rw [hcls]; exact hi, rfl⟩
  have hconstant : ∀ i, i = 2 ∨ i = 3 →
      s.memoArg? ⟨f₀.base + i⟩ = some (.literal (.bool true)) := by
    intro i hi
    obtain ⟨state, hn⟩ : ∃ state, s₀.nodes.node? ⟨f₀.base + i⟩ = some (.binding ⟨0, i⟩ state) :=
      (heval.opens.sound heval.selfContained).layout.binding hfirst (by
        rw [hcls]
        show i < 4
        omega)
    obtain ⟨m, -, hm, hliteral, -⟩ := hkey .refl hreach hfirst (hlocal i (by omega))
    rw [hm, (hliteral (.bool true)).2 (Or.inr ⟨_, state, f₀, hn, hfirst, ?_⟩)]
    rcases hi with rfl | rfl <;> rw [hcls] <;> rfl
  have hsite : ∀ i, i = 0 ∨ i = 1 → s.Instantiates ⟨3⟩ [] v.id ⟨1⟩ [⟨f₀.base + (i + 2)⟩]
      (s.nodes.resolve ⟨f₀.base + i⟩) := by
    intro i hi
    have hinstr : f₀.cls.instrs[i]? = some (.object ⟨1⟩ [.instr (i + 2)]) := by
      rcases hi with rfl | rfl <;> rw [hcls] <;> rfl
    have hargs : f₀.locals? [.instr (i + 2)] = some [⟨f₀.base + (i + 2)⟩] := by
      rw [Frame.locals?, List.mapM_cons, hlocal (i + 2) (by omega)]
      rfl
    exact .instr heval.first hinstr hargs (hlocal i (by omega))
  refine ⟨w, v, h, s, _, _, _, _, ?_, hsite 0 (Or.inl rfl), hsite 1 (Or.inr rfl), ?_⟩
  · intro heq
    have hindex : f₀.base + (0 + 2) = f₀.base + (1 + 2) := congrArg ValueId.index heq
    omega
  · rw [hobject (hsite 0 (Or.inl rfl)) (hsite 1 (Or.inr rfl))]
    refine ⟨rfl, .cons ?_ .nil⟩
    rw [hconstant 2 (Or.inl rfl), hconstant 3 (Or.inr rfl)]

end Sample

end ObjectModel
