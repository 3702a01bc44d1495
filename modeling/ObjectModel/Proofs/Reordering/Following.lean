import ObjectModel.Proofs.Reordering.Guide
import Mathlib.Data.Fintype.Card

/-!
# Following a guide

An evaluation that agrees with its guide goes on to do so when a binding changes its state, when the
most recent activation ends with the value that the guide has there (`Follows.settle`), and when a
class is instantiated for which the guide has a frame (`Follows.create`). An instance that is known
to the evaluation is the partner of the guide's one, because keys agree. A new one gets a partner
that no frame has yet, so the evaluation never has more frames than its guide and meets no limit on
instances that the guide did not meet.
-/

set_option autoImplicit false

namespace ObjectModel

variable {env : Environment} {guide : Guide env} {p q : Pairing guide.toReference}

namespace Pairing

/-- With the same frames and pairs, slots have the same partners. -/
theorem Slots.of_frames {a b : Slot} (hab : q.Slots a b)
    (hframes : ∀ {j k : ℕ}, q.frames j k → j = a.frame → p.frames j k)
    (hsession : ∀ {f : Frame}, q.session.frames[a.frame]? = some f →
      p.session.frames[a.frame]? = some f) : p.Slots a b := by
  cases hab with
  | intro hjk hf => exact .intro (hframes hjk rfl) (hsession hf)

/-- In a state with one more frame, that frame is the partner of all twins of a frame of the
guide. -/
def withFrame (p : Pairing guide.toReference) (s : Session) (k : ℕ) :
    Pairing guide.toReference where
  session := s
  frames j l := p.frames j l ∨ (j = p.session.frames.size ∧ guide.twins k l)

namespace Follows

/-! ## The same values -/

/-- The copies of the parameters stay the same while the session grows. -/
theorem imported_of_grows (h : p.Follows) {s : Session} (hg : p.session.Grows s) {x : ValueId}
    (hx : x.index < guide.start) : s.nodes.node? x = guide.session.nodes.node? x := by
  obtain ⟨n, hn, hb⟩ := h.sound.layout.imported hx
  rw [← h.imported hx, hn]
  exact hg.nodes.value hn hb

/-- The evaluation may go on in a state with the same frames and the same evaluated bindings. -/
theorem of_same (h : p.Follows) {s : Session} (hs : s.Sound env guide.start)
    (hg : p.session.Grows s) (hframes : s.frames = p.session.frames)
    (hres : ∀ {x v : ValueId} {a : Slot},
      s.nodes.node? x = some (.binding a (.resolved v)) →
        p.session.nodes.node? x = some (.binding a (.resolved v))) :
    (p.goTo s).Follows := by
  have hext : p.Extends (p.goTo s) := .of_grows hg
  refine ⟨⟨hs, h.imported_of_grows hg, ?_⟩, ?_, h.unique, h.twins, ?_⟩
  · intro j k hjk
    obtain ⟨f, g, hfg⟩ := h.frames hjk
    exact ⟨f, g, hfg.mono hext⟩
  · intro j f hf
    exact h.paired (hframes ▸ hf)
  · intro x v a b hx hab
    obtain ⟨y, w, hy, hv⟩ := h.resolved (hres hx)
      (hab.of_frames (fun hjk _ => hjk) fun hf => hframes ▸ hf)
    exact ⟨y, w, hy, hv.mono hext⟩

/-! ## Results -/

/-- The most recent activation may end with the partner of the value that the guide has for it. -/
theorem settle (h : p.Follows) {top : Activation} {rest : List Activation}
    (hchain : p.session.chain.entries = top :: rest) {b : Slot} {y v w : ValueId}
    (hab : p.Slots top.slot b) (hy : guide.session.nodes.node? y = some (.binding b (.resolved w)))
    (ht : p.session.nodes.IsValue v)
    (hv : (p.goTo (p.session.settle v)).Values v w) :
    p.Extends (p.goTo (p.session.settle v)) ∧ (p.goTo (p.session.settle v)).Follows := by
  obtain ⟨hg, hsound⟩ := h.sound.settle hchain ht
  have hext : p.Extends (p.goTo (p.session.settle v)) := .of_grows hg
  have hpairs : ∀ {j k : ℕ}, p.frames j k →
      ∃ f g, (p.goTo (p.session.settle v)).Frames j k f g := by
    intro j k hjk
    obtain ⟨f, g, hfg⟩ := h.frames hjk
    exact ⟨f, g, hfg.mono hext⟩
  have haligned : (p.goTo (p.session.settle v)).Aligned :=
    ⟨hsound, h.imported_of_grows hg, hpairs⟩
  refine ⟨hext, haligned, ?_, h.unique, h.twins, ?_⟩
  · intro j f hf
    change (p.session.settle v).frames[j]? = _ at hf
    rw [Session.frames_settle] at hf
    exact h.paired hf
  · intro x u a b' hx hab'
    have hab'' : p.Slots a b' := by
      refine hab'.of_frames (fun hjk _ => hjk) fun hf => ?_
      rw [← Session.frames_settle p.session v]
      exact hf
    change (p.session.settle v).nodes.node? x = _ at hx
    rw [h.sound.node?_settle hchain] at hx
    split at hx
    · -- The binding that gets its value now: its partners are twins and have paired values.
      cases hx
      obtain ⟨y', w', hy', hww⟩ := guide.twinning.values (h.slots_right_twins hab hab'') hy
      refine ⟨y', w', hy', ?_⟩
      exact (hv.along hww haligned guide.twinning.aligned).mono (extends_along h.twins)
    · obtain ⟨y', w', hy', hv'⟩ := h.resolved hx hab''
      exact ⟨y', w', hy', hv'.mono hext⟩

/-! ## Frames -/

/-- The partners of the frames are frames of the guide, different ones for different frames. -/
theorem exists_partner (h : p.Follows) :
    ∃ partner : Fin p.session.frames.size → Fin guide.session.frames.size,
      Function.Injective partner ∧ ∀ j : Fin p.session.frames.size, p.frames j (partner j) := by
  have hpartner : ∀ j : Fin p.session.frames.size,
      ∃ k : Fin guide.session.frames.size, p.frames j k := by
    intro j
    obtain ⟨k, hk⟩ := h.paired (Array.getElem?_eq_getElem j.isLt)
    obtain ⟨f, g, hfg⟩ := h.frames hk
    exact ⟨⟨k, (Array.getElem?_eq_some_iff.1 hfg.right).1⟩, hk⟩
  choose partner hpartner using hpartner
  refine ⟨partner, ?_, hpartner⟩
  intro j j' hjj
  have hk : guide.twins (partner j) (partner j') := by
    rw [← hjj]
    exact guide.twinning.refl (Array.getElem?_eq_getElem (partner j).isLt)
  exact Fin.ext ((h.unique (hpartner j) (hpartner j')).2 hk)

/-- The evaluation has no more frames than its guide. -/
theorem frames_size_le (h : p.Follows) : p.session.frames.size ≤ guide.session.frames.size := by
  obtain ⟨partner, hinj, -⟩ := h.exists_partner
  have hcard := Fintype.card_le_of_injective partner hinj
  rwa [Fintype.card_fin, Fintype.card_fin] at hcard

/-- The evaluation has fewer frames if a frame of the guide has no partner yet. -/
theorem frames_size_lt (h : p.Follows) {k : ℕ} (hk : k < guide.session.frames.size)
    (hfree : ∀ j, ¬ p.frames j k) : p.session.frames.size < guide.session.frames.size := by
  obtain ⟨partner, hinj, hpartner⟩ := h.exists_partner
  have hnot : (⟨k, hk⟩ : Fin _) ∉ Set.range partner := by
    rintro ⟨j, hj⟩
    have hjk := hpartner j
    rw [hj] at hjk
    exact hfree j hjk
  have hcard := Fintype.card_lt_of_injective_of_notMem partner hinj hnot
  rwa [Fintype.card_fin, Fintype.card_fin] at hcard

/-! ## Instances -/

/-- A class that the guide has instantiated is known to the evaluation, with its instructions in
the other order. -/
theorem exists_class {g : Frame} {k : ℕ} (hg : guide.session.frames[k]? = some g) :
    ∃ c, env.classes.lookup? g.cls.name = some c ∧ c.name = g.cls.name ∧
      c.Reorders (guide.order c.name) g.cls := by
  have hknown := guide.completed.sound.layout.known hg
  obtain ⟨c, hc, -⟩ := guide.classes.symm.lookup? hknown
  have hname := (ClassTable.of_lookup?_eq_some hc).2
  obtain ⟨d, hd, hcd⟩ := guide.classes.lookup? hc
  cases Option.some.inj (hknown.symm.trans hd)
  refine ⟨c, hc, hname, ?_⟩
  rw [hname]
  exact hcd

variable {target : Name} {xs ys : List ValueId} {k : ℕ} {g : Frame} {key : MemoKey}

/-- The instance that the evaluation has under the key of some arguments is the partner of the one
that the guide has under the key of their partners. -/
theorem frames_of_key (h : p.Follows) (hxy : List.Forall₂ p.Locals xs ys)
    (hg : guide.session.frames[k]? = some g) (hname : g.cls.name = target)
    (hkey : guide.session.memoKey? target ys = some key)
    (hkey' : guide.session.memoKey? target g.params.toList = some key) {j : ℕ} {f : Frame}
    (hf : p.session.frames[j]? = some f) (hfname : f.cls.name = target)
    (hfkey : p.session.memoKey? target f.params.toList = p.session.memoKey? target xs) :
    p.Frames j k f g := by
  obtain ⟨k', hk'⟩ := h.paired hf
  obtain ⟨f', g', hfg⟩ := h.frames hk'
  cases Option.some.inj (hf.symm.trans hfg.left)
  have hparams := (h.memoKey?_eq_iff hfg.params (h.locals_params hxy hkey hkey')).1 hfkey
  have hcls : g.cls = g'.cls := by
    have hlayout := guide.completed.sound.layout
    have hknown := hlayout.known hg
    rw [hname, ← hfname, ← hfg.reorders.name, hlayout.known hfg.right] at hknown
    exact (Option.some.inj hknown).symm
  -- Both are for one class with parameters that cannot be told apart.
  obtain ⟨f₁, g₁, hfg₁⟩ := h.frames (h.twins hk' (guide.twinning.keyed hfg.right hg hcls hparams))
  cases Option.some.inj (hf.symm.trans hfg₁.left)
  cases Option.some.inj (hg.symm.trans hfg₁.right)
  exact hfg₁

/-- An instance whose key is new is the partner of no frame: such a frame would have the same key
and be in the memo table. -/
theorem not_frames (h : p.Follows) (hxy : List.Forall₂ p.Locals xs ys)
    (hg : guide.session.frames[k]? = some g) (hname : g.cls.name = target)
    (hkey : guide.session.memoKey? target ys = some key)
    (hkey' : guide.session.memoKey? target g.params.toList = some key) {own : MemoKey}
    (hown : p.session.memoKey? target xs = some own) (hnew : p.session.memo.get? own = none)
    (j : ℕ) : ¬ p.frames j k := by
  intro hjk
  obtain ⟨f, g', hfg⟩ := h.frames hjk
  cases Option.some.inj (hg.symm.trans hfg.right)
  have hfname : f.cls.name = target := by rw [← hfg.reorders.name, hname]
  have hself := Reference.frames_self guide.twinning.refl hg
  have hkeys : p.session.memoKey? target f.params.toList = p.session.memoKey? target xs :=
    (h.memoKey?_eq_iff hfg.params (h.locals_params hxy hkey hkey')).2 hself.params
  have hget := h.sound.memoized.keyed guide.shares hfg.left
    (by rw [hfname, hkeys]; exact hown)
  rw [hnew] at hget
  cases hget

/-- With one more frame, whose partners had none, each frame has one family of twins for
partners. -/
theorem unique_withFrame (h : p.Follows) (hfree : ∀ j, ¬ p.frames j k) (s : Session)
    {j₁ j₂ k₁ k₂ : ℕ} (h₁ : (p.withFrame s k).frames j₁ k₁) (h₂ : (p.withFrame s k).frames j₂ k₂) :
    j₁ = j₂ ↔ guide.twins k₁ k₂ := by
  have hnone : ∀ {j l₁ l₂}, p.frames j l₁ → guide.twins k l₂ → ¬ guide.twins l₁ l₂ :=
    fun hj hl hll => hfree _ (h.twins hj (guide.twinning.trans hll (guide.twinning.symm hl)))
  rcases h₁ with h₁ | ⟨rfl, h₁⟩ <;> rcases h₂ with h₂ | ⟨rfl, h₂⟩
  · exact h.unique h₁ h₂
  · have hlt := h.frames_lt h₁
    exact ⟨fun hj => by omega, fun h₁₂ => absurd h₁₂ (hnone h₁ h₂)⟩
  · have hlt := h.frames_lt h₂
    exact ⟨fun hj => by omega, fun h₁₂ => absurd (guide.twinning.symm h₁₂) (hnone h₂ h₁)⟩
  · exact iff_of_true rfl (guide.twinning.trans (guide.twinning.symm h₁) h₂)

/-- A new frame for the class of a frame of the guide is paired with all twins of that frame. -/
theorem frames_withFrame (h : p.Follows) {f : Frame} {own : MemoKey} {fields : List ValueId}
    (hg : guide.session.frames[k]? = some g)
    (hparams : List.Forall₂ p.Locals f.params.toList g.params.toList)
    (hreorders : f.cls.Reorders (guide.order f.cls.name) g.cls)
    (hext : p.Extends (p.withFrame (p.session.addFrame f own fields) k)) {l : ℕ}
    (hkl : guide.twins k l) :
    ∃ g', (p.withFrame (p.session.addFrame f own fields) k).Frames p.session.frames.size l f
      g' := by
  obtain ⟨g₁, g', hgg⟩ := guide.twinning.frames hkl
  cases Option.some.inj (hg.symm.trans hgg.left)
  refine ⟨g', Or.inr ⟨rfl, hkl⟩, Array.getElem?_push_size, hgg.right, ?_, ?_⟩
  · rw [hgg.reorders.eq_of_refl]
    exact hreorders
  · refine forall₂_trans ?_ hparams hgg.params
    exact fun _ _ _ hx hy => (h.locals_twins hx hy).mono hext

/-- A binding that has a value when there is a new frame had it before, and its partners are what
they were. -/
theorem of_resolved_withFrame (h : p.Follows) {f : Frame} {own : MemoKey} {fields : List ValueId}
    (hbase : f.base = p.session.nodes.size) {x v : ValueId} {a b : Slot}
    (hx : (p.session.addFrame f own fields).nodes.node? x = some (.binding a (.resolved v)))
    (hab : (p.withFrame (p.session.addFrame f own fields) k).Slots a b) :
    p.session.nodes.node? x = some (.binding a (.resolved v)) ∧ p.Slots a b := by
  -- A new binding has no value yet.
  have hold : p.session.nodes.node? x = some (.binding a (.resolved v)) := by
    rcases (Arena.node?_addBlock hbase).1 hx with hx | ⟨_, -, -, hx⟩ | ⟨-, hx⟩
    · exact hx
    · cases hx
    · cases hx
  obtain ⟨f', hf', -, -⟩ := h.sound.layout.owned hold
  obtain ⟨hlt, -⟩ := Array.getElem?_eq_some_iff.1 hf'
  refine ⟨hold, hab.of_frames ?_ ?_⟩
  · rintro j k' (hjk | ⟨rfl, -⟩) hj
    · exact hjk
    · omega
  · intro f'' hf''
    rcases eq_or_of_getElem?_push hf'' with ⟨heq, -⟩ | hf''
    · omega
    · exact hf''

/-- An instance that no frame has for its partner yet gets a frame. -/
theorem addFrame (h : p.Follows) (hxy : List.Forall₂ p.Locals xs ys)
    (hlocal : ∀ x ∈ xs, p.session.nodes.IsLocal guide.start x)
    (hg : guide.session.frames[k]? = some g) (hkey : guide.session.memoKey? target ys = some key)
    (hkey' : guide.session.memoKey? target g.params.toList = some key) {f : Frame}
    {own : MemoKey} {fields : List ValueId}
    (hf : Session.Fresh env p.session target xs f own fields)
    (hreorders : f.cls.Reorders (guide.order f.cls.name) g.cls) (hfree : ∀ j, ¬ p.frames j k) :
    ∃ q : Pairing guide.toReference, q.session = p.session.addFrame f own fields ∧ p.Extends q ∧
      q.Follows ∧ q.Frames p.session.frames.size k f g := by
  obtain ⟨hgrows, hsound⟩ := h.sound.addFrame hf hlocal
  have hext : p.Extends (p.withFrame (p.session.addFrame f own fields) k) := ⟨hgrows, Or.inl⟩
  have hparams : List.Forall₂ p.Locals f.params.toList g.params.toList := by
    rw [hf.toList_params]
    exact h.locals_params hxy hkey hkey'
  have hself := guide.twinning.refl hg
  refine ⟨p.withFrame (p.session.addFrame f own fields) k, rfl, hext,
    ⟨⟨hsound, h.imported_of_grows hgrows, ?_⟩, ?_, ?_, ?_, ?_⟩, ?_⟩
  · rintro j' k' (hjk | ⟨rfl, hkl⟩)
    · obtain ⟨f', g', hfg⟩ := h.frames hjk
      exact ⟨f', g', hfg.mono hext⟩
    · obtain ⟨g', hfg⟩ := h.frames_withFrame hg hparams hreorders hext hkl
      exact ⟨f, g', hfg⟩
  · intro j f' hf'
    rcases eq_or_of_getElem?_push hf' with ⟨hj, -⟩ | hf'
    · exact ⟨k, Or.inr ⟨hj, hself⟩⟩
    · obtain ⟨k', hk'⟩ := h.paired hf'
      exact ⟨k', Or.inl hk'⟩
  · exact fun h₁ h₂ => h.unique_withFrame hfree _ h₁ h₂
  · rintro j' k' l (hjk | ⟨rfl, hkk⟩) hkl
    · exact Or.inl (h.twins hjk hkl)
    · exact Or.inr ⟨rfl, guide.twinning.trans hkk hkl⟩
  · intro x v a b hx hab
    obtain ⟨hold, hab'⟩ := h.of_resolved_withFrame hf.base hx hab
    obtain ⟨y, w, hy, hv⟩ := h.resolved hold hab'
    exact ⟨y, w, hy, hv.mono hext⟩
  · obtain ⟨g', hfg⟩ := h.frames_withFrame hg hparams hreorders hext hself
    cases Option.some.inj (hg.symm.trans hfg.right)
    exact hfg

/-- A class that the guide has instantiated can be instantiated, and the two instances are
paired. -/
theorem create (h : p.Follows) (hxy : List.Forall₂ p.Locals xs ys)
    (hlocal : ∀ x ∈ xs, p.session.nodes.IsLocal guide.start x)
    (hg : guide.session.frames[k]? = some g) (hname : g.cls.name = target)
    (hkey : guide.session.memoKey? target ys = some key)
    (hkey' : guide.session.memoKey? target g.params.toList = some key) :
    ∃ c, p.session.creation env target xs = .ok c ∧
      ∃ q : Pairing guide.toReference, q.session = (p.session.create c).2 ∧ p.Extends q ∧
        q.Follows ∧ q.Values (p.session.create c).1 g.object := by
  obtain ⟨c, hc, hcname, hreorders⟩ := exists_class hg
  rw [hname] at hc hcname
  have hlength : xs.length = c.params.length := by
    rw [hxy.length_eq, (Session.forall₂_memoArg?_of_memoKey? hkey hkey').length_eq,
      Array.length_toList, guide.completed.sound.layout.params_size hg, hreorders.params]
  obtain ⟨⟨own, hown⟩, -⟩ := h.exists_memoKey? target hxy
  -- The memo table may have the instance already, under the key that the arguments make here.
  cases hmemo : p.session.memo.get? own with
  | some o =>
    obtain ⟨j, f, hf, hobj, hfkey⟩ := h.sound.memoized.origin hmemo
    have hfname : f.cls.name = target :=
      (Session.memoKey?_cls hfkey).symm.trans (Session.memoKey?_cls hown)
    rw [hfname] at hfkey
    have hfg := h.frames_of_key hxy hg hname hkey hkey' hf hfname (hfkey.trans hown.symm)
    have hcreation := Session.creation_of_known hc hlength hown guide.shares hmemo
    obtain ⟨hgrows, hsound, -, -⟩ := h.sound.create hcreation hlocal
    have hext : p.Extends (p.goTo (p.session.create (.known o)).2) := .of_grows hgrows
    have hfollows := h.of_same hsound hgrows rfl fun hx => hx
    refine ⟨.known o, hcreation, p.goTo (p.session.create (.known o)).2, rfl, hext, hfollows, ?_⟩
    show Values _ o g.object
    rw [← hobj]
    exact (hfg.mono hext).object hfollows.toAligned
  | none =>
    have hfree := h.not_frames hxy hg hname hkey hkey' hown hmemo
    obtain ⟨fields, hfields⟩ := Frame.exists_locals?
      (f := { cls := c, params := xs.toArray, base := p.session.nodes.size })
      (by rw [List.size_toArray, hlength]) c.valid.yields_inRange
    have hfresh : Session.Fresh env p.session target xs
        { cls := c, params := xs.toArray, base := p.session.nodes.size } own fields :=
      { lookup := hc
        params := rfl
        base := rfl
        length := hlength
        keyed := hown
        new := fun _ => hmemo
        fields := hfields
        limit := by
          intro max hmax
          have hle := guide.limit max hmax
          have hlt := h.frames_size_lt (Array.getElem?_eq_some_iff.1 hg).1 hfree
          omega }
    obtain ⟨q, hq, hext, hfollows, hnew⟩ :=
      h.addFrame hxy hlocal hg hkey hkey' hfresh hreorders hfree
    exact ⟨.fresh _ own fields, hfresh.creation, q, hq, hext, hfollows,
      hnew.object hfollows.toAligned⟩

end Follows

end Pairing

end ObjectModel
