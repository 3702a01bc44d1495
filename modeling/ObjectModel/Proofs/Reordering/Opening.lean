import ObjectModel.Proofs.Reordering.Run
import ObjectModel.Proofs.Session.Counters

/-!
# Evaluations in both orders

A class whose instantiation begins with the instructions of its table in one order begins with them
in every other order (`Environment.Opens.reorder`), and the first states are paired. So a completed
evaluation guides every evaluation that shares its instances to its end (`Opens.guided`).
-/

set_option autoImplicit false

namespace ObjectModel

namespace Environment

variable {env env' : Environment} {σ : Name → Equiv.Perm ℕ} {nodes : Arena} {target : Name}
  {args : List ValueId} {f g : Frame} {s₀ s₀' s' : Session}

namespace Opens

/-- The first state of an evaluation is opened alike with the instructions in another order. -/
theorem reorder (h : env'.Opens nodes target args g s₀') (hσ : env.Reorders σ env') :
    ∃ f s₀, env.Opens nodes target args f s₀ := by
  cases h with
  | intro hg =>
    obtain ⟨c, hc, hcg⟩ := hσ.symm.classes.lookup? hg.lookup
    have hlength : args.length = c.params.length := by rw [hcg.params, hg.length]
    obtain ⟨fields, hfields⟩ := Frame.exists_locals?
      (f := { cls := c, params := args.toArray, base := nodes.size })
      (by rw [List.size_toArray, hlength]) c.valid.yields_inRange
    exact ⟨{ cls := c, params := args.toArray, base := nodes.size }, _,
      .intro
        { lookup := hc
          params := rfl
          base := rfl
          length := hlength
          keyed := hg.keyed
          new := fun _ => hg.new hσ.shares'
          fields := hfields
          limit := fun max hmax => hg.limit max (hσ.instances.trans hmax) }⟩

/-- The first frames of both evaluations are for one class. -/
theorem reorders (h : env.Opens nodes target args f s₀) (h' : env'.Opens nodes target args g s₀')
    (hσ : env.classes.Reorders σ env'.classes) : f.cls.Reorders (σ f.cls.name) g.cls := by
  obtain ⟨d, hd, hfd⟩ := hσ.lookup? h.lookup
  cases Option.some.inj (hd.symm.trans h'.lookup)
  rw [h.cls_name]
  exact hfd

/-! ## The guide of an evaluation -/

/-- A completed evaluation is a reference for evaluations with the instructions in another order. -/
theorem exists_reference (h : env'.Opens nodes target args g s₀')
    (hσ : env.classes.Reorders σ env'.classes) (hnodes : nodes.SelfContained)
    (hends : s₀'.Ends env' (.ok s')) :
    ∃ ref : Reference env, ref.env' = env' ∧ ref.start = nodes.size ∧ ref.session = s' := by
  obtain ⟨hreach, hdone⟩ := h.ends hnodes hends
  refine ⟨{ env', order := σ, classes := hσ, start := nodes.size, session := s', completed := hdone,
            builders := (h.builders hnodes).reaches (h.sound hnodes) hreach, closed := ?_ },
    rfl, rfl, rfl⟩
  intro x n hx hn c hc
  rw [h.imported hnodes hreach hx] at hn
  exact hnodes.children hn c hc

/-- The first frame of an evaluation is paired with the first one of a reference that starts with
the same instantiation. -/
theorem aligned {ref : Reference env} (h : env.Opens nodes target args f s₀)
    (h' : ref.env'.Opens nodes target args g s₀') (hnodes : nodes.SelfContained)
    (hstart : ref.start = nodes.size) (hreach : Session.Reaches ref.env' s₀' ref.session) :
    (⟨s₀, fun j k => j = 0 ∧ k = 0⟩ : Pairing ref).Aligned := by
  have hframe : s₀.frames[0]? = some f := h.first hnodes .refl
  have hframe' : ref.session.frames[0]? = some g := h'.first hnodes hreach
  refine ⟨?_, ?_, ?_⟩
  · rw [hstart]
    exact h.sound hnodes
  · intro x hx
    rw [hstart] at hx
    rw [h'.imported hnodes hreach hx]
    exact h.node? hx
  · rintro j k ⟨rfl, rfl⟩
    refine ⟨f, g, ⟨rfl, rfl⟩, hframe, hframe', h.reorders h' ref.classes, ?_⟩
    rw [h.params, h'.params]
    refine List.forall₂_same.2 fun x hx => .imported ?_
    rw [hstart]
    exact h.args_lt x hx

/-- The first state follows every guide that starts with the same instantiation. -/
theorem follows {guide : Guide env} (h : env.Opens nodes target args f s₀)
    (h' : guide.env'.Opens nodes target args g s₀') (hnodes : nodes.SelfContained)
    (hstart : guide.start = nodes.size) (hreach : Session.Reaches guide.env' s₀' guide.session) :
    ((⟨s₀, fun j k => j = 0 ∧ k = 0⟩ : Pairing guide.toReference).along guide.twins).Follows := by
  have haligned := h.aligned h' hnodes hstart hreach
  obtain ⟨f₁, g₁, hfg⟩ := haligned.frames ⟨rfl, rfl⟩
  -- One frame, with the twins of the guide's first one, and nothing is evaluated yet.
  refine ⟨haligned.along guide.twinning.aligned, ?_, ?_, ?_, ?_⟩
  · intro j f' hf'
    change s₀.frames[j]? = _ at hf'
    rw [h.frames] at hf'
    obtain ⟨hlt, -⟩ := Array.getElem?_eq_some_iff.1 hf'
    exact ⟨0, 0, ⟨Nat.lt_one_iff.1 hlt, rfl⟩, guide.twinning.refl hfg.right⟩
  · rintro j k j' k' ⟨l, ⟨rfl, rfl⟩, hk⟩ ⟨l', ⟨rfl, rfl⟩, hk'⟩
    exact iff_of_true rfl (guide.twinning.trans (guide.twinning.symm hk) hk')
  · rintro j k l ⟨k', ⟨rfl, rfl⟩, hk⟩ hkl
    exact ⟨0, ⟨rfl, rfl⟩, guide.twinning.trans hk hkl⟩
  · intro x v a b hx _
    cases h.unstarted hnodes hx

/-- A guide that starts with the same instantiation guides an evaluation to its end. -/
theorem guided {guide : Guide env} (h : env.Opens nodes target args f s₀)
    (h' : guide.env'.Opens nodes target args g s₀') (hnodes : nodes.SelfContained)
    (hstart : guide.start = nodes.size) (hends : s₀'.Ends guide.env' (.ok guide.session)) :
    ∃ p : Pairing guide.toReference, p.Follows ∧ p.frames 0 0 ∧ Session.Reaches env s₀ p.session ∧
      s₀.Ends env (.ok p.session) := by
  obtain ⟨hreach', -⟩ := h'.ends hnodes hends
  have hfollows := h.follows h' hnodes hstart hreach'
  obtain ⟨p, hpass, hend⟩ := hfollows.finishes h.chain
  obtain ⟨k, hk⟩ := hfollows.paired (h.first hnodes .refl)
  obtain ⟨l, ⟨-, rfl⟩, htwins⟩ := id hk
  have hzero := hpass.extends'.frames (hfollows.twins hk (guide.twinning.symm htwins))
  exact ⟨p, hpass.follows, hzero, hpass.reaches,
    hpass.reaches.ends (Session.ends_of_finished hend)⟩

/-- An evaluation that shares its instances and comes to its end guides every such evaluation with
the instructions in another order to its end, and none of its frames are twins. -/
theorem exists_follows (h : env.Opens nodes target args f s₀)
    (h' : env'.Opens nodes target args g s₀') (hσ : env.Reorders σ env')
    (hnodes : nodes.SelfContained) (hends : s₀'.Ends env' (.ok s')) :
    ∃ (guide : Guide env) (p : Pairing guide.toReference), guide.env' = env' ∧
      guide.start = nodes.size ∧ guide.session = s' ∧ (∀ {k l : ℕ}, guide.twins k l → k = l) ∧
        p.Follows ∧ p.frames 0 0 ∧ Session.Reaches env s₀ p.session ∧
          s₀.Ends env (.ok p.session) := by
  obtain ⟨ref, rfl, hstart, rfl⟩ := h'.exists_reference hσ.classes hnodes hends
  obtain ⟨hreach, -⟩ := h'.ends hnodes hends
  have hcounted := (h'.counted hnodes).reaches (h'.sound hnodes) (h'.builders hnodes) hreach
  obtain ⟨guide, rfl, htwins⟩ := ref.exists_guide (Reference.twinning_diagonal hσ.shares') hσ.depth
    hσ.shares fun max hmax => hcounted.limit max (hσ.instances.trans hmax)
  obtain ⟨p, hp⟩ := h.guided h' hnodes hstart hends
  refine ⟨guide, p, rfl, hstart, rfl, ?_, hp⟩
  intro k l hkl
  rw [htwins] at hkl
  exact hkl.1

end Opens

end Environment

end ObjectModel
