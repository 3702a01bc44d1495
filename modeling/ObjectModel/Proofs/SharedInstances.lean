import ObjectModel.Proofs.Reordering.Opening
import ObjectModel.Proofs.ResourceLimits

/-!
# Shared instances

What the memo table of an evaluation is good for, and that nothing else comes of it. An evaluation
that never consults it makes an object for every instantiation (`Environment.unshared`). If such an
evaluation comes to its end, its frames fall into families of twins, which are for one class with
parameters that cannot be told apart, and the evaluation that consults the table has one frame at
most for each family. So it ends too, with no more objects, and a reader who goes down from the root
sees the same in both graphs (`Evaluator.instantiateName_shares`).
-/

set_option autoImplicit false

namespace ObjectModel

/-! ## Evaluations without a memo table -/

/-- The same evaluation, which never consults the memo table. -/
def Environment.unshared (env : Environment) : Environment := { env with shares := false }

/-- Instantiate the class of a name without consulting the memo table. -/
def Evaluator.instantiateUnshared (e : Evaluator) (w : Workspace) (n : Name)
    (params : List (Option Value)) (steps : ℕ := allowance) : Workspace × Except Failure Value :=
  match e.prepare w n params with
  | (w, .error f) => (w, .error f)
  | (w, .ok a) =>
    match a.env.unshared.evaluate e.table a.nodes n a.args steps with
    | .error f => (w, .error f)
    | .ok (g, root) =>
      let (v, w) := w.addGraph g root
      (w, .ok v)

namespace Environment

variable {env : Environment} {nodes : Arena} {target : Name} {args : List ValueId} {f : Frame}
  {s₀ : Session}

/-- The first instantiation is made in one way, since the memo table is empty before it. -/
theorem Opens.of_unshared (h : env.unshared.Opens nodes target args f s₀) :
    env.Opens nodes target args f s₀ := by
  cases h with
  | intro hf =>
    refine .intro { hf with limit := hf.limit, new := fun _ => ?_ }
    exact Index.get?_empty _

end Environment

/-! ## Equal unfoldings -/

/-- Paired values have equal unfoldings in the sealed arenas. -/
theorem Pairing.Reads.exists_unfolding? {env : Environment} {ref : Reference env} {p : Pairing ref}
    (h : p.Reads (fun _ => True) fun _ => True) (depth : ℕ) {x y : ValueId} (hxy : p.Values x y) :
    ∃ u, p.session.nodes.finish.unfolding? depth x = some u ∧
      ref.session.nodes.finish.unfolding? depth y = some u := by
  refine Arena.exists_unfolding? (fun {x y} hxy => ?_) depth hxy
  obtain ⟨n, m, hn, hm, halike⟩ := hxy.nodes
  exact ⟨_, _, Arena.node?_finish_of_eq_some hn, Arena.node?_finish_of_eq_some hm,
    halike.mapChildren fun _ _ hxy => h.values_resolve hxy⟩

/-- What can be seen below a position can only be seen at a value. -/
theorem Arena.isValue_of_unfolding? {a : Arena} {depth : ℕ} {x : ValueId} {u : Unfolding}
    (h : a.unfolding? (depth + 1) x = some u) : a.IsValue x := by
  rw [unfolding?] at h
  cases hn : a.node? x with
  | none =>
    rw [hn] at h
    cases h
  | some n =>
    rw [hn] at h
    cases n with
    | binding slot state => cases h
    | _ => exact ⟨_, hn, rfl⟩

/-! ## Objects -/

/-- Sealing keeps the objects. -/
theorem Arena.objects_finish (a : Arena) : a.finish.objects = a.objects := by
  ext x
  constructor
  · rintro ⟨cls, fields, hn⟩
    obtain ⟨m, hm, heq⟩ := exists_of_node?_finish hn
    cases m with
    | object cls' fields' => exact ⟨cls', fields', hm⟩
    | _ => cases heq
  · rintro ⟨cls, fields, hn⟩
    exact ⟨cls, _, node?_finish_of_eq_some hn⟩

/-- Besides the copies of the parameters the graph has so many objects, and they were counted. -/
structure Graph.Creates (g : Graph) (copies : Arena) (objects : ℕ) : Prop where
  counted : g.stats.objects = UInt64.ofNat objects
  objects : g.nodes.objects.ncard = copies.objects.ncard + objects

namespace Environment

variable {env : Environment} {nodes : Arena} {target : Name} {args : List ValueId} {f : Frame}
  {s s₀ : Session}

/-- An evaluation creates an object for each of its frames. -/
theorem Opens.creates (h : env.Opens nodes target args f s₀) (hnodes : nodes.SelfContained)
    (hends : s₀.Ends env (.ok s)) (table : Option TableId) :
    Graph.Creates { nodes := s.nodes.finish, table, stats := s.stats } nodes s.frames.size := by
  obtain ⟨hreach, hdone⟩ := h.ends hnodes hends
  have hbuilders := (h.builders hnodes).reaches (h.sound hnodes) hreach
  have hcounted := (h.counted hnodes).reaches (h.sound hnodes) (h.builders hnodes) hreach
  refine ⟨hcounted.objects, ?_⟩
  have hcopies : { v | v.index < nodes.size ∧ v ∈ s.nodes.objects } = nodes.objects := by
    ext v
    constructor
    · rintro ⟨hlt, cls, fields, hn⟩
      exact ⟨cls, fields, (h.imported hnodes hreach hlt).symm.trans hn⟩
    · rintro ⟨cls, fields, hn⟩
      have hlt := Arena.node?_lt hn
      exact ⟨hlt, cls, fields, (h.imported hnodes hreach hlt).trans hn⟩
  rw [Arena.objects_finish, hbuilders.ncard_objects hdone.sound.layout, hcopies]

/-! ## Sharing -/

/-- If the evaluation without a memo table comes to its end, so does the one that has it, with no
more objects and with equal unfoldings of the object that was asked for. -/
theorem Opens.shares {s' : Session} (h : env.unshared.Opens nodes target args f s₀)
    (hnodes : nodes.SelfContained) (hlimits : env.limits = .unlimited) (hshares : env.shares = true)
    (hends : s₀.Ends env.unshared (.ok s')) :
    ∃ s, s₀.Ends env (.ok s) ∧ s.frames.size ≤ s'.frames.size ∧
      ∀ depth, ∃ u, s.nodes.finish.unfolding? depth f.object = some u ∧
        s'.nodes.finish.unfolding? depth f.object = some u := by
  -- The instructions stay where they are, so the reference differs in its frames only.
  have hclasses : env.classes.Reorders (fun _ => .refl ℕ) env.unshared.classes := .refl env.classes
  obtain ⟨ref, henv, hstart, rfl⟩ := h.exists_reference hclasses hnodes hends
  have hdepth : env.limits.depth = none := by rw [hlimits]; rfl
  have hinstances : ∀ max, env.limits.instances = some max → ref.session.frames.size ≤ max := by
    intro max hmax
    rw [hlimits] at hmax
    cases hmax
  obtain ⟨guide, rfl, -⟩ := ref.exists_guide ref.twinning_twins hdepth hshares hinstances
  have hopens := h.of_unshared
  rw [← henv] at h hends
  obtain ⟨p, hfollows, hfirst, hreach, hp⟩ := hopens.guided h hnodes hstart hends
  refine ⟨p.session, hp, hfollows.frames_size_le, fun depth => ?_⟩
  have hdone : p.session.Completed env guide.start := by
    rw [hstart]
    exact (hopens.ends hnodes hp).2
  -- The first frames are paired, and they are the frame that both evaluations start with.
  obtain ⟨f₁, g₁, hfg⟩ := hfollows.frames hfirst
  cases Option.some.inj (hfg.left.symm.trans (hopens.first hnodes hreach))
  cases Option.some.inj (hfg.right.symm.trans (h.first hnodes (h.ends hnodes hends).1))
  exact (hfollows.reads hdone).exists_unfolding? depth (hfg.object hfollows.toAligned)

end Environment

/-! ## Requests -/

/-- A reader who goes down from the values cannot tell them apart: the classes of both graphs are
the same, in the same names, and the values have equal unfoldings to every depth. -/
structure Value.Alike (w w' : Workspace) (v v' : Value) : Prop where
  classes : (w.view v.graph).classes = (w'.view v'.graph).classes
  names : (w.view v.graph).names = (w'.view v'.graph).names
  unfolding : ∀ depth, ∃ u, (w.graph v.graph).nodes.unfolding? depth v.id = some u ∧
    (w'.graph v'.graph).nodes.unfolding? depth v'.id = some u

/-- Values that were added to one workspace are alike if their graphs are for one table and have
equal unfoldings at their roots. -/
theorem Workspace.alike_addGraph (w : Workspace) {g g' : Graph} {root root' : ValueId}
    (htable : g.table = g'.table)
    (h : ∀ depth, ∃ u, g.nodes.unfolding? depth root = some u ∧
      g'.nodes.unfolding? depth root' = some u) :
    Value.Alike (w.addGraph g root).2 (w.addGraph g' root').2 (w.addGraph g root).1
      (w.addGraph g' root').1 := by
  -- What can be unfolded is a value, so a root stands for itself.
  have hroot : g.nodes.resolve root = root ∧ g'.nodes.resolve root' = root' := by
    obtain ⟨u, hu, hu'⟩ := h 1
    exact ⟨Arena.resolve_of_denotes (P := fun _ => True) (.value (Arena.isValue_of_unfolding? hu)),
      Arena.resolve_of_denotes (P := fun _ => True) (.value (Arena.isValue_of_unfolding? hu'))⟩
  refine ⟨?_, ?_, ?_⟩
  · rw [view, view, graph_addGraph_new, graph_addGraph_new, htable]
    cases g'.table <;> rfl
  · rw [view, view, graph_addGraph_new, graph_addGraph_new, htable]
    cases g'.table <;> rfl
  · intro depth
    rw [graph_addGraph_new, graph_addGraph_new]
    obtain ⟨u, hu, hu'⟩ := h depth
    refine ⟨u, ?_, ?_⟩
    · rw [← hu]
      exact congrArg _ hroot.1
    · rw [← hu']
      exact congrArg _ hroot.2

namespace Evaluator

variable {e : Evaluator} {w w' : Workspace} {n : Name} {params : List (Option Value)} {v : Value}
  {steps : ℕ}

/-- A request that succeeds without consulting the memo table was prepared and evaluated. -/
theorem exists_of_instantiateUnshared
    (h : e.instantiateUnshared w n params steps = (w', .ok v)) :
    ∃ w₁ p g root, e.prepare w n params = (w₁, .ok p) ∧
      p.env.unshared.evaluate e.table p.nodes n p.args steps = .ok (g, root) ∧
        w' = (w₁.addGraph g root).2 ∧ v = (w₁.addGraph g root).1 := by
  rw [instantiateUnshared] at h
  split at h
  · cases h
  · rename_i w₁ p hprepare
    split at h
    · cases h
    · rename_i g root heval
      cases h
      exact ⟨w₁, p, g, root, hprepare, heval, rfl, rfl⟩

/-- Sharing changes nothing that a reader can see. If a request succeeds without limits in an
evaluation that never consults the memo table, it succeeds without limits in the one that does,
given enough steps. Besides the copies of the parameters the second graph has as many objects as the
first one or fewer, and both values are alike. -/
theorem instantiateName_shares
    (h : (e.within .unlimited).instantiateUnshared w n params steps = (w', .ok v)) :
    ∃ bound w₁ v₁ w₂ p objects objects',
      (∀ k, bound ≤ k → (e.within .unlimited).instantiateName w n params k = (w₁, .ok v₁)) ∧
      (e.within .unlimited).prepare w n params = (w₂, .ok p) ∧ objects ≤ objects' ∧
      (w₁.graph v₁.graph).Creates p.nodes objects ∧ (w'.graph v.graph).Creates p.nodes objects' ∧
      Value.Alike w₁ w' v₁ v := by
  obtain ⟨w₂, p, g', root', hprepare, heval, rfl, rfl⟩ := exists_of_instantiateUnshared h
  have hp := prepare_eq_ok hprepare
  obtain ⟨f, s₀, s', hopens, hrun, rfl, rfl⟩ :=
    (Environment.evaluate_eq_ok_iff hp.nodes).1 heval
  obtain ⟨s, ⟨bound, hends⟩, hle, hunfold⟩ :=
    hopens.shares hp.nodes hp.limits hp.shares ⟨steps, hrun⟩
  let g : Graph := { nodes := s.nodes.finish, table := some e.table, stats := s.stats }
  refine ⟨bound, (w₂.addGraph g f.object).2, (w₂.addGraph g f.object).1, w₂, p, s.frames.size,
    s'.frames.size, ?_, hprepare, hle, ?_, ?_, w₂.alike_addGraph rfl hunfold⟩
  · intro k hk
    have hsucceeds : p.env.evaluate (e.within .unlimited).table p.nodes n p.args k =
        .ok (g, f.object) := (Environment.evaluate_eq_ok_iff hp.nodes).2
      ⟨f, s₀, s, hopens.of_unshared, Session.runFor_of_le hk hends, rfl, rfl⟩
    rw [instantiateName_of_prepare hprepare, hsucceeds]
  · rw [Workspace.graph_addGraph_new]
    exact hopens.of_unshared.creates hp.nodes ⟨bound, hends⟩ _
  · rw [Workspace.graph_addGraph_new]
    exact hopens.creates hp.nodes ⟨steps, hrun⟩ _

end Evaluator

namespace Sample

/-- The class with two boxes has an object for each box without the memo table. With it both boxes
are one object, and the value looks the same. -/
theorem pair_shares : ∃ w' v,
    (evaluator.within .unlimited).instantiateUnshared workspace ⟨3⟩ [] 20 = (w', .ok v) ∧
      (w'.graph v.graph).stats.objects = 3 ∧
      ∃ bound w₁ v₁, (∀ k, bound ≤ k →
        (evaluator.within .unlimited).instantiateName workspace ⟨3⟩ [] k = (w₁, .ok v₁)) ∧
          (w₁.graph v₁.graph).stats.objects = 2 ∧ Value.Alike w₁ w' v₁ v := by
  obtain ⟨w', v, h⟩ := exists_of_isOk
    (show ((evaluator.within .unlimited).instantiateUnshared workspace ⟨3⟩ [] 20).2.isOk = true by
      decide +kernel)
  have hthree : (match (evaluator.within .unlimited).instantiateUnshared workspace ⟨3⟩ [] 20 with
      | (w, .ok v) => (w.graph v.graph).stats.objects
      | _ => 0) = 3 := by decide +kernel
  have htwo : (match (evaluator.within .unlimited).instantiateName workspace ⟨3⟩ [] 20 with
      | (w, .ok v) => (w.graph v.graph).stats.objects
      | _ => 0) = 2 := by decide +kernel
  obtain ⟨w₂, v₂, hshared⟩ := exists_of_isOk
    (show ((evaluator.within .unlimited).instantiateName workspace ⟨3⟩ [] 20).2.isOk = true by
      decide +kernel)
  obtain ⟨bound, w₁, v₁, w₃, p, objects, objects', hsucceeds, -, -, -, -, halike⟩ :=
    Evaluator.instantiateName_shares h
  obtain ⟨rfl, rfl⟩ := Evaluator.instantiateName_unique (hsucceeds bound le_rfl) hshared
  rw [h] at hthree
  rw [hshared] at htwo
  exact ⟨w', v, h, hthree, bound, w₁, v₁, hsucceeds, htwo, halike⟩

end Sample

end ObjectModel
