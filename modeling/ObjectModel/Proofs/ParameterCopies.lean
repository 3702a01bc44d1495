import ObjectModel.Proofs.Intake.Tracing
import Mathlib.Data.Set.Function

/-!
# Copies of parameters

The copies of the parameters of a request correspond one to one to the values that the parameters
lead to (`Intake.Copied`), so sharing and cycles stay, within one parameter and between several ones
of one graph. Each copy has the form of its original, with names translated by their texts, and
refers to the copies of what its original refers to. Copying fails exactly if the parameters lead to
an object of a class that has no namesake in the table (`Intake.addParams_copied`).
-/

set_option autoImplicit false

namespace ObjectModel

/-- A value of a graph of the workspace all whose names were issued. -/
structure Workspace.Offers (w : Workspace) (v : Value) : Prop where
  holds : w.Holds v
  issued : ∀ t, (w.graph v.graph).table = some t → (w.graph v.graph).Issued (w.tableNames t)

theorem Workspace.Offers.presents {w : Workspace} {v : Value} (h : w.Offers v) : w.Presents v where
  holds := h.holds
  classes ht hn := h.issued _ ht _ _ hn

namespace Intake

/-! ## What is copied -/

variable {target : TableId} {w₀ w w' : Workspace} {intake intake' : Intake} {v : Value}
  {vs rest : List Value} {id : ValueId} {ids : List ValueId} {f : Failure}

/-- The values have their copies, with everything that they lead to and nothing else; every
position is that of one copy, which has the form of its original. -/
structure Mirrors (w₀ w : Workspace) (target : TableId) (vs : List Value) (intake : Intake) :
    Prop where
  keeps : w₀.Keeps w
  order : intake.InOrder
  complete : intake.Complete w₀
  classes : intake.nodes.ClassesIn (w₀.table target)
  copied : ∀ v ∈ vs, ∃ c, intake.copies.get? v = some c
  reached : ∀ {x : Value} {c : ValueId}, intake.copies.get? x = some c → x ∈ w₀.reached vs
  injective : ∀ {x y : Value} {c : ValueId}, intake.copies.get? x = some c →
    intake.copies.get? y = some c → x = y
  onto : ∀ {c : ValueId}, c.index < intake.nodes.size → ∃ x, intake.copies.get? x = some c
  form : ∀ {x : Value} {c : ValueId}, intake.copies.get? x = some c →
    ∃ n m, (w₀.graph x.graph).nodes.node? x.id = some n ∧ intake.nodes.node? c = some m ∧
      w₀.SameForm w target (w₀.graph x.graph).table n m ∧
      List.Forall₂ (fun a b =>
        intake.copies.get? ⟨x.graph, (w₀.graph x.graph).nodes.resolve a⟩ = some b)
        n.children m.children

theorem mirrors_nil (w : Workspace) (target : TableId) : Mirrors w w target [] {} where
  keeps := .refl w
  order := inOrder_empty
  complete := complete_empty w
  classes := fun _ _ _ hn => absurd (Arena.node?_lt hn) (Nat.not_lt_zero _)
  copied := by simp
  reached := fun h => nomatch (Index.get?_empty (β := ValueId) _).symm.trans h
  injective := fun h => nomatch (Index.get?_empty (β := ValueId) _).symm.trans h
  onto := fun h => absurd h (Nat.not_lt_zero _)
  form := fun h => nomatch (Index.get?_empty (β := ValueId) _).symm.trans h

namespace Mirrors

/-- Everything that the values lead to is copied. -/
theorem isCopied_of_reached (h : Mirrors w₀ w target vs intake) {x : Value}
    (hx : x ∈ w₀.reached vs) : ∃ c, intake.copies.get? x = some c := by
  obtain ⟨⟨g, id⟩, hv, rfl, hleads⟩ := hx
  exact (h.complete x.graph).leadsTo hleads (h.copied _ hv)

/-- A value that the workspace offers stays one while names are added. -/
theorem isValue (h : Mirrors w₀ w target vs intake) (hv : w₀.Offers v) :
    (w.graph v.graph).nodes.IsValue v.id := by
  rw [h.keeps.graph]
  exact hv.holds

/-- The copy of a node that was discovered has its form. -/
theorem form_of_found (h : Mirrors w₀ w target vs intake) (hknows : w₀.Knows target)
    (hv : w₀.Offers v) {nodes : Arena}
    (hcopy : copyNodes target (intake.found w v).2 v.graph (intake.found w v).1.toList w
      intake.nodes = (w', .ok nodes)) {i : Nat} {id : ValueId}
    (hi : (intake.found w v).1[i]? = some id) :
    ∃ n m, (w₀.graph v.graph).nodes.node? id = some n ∧
      nodes.node? ⟨intake.nodes.size + i⟩ = some m ∧
      w₀.SameForm w' target (w₀.graph v.graph).table n m ∧
      List.Forall₂ (fun a b => (intake.found w v).2.get?
        ⟨v.graph, (w₀.graph v.graph).nodes.resolve a⟩ = some b) n.children m.children := by
  rw [← Array.getElem?_toList] at hi
  obtain ⟨w₁, w₂, n, m, hk, hk', hn, hm, hnode⟩ := (copyNodes_eq_ok hcopy).2.2 hi
  have hkeeps := h.keeps.trans hk
  rw [h.keeps.graph] at hn
  have hissued : ∀ t, (w₀.graph v.graph).table = some t → n.Issued (w₀.tableNames t) :=
    fun t ht => hv.issued t ht id n hn
  refine ⟨n, m, hn, hnode, ?_, ?_⟩
  · have hform := sameForm_of_copyNode (hkeeps.knows hknows) (fun t ht => by
      rw [hkeeps.graph] at ht
      exact hkeeps.node_issued (hissued t ht)) hm
    rw [hkeeps.graph] at hform
    exact (hform.of_keeps hkeeps hissued).keeps hk'
  · have hchildren := (copyOf_of_copyNode hm).forall₂_children
    rw [hkeeps.graph] at hchildren
    exact hchildren

/-- A value that has its copy may be given again. -/
theorem again (h : Mirrors w₀ w target vs intake) {c : ValueId}
    (hc : intake.copies.get? v = some c) : Mirrors w₀ w target (vs ++ [v]) intake :=
  { h with
    copied := by
      intro u hu
      rcases List.mem_append.1 hu with hu | hu
      · exact h.copied u hu
      · rw [List.mem_singleton.1 hu]
        exact ⟨c, hc⟩
    reached := fun hx =>
      Workspace.reached_mono (fun _ hu => List.mem_append_left _ hu) (h.reached hx) }

/-- A value without a copy is copied with what is discovered for it. -/
theorem discovered (h : Mirrors w₀ w target vs intake) (hknows : w₀.Knows target)
    (hv : w₀.Offers v) (hnone : intake.copies.get? v = none)
    (hcopies : intake'.copies = (intake.found w v).2)
    (hcopy : copyNodes target (intake.found w v).2 v.graph (intake.found w v).1.toList w
      intake.nodes = (w', .ok intake'.nodes))
    (horder : intake'.InOrder) (hcomplete : intake'.Complete w₀)
    (hclasses : intake'.nodes.ClassesIn (w₀.table target)) :
    Mirrors w₀ w' target (vs ++ [v]) intake' where
  keeps := h.keeps.trans (.of_copyNodes hcopy)
  order := horder
  complete := hcomplete
  classes := hclasses
  copied := by
    intro u hu
    rw [hcopies]
    rcases List.mem_append.1 hu with hu | hu
    · obtain ⟨c, hc⟩ := h.copied u hu
      exact ⟨c, found_keeps w intake v hc⟩
    · rw [List.mem_singleton.1 hu]
      exact ⟨_, found_self (h.isValue hv) hnone⟩
  reached := by
    intro x c hx
    rw [hcopies] at hx
    rcases reached_of_found h.keeps hv.holds hx with hold | hnew
    · exact Workspace.reached_mono (fun u hu => List.mem_append_left _ hu) (h.reached hold)
    · exact Workspace.reached_mono (fun u hu => List.mem_append_right _ hu) hnew
  injective := by
    intro x y c hx hy
    rw [hcopies] at hx hy
    exact (numbered_found w intake v).injective h.order.copies h.injective hx hy
  onto := by
    intro c hc
    rw [(copyNodes_eq_ok hcopy).1, Array.length_toList] at hc
    rw [hcopies]
    refine (numbered_found w intake v).onto (fun hlt => ?_) hc
    obtain ⟨x, hx⟩ := h.onto hlt
    exact ⟨x, found_keeps w intake v hx⟩
  form := by
    -- An older copy has its form from before, a new one from being copied.
    intro x c hx
    rw [hcopies] at hx ⊢
    rcases (numbered_found w intake v).new hx with hold | ⟨i, hg, hi, rfl⟩
    · obtain ⟨n, m, hn, hm, hform, hchildren⟩ := h.form hold
      exact ⟨n, m, hn, (copyNodes_eq_ok hcopy).2.1 hm, hform.keeps (.of_copyNodes hcopy),
        hchildren.imp fun _ _ hab => found_keeps w intake v hab⟩
    · rw [hg]
      exact h.form_of_found hknows hv hcopy hi

/-- One more value is copied. -/
theorem add (h : Mirrors w₀ w target vs intake) (hw : w₀.Built) (hknows : w₀.Knows target)
    (hv : w₀.Offers v) (hadd : Intake.add target w intake v = (w', .ok (id, intake'))) :
    Mirrors w₀ w' target (vs ++ [v]) intake' ∧ intake'.copies.get? v = some id := by
  have hvalue := h.isValue hv
  have hcomplete := h.complete.add_kept h.keeps hw.whole hv.holds hadd
  have hclasses := classesIn_add (hw.classed.keeps h.keeps)
    (by rw [h.keeps.table]; exact h.classes) hadd
  rw [h.keeps.table] at hclasses
  rcases add_eq_ok hadd with ⟨hc, rfl, rfl⟩ | ⟨hnone, rfl, hcopies, hcopy⟩
  · rw [hvalue.resolve] at hc
    exact ⟨h.again hc, hc⟩
  · rw [hvalue.resolve] at hnone
    refine ⟨h.discovered hknows hv hnone hcopies hcopy (h.order.add hadd) hcomplete hclasses, ?_⟩
    rw [hcopies]
    exact found_self hvalue hnone

/-- All values that are to come are copied. -/
theorem addAll (h : Mirrors w₀ w target vs intake) (hw : w₀.Built) (hknows : w₀.Knows target)
    (hrest : ∀ v ∈ rest, w₀.Offers v)
    (hadd : Intake.addAll target rest w intake = (w', .ok (ids, intake'))) :
    Mirrors w₀ w' target (vs ++ rest) intake' ∧
      List.Forall₂ (fun v id => intake'.copies.get? v = some id) rest ids ∧
      ∀ {x : Value} {c : ValueId}, intake.copies.get? x = some c →
        intake'.copies.get? x = some c := by
  induction rest generalizing w intake vs ids with
  | nil =>
    cases hadd
    rw [List.append_nil]
    exact ⟨h, .nil, fun hx => hx⟩
  | cons v rest ih =>
    obtain ⟨w₁, id, intake₁, ids', hv, hall, rfl⟩ := addAll_cons_eq_ok hadd
    obtain ⟨h₁, hid⟩ := h.add hw hknows (hrest v List.mem_cons_self) hv
    obtain ⟨h', hids, hlast⟩ := ih h₁ (fun u hu => hrest u (List.mem_cons_of_mem _ hu)) hall
    rw [List.append_assoc, List.singleton_append] at h'
    exact ⟨h', .cons (hlast hid) hids, fun hx => hlast (copies_of_add hv hx)⟩

end Mirrors

/-! ## The correspondence -/

/-- The copies of some values, at the given positions: one position for each value that they lead
to, and a copy of its form there that refers to the copies of what it refers to, in order. -/
structure Copied (w w' : Workspace) (target : TableId) (vs : List Value) (ids : List ValueId)
    (intake : Intake) (m : Value → ValueId) : Prop where
  copies : ∀ (x : Value) (c : ValueId), intake.copies.get? x = some c ↔ x ∈ w.reached vs ∧ m x = c
  bijOn : Set.BijOn m (w.reached vs) {c | c.index < intake.nodes.size}
  form : ∀ x ∈ w.reached vs, ∃ n n', (w.graph x.graph).nodes.node? x.id = some n ∧
    intake.nodes.node? (m x) = some n' ∧
    w.SameForm w' target (w.graph x.graph).table n n' ∧
    n'.children = n.children.map fun c => m ⟨x.graph, (w.graph x.graph).nodes.resolve c⟩
  args : ids = vs.map m
  same : ∀ {i j : Nat}, i < vs.length → j < vs.length → (ids[i]? = ids[j]? ↔ vs[i]? = vs[j]?)

/-- Values that are copied one after the other correspond to their copies. -/
theorem Mirrors.exists_copied (h : Mirrors w₀ w target vs intake)
    (hids : List.Forall₂ (fun v id => intake.copies.get? v = some id) vs ids) :
    ∃ m, Copied w₀ w target vs ids intake m := by
  -- The index as a function. What it gives off the reached values plays no part.
  let m : Value → ValueId := fun x => (intake.copies.get? x).getD ⟨0⟩
  have hm : ∀ {x c}, intake.copies.get? x = some c → m x = c := by
    intro x c hx
    show (intake.copies.get? x).getD _ = c
    rw [hx, Option.getD_some]
  have hcopies : ∀ (x : Value) (c : ValueId),
      intake.copies.get? x = some c ↔ x ∈ w₀.reached vs ∧ m x = c := by
    intro x c
    constructor
    · exact fun hx => ⟨h.reached hx, hm hx⟩
    · rintro ⟨hx, rfl⟩
      obtain ⟨c, hc⟩ := h.isCopied_of_reached hx
      rw [hm hc, hc]
  have hinj : Set.InjOn m (w₀.reached vs) := fun x hx y hy heq =>
    h.injective ((hcopies x _).2 ⟨hx, rfl⟩) ((hcopies y _).2 ⟨hy, heq.symm⟩)
  have hargs : ids = vs.map m := by
    rw [← List.forall₂_eq_eq_eq, List.forall₂_map_right_iff]
    exact (hids.imp fun _ _ hx => (hm hx).symm).flip
  refine ⟨m, hcopies, ⟨?_, hinj, ?_⟩, ?_, hargs, ?_⟩
  · exact fun x hx => h.order.copies ((hcopies x _).2 ⟨hx, rfl⟩)
  · intro c hc
    obtain ⟨x, hx⟩ := h.onto hc
    exact ⟨x, (hcopies x c).1 hx⟩
  · intro x hx
    obtain ⟨n, n', hn, hn', hform, hchildren⟩ := h.form ((hcopies x _).2 ⟨hx, rfl⟩)
    refine ⟨n, n', hn, hn', hform, ?_⟩
    rw [← List.forall₂_eq_eq_eq, List.forall₂_map_right_iff]
    exact (hchildren.imp fun _ _ hab => (hm hab).symm).flip
  · intro i j hi hj
    have hreached : ∀ {i : Nat} (hi : i < vs.length), vs[i] ∈ w₀.reached vs := by
      intro i hi
      obtain ⟨c, hc⟩ := h.copied vs[i] (List.getElem_mem hi)
      exact h.reached hc
    rw [hargs, List.getElem?_map, List.getElem?_map, List.getElem?_eq_getElem hi,
      List.getElem?_eq_getElem hj, Option.map_some, Option.map_some, Option.some_inj,
      Option.some_inj]
    exact ⟨fun heq => hinj (hreached hi) (hreached hj) heq, congrArg m⟩

/-- The parameters of a request whose copies all succeed correspond one to one to the values that
they lead to, each copy with the form of its original and with the copies of its references, and two
of them have one copy only if they are the same value. A copy fails exactly if the parameters lead
to an object of a class that has no namesake in the table, and then because of such a class. What is
copied this way is what a request copies that accepts the types of its parameters; one that does not
fails for a type, or for such a class too. -/
theorem addParams_copied {ps : List (Decl × Value)} (hw : w.Built) (hknows : w.Knows target)
    (hps : ∀ p ∈ ps, w.Offers p.2) :
    (∀ {w' ids intake}, addAll target (ps.map Prod.snd) w {} = (w', .ok (ids, intake)) →
      ∃ m, Copied w w' target (ps.map Prod.snd) ids intake m) ∧
    ((∃ w' f, addAll target (ps.map Prod.snd) w {} = (w', .error f)) ↔
      ∃ x ∈ w.reached (ps.map Prod.snd), ∃ s, w.Foreign target x s) ∧
    (∀ {w' f}, addAll target (ps.map Prod.snd) w {} = (w', .error f) →
      ∃ x ∈ w.reached (ps.map Prod.snd), ∃ s, w.Foreign target x s ∧
        f = .error (.ofKind (.unknownClass s))) ∧
    (∀ {w' ids intake}, addParams target ps w {} = (w', .ok (ids, intake)) →
      addAll target (ps.map Prod.snd) w {} = (w', .ok (ids, intake))) ∧
    ∀ {w' f}, addParams target ps w {} = (w', .error f) →
      addAll target (ps.map Prod.snd) w {} = (w', .error f) ∨
        ∃ name declared found, f = .error (.parameterTypeMismatch name declared found) := by
  have hvs : ∀ v ∈ ps.map Prod.snd, w.Offers v := by
    intro v hv
    obtain ⟨p, hp, rfl⟩ := List.mem_map.1 hv
    exact hps p hp
  have hpresents : ∀ v ∈ ps.map Prod.snd, w.Presents v := fun v hv => (hvs v hv).presents
  have htraces := traces_empty w target
  have herror : ∀ {w' f}, addAll target (ps.map Prod.snd) w {} = (w', .error f) →
      ∃ x ∈ w.reached (ps.map Prod.snd), ∃ s, w.Foreign target x s ∧
        f = .error (.ofKind (.unknownClass s)) :=
    fun h => htraces.foreign_of_addAll_eq_error hw hknows hpresents h
  refine ⟨fun h => ?_, ⟨?_, ?_⟩, herror, addAll_of_addParams, addAll_of_addParams_error⟩
  · obtain ⟨hmirrors, hids, -⟩ := (mirrors_nil w target).addAll hw hknows hvs h
    exact hmirrors.exists_copied hids
  · rintro ⟨w', f, h⟩
    obtain ⟨x, hx, s, hs, -⟩ := herror h
    exact ⟨x, hx, s, hs⟩
  · rintro ⟨x, hx, s, hs⟩
    rcases hall : addAll target (ps.map Prod.snd) w {} with ⟨w', f | ⟨ids, intake⟩⟩
    · exact ⟨w', f, rfl⟩
    · -- What is copied is of no foreign class.
      exact absurd hs (htraces.known_of_addAll hw hknows hpresents hall x hx s)

end Intake

namespace Sample

/-! ## An example -/

/-- A class with two coordinates. -/
def point : ClassDef where
  interner := ⟨0⟩
  name := ⟨1⟩
  params := []
  fields := [⟨⟨2⟩, .bool⟩, ⟨⟨3⟩, .bool⟩]
  instrs := #[.constant (.bool true), .constant (.bool false)]
  yields := [.instr 0, .instr 1]
  valid := ⟨by decide, by decide, by decide, by decide, rfl, by decide⟩

/-- The class of another table with the same name and its coordinates the other way round. -/
def mirroredPoint : ClassDef where
  interner := ⟨1⟩
  name := ⟨5⟩
  params := []
  fields := [⟨⟨3⟩, .bool⟩, ⟨⟨4⟩, .bool⟩]
  instrs := #[.constant (.bool true), .constant (.bool false)]
  yields := [.instr 0, .instr 1]
  valid := ⟨by decide, by decide, by decide, by decide, rfl, by decide⟩

/-- A class of the other table that holds a point. -/
def holder : ClassDef where
  interner := ⟨1⟩
  name := ⟨1⟩
  params := [⟨⟨2⟩, .cls ⟨5⟩⟩]
  fields := [⟨⟨2⟩, .cls ⟨5⟩⟩]
  instrs := #[]
  yields := [.param 0]
  valid := ⟨by decide, by decide, by decide, by decide, rfl, by decide⟩

def plane : ClassTable where
  interner := ⟨0⟩
  classes := [point]
  names_nodup := by decide
  interner_eq := by decide

def mirror : ClassTable where
  interner := ⟨1⟩
  classes := [holder, mirroredPoint]
  names_nodup := by decide
  interner_eq := by decide

/-- A workspace with both tables, each with an interner of its own. -/
def planes : Workspace :=
  ((["Holder", "point", "y", "x", "Point"].foldl (fun w s => (w.intern ⟨1⟩ s).2)
    (((["Point", "x", "y"].foldl (fun w s => (w.intern ⟨0⟩ s).2)
      (Workspace.addInterner {}).2).addTable plane).2).addInterner.2).addTable mirror).2

/-- The workspace with a point of the first table. -/
def drawn : Workspace := (evaluator.instantiateName planes ⟨1⟩ [] 20).1

/-- The point. -/
def corner : Value := ⟨⟨0⟩, ⟨2⟩⟩

theorem built_drawn : drawn.Built := by
  refine .instantiateName _ _ _ _ ?_ ?_
  · exact .addTable _ (.intern _ _ (.intern _ _ (.intern _ _ (.intern _ _ (.intern _ _
      (.addInterner (.addTable _ (.intern _ _ (.intern _ _ (.intern _ _
        (.addInterner .empty)))))))))))
  · intro v hv
    cases hv

theorem knows_mirror : drawn.Knows ⟨1⟩ where
  interner := by decide +kernel
  names := by
    show ∀ c ∈ (drawn.table ⟨1⟩).classes, c.name.index < (drawn.tableNames ⟨1⟩).strings.size
    decide +kernel

theorem offers_corner : drawn.Offers corner where
  holds := ⟨.object ⟨1⟩ [⟨3⟩, ⟨4⟩], by decide +kernel, rfl⟩
  issued := by
    intro t ht
    have htable : (drawn.graph ⟨0⟩).table = some ⟨0⟩ := by decide +kernel
    cases Option.some.inj (htable.symm.trans ht)
    decide +kernel

/-- A point that is given twice is copied once, with its two coordinates. -/
theorem corner_copied : drawn.Built ∧ drawn.Knows ⟨1⟩ ∧ drawn.Offers corner ∧
    ∃ w ids intake, Intake.addAll ⟨1⟩ [corner, corner] drawn {} = (w, .ok (ids, intake)) ∧
      ids[0]? = ids[1]? ∧
      ∃ m : Value → ValueId, Set.BijOn m (drawn.reached [corner, corner]) {c | c.index < 3} := by
  refine ⟨built_drawn, knows_mirror, offers_corner, ?_⟩
  have hsize : (Intake.addAll ⟨1⟩ [corner, corner] drawn {}).2.toOption.map
      (fun r => r.2.nodes.size) = some 3 := by
    decide +kernel
  rcases hall : Intake.addAll ⟨1⟩ [corner, corner] drawn {} with ⟨w, f | ⟨ids, intake⟩⟩
  · rw [hall] at hsize
    cases hsize
  · rw [hall] at hsize
    have hps : ∀ p ∈ [((⟨⟨2⟩, .cls ⟨5⟩⟩ : Decl), corner), (⟨⟨2⟩, .cls ⟨5⟩⟩, corner)],
        drawn.Offers p.2 := by
      intro p hp
      simp only [List.mem_cons, List.not_mem_nil, or_false, or_self] at hp
      rw [hp]
      exact offers_corner
    obtain ⟨m, hm⟩ := (Intake.addParams_copied built_drawn knows_mirror hps).1 hall
    refine ⟨w, ids, intake, rfl, (hm.same (by decide) (by decide)).2 rfl, m, ?_⟩
    rw [← Option.some.inj hsize]
    exact hm.bijOn

end Sample

end ObjectModel
