import ObjectModel.Proofs.Intake.Values
import ObjectModel.Proofs.Arena.Wrapping

/-!
# Tracing copies to their originals

While parameters are copied one after the other, each copy is that of a node (`Intake.Traces`), made
in a workspace between the first one and the present one. Nothing is asked of the names of the
nodes. Values are copied exactly if the classes of all objects that they lead to are known
(`Intake.Traces.exists_addAll_iff`). What can be seen through erased types of an original can be
seen of its copy: a value that stands behind them has its copy behind theirs
(`Intake.Traces.narrows`), and those that loop have copies that loop (`Intake.Traces.loops`).
-/

set_option autoImplicit false

namespace ObjectModel

variable {w₀ w w' : Workspace} {target : TableId} {intake intake' : Intake} {v : Value}
  {vs : List Value} {id : ValueId} {ids : List ValueId}

/-- What a node is the copy of stays so while more is copied. -/
theorem CopyOf.mono {copies copies' : Index Value ValueId} {g : GraphId} {n m : Node}
    (h : CopyOf w target copies g n m)
    (hc : ∀ {k : Value} {c : ValueId}, copies.get? k = some c → copies'.get? k = some c) :
    CopyOf w target copies' g n m := by
  have hids : ∀ {xs ids : List ValueId}, copiesOf copies (w.graph g).nodes g xs = .ok ids →
      copiesOf copies' (w.graph g).nodes g xs = .ok ids := by
    intro xs ids h
    rw [copiesOf] at h ⊢
    split at h
    · rename_i ids' hmap
      cases h
      rw [mapM_eq_some_iff.2 ((mapM_eq_some_iff.1 hmap).imp fun _ _ hab => hc hab)]
    · cases h
  cases h with
  | literal l => exact .literal l
  | object hcls hfields => exact .object hcls (hids hfields)
  | list helements => exact .list (hids helements)
  | any hpayload => exact .any (hids hpayload)

/-- The names that a node brings along do not depend on what was copied before. -/
theorem fst_copyNode (copies copies' : Index Value ValueId) {g : GraphId} {n : Node} :
    (copyNode w target copies g n).1 = (copyNode w target copies' g n).1 := by
  cases n <;> rfl

namespace Intake

/-- Every copy was made of a node of the first workspace, in a workspace that came later. The
present one came after the names of the node were translated. -/
structure Traces (w₀ w : Workspace) (target : TableId) (intake : Intake) : Prop where
  keeps : w₀.Keeps w
  order : intake.InOrder
  complete : intake.Complete w₀
  form : ∀ {x : Value} {c : ValueId}, intake.copies.get? x = some c →
    ∃ w₁ n m, w₀.Keeps w₁ ∧ (copyNode w₁ target intake.copies x.graph n).1.Keeps w ∧
      (w₀.graph x.graph).nodes.node? x.id = some n ∧ intake.nodes.node? c = some m ∧
        CopyOf w₁ target intake.copies x.graph n m

theorem traces_empty (w : Workspace) (target : TableId) : Traces w w target {} where
  keeps := .refl w
  order := inOrder_empty
  complete := complete_empty w
  form := fun h => nomatch (Index.get?_empty (β := ValueId) _).symm.trans h

namespace Traces

/-- A copy stays that of its node while more is copied. -/
theorem form_mono (h : Traces w₀ w target intake) (hw : w.Keeps w')
    (hnodes : ∀ {c : ValueId} {m : Node}, intake.nodes.node? c = some m →
      intake'.nodes.node? c = some m)
    (hcopies : ∀ {k : Value} {c : ValueId}, intake.copies.get? k = some c →
      intake'.copies.get? k = some c) {x : Value} {c : ValueId}
    (hx : intake.copies.get? x = some c) :
    ∃ w₁ n m, w₀.Keeps w₁ ∧ (copyNode w₁ target intake'.copies x.graph n).1.Keeps w' ∧
      (w₀.graph x.graph).nodes.node? x.id = some n ∧ intake'.nodes.node? c = some m ∧
        CopyOf w₁ target intake'.copies x.graph n m := by
  obtain ⟨w₁, n, m, hk, hk', hn, hm, hcopy⟩ := h.form hx
  rw [fst_copyNode intake.copies intake'.copies] at hk'
  exact ⟨w₁, n, m, hk, hk'.trans hw, hn, hnodes hm, hcopy.mono hcopies⟩

/-- One more value is copied, and what is found for it is the copy of what it stands for. -/
theorem add (h : Traces w₀ w target intake) (hw : w₀.Whole) (hv : w₀.Holds v)
    (hadd : Intake.add target w intake v = (w', .ok (id, intake'))) :
    Traces w₀ w' target intake' ∧ intake'.copies.get? v = some id := by
  have hvalue : (w.graph v.graph).nodes.IsValue v.id := by
    rw [h.keeps.graph]
    exact hv
  have hcomplete := h.complete.add_kept h.keeps hw hv hadd
  rcases add_eq_ok hadd with ⟨hc, rfl, rfl⟩ | ⟨hnone, rfl, hcopies, hcopy⟩
  · rw [hvalue.resolve] at hc
    exact ⟨h, hc⟩
  · rw [hvalue.resolve] at hnone
    have hkept : ∀ {k : Value} {c : ValueId}, intake.copies.get? k = some c →
        intake'.copies.get? k = some c := fun hk => hcopies ▸ found_keeps w intake v hk
    refine ⟨⟨h.keeps.trans (.of_copyNodes hcopy), h.order.add hadd, hcomplete, ?_⟩, ?_⟩
    · intro x c hx
      rw [hcopies] at hx
      rcases (numbered_found w intake v).new hx with hold | ⟨i, hg, hi, rfl⟩
      · exact h.form_mono (.of_copyNodes hcopy) (copyNodes_eq_ok hcopy).2.1 hkept hold
      · -- A node that was discovered is copied when its turn comes.
        rw [← Array.getElem?_toList] at hi
        obtain ⟨w₁, w₂, n, m, hk, hk', hn, hm, hnode⟩ := (copyNodes_eq_ok hcopy).2.2 hi
        rw [h.keeps.graph] at hn
        rw [hcopies, hg]
        refine ⟨w₁, n, m, h.keeps.trans hk, ?_, hn, hnode, copyOf_of_copyNode hm⟩
        rw [hm]
        exact hk'
    · rw [hcopies]
      exact found_self hvalue hnone

theorem addAll (h : Traces w₀ w target intake)
    (hw : w₀.Whole) (hvs : ∀ v ∈ vs, w₀.Holds v)
    (hall : Intake.addAll target vs w intake = (w', .ok (ids, intake'))) :
    Traces w₀ w' target intake' := by
  induction vs generalizing w intake ids with
  | nil =>
    cases hall
    exact h
  | cons v vs ih =>
    obtain ⟨w₁, id, intake₁, ids', hv, hrest, rfl⟩ := addAll_cons_eq_ok hall
    apply ih (h.add hw (hvs v List.mem_cons_self) hv).1
    · exact fun u hu => hvs u (List.mem_cons_of_mem _ hu)
    · exact hrest

/-! ## Known classes -/

/-- No object that was copied is of a foreign class. -/
theorem not_foreign (h : Traces w₀ w target intake) (hw : w₀.Built) (hknows : w₀.Knows target)
    (hv : w₀.Presents v) {o c : ValueId} (ho : intake.copies.get? ⟨v.graph, o⟩ = some c)
    (s : String) : ¬ w₀.Foreign target ⟨v.graph, o⟩ s := by
  rintro ⟨⟨cls, fields, hn⟩, rfl, hunknown⟩
  obtain ⟨w₁, n, m, hk, -, hn', -, hcopy⟩ := h.form ho
  cases Option.some.inj (hn.symm.trans hn')
  cases hcopy with
  | object hcls _ =>
    rw [hk.graph] at hcls
    have hown : (w₀.graph v.graph).table = some target →
        ∃ d, (w₁.table target).lookup? cls = some d := by
      intro ht
      rw [hk.table]
      exact hw.classed v.graph target ht o cls fields hn
    obtain ⟨t, d, ht, hd⟩ := (hk.knows hknows).exists_lookupText? hown hcls
    -- The table knew the text before, when it was that of the class already.
    rw [hk.lookupText? hknows, hk.text_tableNames (hv.classes ht hn),
      ← Workspace.className_view ht hn, hunknown] at hd
    cases hd

/-- A value that is not copied leads to an object of a foreign class itself: those that were copied
before are of known classes. -/
theorem foreign_of_add_eq_error (h : Traces w₀ w target intake) (hw : w₀.Built)
    (hknows : w₀.Knows target) (hv : w₀.Presents v) {f : Failure}
    (hadd : Intake.add target w intake v = (w', .error f)) :
    ∃ x ∈ w₀.reached [v], ∃ s, w₀.Foreign target x s ∧
      f = .error (.ofKind (.unknownClass s)) := by
  obtain ⟨o, s, ⟨c, hold⟩ | hnew, hforeign, rfl⟩ :=
    h.complete.foreign_of_add_eq_error h.keeps hw hknows hv hadd
  · exact absurd hforeign (h.not_foreign hw hknows hv hold s)
  · exact ⟨_, hnew, s, hforeign, rfl⟩

/-- A copied value leads to no object of a foreign class. -/
theorem known_of_copied (h : Traces w₀ w target intake) (hw : w₀.Built) (hknows : w₀.Knows target)
    (hv : w₀.Presents v) (hid : intake.copies.get? v = some id) :
    ∀ x ∈ w₀.reached [v], ∀ s, ¬ w₀.Foreign target x s := by
  rintro ⟨g, o⟩ ⟨u, hu, hg, hleads⟩
  cases List.mem_singleton.1 hu
  cases hg
  obtain ⟨c, hc⟩ := (h.complete v.graph).leadsTo hleads ⟨id, hid⟩
  exact h.not_foreign hw hknows hv hc

/-- Values that are not copied lead to an object of a foreign class. -/
theorem foreign_of_addAll_eq_error (h : Traces w₀ w target intake) (hw : w₀.Built)
    (hknows : w₀.Knows target) (hvs : ∀ v ∈ vs, w₀.Presents v) {f : Failure}
    (hall : Intake.addAll target vs w intake = (w', .error f)) :
    ∃ x ∈ w₀.reached vs, ∃ s, w₀.Foreign target x s ∧ f = .error (.ofKind (.unknownClass s)) := by
  induction vs generalizing w intake with
  | nil => cases hall
  | cons v vs ih =>
    have hv := hvs v List.mem_cons_self
    rcases addAll_cons_eq_error hall with hadd | ⟨w₁, id, intake₁, hadd, hrest⟩
    · obtain ⟨x, hx, hforeign⟩ := h.foreign_of_add_eq_error hw hknows hv hadd
      exact ⟨x, Workspace.reached_mono (List.cons_subset_cons v (List.nil_subset vs)) hx, hforeign⟩
    · obtain ⟨x, hx, hforeign⟩ := ih (h.add hw.whole hv.holds hadd).1
        (fun u hu => hvs u (List.mem_cons_of_mem _ hu)) hrest
      exact ⟨x, Workspace.reached_mono (List.subset_cons_self v vs) hx, hforeign⟩

/-- Copied values lead to no object of a foreign class. -/
theorem known_of_addAll (h : Traces w₀ w target intake) (hw : w₀.Built) (hknows : w₀.Knows target)
    (hvs : ∀ v ∈ vs, w₀.Presents v)
    (hall : Intake.addAll target vs w intake = (w', .ok (ids, intake'))) :
    ∀ x ∈ w₀.reached vs, ∀ s, ¬ w₀.Foreign target x s := by
  induction vs generalizing w intake ids with
  | nil => exact fun x ⟨v, hv, _⟩ => absurd hv List.not_mem_nil
  | cons v vs ih =>
    obtain ⟨w₁, id, intake₁, ids', hadd, hrest, rfl⟩ := addAll_cons_eq_ok hall
    have hv := hvs v List.mem_cons_self
    obtain ⟨htraces, hid⟩ := h.add hw.whole hv.holds hadd
    rintro x ⟨u, hu, hleads⟩
    rcases List.mem_cons.1 hu with rfl | hu
    · exact htraces.known_of_copied hw hknows hv hid x ⟨u, List.mem_singleton_self u, hleads⟩
    · exact ih htraces (fun u hu => hvs u (List.mem_cons_of_mem _ hu)) hrest x ⟨u, hu, hleads⟩

/-- Values are copied exactly if they lead to no object of a foreign class. -/
theorem exists_addAll_iff (h : Traces w₀ w target intake) (hw : w₀.Built) (hknows : w₀.Knows target)
    (hvs : ∀ v ∈ vs, w₀.Presents v) :
    (∃ w' ids intake', Intake.addAll target vs w intake = (w', .ok (ids, intake'))) ↔
      ∀ x ∈ w₀.reached vs, ∀ s, ¬ w₀.Foreign target x s := by
  constructor
  · rintro ⟨w', ids, intake', hall⟩
    exact h.known_of_addAll hw hknows hvs hall
  · intro hknown
    rcases hall : Intake.addAll target vs w intake with ⟨w', f | ⟨ids, intake'⟩⟩
    · obtain ⟨x, hx, s, hforeign, -⟩ := h.foreign_of_addAll_eq_error hw hknows hvs hall
      exact absurd hforeign (hknown x hx s)
    · exact ⟨w', ids, intake', rfl⟩

/-! ## Through erased types -/

/-- The copy of an erased type wraps the copy of what the erased type wraps. -/
theorem wraps (h : Traces w₀ w target intake) {g : GraphId} {x y c : ValueId}
    (hx : intake.copies.get? ⟨g, x⟩ = some c) (hxy : (w₀.graph g).nodes.Wraps x y) :
    ∃ d, intake.copies.get? ⟨g, y⟩ = some d ∧ intake.nodes.Wraps c d := by
  obtain ⟨p, hp, rfl⟩ := hxy
  obtain ⟨w₁, n, m, hk, -, hn, hm, hcopy⟩ := h.form hx
  obtain rfl : Node.any p = n := Option.some.inj (hp.symm.trans hn)
  have hchildren := hcopy.forall₂_children
  rw [hk.graph] at hchildren
  cases hcopy with
  | any _ =>
    obtain ⟨hd, -⟩ := List.forall₂_cons.1 hchildren
    refine ⟨_, hd, _, hm, ?_⟩
    exact (h.order.nodes.isValue (h.order.copies hd)).resolve

theorem reflTransGen_wraps (h : Traces w₀ w target intake) {g : GraphId} {x y c : ValueId}
    (hx : intake.copies.get? ⟨g, x⟩ = some c)
    (hxy : Relation.ReflTransGen (w₀.graph g).nodes.Wraps x y) :
    ∃ d, intake.copies.get? ⟨g, y⟩ = some d ∧ Relation.ReflTransGen intake.nodes.Wraps c d := by
  induction hxy with
  | refl => exact ⟨c, hx, .refl⟩
  | tail _ hlast ih =>
    obtain ⟨d, hd, hcd⟩ := ih
    obtain ⟨e, he, hde⟩ := h.wraps hd hlast
    exact ⟨e, he, hcd.tail hde⟩

/-- Erased types that loop have copies that loop. -/
theorem loops (h : Traces w₀ w target intake) {g : GraphId} {x c : ValueId}
    (hx : intake.copies.get? ⟨g, x⟩ = some c) (hloops : (w₀.graph g).nodes.Loops x) :
    intake.nodes.Loops c := by
  obtain ⟨u, hxu, huu⟩ := hloops
  obtain ⟨d, hd, hcd⟩ := h.reflTransGen_wraps hx hxu
  -- The way back to the original leads back to its copy.
  obtain ⟨y, huy, hyu⟩ := Relation.TransGen.head'_iff.1 huu
  obtain ⟨e, he, hde⟩ := h.wraps hd huy
  obtain ⟨d', hd', hed⟩ := h.reflTransGen_wraps he hyu
  obtain rfl : d = d' := Option.some.inj (hd.symm.trans hd')
  exact ⟨d, hcd, Relation.TransGen.head' hde hed⟩

/-- The copy of a value that is no erased type is none. -/
theorem ne_any (h : Traces w₀ w target intake) {x : Value} {c : ValueId}
    (hx : intake.copies.get? x = some c)
    (hne : ∀ p, (w₀.graph x.graph).nodes.node? x.id ≠ some (.any p)) :
    ∀ p, intake.nodes.node? c ≠ some (.any p) := by
  obtain ⟨w₁, n, m, -, -, hn, hm, hcopy⟩ := h.form hx
  intro p hp
  obtain rfl : m = .any p := Option.some.inj (hm.symm.trans hp)
  cases hcopy with
  | any _ => exact hne _ hn

/-- The copy of the value behind some erased types stands behind as many copies. -/
theorem narrows (h : Traces w₀ w target intake) {g : GraphId} {x u c : ValueId} {k : Nat}
    (hn : (w₀.graph g).nodes.Narrows (fun _ => True) k x u)
    (hx : intake.copies.get? ⟨g, (w₀.graph g).nodes.resolve x⟩ = some c) :
    ∃ d, intake.copies.get? ⟨g, u⟩ = some d ∧ intake.nodes.Narrows (fun _ => True) k c d := by
  have hvalue : ∀ {y d : ValueId}, intake.copies.get? ⟨g, y⟩ = some d →
      intake.nodes.Denotes (fun _ => True) d d := fun hd =>
    .value (h.order.nodes.isValue (h.order.copies hd))
  induction hn generalizing c with
  | stop hd hu =>
    rw [Arena.resolve_of_denotes hd] at hx
    exact ⟨c, hx, .stop (hvalue hx) (h.ne_any hx hu)⟩
  | pass hd hp _ ih =>
    rw [Arena.resolve_of_denotes hd] at hx
    obtain ⟨d, hd', q, hq, hqd⟩ := h.wraps hx ⟨_, hp, rfl⟩
    obtain ⟨e, he, hnarrows⟩ := ih hd'
    refine ⟨e, he, .pass (hvalue hx) hq ?_⟩
    have hlt := h.order.nodes.children hq q (List.mem_singleton_self q)
    rw [(h.order.nodes.isValue hlt).resolve] at hqd
    rwa [hqd]

end Traces

/-! ## Types -/

/-- A value behind erased types decides the type. -/
theorem runtimeType_of_narrows {k : ℕ} {c : ValueId} {n : Node}
    (h : intake.nodes.Narrows (fun _ => True) k id c) (hn : intake.nodes.node? c = some n) :
    intake.runtimeType id = n.type := by
  rw [runtimeType]
  simp only [Arena.narrow_of_narrows h, hn]
  rfl

theorem runtimeType_of_loops (h : intake.nodes.Loops (intake.nodes.resolve id)) :
    intake.runtimeType id = .any := by
  obtain ⟨p, hp⟩ := h.narrow
  rw [runtimeType]
  simp only [hp]
  rfl

end Intake

end ObjectModel
