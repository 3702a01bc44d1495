import ObjectModel.Proofs.Intake.Copies
import ObjectModel.Proofs.Session.Request
import ObjectModel.Proofs.Arena.Sealing
import Mathlib.Algebra.Order.BigOperators.Group.Finset

/-!
# Finding what a parameter leads to

In a source whose positions all stand for values the discovery of what a parameter leads to is
complete: its fuel lasts, since each reference waits once and each node is opened once
(`discover_spec`). So every node that is copied has a copy for each of its references, and copying
fails for a reason of its own only (`Intake.Complete.addParams`).
-/

set_option autoImplicit false

namespace ObjectModel

/-! ## The budget of a discovery -/

/-- The number of references of the node at a position. -/
def Arena.childCount (a : Arena) (i : Nat) : Nat := ((a.node? ⟨i⟩).elim [] Node.children).length

/-- The references of the nodes that have no copy yet. -/
def pending (source : Arena) (g : GraphId) (copies : Index Value ValueId) : Nat :=
  ∑ i ∈ (Finset.range source.size).filter (fun i => copies.get? ⟨g, ⟨i⟩⟩ = none),
    source.childCount i

theorem referenceCount_eq_sum (a : Arena) :
    a.referenceCount = ∑ i ∈ Finset.range a.size, a.childCount i := by
  have hlist : a.toList.map (fun n => n.children.length) =
      (List.range a.size).map a.childCount := by
    apply List.ext_getElem
    · simp
    · intro i h₁ h₂
      have hi : i < a.size := by simpa using h₂
      rw [List.getElem_map, List.getElem_map, List.getElem_range, Arena.childCount, Arena.node?,
        Array.getElem?_eq_getElem hi, Option.elim_some, Array.getElem_toList]
  rw [Arena.referenceCount, ← Array.foldl_toList, Array.toList_map, ← List.sum_eq_foldl, hlist]
  rfl

theorem pending_le_referenceCount (source : Arena) (g : GraphId) (copies : Index Value ValueId) :
    pending source g copies ≤ source.referenceCount := by
  rw [referenceCount_eq_sum]
  exact Finset.sum_le_sum_of_subset (Finset.filter_subset _ _)

/-- A node that gets a copy takes its references out of the budget. -/
theorem pending_insert {source : Arena} {g : GraphId} {copies : Index Value ValueId}
    {id c : ValueId} (hid : id.index < source.size) (hnew : copies.get? ⟨g, id⟩ = none) :
    source.childCount id.index + pending source g (copies.insert ⟨g, id⟩ c) =
      pending source g copies := by
  -- The node that gets a copy is the only one that leaves the sum.
  have herase : (Finset.range source.size).filter
      (fun i => (copies.insert ⟨g, id⟩ c).get? ⟨g, ⟨i⟩⟩ = none) =
      ((Finset.range source.size).filter fun i => copies.get? ⟨g, ⟨i⟩⟩ = none).erase id.index := by
    ext i
    simp only [Finset.mem_filter, Finset.mem_erase, Index.get?_insert]
    constructor
    · rintro ⟨hi, hget⟩
      split at hget
      · cases hget
      · rename_i hne
        refine ⟨?_, hi, hget⟩
        rintro rfl
        exact hne rfl
    · rintro ⟨hne, hi, hget⟩
      refine ⟨hi, ?_⟩
      rw [if_neg, hget]
      intro heq
      cases heq
      exact hne rfl
  rw [pending, pending, herase]
  exact Finset.add_sum_erase _ _ (Finset.mem_filter.2 ⟨Finset.mem_range.2 hid, hnew⟩)

/-! ## Discovery -/

/-- The nodes of a graph that have a copy are values, and each of their references has one, or its
position still waits. -/
structure Explored (source : Arena) (g : GraphId) (waiting : List ValueId)
    (copies : Index Value ValueId) : Prop where
  value : ∀ {id c : ValueId}, copies.get? ⟨g, id⟩ = some c → source.IsValue id
  closed : ∀ {id c : ValueId} {n : Node}, copies.get? ⟨g, id⟩ = some c →
    source.node? id = some n → ∀ x ∈ n.children,
      (∃ c', copies.get? ⟨g, source.resolve x⟩ = some c') ∨ x ∈ waiting

/-- What a discovery comes to that has enough fuel. -/
structure Discovers (source : Arena) (g : GraphId) (waiting : List ValueId)
    (order : Array ValueId) (copies : Index Value ValueId)
    (found : Array ValueId × Index Value ValueId) : Prop where
  explored : Explored source g [] found.2
  waiting : ∀ x ∈ waiting, ∃ c, found.2.get? ⟨g, source.resolve x⟩ = some c
  keeps : ∀ {k : Value} {c : ValueId}, copies.get? k = some c → found.2.get? k = some c
  other : ∀ {k : Value}, k.graph ≠ g → found.2.get? k = copies.get? k
  origin : ∀ id ∈ found.1, id ∈ order ∨ ∃ c, found.2.get? ⟨g, id⟩ = some c
  extends_order : ∀ id ∈ order, id ∈ found.1
  new : ∀ {k : Value} {c : ValueId}, found.2.get? k = some c →
    copies.get? k = some c ∨ k.id ∈ found.1

namespace Explored

variable {source : Arena} {g : GraphId} {copies : Index Value ValueId} {x : ValueId}
  {waiting : List ValueId}

/-- A position whose value has a copy need not wait. -/
theorem skip (h : Explored source g (x :: waiting) copies) {c : ValueId}
    (hc : copies.get? ⟨g, source.resolve x⟩ = some c) : Explored source g waiting copies := by
  refine ⟨h.value, fun hid hn y hy => ?_⟩
  rcases h.closed hid hn y hy with hcopied | hmem
  · exact Or.inl hcopied
  · rcases List.mem_cons.1 hmem with rfl | hmem
    · exact Or.inl ⟨c, hc⟩
    · exact Or.inr hmem

/-- A node that gets a copy leaves its references to wait. -/
theorem insert (h : Explored source g (x :: waiting) copies) {n : Node} {next : ValueId}
    (hn : source.node? (source.resolve x) = some n) (hb : n.isBinding = false)
    (hnew : copies.get? ⟨g, source.resolve x⟩ = none) :
    Explored source g (n.children.reverse ++ waiting)
      (copies.insert ⟨g, source.resolve x⟩ next) where
  value := by
    intro id c hid
    rw [Index.get?_insert] at hid
    split at hid
    · rename_i heq
      cases heq
      exact ⟨n, hn, hb⟩
    · exact h.value hid
  closed := by
    intro id c m hid hm y hy
    rw [Index.get?_insert] at hid
    split at hid
    · -- The references of the opened node wait.
      rename_i heq
      cases heq
      rw [hn] at hm
      cases hm
      exact Or.inr (List.mem_append_left _ (List.mem_reverse.2 hy))
    · -- Those of an older node had copies, waited, or were the position that is opened now.
      rcases h.closed hid hm y hy with ⟨c', hc'⟩ | hmem
      · exact Or.inl ⟨c', Index.get?_insert_of_eq_some hnew hc'⟩
      · rcases List.mem_cons.1 hmem with rfl | hmem
        · exact Or.inl ⟨next, Index.get?_insert_self _ _ _⟩
        · exact Or.inr (List.mem_append_right _ hmem)

end Explored

namespace Discovers

variable {source : Arena} {g : GraphId} {copies : Index Value ValueId} {x : ValueId}
  {waiting : List ValueId} {order : Array ValueId} {found : Array ValueId × Index Value ValueId}

/-- A discovery may pass over a position whose value has a copy. -/
theorem skip (h : Discovers source g waiting order copies found) {c : ValueId}
    (hc : copies.get? ⟨g, source.resolve x⟩ = some c) :
    Discovers source g (x :: waiting) order copies found where
  explored := h.explored
  waiting := by
    intro y hy
    rcases List.mem_cons.1 hy with rfl | hy
    · exact ⟨c, h.keeps hc⟩
    · exact h.waiting y hy
  keeps := h.keeps
  other := h.other
  origin := h.origin
  extends_order := h.extends_order
  new := h.new

/-- A discovery may open the node of a position: its references come to wait. -/
theorem insert {children : List ValueId} {next : ValueId}
    (h : Discovers source g (children ++ waiting) (order.push (source.resolve x))
      (copies.insert ⟨g, source.resolve x⟩ next) found)
    (hnew : copies.get? ⟨g, source.resolve x⟩ = none) :
    Discovers source g (x :: waiting) order copies found where
  explored := h.explored
  waiting := by
    intro y hy
    rcases List.mem_cons.1 hy with rfl | hy
    · exact ⟨next, h.keeps (Index.get?_insert_self _ _ _)⟩
    · exact h.waiting y (List.mem_append_right _ hy)
  keeps := fun hk => h.keeps (Index.get?_insert_of_eq_some hnew hk)
  other := by
    intro k hk
    rw [h.other hk, Index.get?_insert, if_neg]
    rintro rfl
    exact hk rfl
  origin := by
    intro id hid
    rcases h.origin id hid with hid | hid
    · rcases Array.mem_push.1 hid with hid | rfl
      · exact Or.inl hid
      · exact Or.inr ⟨next, h.keeps (Index.get?_insert_self _ _ _)⟩
    · exact Or.inr hid
  extends_order := fun id hid => h.extends_order id (Array.mem_push_of_mem _ hid)
  new := by
    intro k c hk
    rcases h.new hk with hk | hk
    · rw [Index.get?_insert] at hk
      split at hk
      · rename_i heq
        subst heq
        exact Or.inr (h.extends_order _ Array.mem_push_self)
      · exact Or.inl hk
    · exact Or.inr hk

end Discovers

/-- A discovery whose fuel exceeds the positions that wait and the references that are still to be
read is complete. -/
theorem discover_spec {source : Arena} {g : GraphId} (hsource : source.Whole) (fuel : Nat)
    (waiting : List ValueId) (next : Nat) (order : Array ValueId) (copies : Index Value ValueId)
    (hwaiting : ∀ x ∈ waiting, x.index < source.size)
    (hfuel : waiting.length + pending source g copies < fuel)
    (h : Explored source g waiting copies) :
    Discovers source g waiting order copies (discover source g fuel waiting next order copies) := by
  -- Each step takes a position from those that wait. If its node is opened, its references are
  -- taken out of the budget before they come to wait.
  induction fuel generalizing waiting next order copies with
  | zero => exact absurd hfuel (Nat.not_lt_zero _)
  | succ fuel ih =>
    cases waiting with
    | nil =>
      exact
        { explored := h
          waiting := by simp
          keeps := fun hk => hk
          other := fun _ => rfl
          origin := fun id hid => Or.inl hid
          extends_order := fun id hid => hid
          new := fun hk => Or.inl hk }
    | cons x waiting =>
      have hx := hwaiting x List.mem_cons_self
      have hrest := fun y hy => hwaiting y (List.mem_cons_of_mem _ hy)
      rw [List.length_cons] at hfuel
      rw [discover]
      dsimp only
      split
      · rename_i c hc
        exact (ih waiting next order copies hrest (by omega) (h.skip hc)).skip hc
      · rename_i hnew
        obtain ⟨n, hn, hb⟩ := hsource.isValue hx
        have hbudget := pending_insert (c := ⟨next⟩) (Arena.node?_lt hn) hnew
        rw [Arena.childCount, hn, Option.elim_some] at hbudget
        have hchildren : ∀ y ∈ n.children.reverse ++ waiting, y.index < source.size := by
          intro y hy
          rcases List.mem_append.1 hy with hy | hy
          · exact hsource.children hn y (List.mem_reverse.1 hy)
          · exact hrest y hy
        have hfuel' : (n.children.reverse ++ waiting).length +
            pending source g (copies.insert ⟨g, source.resolve x⟩ ⟨next⟩) < fuel := by
          rw [List.length_append, List.length_reverse]
          omega
        rw [hn, Option.elim_some]
        exact (ih _ _ _ _ hchildren hfuel' (h.insert hn hb hnew)).insert hnew

/-! ## Copying what was discovered -/

/-- A class name is not translated if its graph has no table, or if no class of the other table has
its text for a name. -/
theorem Workspace.translateClass_eq_error {w : Workspace} {target : TableId}
    {source : Option TableId} {n : Name} {e : EvalError}
    (h : w.translateClass target source n = .error e) :
    (source = none ∧ e = .ofKind (.unknownClass "")) ∨
      ∃ t, source = some t ∧ t ≠ target ∧
        (w.table target).lookupText? (w.tableNames target) ((w.tableNames t).text n) = none ∧
        e = .ofKind (.unknownClass ((w.tableNames t).text n)) := by
  cases source with
  | none =>
    cases h
    exact Or.inl ⟨rfl, rfl⟩
  | some t =>
    rw [translateClass] at h
    split at h
    · cases h
    · rename_i hne
      dsimp only at h
      split at h
      · cases h
      · rename_i hnone
        cases h
        exact Or.inr ⟨t, rfl, hne, hnone, rfl⟩

/-- A node whose references all have copies is copied, unless it is an object whose class name is not
translated. -/
theorem copyNode_eq_error {w w' : Workspace} {target : TableId}
    {copies : Index Value ValueId} {g : GraphId} {n : Node} {f : Failure}
    (hb : n.isBinding = false)
    (hcopies : ∀ x ∈ n.children, ∃ c, copies.get? ⟨g, (w.graph g).nodes.resolve x⟩ = some c)
    (h : copyNode w target copies g n = (w', .error f)) :
    ∃ cls fields e, n = .object cls fields ∧
      w.translateClass target (w.graph g).table cls = .error e ∧ f = .error e := by
  obtain ⟨ids, hids⟩ := exists_mapM_eq_some hcopies
  have hall : copiesOf copies (w.graph g).nodes g n.children = .ok ids := by
    rw [copiesOf, hids]
  cases n with
  | literal l => cases h
  | object cls fields =>
    simp only [copyNode, hall, Prod.mk.injEq] at h
    obtain ⟨-, h⟩ := h
    cases hcls : w.translateClass target (w.graph g).table cls with
    | ok c =>
      rw [hcls] at h
      cases h
    | error e =>
      rw [hcls] at h
      cases h
      exact ⟨cls, fields, e, rfl, hcls, rfl⟩
  | list elem elements =>
    simp only [copyNode, hall, Prod.mk.injEq] at h
    cases h.2
  | any payload =>
    have hlength := (mapM_eq_some_iff.1 hids).length_eq
    simp only [copyNode, hall, Prod.mk.injEq] at h
    cases ids with
    | nil => cases hlength
    | cons id rest =>
      cases rest with
      | nil => cases h.2
      | cons _ _ => cases hlength
  | binding slot state => cases hb

theorem copyNodes_eq_error {target : TableId} {copies : Index Value ValueId} {g : GraphId}
    {ids : List ValueId} {w w' : Workspace} {nodes : Arena} {f : Failure}
    (h : Explored (w.graph g).nodes g [] copies)
    (hids : ∀ id ∈ ids, ∃ c, copies.get? ⟨g, id⟩ = some c)
    (hcopy : copyNodes target copies g ids w nodes = (w', .error f)) :
    ∃ id ∈ ids, ∃ cls fields e w₁, w.Keeps w₁ ∧
      (w.graph g).nodes.node? id = some (.object cls fields) ∧
      w₁.translateClass target (w.graph g).table cls = .error e ∧ f = .error e := by
  -- Copying a node changes names only, so what was discovered stays discovered for the rest.
  induction ids generalizing w nodes with
  | nil => cases hcopy
  | cons id rest ih =>
    obtain ⟨c, hc⟩ := hids id List.mem_cons_self
    obtain ⟨n, hn, hb⟩ := h.value hc
    rw [copyNodes] at hcopy
    simp only [hn] at hcopy
    split at hcopy
    · rename_i w₁ m heq
      have hkeeps := Workspace.Keeps.of_copyNode heq
      rw [← hkeeps.graph] at h ⊢
      obtain ⟨id', hid', cls, fields, e, w₂, hk, hrest⟩ :=
        ih h (fun x hx => hids x (List.mem_cons_of_mem _ hx)) hcopy
      exact ⟨id', List.mem_cons_of_mem _ hid', cls, fields, e, w₂, hkeeps.trans hk, hrest⟩
    · rename_i w₁ f' heq
      cases hcopy
      have hall : ∀ x ∈ n.children, ∃ c, copies.get? ⟨g, (w.graph g).nodes.resolve x⟩ = some c := by
        intro x hx
        rcases h.closed hc hn x hx with hcopied | hnone
        · exact hcopied
        · cases hnone
      obtain ⟨cls, fields, e, rfl, hcls, rfl⟩ := copyNode_eq_error hb hall heq
      exact ⟨id, List.mem_cons_self, cls, fields, e, w, .refl w, hn, hcls, rfl⟩

namespace Intake

/-- Every node that is copied is a value of its graph and has copies for its references. -/
def Complete (w : Workspace) (intake : Intake) : Prop :=
  ∀ g, Explored (w.graph g).nodes g [] intake.copies

variable {target : TableId} {w w' : Workspace} {intake intake' : Intake}

theorem complete_empty (w : Workspace) : Complete w {} := by
  intro g
  refine ⟨fun h => ?_, fun h => ?_⟩
  all_goals
    rw [show ({} : Intake).copies = Index.empty from rfl, Index.get?_empty] at h
    cases h

theorem Complete.keeps (h : intake.Complete w) (hw : w.Keeps w') : intake.Complete w' := by
  intro g
  rw [hw.graph g]
  exact h g

/-- The discovery of what a value leads to is complete. -/
theorem Complete.discovers (h : intake.Complete w) {v : Value}
    (hgraph : (w.graph v.graph).nodes.Whole) (hv : v.id.index < (w.graph v.graph).nodes.size) :
    Discovers (w.graph v.graph).nodes v.graph [(w.graph v.graph).nodes.resolve v.id] #[]
      intake.copies (intake.found w v) := by
  refine discover_spec hgraph _ _ _ _ _ ?_ ?_ ⟨(h v.graph).value, ?_⟩
  · intro x hx
    rw [List.mem_singleton.1 hx]
    exact (hgraph.isValue hv).lt
  · have := pending_le_referenceCount (w.graph v.graph).nodes v.graph intake.copies
    rw [List.length_singleton]
    omega
  · intro id c n hc hn x hx
    rcases (h v.graph).closed hc hn x hx with hcopied | hnone
    · exact Or.inl hcopied
    · cases hnone

/-- A value is copied with everything that it leads to. -/
theorem Complete.add (h : intake.Complete w) {v : Value} (hgraph : (w.graph v.graph).nodes.Whole)
    (hv : v.id.index < (w.graph v.graph).nodes.size) {id : ValueId}
    (hadd : Intake.add target w intake v = (w', .ok (id, intake'))) : intake'.Complete w' := by
  refine Complete.keeps (fun g => ?_) (.of_add hadd)
  rcases add_eq_ok hadd with ⟨-, -, rfl⟩ | ⟨-, -, hcopies, -⟩
  · exact h g
  · have hfound := h.discovers hgraph hv
    rw [hcopies]
    by_cases hg : g = v.graph
    · subst hg
      exact hfound.explored
    · -- The copies of other graphs are as they were.
      have hother : ∀ id, (intake.found w v).2.get? ⟨g, id⟩ = intake.copies.get? ⟨g, id⟩ :=
        fun id => hfound.other (k := ⟨g, id⟩) hg
      refine ⟨fun {id c} hc => ?_, fun {id c n} hc hn x hx => ?_⟩
      · rw [hother] at hc
        exact (h g).value hc
      · rw [hother] at hc ⊢
        exact (h g).closed hc hn x hx

/-- The copy of a value is a position of the arena. -/
theorem Complete.add_lt (h : intake.Complete w) (ho : intake.InOrder) {v : Value}
    (hgraph : (w.graph v.graph).nodes.Whole) (hv : v.id.index < (w.graph v.graph).nodes.size)
    {id : ValueId} (hadd : Intake.add target w intake v = (w', .ok (id, intake'))) :
    id.index < intake'.nodes.size ∧ intake.nodes.size ≤ intake'.nodes.size := by
  obtain ⟨n, hn, hb⟩ := hgraph.isValue hv
  rcases add_eq_ok hadd with ⟨hc, -, rfl⟩ | ⟨hnone, rfl, -, hcopy⟩
  · exact ⟨ho.copies hc, Nat.le_refl _⟩
  · -- The value itself has no copy yet, so it is among the nodes that are discovered.
    have hfound := h.discovers hgraph hv
    obtain ⟨c, hc⟩ := hfound.waiting _ List.mem_cons_self
    rw [Arena.resolve_of_isBinding_eq_false hn hb] at hc
    have hmem : (w.graph v.graph).nodes.resolve v.id ∈ (intake.found w v).1 := by
      rcases hfound.new hc with hold | hmem
      · rw [hnone] at hold
        cases hold
      · exact hmem
    have hpos := Array.size_pos_of_mem hmem
    have hsize := (copyNodes_eq_ok hcopy).1
    rw [Array.length_toList] at hsize
    show intake.nodes.size < intake'.nodes.size ∧ intake.nodes.size ≤ intake'.nodes.size
    omega

/-- The copies of the parameters are positions of the arena. -/
theorem Complete.addParams_lt (h : intake.Complete w) (ho : intake.InOrder)
    {ps : List (Decl × Value)} (hps : ∀ p ∈ ps, (w.graph p.2.graph).nodes.Whole ∧
      p.2.id.index < (w.graph p.2.graph).nodes.size) {ids : List ValueId}
    (hadd : Intake.addParams target ps w intake = (w', .ok (ids, intake'))) :
    (∀ id ∈ ids, id.index < intake'.nodes.size) ∧ intake.nodes.size ≤ intake'.nodes.size := by
  induction ps generalizing w intake ids with
  | nil =>
    cases hadd
    exact ⟨by simp, Nat.le_refl _⟩
  | cons p rest ih =>
    obtain ⟨decl, v⟩ := p
    obtain ⟨hgraph, hv⟩ := hps ⟨decl, v⟩ List.mem_cons_self
    obtain ⟨w₁, id, intake₁, ids', heq, -, heq', rfl⟩ := addParams_cons_eq_ok hadd
    have hkeeps := Workspace.Keeps.of_add heq
    obtain ⟨hid, hle⟩ := h.add_lt ho hgraph hv heq
    -- The later parameters are copied behind this one, so its position stays in range.
    have hrest := ih (h.add hgraph hv heq) (ho.add heq) (fun p hp => by
      rw [hkeeps.graph]
      exact hps p (List.mem_cons_of_mem _ hp)) heq'
    refine ⟨?_, Nat.le_trans hle hrest.2⟩
    intro x hx
    rcases List.mem_cons.1 hx with rfl | hx
    · exact Nat.lt_of_lt_of_le hid hrest.2
    · exact hrest.1 x hx

/-- If a value is not copied, then the class name of an object that is discovered for it is not
translated. -/
theorem Complete.add_eq_error (h : intake.Complete w) {v : Value}
    (hgraph : (w.graph v.graph).nodes.Whole) (hv : v.id.index < (w.graph v.graph).nodes.size)
    {f : Failure} (hadd : Intake.add target w intake v = (w', .error f)) :
    ∃ id ∈ (intake.found w v).1, ∃ cls fields e w₁, w.Keeps w₁ ∧
      (w.graph v.graph).nodes.node? id = some (.object cls fields) ∧
      w₁.translateClass target (w.graph v.graph).table cls = .error e ∧ f = .error e := by
  have hfound := h.discovers hgraph hv
  obtain ⟨id, hid, herror⟩ := copyNodes_eq_error hfound.explored (fun id hid => by
    rcases hfound.origin id (Array.mem_toList_iff.1 hid) with hnone | hcopied
    · simp at hnone
    · exact hcopied) (Intake.add_eq_error hadd)
  exact ⟨id, Array.mem_toList_iff.1 hid, herror⟩

/-- A value that is not copied is refused with an error of its own kind. -/
theorem Complete.add_error_specific (h : intake.Complete w) {v : Value}
    (hgraph : (w.graph v.graph).nodes.Whole) (hv : v.id.index < (w.graph v.graph).nodes.size)
    {f : Failure} (hadd : Intake.add target w intake v = (w', .error f)) :
    ∃ e : EvalError, f = .error e ∧ e.Specific := by
  obtain ⟨id, -, cls, fields, e, w₁, -, -, hcls, rfl⟩ := h.add_eq_error hgraph hv hadd
  refine ⟨e, rfl, ?_⟩
  rcases Workspace.translateClass_eq_error hcls with ⟨-, rfl⟩ | ⟨t, -, -, -, rfl⟩
  all_goals
    intro message hm
    cases hm

/-- Parameters that are values of graphs whose positions all stand for values are refused with an
error of its own kind. -/
theorem Complete.addParams_error_specific (h : intake.Complete w) {ps : List (Decl × Value)}
    (hps : ∀ p ∈ ps, (w.graph p.2.graph).nodes.Whole ∧
      p.2.id.index < (w.graph p.2.graph).nodes.size)
    {f : Failure} (hadd : Intake.addParams target ps w intake = (w', .error f)) :
    ∃ e : EvalError, f = .error e ∧ e.Specific := by
  induction ps generalizing w intake with
  | nil => cases hadd
  | cons p rest ih =>
    obtain ⟨decl, v⟩ := p
    obtain ⟨hgraph, hv⟩ := hps ⟨decl, v⟩ List.mem_cons_self
    rcases addParams_cons_eq_error hadd with heq | ⟨w₁, id, intake₁, heq, ⟨-, heq'⟩ | ⟨-, -, rfl⟩⟩
    · exact h.add_error_specific hgraph hv heq
    · have hkeeps := Workspace.Keeps.of_add heq
      refine ih (h.add hgraph hv heq) (fun p hp => ?_) heq'
      rw [hkeeps.graph]
      exact hps p (List.mem_cons_of_mem _ hp)
    · refine ⟨_, rfl, ?_⟩
      intro message hm
      cases hm

end Intake

end ObjectModel
