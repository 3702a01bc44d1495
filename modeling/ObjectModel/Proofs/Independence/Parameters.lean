import ObjectModel.Proofs.Independence.Sessions
import ObjectModel.Proofs.Instantiation
import ObjectModel.Proofs.Intake.Translation

/-!
# Parameters with other names

A request is carried out in two workspaces that have one class table, and that may have issued other
names for the same texts (`Workspace.Parallel`). Its parameters are the same but for such names
(`Workspace.SameGraph`). Then they are copied to the same positions and are refused alike
(`Intake.addParams_same`): a class is found by its text, an element type gets a name with its text,
and whether a name has been issued before plays no part in either.
-/

set_option autoImplicit false

namespace ObjectModel

/-! ## The same up to names -/

/-- Two results are the same: the same failure, or values that are related. -/
inductive SameResult {α β : Type} (R : α → β → Prop) : Except Failure α → Except Failure β → Prop
  | error (f : Failure) : SameResult R (.error f) (.error f)
  | ok {a : α} {b : β} : R a b → SameResult R (.ok a) (.ok b)

variable {t t' u u' : Interner}

/-- The second type is the first one with carried names. -/
structure Ty.Same (t u : Interner) (a b : Ty) : Prop where
  carried : ∀ n ∈ a.names, t.Carries u n
  eq : b = a.rename (t.carry u)

/-- The second node is the first one with carried names. -/
structure Node.Same (t u : Interner) (n m : Node) : Prop where
  carried : n.Carried t u
  eq : m = n.retype (t.carry u)

/-- The second arena is the first one with carried names. -/
structure Arena.Same (t u : Interner) (a b : Arena) : Prop where
  carried : a.Carried t u
  eq : b = a.retype (t.carry u)

namespace Ty

variable {a a' b b' : Ty}

theorem same_of_shares (h : ∀ n ∈ a.names, t.Shares u n) : a.Same t u a :=
  ⟨fun n hn => (h n hn).carries, (rename_eq_self fun n hn => (h n hn).carry_eq).symm⟩

theorem Same.render (h : a.Same t u b) : b.render u = a.render t := by
  rw [h.eq, render_rename h.carried]

theorem Same.accepts (ha : a.Same t u a') (hb : b.Same t u b') : a'.accepts b' = a.accepts b := by
  rw [ha.eq, hb.eq, accepts_rename ha.carried hb.carried]

end Ty

namespace Arena.Same

variable {a b : Arena}

theorem empty (t u : Interner) : Arena.Same t u #[] #[] := ⟨carried_empty, Array.map_empty.symm⟩

/-- An arena of shared names is the same in both. -/
theorem of_shares (h : ∀ id n, a.node? id = some n → ∀ m ∈ n.names, t.Shares u m) :
    a.Same t u a := by
  refine ⟨fun id n hn => Node.carried_of_shares (h id n hn), ?_⟩
  have hself : ∀ n ∈ a, n.retype (t.carry u) = id n := by
    intro n hn
    obtain ⟨i, hi⟩ := Array.mem_iff_getElem?.1 hn
    exact Node.retype_eq_self fun m hm => (h ⟨i⟩ n hi m hm).carry_eq
  rw [retype, Array.map_congr_left hself, Array.map_id]

theorem push (h : a.Same t u b) {n m : Node} (hn : n.Same t u m) :
    Arena.Same t u (a.push n) (b.push m) :=
  ⟨h.carried.push hn.carried, by rw [h.eq, hn.eq, retype_push]⟩

/-- Arenas stay the same but for names when both interners have issued more of them. -/
theorem mono (h : a.Same t u b) (ht : t.Extends t') (hu : u.Extends u') : a.Same t' u' b :=
  ⟨(h.carried.mono ht hu).1, by rw [h.eq, (h.carried.mono ht hu).2]⟩

/-- A position has a node in both arenas, the same but for names, or in neither. -/
theorem node? (h : a.Same t u b) (id : ValueId) :
    (a.node? id = none ∧ b.node? id = none) ∨
      ∃ n m, a.node? id = some n ∧ b.node? id = some m ∧ n.Same t u m := by
  rw [h.eq, node?_retype]
  cases hn : a.node? id with
  | none => exact Or.inl ⟨rfl, rfl⟩
  | some n => exact Or.inr ⟨n, _, rfl, rfl, h.carried id n hn, rfl⟩

end Arena.Same

/-! ## Two workspaces -/

namespace Workspace

/-- The interner that the names of a graph are read with: that of its table, or that of the table
which the graph is given to if it stands alone. -/
def graphNames (w : Workspace) (target : TableId) (g : GraphId) : Interner :=
  w.tableNames ((w.graph g).table.getD target)

/-- Two graphs of two workspaces have the same table and the same nodes, but for names in element
types. These have the same texts. -/
structure SameGraph (w u : Workspace) (target : TableId) (g g' : GraphId) : Prop where
  table : (u.graph g').table = (w.graph g).table
  nodes : (w.graph g).nodes.Same (w.graphNames target g) (u.graphNames target g') (u.graph g').nodes

/-- Two workspaces have the same table, and both have issued the names of its classes for the same
texts. -/
structure SameTable (w u : Workspace) (target : TableId) : Prop where
  table : u.table target = w.table target
  left : (w.table target).interner.index < w.interners.size
  right : (w.table target).interner.index < u.interners.size
  names : ∀ c ∈ (w.table target).classes, ∀ n ∈ c.names,
    (w.tableNames target).Shares (u.tableNames target) n

/-- Two workspaces have the same table, and the graphs that are paired are the same but for names. -/
structure Parallel (w u : Workspace) (target : TableId) (P : GraphId → GraphId → Prop) : Prop
    extends SameTable w u target where
  graphs : ∀ {g g' : GraphId}, P g g' → w.SameGraph u target g g'
  paired : ∀ {g₁ g₂ g₁' g₂' : GraphId}, P g₁ g₁' → P g₂ g₂' → (g₁ = g₂ ↔ g₁' = g₂')

variable {w w' u u' : Workspace} {target : TableId} {P : GraphId → GraphId → Prop}
  {g g' : GraphId} {source : Option TableId}

theorem SameGraph.keeps (h : w.SameGraph u target g g') (hw : w.Keeps w') (hu : u.Keeps u') :
    w'.SameGraph u' target g g' := by
  refine ⟨by rw [hw.graph, hu.graph, h.table], ?_⟩
  rw [graphNames, graphNames, hw.graph, hu.graph]
  exact h.nodes.mono (hw.extends _) (hu.extends _)

/-- Interning leaves two workspaces parallel. -/
theorem Parallel.keeps (h : w.Parallel u target P) (hw : w.Keeps w') (hu : u.Keeps u') :
    w'.Parallel u' target P where
  table := by rw [hw.table, hu.table, h.table]
  left := by
    rw [hw.table, hw.interners]
    exact h.left
  right := by
    rw [hw.table, hu.interners]
    exact h.right
  names := by
    intro c hc n hn
    rw [hw.table] at hc
    exact (h.names c hc n hn).mono (hw.extends target) (hu.extends target)
  graphs hg := (h.graphs hg).keeps hw hu
  paired := h.paired

namespace Parallel

variable (h : w.Parallel u target P)
include h

theorem knows : w.Knows target where
  interner := h.left
  names c hc := (h.names c hc c.name List.mem_cons_self).left

theorem knows_right : u.Knows target where
  interner := by
    rw [h.table]
    exact h.right
  names := by
    intro c hc
    rw [h.table] at hc
    exact (h.names c hc c.name List.mem_cons_self).right

/-- A text stands for the same class, whatever names were issued. -/
theorem lookupText? (s : String) : (u.table target).lookupText? (u.tableNames target) s =
    (w.table target).lookupText? (w.tableNames target) s := by
  ext c
  rw [h.knows_right.lookupText?_eq_some_iff, h.knows.lookupText?_eq_some_iff, h.table]
  refine and_congr_right fun hc => ?_
  rw [(h.names c hc c.name List.mem_cons_self).text]

/-! ## Names -/

/-- A class is translated alike, to a name that is shared. -/
theorem translateClass_same {n : Name}
    (hn : (w.tableNames (source.getD target)).Shares (u.tableNames (source.getD target)) n) :
    u.translateClass target source n = w.translateClass target source n ∧
      ∀ m, w.translateClass target source n = .ok m →
        (w.tableNames target).Shares (u.tableNames target) m := by
  cases source with
  | none => exact ⟨rfl, fun m hm => nomatch hm⟩
  | some t =>
    rw [translateClass, translateClass]
    by_cases ht : t = target
    · rw [if_pos ht, if_pos ht]
      refine ⟨rfl, fun m hm => ?_⟩
      cases hm
      subst ht
      exact hn
    · -- A foreign class is looked up by its text, which is the same in both.
      rw [if_neg ht, if_neg ht]
      have htext : (u.tableNames t).text n = (w.tableNames t).text n := hn.text
      dsimp only
      rw [htext, h.lookupText?]
      refine ⟨rfl, fun m hm => ?_⟩
      split at hm
      · rename_i c hc
        cases hm
        exact h.names c (h.knows.lookupText?_eq_some_iff.1 hc).1 c.name List.mem_cons_self
      · cases hm

omit h in
/-- A graph that stands alone, or belongs to the table itself, keeps its names. -/
theorem translateType_eq_self (w : Workspace) (hsource : source.getD target = target) (a : Ty) :
    w.translateType target source a = (a, w) := by
  induction a with
  | cls n =>
    cases source with
    | none => rfl
    | some t => rw [translateType]; exact if_pos hsource
  | list elem ih => rw [translateType, ih]
  | _ => rfl

/-- An element type is translated to the same type but for names. -/
theorem translateType_same {a b : Ty}
    (hab : a.Same (w.tableNames (source.getD target)) (u.tableNames (source.getD target)) b) :
    (w.translateType target source a).1.Same
      ((w.translateType target source a).2.tableNames target)
      ((u.translateType target source b).2.tableNames target)
      (u.translateType target source b).1 := by
  by_cases hsource : source.getD target = target
  · rw [translateType_eq_self w hsource, translateType_eq_self u hsource]
    rw [hsource] at hab
    exact hab
  · obtain ⟨t, rfl⟩ : ∃ t, source = some t := by
      cases source with
      | none => exact absurd rfl hsource
      | some t => exact ⟨t, rfl⟩
    obtain ⟨hcarried, rfl⟩ := hab
    change ∀ n ∈ a.names, (w.tableNames t).Carries (u.tableNames t) n at hcarried
    change ¬ t = target at hsource
    induction a with
    | cls n =>
      -- Both names were issued for the text that the name of the graph has.
      have hn := hcarried n List.mem_cons_self
      have hleft := text_fst_intern h.left ((w.tableNames t).text n)
      have hright := text_fst_intern h.right ((w.tableNames t).text n)
      have htext := hn.text_carry.2
      simp only [translateType, Ty.rename, Option.getD_some, if_neg hsource, htext, h.table]
      have hcarry := Interner.carries_of_text hleft.1 hright.1 (hright.2.trans hleft.2.symm)
      have hnames : ((u.intern (w.table target).interner ((w.tableNames t).text n)).2.tableNames
          target) = (u.intern (w.table target).interner
            ((w.tableNames t).text n)).2.interner (w.table target).interner := by
        show Workspace.interner _ (u.table target).interner = _
        rw [h.table]
      rw [hnames]
      refine ⟨fun m hm => ?_, ?_⟩
      · rw [List.mem_singleton.1 hm]
        exact hcarry.1
      · exact congrArg Ty.cls hcarry.2.symm
    | list elem ih =>
      obtain ⟨helem, heq⟩ := ih hcarried
      exact ⟨helem, congrArg Ty.list heq⟩
    | _ => exact ⟨fun _ hm => absurd hm List.not_mem_nil, rfl⟩

end Parallel

end Workspace

/-! ## Copies -/

variable {w w' u u' : Workspace} {target : TableId} {P : GraphId → GraphId → Prop} {g g' : GraphId}
  {copies copies' : Index Value ValueId}

/-- Values correspond that have one position in paired graphs. -/
structure Value.Corresponds (P : GraphId → GraphId → Prop) (v v' : Value) : Prop where
  id : v'.id = v.id
  graph : P v.graph v'.graph

/-- Values of paired graphs have the same copies. -/
def CopiesAgree (P : GraphId → GraphId → Prop) (copies copies' : Index Value ValueId) : Prop :=
  ∀ {g g' : GraphId}, P g g' → ∀ id, copies'.get? ⟨g', id⟩ = copies.get? ⟨g, id⟩

/-- A new copy may be added for a value and for the value that is paired with it. -/
theorem CopiesAgree.insert (h : CopiesAgree P copies copies')
    (hpaired : ∀ {g₁ g₂ g₁' g₂' : GraphId}, P g₁ g₁' → P g₂ g₂' → (g₁ = g₂ ↔ g₁' = g₂'))
    (hg : P g g') (id c : ValueId) :
    CopiesAgree P (copies.insert ⟨g, id⟩ c) (copies'.insert ⟨g', id⟩ c) := by
  intro k k' hk x
  have hiff : (⟨g, id⟩ : Value) = ⟨k, x⟩ ↔ (⟨g', id⟩ : Value) = ⟨k', x⟩ := by
    rw [Value.mk.injEq, Value.mk.injEq, hpaired hg hk]
  rw [Index.get?_insert, Index.get?_insert, h hk]
  by_cases heq : (⟨g, id⟩ : Value) = ⟨k, x⟩
  · rw [if_pos heq, if_pos (hiff.1 heq)]
  · rw [if_neg heq, if_neg fun h' => heq (hiff.2 h')]

/-- The same nodes are discovered in the same order. -/
theorem discover_retype
    (hpaired : ∀ {g₁ g₂ g₁' g₂' : GraphId}, P g₁ g₁' → P g₂ g₂' → (g₁ = g₂ ↔ g₁' = g₂'))
    (hg : P g g') (f : Name → Name) (source : Arena) (fuel : ℕ) (waiting : List ValueId) (next : ℕ)
    (order : Array ValueId) (h : CopiesAgree P copies copies') :
    (discover (source.retype f) g' fuel waiting next order copies').1 =
        (discover source g fuel waiting next order copies).1 ∧
      CopiesAgree P (discover source g fuel waiting next order copies).2
        (discover (source.retype f) g' fuel waiting next order copies').2 := by
  induction fuel generalizing waiting next order copies copies' with
  | zero => exact ⟨rfl, h⟩
  | succ fuel ih =>
    cases waiting with
    | nil => exact ⟨rfl, h⟩
    | cons id waiting =>
      rw [discover, discover, Arena.resolve_retype, h hg]
      dsimp only
      split
      · exact ih waiting next order h
      · have hchildren : ((source.retype f).node? (source.resolve id)).elim [] Node.children =
            (source.node? (source.resolve id)).elim [] Node.children := by
          rw [Arena.node?_retype]
          cases source.node? (source.resolve id) with
          | none => rfl
          | some n => exact n.children_retype f
        rw [hchildren]
        exact ih _ _ _ (h.insert hpaired hg _ _)

theorem copiesOf_retype (hg : P g g') (h : CopiesAgree P copies copies') (f : Name → Name)
    (source : Arena) (ids : List ValueId) :
    copiesOf copies' (source.retype f) g' ids = copiesOf copies source g ids := by
  rw [copiesOf, copiesOf]
  simp only [Arena.resolve_retype, h hg]

namespace Workspace.Parallel

/-- The copies of a node in both workspaces are the same but for names. -/
theorem copyNode_same (h : w.Parallel u target P) (hg : P g g')
    (hcopies : CopiesAgree P copies copies') {n m : Node}
    (hn : n.Same (w.graphNames target g) (u.graphNames target g') m) :
    SameResult
      (Node.Same ((copyNode w target copies g n).1.tableNames target)
        ((copyNode u target copies' g' m).1.tableNames target))
      (copyNode w target copies g n).2 (copyNode u target copies' g' m).2 := by
  obtain ⟨htable, hnodes⟩ := h.graphs hg
  have hchildren : ∀ ids, copiesOf copies' (u.graph g').nodes g' ids =
      copiesOf copies (w.graph g).nodes g ids := by
    intro ids
    rw [hnodes.eq]
    exact copiesOf_retype hg hcopies _ _ ids
  have hnames : u.graphNames target g' = u.tableNames ((w.graph g).table.getD target) := by
    rw [graphNames, htable]
  rw [hnames] at hn
  obtain ⟨hcarried, rfl⟩ := hn
  -- The other node is this one with its class names carried over, so both are copied by one rule.
  cases n with
  | literal l => exact .ok ⟨trivial, rfl⟩
  | object cls fields =>
    have hname : (w.tableNames ((w.graph g).table.getD target)).Shares
      (u.tableNames ((w.graph g).table.getD target)) cls := hcarried
    obtain ⟨heq, hshares⟩ := h.translateClass_same hname
    simp only [copyNode, Node.retype, htable, heq, hchildren]
    cases hcls : w.translateClass target (w.graph g).table cls with
    | error e => exact .error _
    | ok c =>
      cases copiesOf copies (w.graph g).nodes g (Node.object cls fields).children with
      | error f => exact .error _
      | ok ids => exact .ok ⟨hshares c hcls, rfl⟩
  | list elem elements =>
    have helem : elem.Same (w.tableNames ((w.graph g).table.getD target)) _ _ := ⟨hcarried, rfl⟩
    have hsame := h.translateType_same helem
    simp only [copyNode, Node.retype, Node.children, htable, hchildren]
    cases copiesOf copies (w.graph g).nodes g elements with
    | error f => exact .error _
    | ok ids => exact .ok ⟨hsame.carried, congrArg (Node.list · ids) hsame.eq⟩
  | any payload =>
    simp only [copyNode, Node.retype, hchildren]
    cases copiesOf copies (w.graph g).nodes g (Node.any payload).children with
    | error f => exact .error _
    | ok ids =>
      rcases ids with _ | ⟨id, _ | ⟨id', ids⟩⟩
      · exact .error _
      · exact .ok ⟨trivial, rfl⟩
      · exact .error _
  | binding slot state => exact .error _

/-- The copies of some nodes in both workspaces are the same but for names. -/
theorem copyNodes_same (h : w.Parallel u target P) (hg : P g g')
    (hcopies : CopiesAgree P copies copies') (ids : List ValueId) {nodes nodes' : Arena}
    (hnodes : nodes.Same (w.tableNames target) (u.tableNames target) nodes') :
    SameResult
      (Arena.Same ((copyNodes target copies g ids w nodes).1.tableNames target)
        ((copyNodes target copies' g' ids u nodes').1.tableNames target))
      (copyNodes target copies g ids w nodes).2 (copyNodes target copies' g' ids u nodes').2 := by
  induction ids generalizing w u nodes nodes' with
  | nil => exact .ok hnodes
  | cons id rest ih =>
    rw [copyNodes, copyNodes]
    rcases (h.graphs hg).nodes.node? id with ⟨hn, hm⟩ | ⟨n, m, hn, hm, hnm⟩
    all_goals rw [hn, hm]
    · exact .error _
    · have hcopy := h.copyNode_same hg hcopies hnm
      have hw := Keeps.copyNode w target copies g n
      have hu := Keeps.copyNode u target copies' g' m
      dsimp only
      generalize copyNode w target copies g n = r at hcopy hw ⊢
      generalize copyNode u target copies' g' m = r' at hcopy hu ⊢
      obtain ⟨w₁, r⟩ := r
      obtain ⟨u₁, r'⟩ := r'
      cases hcopy with
      | error f => exact .error f
      | ok hsame =>
        -- The copy may have added names, which leaves the copies so far as they were.
        have hnodes₁ := hnodes.mono (hw.extends target) (hu.extends target)
        exact ih (h.keeps hw hu) (hnodes₁.push hsame)

end Workspace.Parallel

namespace Intake

/-- The copies so far are the same but for names, and paired values have the same ones. -/
structure Same (t u : Interner) (P : GraphId → GraphId → Prop) (x y : Intake) : Prop where
  nodes : x.nodes.Same t u y.nodes
  copies : CopiesAgree P x.copies y.copies

theorem Same.empty (t u : Interner) (P : GraphId → GraphId → Prop) : Same t u P {} {} where
  nodes := .empty t u
  copies := fun _ _ => rfl

variable {x y : Intake} {v v' : Value}

/-- Values that correspond are copied to the same position. -/
theorem add_same (h : w.Parallel u target P) (hv : v.Corresponds P v')
    (hxy : x.Same (w.tableNames target) (u.tableNames target) P y) :
    SameResult
      (fun r r' => r'.1 = r.1 ∧ r.2.Same ((x.add target w v).1.tableNames target)
        ((y.add target u v').1.tableNames target) P r'.2)
      (x.add target w v).2 (y.add target u v').2 := by
  obtain ⟨hid, hg⟩ := hv
  have hsize : y.nodes.size = x.nodes.size := by rw [hxy.nodes.eq, Arena.size_retype]
  have hsource := (h.graphs hg).nodes
  obtain ⟨horder, hagree⟩ := discover_retype (P := P) h.paired hg
    ((w.graphNames target v.graph).carry (u.graphNames target v'.graph)) (w.graph v.graph).nodes
    ((w.graph v.graph).nodes.referenceCount + 2) [(w.graph v.graph).nodes.resolve v.id]
    x.nodes.size #[] hxy.copies
  rw [add, add, hsource.eq, hid, Arena.resolve_retype, Arena.referenceCount_retype, hsize,
    hxy.copies hg]
  cases x.copies.get? ⟨v.graph, (w.graph v.graph).nodes.resolve v.id⟩ with
  | some id => exact .ok ⟨rfl, hxy⟩
  | none =>
    dsimp only
    generalize discover _ v.graph _ _ _ _ _ = found at horder hagree ⊢
    generalize discover _ v'.graph _ _ _ _ _ = found' at horder hagree ⊢
    obtain ⟨order, copies⟩ := found
    obtain ⟨order', copies'⟩ := found'
    cases horder
    have hcopy := h.copyNodes_same hg hagree order.toList hxy.nodes
    dsimp only
    generalize copyNodes target copies v.graph order.toList w x.nodes = r at hcopy ⊢
    generalize copyNodes target copies' v'.graph order.toList u y.nodes = r' at hcopy ⊢
    obtain ⟨w₁, r⟩ := r
    obtain ⟨u₁, r'⟩ := r'
    cases hcopy with
    | error f => exact .error f
    | ok hsame => exact .ok ⟨rfl, hsame, hagree⟩

/-- A copy has the same type but for names. -/
theorem Same.runtimeType {t t' : Interner} (h : x.Same t t' P y) (id : ValueId) :
    (x.runtimeType id).Same t t' (y.runtimeType id) := by
  obtain ⟨hcarried, heq⟩ := h.nodes
  simp only [Intake.runtimeType, heq, Arena.resolve_retype, Arena.narrow_retype,
    Arena.node?_retype]
  cases hn : x.nodes.node? (x.nodes.narrow (x.nodes.resolve id)) with
  | none => exact ⟨fun _ hm => absurd hm List.not_mem_nil, rfl⟩
  | some n =>
    obtain ⟨htype, hnames⟩ := (hcarried _ n hn).type_retype
    exact ⟨hnames, htype⟩

/-- Parameters that correspond have one declaration. -/
structure SameParam (P : GraphId → GraphId → Prop) (p q : Decl × Value) : Prop where
  decl : p.1 = q.1
  value : p.2.Corresponds P q.2

/-- The parameters of a request are copied to the same positions, or refused alike. -/
theorem addParams_same {ps qs : List (Decl × Value)} (h : w.Parallel u target P)
    (hpq : List.Forall₂ (SameParam P) ps qs)
    (hdecls : ∀ p ∈ ps, ∀ n ∈ p.1.names, (w.tableNames target).Shares (u.tableNames target) n)
    (hxy : x.Same (w.tableNames target) (u.tableNames target) P y) :
    SameResult
      (fun r r' => r'.1 = r.1 ∧ r.2.Same ((addParams target ps w x).1.tableNames target)
        ((addParams target qs u y).1.tableNames target) P r'.2)
      (addParams target ps w x).2 (addParams target qs u y).2 := by
  induction hpq generalizing w u x y with
  | nil => exact .ok ⟨rfl, hxy⟩
  | @cons p q ps qs hp _ ih =>
    obtain ⟨decl, v⟩ := p
    obtain ⟨decl', v'⟩ := q
    obtain ⟨rfl, hv⟩ := hp
    have hadd := add_same h hv hxy
    have hw := Workspace.Keeps.add target w x v
    have hu := Workspace.Keeps.add target u y v'
    rw [addParams, addParams]
    generalize Intake.add target w x v = r at hadd hw ⊢
    generalize Intake.add target u y v' = r' at hadd hu ⊢
    obtain ⟨w₁, r⟩ := r
    obtain ⟨u₁, r'⟩ := r'
    -- The first value is copied on both sides or on neither, and then its type decides alike.
    cases hadd with
    | error f => exact .error f
    | @ok a b hab =>
      obtain ⟨_, x₁⟩ := a
      obtain ⟨id, y₁⟩ := b
      obtain ⟨rfl, hxy₁⟩ := hab
      have hdecls₁ : ∀ p ∈ (decl, v) :: ps, ∀ n ∈ p.1.names,
          (w₁.tableNames target).Shares (u₁.tableNames target) n := fun p hp n hn =>
        (hdecls p hp n hn).mono (hw.extends target) (hu.extends target)
      have hname := hdecls₁ (decl, v) List.mem_cons_self decl.name List.mem_cons_self
      have hexpected := Ty.same_of_shares (a := decl.type) fun n hn =>
        hdecls₁ (decl, v) List.mem_cons_self n (List.mem_cons_of_mem _ hn)
      have hfound := hxy₁.runtimeType id
      dsimp only
      rw [hexpected.accepts hfound]
      split
      · have hrest := ih (h.keeps hw hu) (fun p hp => hdecls₁ p (List.mem_cons_of_mem _ hp)) hxy₁
        generalize addParams target ps w₁ x₁ = r at hrest ⊢
        generalize addParams target qs u₁ y₁ = r' at hrest ⊢
        obtain ⟨w₂, r⟩ := r
        obtain ⟨u₂, r'⟩ := r'
        cases hrest with
        | error f => exact .error f
        | ok hab => exact .ok ⟨congrArg (id :: ·) hab.1, hab.2⟩
      · -- The error shows names and types by their texts only.
        rw [hname.text, hexpected.render, hfound.render]
        exact .error _

end Intake

end ObjectModel
