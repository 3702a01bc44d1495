import ObjectModel.Session.Intake
import ObjectModel.Proofs.Arena.Growth
import ObjectModel.Proofs.Intake.Names
import ObjectModel.Proofs.Traversal

/-!
# The copies of the parameters

What an intake holds, whatever the graphs look like that its parameters come from: the copies are
values that refer to each other only, so the arena of an evaluation starts self-contained
(`Intake.InOrder.addParams`). A workspace that gives copies keeps its tables, its graphs and its
names (`Workspace.Keeps`).
-/

set_option autoImplicit false

namespace ObjectModel

/-- An arena of values that refer to each other only. -/
structure Arena.SelfContained (a : Arena) : Prop where
  value : ∀ {id : ValueId} {n : Node}, a.node? id = some n → n.isBinding = false
  children : ∀ {id : ValueId} {n : Node}, a.node? id = some n → ∀ c ∈ n.children, c.index < a.size

theorem Arena.SelfContained.isValue {a : Arena} (h : a.SelfContained) {id : ValueId}
    (hlt : id.index < a.size) : a.IsValue id := by
  obtain ⟨n, hn⟩ := Arena.exists_node? hlt
  exact ⟨n, hn, h.value hn⟩

theorem Arena.selfContained_empty : Arena.SelfContained #[] where
  value := fun h => absurd (Arena.node?_lt h) (Nat.not_lt_zero _)
  children := fun h => absurd (Arena.node?_lt h) (Nat.not_lt_zero _)

/-! ## What interning keeps -/

/-- A later workspace has the same tables, the same graphs and as many interners, and may have
issued more names. -/
structure Workspace.Keeps (w w' : Workspace) : Prop where
  tables : w'.tables = w.tables
  graphs : w'.graphs = w.graphs
  issued : ∀ {id : InternerId} {n : Name}, (w.interner id).Issued n → (w'.interner id).Issued n
  text : ∀ {id : InternerId} {n : Name}, (w.interner id).Issued n →
    (w'.interner id).text n = (w.interner id).text n
  interners : w'.interners.size = w.interners.size

namespace Workspace.Keeps

variable {w w' w'' : Workspace}

theorem refl (w : Workspace) : w.Keeps w := ⟨rfl, rfl, fun h => h, fun _ => rfl, rfl⟩

theorem trans (h : w.Keeps w') (h' : w'.Keeps w'') : w.Keeps w'' where
  tables := h'.tables.trans h.tables
  graphs := h'.graphs.trans h.graphs
  issued hn := h'.issued (h.issued hn)
  text hn := (h'.text (h.issued hn)).trans (h.text hn)
  interners := h'.interners.trans h.interners

theorem intern (w : Workspace) (id : InternerId) (s : String) : w.Keeps (w.intern id s).2 where
  tables := rfl
  graphs := rfl
  issued hn := Workspace.issued_intern hn id s
  text hn := Workspace.text_intern hn id s
  interners := Array.size_setIfInBounds

theorem graph (h : w.Keeps w') (g : GraphId) : w'.graph g = w.graph g := by
  rw [Workspace.graph, Workspace.graph, h.graphs]

theorem table (h : w.Keeps w') (t : TableId) : w'.table t = w.table t := by
  rw [Workspace.table, Workspace.table, h.tables]

theorem tableNames (h : w.Keeps w') {t : TableId} {n : Name} (hn : (w.tableNames t).Issued n) :
    (w'.tableNames t).Issued n := by
  rw [Workspace.tableNames, h.table]
  exact h.issued hn

/-- An issued name keeps its text. -/
theorem text_tableNames (h : w.Keeps w') {t : TableId} {n : Name}
    (hn : (w.tableNames t).Issued n) : (w'.tableNames t).text n = (w.tableNames t).text n := by
  rw [Workspace.tableNames, h.table]
  exact h.text hn

/-- A type of issued names keeps its written form. -/
theorem render_tableNames (h : w.Keeps w') {t : TableId} {ty : Ty}
    (hty : ty.Issued (w.tableNames t)) :
    ty.Issued (w'.tableNames t) ∧ ty.render (w'.tableNames t) = ty.render (w.tableNames t) := by
  induction ty with
  | cls n => exact ⟨h.tableNames hty, by rw [Ty.render, Ty.render, h.text_tableNames hty]⟩
  | list elem ih => exact ⟨(ih hty).1, by rw [Ty.render, Ty.render, (ih hty).2]⟩
  | _ => exact ⟨trivial, rfl⟩

theorem node_issued (h : w.Keeps w') {t : TableId} {n : Node} (hn : n.Issued (w.tableNames t)) :
    n.Issued (w'.tableNames t) := by
  cases n with
  | object cls fields => exact h.tableNames hn
  | list elem elements => exact (h.render_tableNames hn).1
  | _ => trivial

/-- A graph of issued names stays one. -/
theorem graph_issued (h : w.Keeps w') {t : TableId} {g : GraphId}
    (hg : (w.graph g).Issued (w.tableNames t)) : (w'.graph g).Issued (w'.tableNames t) := by
  intro id n hn
  rw [h.graph] at hn
  exact h.node_issued (hg id n hn)

theorem translateType (w : Workspace) (target : TableId) (source : Option TableId) (ty : Ty) :
    w.Keeps (w.translateType target source ty).2 := by
  induction ty with
  | cls n =>
    cases source with
    | none => exact .refl w
    | some table =>
      by_cases htable : table = target
      · simp only [Workspace.translateType, if_pos htable]
        exact .refl w
      · simp only [Workspace.translateType, if_neg htable]
        exact .intern w _ _
  | list elem ih => exact ih
  | _ => exact .refl w

theorem copyNode (w : Workspace) (target : TableId) (copies : Index Value ValueId) (g : GraphId)
    (n : Node) : w.Keeps (ObjectModel.copyNode w target copies g n).1 := by
  cases n with
  | list elem elements => exact .translateType w target _ elem
  | _ => exact .refl w

theorem copyNodes (target : TableId) (copies : Index Value ValueId) (g : GraphId)
    (ids : List ValueId) (w : Workspace) (nodes : Arena) :
    w.Keeps (ObjectModel.copyNodes target copies g ids w nodes).1 := by
  induction ids generalizing w nodes with
  | nil => exact .refl w
  | cons id rest ih =>
    rw [ObjectModel.copyNodes]
    split
    · exact .refl w
    · rename_i n _
      have hn := copyNode w target copies g n
      split
      · rename_i w' n' heq
        rw [heq] at hn
        exact hn.trans (ih w' _)
      · rename_i w' f heq
        rw [heq] at hn
        exact hn

theorem add (target : TableId) (w : Workspace) (intake : Intake) (v : Value) :
    w.Keeps (Intake.add target w intake v).1 := by
  rw [Intake.add]
  split
  · exact .refl w
  · generalize discover _ _ _ _ _ _ _ = found
    obtain ⟨order, copies⟩ := found
    have hn := copyNodes target copies v.graph order.toList w intake.nodes
    dsimp only
    split
    · rename_i w' f heq
      rw [heq] at hn
      exact hn
    · rename_i w' nodes heq
      rw [heq] at hn
      exact hn

theorem addParams (target : TableId) (ps : List (Decl × Value)) (w : Workspace)
    (intake : Intake) : w.Keeps (Intake.addParams target ps w intake).1 := by
  induction ps generalizing w intake with
  | nil => exact .refl w
  | cons p rest ih =>
    obtain ⟨decl, v⟩ := p
    have hv := add target w intake v
    rw [Intake.addParams]
    split
    · rename_i w' f heq
      rw [heq] at hv
      exact hv
    · rename_i w' id intake' heq
      rw [heq] at hv
      have hrest := ih w' intake'
      dsimp only
      split
      · split
        · rename_i w'' ids intake'' heq'
          rw [heq'] at hrest
          exact hv.trans hrest
        · rename_i w'' f heq'
          rw [heq'] at hrest
          exact hv.trans hrest
      · exact hv

variable {target : TableId}

theorem of_copyNode {copies : Index Value ValueId} {g : GraphId} {n : Node}
    {r : Except Failure Node} (h : ObjectModel.copyNode w target copies g n = (w', r)) :
    w.Keeps w' := by
  have hn := copyNode w target copies g n
  rw [h] at hn
  exact hn

theorem of_copyNodes {copies : Index Value ValueId} {g : GraphId} {ids : List ValueId}
    {nodes : Arena} {r : Except Failure Arena}
    (h : ObjectModel.copyNodes target copies g ids w nodes = (w', r)) : w.Keeps w' := by
  have hn := copyNodes target copies g ids w nodes
  rw [h] at hn
  exact hn

theorem of_add {intake : Intake} {v : Value} {r : Except Failure (ValueId × Intake)}
    (h : Intake.add target w intake v = (w', r)) : w.Keeps w' := by
  have hn := add target w intake v
  rw [h] at hn
  exact hn

end Workspace.Keeps

/-! ## Copies -/

/-- What the copy of a node is: the same with its names translated and with copies for children. -/
inductive CopyOf (w : Workspace) (target : TableId) (copies : Index Value ValueId) (g : GraphId) :
    Node → Node → Prop
  | literal (l : Literal) : CopyOf w target copies g (.literal l) (.literal l)
  | object {cls cls' : Name} {fields ids : List ValueId} :
      w.translateClass target (w.graph g).table cls = .ok cls' →
      copiesOf copies (w.graph g).nodes g fields = .ok ids →
      CopyOf w target copies g (.object cls fields) (.object cls' ids)
  | list {elem : Ty} {elements ids : List ValueId} :
      copiesOf copies (w.graph g).nodes g elements = .ok ids →
      CopyOf w target copies g (.list elem elements)
        (.list (w.translateType target (w.graph g).table elem).1 ids)
  | any {payload id : ValueId} : copiesOf copies (w.graph g).nodes g [payload] = .ok [id] →
      CopyOf w target copies g (.any payload) (.any id)

/-- A node that is copied has a copy of its kind. -/
theorem copyOf_of_copyNode {w w' : Workspace} {target : TableId} {copies : Index Value ValueId}
    {g : GraphId} {n m : Node} (h : copyNode w target copies g n = (w', .ok m)) :
    CopyOf w target copies g n m := by
  cases n with
  | literal l =>
    cases h
    exact .literal l
  | object cls fields =>
    simp only [copyNode, Prod.mk.injEq] at h
    obtain ⟨-, h⟩ := h
    cases hcls : w.translateClass target (w.graph g).table cls with
    | error f =>
      rw [hcls] at h
      cases h
    | ok cls' =>
      rw [hcls] at h
      cases hids : copiesOf copies (w.graph g).nodes g (Node.object cls fields).children with
      | error f =>
        rw [hids] at h
        cases h
      | ok ids =>
        rw [hids] at h
        cases h
        exact .object hcls hids
  | list elem elements =>
    simp only [copyNode, Prod.mk.injEq] at h
    obtain ⟨-, h⟩ := h
    cases hids : copiesOf copies (w.graph g).nodes g (Node.list elem elements).children with
    | error f =>
      rw [hids] at h
      cases h
    | ok ids =>
      rw [hids] at h
      cases h
      exact .list hids
  | any payload =>
    simp only [copyNode, Prod.mk.injEq] at h
    obtain ⟨-, h⟩ := h
    cases hids : copiesOf copies (w.graph g).nodes g (Node.any payload).children with
    | error f =>
      rw [hids] at h
      cases h
    | ok ids =>
      rw [hids] at h
      -- Exactly one copy is the payload of the copy.
      rcases ids with _ | ⟨id, _ | ⟨id', ids⟩⟩
      · cases h
      · cases h
        exact .any hids
      · cases h
  | binding slot state => cases h

/-- The copy of a node is a value, and refers to copies. -/
theorem CopyOf.children {w : Workspace} {target : TableId} {copies : Index Value ValueId}
    {g : GraphId} {n m : Node} (h : CopyOf w target copies g n m) :
    m.isBinding = false ∧ ∀ c ∈ m.children, ∃ k, copies.get? k = some c := by
  have hcopies : ∀ {xs ids : List ValueId}, copiesOf copies (w.graph g).nodes g xs = .ok ids →
      ∀ c ∈ ids, ∃ k, copies.get? k = some c := by
    intro xs ids hids c hc
    rw [copiesOf] at hids
    split at hids
    · rename_i ids' hmap
      cases hids
      obtain ⟨x, -, hx⟩ := exists_of_forall₂_of_mem (mapM_eq_some_iff.1 hmap).flip hc
      exact ⟨_, hx⟩
    · cases hids
  cases h with
  | literal l => exact ⟨rfl, by simp [Node.children]⟩
  | object _ hids => exact ⟨rfl, hcopies hids⟩
  | list hids => exact ⟨rfl, hcopies hids⟩
  | any hids => exact ⟨rfl, hcopies hids⟩

/-- The copies of some nodes stand behind the nodes that were there, in order. -/
theorem copyNodes_eq_ok {target : TableId} {copies : Index Value ValueId} {g : GraphId}
    {ids : List ValueId} {w w' : Workspace} {nodes nodes' : Arena}
    (h : copyNodes target copies g ids w nodes = (w', .ok nodes')) :
    nodes'.size = nodes.size + ids.length ∧
      (∀ {id : ValueId} {n : Node}, nodes.node? id = some n → nodes'.node? id = some n) ∧
      ∀ {i : Nat} {id : ValueId}, ids[i]? = some id → ∃ w₁ w₂ n m, w.Keeps w₁ ∧ w₂.Keeps w' ∧
        (w.graph g).nodes.node? id = some n ∧ copyNode w₁ target copies g n = (w₂, .ok m) ∧
        nodes'.node? ⟨nodes.size + i⟩ = some m := by
  -- Each node is pushed behind those copied before it, so the positions follow the list.
  induction ids generalizing w nodes with
  | nil =>
    cases h
    exact ⟨rfl, fun hn => hn, fun hi => by simp at hi⟩
  | cons id rest ih =>
    rw [copyNodes] at h
    split at h
    · cases h
    · rename_i n hn
      split at h
      · rename_i w₁ m hcopy
        have hkeeps := Workspace.Keeps.of_copyNode hcopy
        obtain ⟨hsize, hold, hnew⟩ := ih h
        rw [Array.size_push] at hsize hnew
        refine ⟨?_, fun hj => hold (Arena.node?_push_of_eq_some hj m), ?_⟩
        · rw [hsize, List.length_cons]
          omega
        · intro i j hi
          cases i with
          | zero =>
            cases hi
            exact ⟨w, w₁, n, m, .refl w, .of_copyNodes h, hn, hcopy,
              hold (Arena.node?_push_size nodes m)⟩
          | succ i =>
            obtain ⟨w₂, w₃, n', m', hk, hk', hn', hcopy', hm'⟩ := hnew hi
            rw [hkeeps.graph] at hn'
            rw [Nat.add_assoc, Nat.add_comm 1 i] at hm'
            exact ⟨w₂, w₃, n', m', hkeeps.trans hk, hk', hn', hcopy', hm'⟩
      · cases h

/-- A node behind those that were there is the copy of one of the nodes. -/
theorem eq_or_of_node?_copyNodes {target : TableId} {copies : Index Value ValueId} {g : GraphId}
    {ids : List ValueId} {w w' : Workspace} {nodes nodes' : Arena}
    (h : copyNodes target copies g ids w nodes = (w', .ok nodes')) {j : ValueId} {m : Node}
    (hm : nodes'.node? j = some m) :
    nodes.node? j = some m ∨ ∃ w₁ w₂ id n, w.Keeps w₁ ∧ (w.graph g).nodes.node? id = some n ∧
      copyNode w₁ target copies g n = (w₂, .ok m) := by
  obtain ⟨hsize, hold, hnew⟩ := copyNodes_eq_ok h
  rcases Nat.lt_or_ge j.index nodes.size with hlt | hge
  · obtain ⟨n, hn⟩ := Arena.exists_node? hlt
    rw [hold hn] at hm
    cases hm
    exact Or.inl hn
  · have hi : j.index - nodes.size < ids.length := by
      have := Arena.node?_lt hm
      omega
    obtain ⟨w₁, w₂, n, m', hk, -, hn, hcopy, hm'⟩ := hnew (List.getElem?_eq_getElem hi)
    rw [Nat.add_sub_cancel' hge] at hm'
    cases Option.some.inj (hm.symm.trans hm')
    exact Or.inr ⟨w₁, w₂, _, n, hk, hn, hcopy⟩

/-- A discovery takes no copy away. -/
theorem discover_keeps {source : Arena} {g : GraphId} (fuel : Nat) (waiting : List ValueId)
    (next : Nat) (order : Array ValueId) (copies : Index Value ValueId) {k : Value} {c : ValueId}
    (hk : copies.get? k = some c) :
    (discover source g fuel waiting next order copies).2.get? k = some c := by
  induction fuel generalizing waiting next order copies with
  | zero => exact hk
  | succ fuel ih =>
    cases waiting with
    | nil => exact hk
    | cons id waiting =>
      rw [discover]
      dsimp only
      split
      · exact ih _ _ _ _ hk
      · rename_i hnew
        exact ih _ _ _ _ (Index.get?_insert_of_eq_some hnew hk)

/-- What is discovered gets the positions that follow the arena, one each. -/
structure Numbered (g : GraphId) (base : Nat) (copies : Index Value ValueId)
    (found : Array ValueId × Index Value ValueId) : Prop where
  placed : ∀ {i : Nat} {id : ValueId}, found.1[i]? = some id →
    found.2.get? ⟨g, id⟩ = some ⟨base + i⟩
  new : ∀ {k : Value} {c : ValueId}, found.2.get? k = some c → copies.get? k = some c ∨
    ∃ i, k.graph = g ∧ found.1[i]? = some k.id ∧ c = ⟨base + i⟩

namespace Numbered

variable {g : GraphId} {base : Nat} {copies : Index Value ValueId}

theorem start (g : GraphId) (base : Nat) (copies : Index Value ValueId) :
    Numbered g base copies (#[], copies) where
  placed := fun h => by simp at h
  new := fun h => Or.inl h

/-- The node that is opened gets the first position after those that were given out. -/
theorem insert {order : Array ValueId} {sofar : Index Value ValueId} {id : ValueId}
    (h : Numbered g base copies (order, sofar)) (hnew : sofar.get? ⟨g, id⟩ = none) :
    Numbered g base copies (order.push id, sofar.insert ⟨g, id⟩ ⟨base + order.size⟩) where
  placed := by
    intro i j hj
    change (order.push id)[i]? = some j at hj
    rw [Array.getElem?_push] at hj
    split at hj
    · rename_i hi
      cases hj
      rw [hi]
      exact Index.get?_insert_self _ _ _
    · exact Index.get?_insert_of_eq_some hnew (h.placed hj)
  new := by
    intro k c hk
    change (sofar.insert ⟨g, id⟩ ⟨base + order.size⟩).get? k = some c at hk
    rw [Index.get?_insert] at hk
    split at hk
    · rename_i heq
      subst heq
      cases hk
      exact Or.inr ⟨order.size, rfl, Array.getElem?_push_size, rfl⟩
    · rcases h.new hk with hk | ⟨i, hg, hi, rfl⟩
      · exact Or.inl hk
      · exact Or.inr ⟨i, hg, getElem?_push_of_eq_some hi _, rfl⟩

/-- All positions that were given out lie below the next one. -/
theorem lt {found : Array ValueId × Index Value ValueId} (h : Numbered g base copies found)
    (hcopies : ∀ {k c}, copies.get? k = some c → c.index < base) {k : Value} {c : ValueId}
    (hk : found.2.get? k = some c) : c.index < base + found.1.size := by
  rcases h.new hk with hk | ⟨i, -, hi, rfl⟩
  · exact Nat.lt_add_right _ (hcopies hk)
  · obtain ⟨hlt, -⟩ := Array.getElem?_eq_some_iff.1 hi
    exact Nat.add_lt_add_left hlt base

/-- Different nodes keep different positions. -/
theorem injective {found : Array ValueId × Index Value ValueId} (h : Numbered g base copies found)
    (hcopies : ∀ {k c}, copies.get? k = some c → c.index < base)
    (hinj : ∀ {j k c}, copies.get? j = some c → copies.get? k = some c → j = k) {j k : Value}
    {c : ValueId} (hj : found.2.get? j = some c) (hk : found.2.get? k = some c) : j = k := by
  rcases h.new hj with hj | ⟨i, hgj, hi, rfl⟩
  · rcases h.new hk with hk | ⟨i, -, -, rfl⟩
    · exact hinj hj hk
    · exact absurd (hcopies hj) (Nat.not_lt.2 (Nat.le_add_right base i))
  · rcases h.new hk with hk | ⟨i', hgk, hi', heq⟩
    · exact absurd (hcopies hk) (Nat.not_lt.2 (Nat.le_add_right base i))
    · -- Both are new, and a position has one node in the order.
      have hii : i = i' := Nat.add_left_cancel (congrArg ValueId.index heq)
      rw [← hii, hi] at hi'
      cases j
      cases k
      cases hgj
      cases hgk
      cases hi'
      rfl

/-- Every position that was given out belongs to a node. -/
theorem onto {found : Array ValueId × Index Value ValueId} (h : Numbered g base copies found)
    (honto : ∀ {c : ValueId}, c.index < base → ∃ k, found.2.get? k = some c) {c : ValueId}
    (hc : c.index < base + found.1.size) : ∃ k, found.2.get? k = some c := by
  rcases Nat.lt_or_ge c.index base with hlt | hge
  · exact honto hlt
  · have hi : c.index - base < found.1.size := by omega
    have hplaced := h.placed (Array.getElem?_eq_getElem hi)
    rw [Nat.add_sub_cancel' hge] at hplaced
    exact ⟨_, hplaced⟩

end Numbered

theorem discover_numbered {source : Arena} {g : GraphId} {base : Nat}
    {copies : Index Value ValueId} (fuel : Nat) (waiting : List ValueId) (order : Array ValueId)
    (sofar : Index Value ValueId) (h : Numbered g base copies (order, sofar)) :
    Numbered g base copies (discover source g fuel waiting (base + order.size) order sofar) := by
  induction fuel generalizing waiting order sofar with
  | zero => exact h
  | succ fuel ih =>
    cases waiting with
    | nil => exact h
    | cons id waiting =>
      rw [discover]
      dsimp only
      split
      · exact ih waiting order sofar h
      · rename_i hnew
        have hsize : base + order.size + 1 = base + (order.push (source.resolve id)).size := by
          rw [Array.size_push, Nat.add_assoc]
        rw [hsize]
        exact ih _ _ _ (h.insert hnew)

namespace Intake

/-- The copies are values that refer to each other only, and every copy is there. -/
structure InOrder (intake : Intake) : Prop where
  nodes : intake.nodes.SelfContained
  copies : ∀ {k : Value} {c : ValueId}, intake.copies.get? k = some c →
    c.index < intake.nodes.size

theorem inOrder_empty : InOrder {} where
  nodes := Arena.selfContained_empty
  copies := by
    intro k c h
    rw [show ({} : Intake).copies = Index.empty from rfl, Index.get?_empty] at h
    cases h

variable {target : TableId} {w w' : Workspace} {intake intake' : Intake}

/-- What is discovered for a value: the nodes that have no copy yet, and where all copies are. -/
def found (w : Workspace) (intake : Intake) (v : Value) : Array ValueId × Index Value ValueId :=
  discover (w.graph v.graph).nodes v.graph ((w.graph v.graph).nodes.referenceCount + 2)
    [(w.graph v.graph).nodes.resolve v.id] intake.nodes.size #[] intake.copies

theorem numbered_found (w : Workspace) (intake : Intake) (v : Value) :
    Numbered v.graph intake.nodes.size intake.copies (intake.found w v) :=
  discover_numbered _ _ #[] intake.copies (.start v.graph intake.nodes.size intake.copies)

theorem found_keeps (w : Workspace) (intake : Intake) (v : Value) {k : Value} {c : ValueId}
    (hk : intake.copies.get? k = some c) : (intake.found w v).2.get? k = some c :=
  discover_keeps _ _ _ _ _ hk

/-- The value itself is discovered first. -/
theorem found_self {v : Value} (hv : (w.graph v.graph).nodes.IsValue v.id)
    (hnew : intake.copies.get? v = none) :
    (intake.found w v).2.get? v = some ⟨intake.nodes.size⟩ := by
  rw [found, hv.resolve, discover]
  simp only [hv.resolve, hnew]
  exact discover_keeps _ _ _ _ _ (Index.get?_insert_self _ _ _)

/-- A value that has its copy is left alone; otherwise what is discovered for it is copied. -/
theorem add_eq_ok {v : Value} {id : ValueId}
    (h : Intake.add target w intake v = (w', .ok (id, intake'))) :
    (intake.copies.get? ⟨v.graph, (w.graph v.graph).nodes.resolve v.id⟩ = some id ∧ w' = w ∧
        intake' = intake) ∨
      (intake.copies.get? ⟨v.graph, (w.graph v.graph).nodes.resolve v.id⟩ = none ∧
        id = ⟨intake.nodes.size⟩ ∧ intake'.copies = (intake.found w v).2 ∧
        copyNodes target (intake.found w v).2 v.graph (intake.found w v).1.toList w intake.nodes =
          (w', .ok intake'.nodes)) := by
  rw [Intake.add] at h
  split at h
  · rename_i c hc
    cases h
    exact Or.inl ⟨hc, rfl, rfl⟩
  · rename_i hnone
    dsimp only at h
    split at h
    · cases h
    · rename_i w₁ nodes hcopy
      cases h
      exact Or.inr ⟨hnone, rfl, rfl, hcopy⟩

/-- A value is not copied if one of the nodes that are discovered for it is not. -/
theorem add_eq_error {v : Value} {f : Failure}
    (h : Intake.add target w intake v = (w', .error f)) :
    copyNodes target (intake.found w v).2 v.graph (intake.found w v).1.toList w intake.nodes =
      (w', .error f) := by
  rw [Intake.add] at h
  split at h
  · cases h
  · dsimp only at h
    split at h
    · rename_i w₁ f' hcopy
      cases h
      exact hcopy
    · cases h

/-- The nodes that are copied join the arena in order. -/
theorem InOrder.add (h : intake.InOrder) {v : Value} {id : ValueId}
    (hadd : Intake.add target w intake v = (w', .ok (id, intake'))) : intake'.InOrder := by
  rcases add_eq_ok hadd with ⟨-, -, rfl⟩ | ⟨-, -, hcopies, hcopy⟩
  · exact h
  · obtain ⟨hsize, -⟩ := copyNodes_eq_ok hcopy
    rw [Array.length_toList] at hsize
    have hlt : ∀ {k : Value} {c : ValueId}, intake'.copies.get? k = some c →
        c.index < intake'.nodes.size := by
      intro k c hc
      rw [hcopies] at hc
      rw [hsize]
      exact (numbered_found w intake v).lt h.copies hc
    refine ⟨⟨?_, ?_⟩, hlt⟩
    · intro id m hm
      rcases eq_or_of_node?_copyNodes hcopy hm with hm | ⟨w₁, w₂, x, n, -, -, hcopied⟩
      · exact h.nodes.value hm
      · exact (copyOf_of_copyNode hcopied).children.1
    · intro id m hm c hc
      rcases eq_or_of_node?_copyNodes hcopy hm with hm | ⟨w₁, w₂, x, n, -, -, hcopied⟩
      · have := h.nodes.children hm c hc
        omega
      · obtain ⟨k, hk⟩ := (copyOf_of_copyNode hcopied).children.2 c hc
        rw [← hcopies] at hk
        exact hlt hk

/-- Parameters are copied if the first one is, has a type that it may have, and the others are
copied after it. -/
theorem addParams_cons_eq_ok {decl : Decl} {v : Value} {rest : List (Decl × Value)}
    {ids : List ValueId}
    (h : Intake.addParams target ((decl, v) :: rest) w intake = (w', .ok (ids, intake'))) :
    ∃ w₁ id intake₁ ids', Intake.add target w intake v = (w₁, .ok (id, intake₁)) ∧
      decl.type.accepts (intake₁.runtimeType id) = true ∧
      Intake.addParams target rest w₁ intake₁ = (w', .ok (ids', intake')) ∧ ids = id :: ids' := by
  rw [Intake.addParams] at h
  split at h
  · cases h
  · rename_i w₁ id intake₁ hadd
    dsimp only at h
    split at h
    · rename_i haccepts
      split at h
      · rename_i w₂ ids' intake₂ hrest
        cases h
        exact ⟨w₁, id, intake₁, ids', hadd, haccepts, hrest, rfl⟩
      · cases h
    · cases h

/-- Parameters are refused if the first one is not copied, or one of the others is refused after it,
or the type of the first one is not one that it may have. -/
theorem addParams_cons_eq_error {decl : Decl} {v : Value} {rest : List (Decl × Value)} {f : Failure}
    (h : Intake.addParams target ((decl, v) :: rest) w intake = (w', .error f)) :
    Intake.add target w intake v = (w', .error f) ∨
      ∃ w₁ id intake₁, Intake.add target w intake v = (w₁, .ok (id, intake₁)) ∧
        (decl.type.accepts (intake₁.runtimeType id) = true ∧
            Intake.addParams target rest w₁ intake₁ = (w', .error f) ∨
          decl.type.accepts (intake₁.runtimeType id) = false ∧ w' = w₁ ∧
            f = .error (.parameterTypeMismatch ((w₁.tableNames target).text decl.name)
              (decl.type.render (w₁.tableNames target))
              ((intake₁.runtimeType id).render (w₁.tableNames target)))) := by
  rw [Intake.addParams] at h
  split at h
  · rename_i w₁ f' hadd
    cases h
    exact Or.inl hadd
  · rename_i w₁ id intake₁ hadd
    dsimp only at h
    split at h
    · rename_i haccepts
      split at h
      · cases h
      · rename_i w₂ f' hrest
        cases h
        exact Or.inr ⟨w₁, id, intake₁, hadd, Or.inl ⟨haccepts, hrest⟩⟩
    · rename_i hrefused
      cases h
      exact Or.inr ⟨w', id, intake₁, hadd, Or.inr ⟨Bool.eq_false_iff.2 hrefused, rfl, rfl⟩⟩

/-- A node that is new after a value was added is the copy of a node of the value's graph. -/
theorem exists_copyOf_add {v : Value} {id : ValueId}
    (h : Intake.add target w intake v = (w', .ok (id, intake')))
    {j : ValueId} {m : Node} (hm : intake'.nodes.node? j = some m) :
    intake.nodes.node? j = some m ∨ ∃ w₁ copies i n, w.Keeps w₁ ∧
      (w.graph v.graph).nodes.node? i = some n ∧ CopyOf w₁ target copies v.graph n m := by
  rcases add_eq_ok h with ⟨-, -, rfl⟩ | ⟨-, -, -, hcopy⟩
  · exact Or.inl hm
  · rcases eq_or_of_node?_copyNodes hcopy hm with hold | ⟨w₁, w₂, i, n, hk, hn, hnode⟩
    · exact Or.inl hold
    · exact Or.inr ⟨w₁, _, i, n, hk, hn, copyOf_of_copyNode hnode⟩

/-- A node that is new after parameters were added is the copy of a node of the graph of one of
them. -/
theorem exists_copyOf_addParams {ps : List (Decl × Value)} {ids : List ValueId}
    (h : addParams target ps w intake = (w', .ok (ids, intake')))
    {j : ValueId} {m : Node} (hm : intake'.nodes.node? j = some m) :
    intake.nodes.node? j = some m ∨ ∃ p ∈ ps, ∃ w₁ copies i n, w.Keeps w₁ ∧
      (w.graph p.2.graph).nodes.node? i = some n ∧ CopyOf w₁ target copies p.2.graph n m := by
  induction ps generalizing w intake ids with
  | nil =>
    cases h
    exact Or.inl hm
  | cons p rest ih =>
    obtain ⟨decl, v⟩ := p
    obtain ⟨w₁, id, intake₁, ids', hadd, -, hrest, rfl⟩ := addParams_cons_eq_ok h
    have hkeeps := Workspace.Keeps.of_add hadd
    rcases ih hrest with hold | ⟨p, hp, w₂, copies, i, n, hk, hn, hcopy⟩
    · rcases exists_copyOf_add hadd hold with hold | hnew
      · exact Or.inl hold
      · exact Or.inr ⟨_, List.mem_cons_self, hnew⟩
    · rw [hkeeps.graph] at hn
      exact Or.inr ⟨p, List.mem_cons_of_mem _ hp, w₂, copies, i, n, hkeeps.trans hk, hn, hcopy⟩

/-- Each parameter of a request has a copy. -/
theorem length_of_addParams {ps : List (Decl × Value)} {ids : List ValueId}
    (hadd : Intake.addParams target ps w intake = (w', .ok (ids, intake'))) :
    ids.length = ps.length := by
  induction ps generalizing w intake ids with
  | nil =>
    cases hadd
    rfl
  | cons p rest ih =>
    obtain ⟨decl, v⟩ := p
    obtain ⟨w₁, id, intake₁, ids', -, -, hrest, rfl⟩ := addParams_cons_eq_ok hadd
    exact congrArg Nat.succ (ih hrest)

/-- The copies of the parameters of a request are values that refer to each other only. -/
theorem InOrder.addParams (h : intake.InOrder) {ps : List (Decl × Value)} {ids : List ValueId}
    (hadd : Intake.addParams target ps w intake = (w', .ok (ids, intake'))) : intake'.InOrder := by
  induction ps generalizing w intake ids with
  | nil =>
    cases hadd
    exact h
  | cons p rest ih =>
    obtain ⟨decl, v⟩ := p
    obtain ⟨w₁, id, intake₁, ids', hv, -, hrest, rfl⟩ := addParams_cons_eq_ok hadd
    exact ih (h.add hv) hrest

end Intake

end ObjectModel
