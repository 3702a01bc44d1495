import ObjectModel.Proofs.Independence.Names
import ObjectModel.Proofs.Safety
import ObjectModel.Proofs.Intake.Reachability

/-!
# What a request interns

The parameters of a request bring names along: the classes in the element types of lists that belong
to another class table (`Workspace.Brings`). Their texts are appended to the interner of the table
of the request, and nothing else of the workspace changes while they are copied
(`Evaluator.gains_prepare`).
-/

set_option autoImplicit false

namespace ObjectModel

namespace Workspace

/-- A parameter leads to a list of another class table, and the string is the text of a class name
in its element type. -/
def Brings (w : Workspace) (target : TableId) (v : Value) (s : String) : Prop :=
  ∃ t x elem elements n, (w.graph v.graph).table = some t ∧ t ≠ target ∧
    (w.graph v.graph).nodes.LeadsTo v.id x ∧
      (w.graph v.graph).nodes.node? x = some (.list elem elements) ∧ n ∈ elem.names ∧
        s = (w.tableNames t).text n

/-- Nothing but one interner changes, and it only gains strings of some kind at its end. -/
structure Gains (id : InternerId) (Q : String → Prop) (w w' : Workspace) : Prop where
  tables : w'.tables = w.tables
  graphs : w'.graphs = w.graphs
  others : ∀ {id' : InternerId}, id' ≠ id → w'.interner id' = w.interner id'
  added : ∃ added, (w'.interner id).strings.toList = (w.interner id).strings.toList ++ added ∧
    ∀ s ∈ added, Q s

namespace Gains

variable {id : InternerId} {Q R : String → Prop} {w w' w'' : Workspace}

theorem refl (id : InternerId) (Q : String → Prop) (w : Workspace) : Gains id Q w w where
  tables := rfl
  graphs := rfl
  others _ := rfl
  added := ⟨[], (List.append_nil _).symm, fun _ hs => nomatch hs⟩

theorem trans (h : Gains id Q w w') (h' : Gains id Q w' w'') : Gains id Q w w'' where
  tables := h'.tables.trans h.tables
  graphs := h'.graphs.trans h.graphs
  others hid := (h'.others hid).trans (h.others hid)
  added := by
    obtain ⟨added, heq, hQ⟩ := h.added
    obtain ⟨added', heq', hQ'⟩ := h'.added
    refine ⟨added ++ added', by rw [heq', heq, List.append_assoc], ?_⟩
    intro s hs
    rcases List.mem_append.1 hs with hs | hs
    · exact hQ s hs
    · exact hQ' s hs

theorem mono (h : Gains id Q w w') (hQR : ∀ s, Q s → R s) : Gains id R w w' where
  tables := h.tables
  graphs := h.graphs
  others := h.others
  added := by
    obtain ⟨added, heq, hQ⟩ := h.added
    exact ⟨added, heq, fun s hs => hQR s (hQ s hs)⟩

theorem intern (w : Workspace) (id : InternerId) {s : String} (hs : Q s) :
    Gains id Q w (w.intern id s).2 where
  tables := rfl
  graphs := rfl
  others := by
    intro id' hid
    rw [interner_intern, if_neg fun h => hid h.1.symm]
  added := by
    rw [interner_intern]
    split
    · rw [Interner.strings_intern]
      split
      · exact ⟨[], (List.append_nil _).symm, fun _ hs => nomatch hs⟩
      · refine ⟨[s], Array.toList_push, ?_⟩
        intro s' hs'
        rw [List.mem_singleton.1 hs']
        exact hs
    · exact ⟨[], (List.append_nil _).symm, fun _ hs => nomatch hs⟩

end Gains

/-! ## Copies -/

variable {w w' : Workspace} {target : TableId} {Q : String → Prop}

/-- An element type brings the texts of its class names along if it belongs to another table. -/
theorem gains_translateType {source : Option TableId} {ty : Ty}
    (h : ∀ t n, source = some t → t ≠ target → n ∈ ty.names → Q ((w.tableNames t).text n)) :
    Gains (w.table target).interner Q w (w.translateType target source ty).2 := by
  induction ty with
  | cls n =>
    cases source with
    | none => exact .refl _ _ w
    | some t =>
      rw [translateType]
      split
      · exact .refl _ _ w
      · rename_i ht
        exact .intern w _ (h t n rfl ht List.mem_cons_self)
  | list elem ih => exact ih h
  | _ => exact .refl _ _ w

theorem gains_copyNode {copies : Index Value ValueId} {g : GraphId} {n : Node}
    (h : ∀ t elem elements m, (w.graph g).table = some t → t ≠ target → n = .list elem elements →
      m ∈ elem.names → Q ((w.tableNames t).text m)) :
    Gains (w.table target).interner Q w (copyNode w target copies g n).1 := by
  cases n with
  | list elem elements =>
    exact gains_translateType fun t m ht hne hm => h t elem elements m ht hne rfl hm
  | _ => exact .refl _ _ w

/-- Copies of nodes bring along the texts of class names in the element types of these nodes. -/
theorem gains_copyNodes {copies : Index Value ValueId} {g : GraphId} {ids : List ValueId}
    {nodes : Arena}
    (hissued : ∀ t, (w.graph g).table = some t → (w.graph g).Issued (w.tableNames t))
    (h : ∀ t x elem elements m, (w.graph g).table = some t → t ≠ target → x ∈ ids →
      (w.graph g).nodes.node? x = some (.list elem elements) → m ∈ elem.names →
        Q ((w.tableNames t).text m)) :
    Gains (w.table target).interner Q w (copyNodes target copies g ids w nodes).1 := by
  induction ids generalizing w nodes with
  | nil => exact .refl _ _ w
  | cons id rest ih =>
    rw [copyNodes]
    split
    · exact .refl _ _ w
    · rename_i n hn
      have hgains : Gains (w.table target).interner Q w (copyNode w target copies g n).1 := by
        refine gains_copyNode fun t elem elements m ht hne hlist hm => ?_
        rw [hlist] at hn
        exact h t id elem elements m ht hne List.mem_cons_self hn hm
      have hkeeps := Keeps.copyNode w target copies g n
      generalize copyNode w target copies g n = r at hgains hkeeps
      obtain ⟨w₁, f | m⟩ := r
      · exact hgains
      · -- The names were issued before, so their texts are the same in the workspace so far.
        refine hgains.trans ?_
        rw [← hkeeps.table]
        refine ih ?_ ?_
        · intro t ht
          rw [hkeeps.graph] at ht
          exact hkeeps.graph_issued (hissued t ht)
        · intro t x elem elements k ht hne hx hlist hk
          rw [hkeeps.graph] at ht hlist
          have hname := Ty.issued_iff.1 (hissued t ht x _ hlist) k hk
          rw [hkeeps.text_tableNames hname]
          exact h t x elem elements k ht hne (List.mem_cons_of_mem _ hx) hlist hk

end Workspace

namespace Intake

variable {w w' : Workspace} {target : TableId} {intake : Intake}

/-- Every node that is discovered for a value is one that the value leads to. -/
theorem InOrder.leadsTo_of_found (h : intake.InOrder) {v : Value}
    (hv : (w.graph v.graph).nodes.IsValue v.id) {x : ValueId}
    (hx : x ∈ (intake.found w v).1.toList) : (w.graph v.graph).nodes.LeadsTo v.id x := by
  obtain ⟨i, hi⟩ := Array.mem_iff_getElem?.1 (Array.mem_toList_iff.1 hx)
  have hplaced := (numbered_found w intake v).placed hi
  have hstart : ∀ y ∈ [(w.graph v.graph).nodes.resolve v.id],
      (w.graph v.graph).nodes.LeadsTo v.id ((w.graph v.graph).nodes.resolve y) := by
    intro y hy
    rw [List.mem_singleton.1 hy, hv.resolve, hv.resolve]
  rcases discover_leadsTo (fun hx hxy => hx.tail hxy) _ _ _ _ _ hstart hplaced with hold | hleads
  · -- A copy that was there has a position of the arena.
    have hlt : intake.nodes.size + i < intake.nodes.size := h.copies hold
    omega
  · exact hleads

/-- A value is copied without any change of the workspace if it has a copy, and otherwise what is
discovered for it is copied. -/
theorem workspace_add (target : TableId) (w : Workspace) (intake : Intake) (v : Value) :
    (intake.add target w v).1 = w ∨ (intake.add target w v).1 =
      (copyNodes target (intake.found w v).2 v.graph (intake.found w v).1.toList w
        intake.nodes).1 := by
  rw [add]
  split
  · exact Or.inl rfl
  · refine Or.inr ?_
    dsimp only
    rw [Intake.found]
    generalize copyNodes target _ v.graph _ w intake.nodes = r
    obtain ⟨w₁, f | nodes⟩ := r <;> rfl

theorem InOrder.gains_add (h : intake.InOrder) {v : Value}
    (hv : (w.graph v.graph).nodes.IsValue v.id)
    (hissued : ∀ t, (w.graph v.graph).table = some t → (w.graph v.graph).Issued (w.tableNames t)) :
    Workspace.Gains (w.table target).interner (w.Brings target v) w
      (intake.add target w v).1 := by
  rcases workspace_add target w intake v with heq | heq <;> rw [heq]
  · exact .refl _ _ w
  · refine Workspace.gains_copyNodes hissued fun t x elem elements n ht hne hx hlist hn => ?_
    exact ⟨t, x, elem, elements, n, ht, hne, h.leadsTo_of_found hv hx, hlist, hn, rfl⟩

end Intake

namespace Workspace

variable {w w' : Workspace} {target : TableId} {v : Value} {s : String}

/-- What a parameter of issued names brings along it brought along before names were added. -/
theorem Brings.of_keeps (h : w'.Brings target v s) (hw : w.Keeps w')
    (hissued : ∀ t, (w.graph v.graph).table = some t → (w.graph v.graph).Issued (w.tableNames t)) :
    w.Brings target v s := by
  obtain ⟨t, x, elem, elements, n, ht, hne, hx, hlist, hn, rfl⟩ := h
  rw [hw.graph] at ht hx hlist
  have hname := Ty.issued_iff.1 (hissued t ht x _ hlist) n hn
  exact ⟨t, x, elem, elements, n, ht, hne, hx, hlist, hn, hw.text_tableNames hname⟩

end Workspace

namespace Intake

variable {w w' : Workspace} {target : TableId} {intake : Intake}

/-- The parameters of a request bring along the texts of class names in element types. -/
theorem InOrder.gains_addParams (h : intake.InOrder) {ps : List (Decl × Value)}
    (hvalues : ∀ p ∈ ps, (w.graph p.2.graph).nodes.IsValue p.2.id)
    (hissued : ∀ p ∈ ps, ∀ t, (w.graph p.2.graph).table = some t →
      (w.graph p.2.graph).Issued (w.tableNames t)) :
    Workspace.Gains (w.table target).interner (fun s => ∃ p ∈ ps, w.Brings target p.2 s) w
      (Intake.addParams target ps w intake).1 := by
  induction ps generalizing w intake with
  | nil => exact .refl _ _ w
  | cons p rest ih =>
    obtain ⟨decl, v⟩ := p
    have hfirst : ∀ s, w.Brings target v s → ∃ p ∈ (decl, v) :: rest, w.Brings target p.2 s :=
      fun s hs => ⟨_, List.mem_cons_self, hs⟩
    have hadd := (h.gains_add (hvalues _ List.mem_cons_self)
      (hissued _ List.mem_cons_self)).mono hfirst
    have hkeeps := Workspace.Keeps.add target w intake v
    have horder : ∀ {w₁ id intake₁}, intake.add target w v = (w₁, .ok (id, intake₁)) →
        intake₁.InOrder := fun hok => h.add hok
    rw [Intake.addParams]
    generalize intake.add target w v = r at hadd hkeeps horder
    obtain ⟨w₁, f | ⟨id, intake₁⟩⟩ := r
    · exact hadd
    · dsimp only at hadd hkeeps ⊢
      split
      · have hrest := ih (horder rfl) (w := w₁)
          (fun p hp => by
            rw [hkeeps.graph]
            exact hvalues p (List.mem_cons_of_mem _ hp))
          (fun p hp t ht => by
            rw [hkeeps.graph] at ht
            exact hkeeps.graph_issued (hissued p (List.mem_cons_of_mem _ hp) t ht))
        rw [hkeeps.table] at hrest
        have hbrings : ∀ s, (∃ p ∈ rest, w₁.Brings target p.2 s) →
            ∃ p ∈ (decl, v) :: rest, w.Brings target p.2 s := by
          rintro s ⟨p, hp, hs⟩
          have hp' := List.mem_cons_of_mem (decl, v) hp
          exact ⟨p, hp', hs.of_keeps hkeeps (hissued p hp')⟩
        have hboth := hadd.trans (hrest.mono hbrings)
        generalize Intake.addParams target rest w₁ intake₁ = r at hboth
        obtain ⟨w₂, f | ⟨ids, intake₂⟩⟩ := r <;> exact hboth
      · exact hadd

end Intake

namespace Evaluator

variable {e : Evaluator} {w : Workspace} {n : Name} {params : List (Option Value)}

/-- While a request is checked, nothing changes but the interner of its table, which gains the texts
of class names in element types that its parameters bring along. -/
theorem gains_prepare (hvalues : ∀ v, some v ∈ params → (w.graph v.graph).nodes.IsValue v.id)
    (hissued : ∀ v, some v ∈ params → ∀ t, (w.graph v.graph).table = some t →
      (w.graph v.graph).Issued (w.tableNames t)) :
    Workspace.Gains (w.table e.table).interner
      (fun s => ∃ v, some v ∈ params ∧ w.Brings e.table v s) w (e.prepare w n params).1 := by
  rw [prepare]
  split
  · exact .refl _ _ w
  · split
    · exact .refl _ _ w
    · split
      · exact .refl _ _ w
      · rename_i present hpresent
        have hmem := mem_of_presentParams hpresent
        have hbrings : ∀ s, (∃ p ∈ present, w.Brings e.table p.2 s) →
            ∃ v, some v ∈ params ∧ w.Brings e.table v s := by
          rintro s ⟨p, hp, hs⟩
          exact ⟨p.2, hmem p hp, hs⟩
        have hgains := (Intake.inOrder_empty.gains_addParams
          (fun p hp => hvalues p.2 (hmem p hp)) fun p hp => hissued p.2 (hmem p hp)).mono hbrings
        generalize Intake.addParams e.table present w {} = r at hgains
        obtain ⟨w₁, f | ⟨args, intake⟩⟩ := r <;> exact hgains

end Evaluator

end ObjectModel
