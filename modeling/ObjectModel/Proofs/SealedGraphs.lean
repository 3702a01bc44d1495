import ObjectModel.Proofs.Instantiation

/-!
# Sealed graphs

The graph of a request that succeeds is sealed (`Arena.Sealed`): every reference is a value, and
every binding that is left names one. So a reader who starts at the object gets to values of that
graph only, by whatever downcasts, fields, elements and payloads (`View.Leads`), and never to a
binding (`Evaluator.instantiateName_sealed`).
-/

set_option autoImplicit false

namespace ObjectModel

/-! ## Sealed arenas -/

/-- Every reference is a value, and every binding names one. -/
structure Arena.Sealed (a : Arena) : Prop where
  children : ∀ {id : ValueId} {n : Node}, a.node? id = some n → ∀ c ∈ n.children, a.IsValue c
  resolved : ∀ {id : ValueId} {slot : Slot} {state : BindingState},
    a.node? id = some (.binding slot state) → ∃ t, state = .resolved t ∧ a.IsValue t

namespace Arena

variable {a : Arena} {id : ValueId}

/-- Sealing a whole arena replaces every reference by a value. -/
theorem Whole.sealed_finish (h : a.Whole) : a.finish.Sealed where
  children := by
    intro id n hn c hc
    obtain ⟨m, hm, rfl⟩ := exists_of_node?_finish hn
    rw [Node.children_mapChildren, List.mem_map] at hc
    obtain ⟨c', hc', rfl⟩ := hc
    exact isValue_finish.2 (h.isValue (h.children hm c' hc'))
  resolved := h.finish.resolved

/-- Behind the erased types of a sealed arena stand values. -/
theorem Sealed.isValue_unwrap (h : a.Sealed) (hid : a.IsValue id) (k : Nat) :
    a.IsValue (a.unwrap k id) := by
  induction k generalizing id with
  | zero => exact hid
  | succ k ih =>
    rw [unwrap]
    split
    · rename_i payload hn
      have hpayload : a.IsValue payload := h.children hn payload (List.mem_singleton.2 rfl)
      rw [hpayload.resolve]
      exact ih hpayload
    · exact hid

end Arena

/-! ## Readers -/

namespace View

/-- One move of a reader from a value: a downcast, a field, an element or a payload. -/
inductive Move (v : View) : ValueId → ValueId → Prop
  | asObject {x y : ValueId} : v.asObject x = .ok y → Move v x y
  | asList {x y : ValueId} : v.asList x = .ok y → Move v x y
  | asAny {x y : ValueId} : v.asAny x = .ok y → Move v x y
  | field {x y : ValueId} {n : Name} : v.field x n = .ok y → Move v x y
  | fieldOfText {x y : ValueId} {s : String} : v.fieldOfText x s = .ok y → Move v x y
  | fields {x y : ValueId} {n : Name} : (n, y) ∈ v.fields x → Move v x y
  | element {x y : ValueId} {i : Nat} : (v.elements x)[i]? = some y → Move v x y
  | payload {x : ValueId} : Move v x (v.payload x)

/-- A reader gets from one value to another in any number of moves. -/
abbrev Leads (v : View) : ValueId → ValueId → Prop := Relation.ReflTransGen v.Move

variable {v : View} {x y : ValueId}

/-- A downcast that looks through erased types and gives a value gives the one behind them. -/
theorem eq_narrow_of_asObject (h : v.asObject x = .ok y) : y = v.nodes.narrow x := by
  rw [asObject] at h
  split at h
  · exact (Except.ok.inj h).symm
  · cases h

theorem eq_narrow_of_asList (h : v.asList x = .ok y) : y = v.nodes.narrow x := by
  rw [asList] at h
  split at h
  · exact (Except.ok.inj h).symm
  · cases h

theorem eq_of_asAny (h : v.asAny x = .ok y) : y = x := by
  rw [asAny] at h
  split at h
  · exact (Except.ok.inj h).symm
  · cases h

/-- The field values of an object are references of its node. -/
theorem mem_children_of_mem_objectParts (h : y ∈ (v.objectParts x).2) :
    ∃ n, v.node? x = some n ∧ y ∈ n.children := by
  rw [objectParts] at h
  split at h
  · rename_i cls fields hn
    exact ⟨_, hn, h⟩
  · cases h

/-- What a field gives is a field value of the object, or what that stands for. -/
theorem exists_of_field {n : Name} (h : v.field x n = .ok y) :
    ∃ u ∈ (v.objectParts x).2, v.nodes.resolve u = y := by
  rw [field] at h
  split at h
  · rename_i u hu
    obtain ⟨cls, -, hu⟩ := Option.bind_eq_some_iff.1 hu
    obtain ⟨index, -, hu⟩ := Option.bind_eq_some_iff.1 hu
    exact ⟨u, List.mem_of_getElem? hu, Except.ok.inj h⟩
  · cases h

theorem exists_of_mem_fields {n : Name} (h : (n, y) ∈ v.fields x) :
    ∃ u ∈ (v.objectParts x).2, v.nodes.resolve u = y :=
  List.mem_map.1 (List.of_mem_zip h).2

/-- A move of a reader of a sealed arena leads from a value to a value. -/
theorem Move.isValue (h : v.Move x y) (hv : v.nodes.Sealed) (hx : v.nodes.IsValue x) :
    v.nodes.IsValue y := by
  -- What is read off a node is one of its references, which are values and stand for themselves.
  have hchild : ∀ {n : Node} {u : ValueId}, v.node? x = some n → u ∈ n.children →
      v.nodes.IsValue (v.nodes.resolve u) := by
    intro n u hn hu
    have hvalue := hv.children hn u hu
    rw [hvalue.resolve]
    exact hvalue
  have hpart : (∃ u ∈ (v.objectParts x).2, v.nodes.resolve u = y) → v.nodes.IsValue y := by
    rintro ⟨u, hu, rfl⟩
    obtain ⟨n, hn, hu⟩ := mem_children_of_mem_objectParts hu
    exact hchild hn hu
  cases h with
  | asObject h =>
    rw [eq_narrow_of_asObject h]
    exact hv.isValue_unwrap hx _
  | asList h =>
    rw [eq_narrow_of_asList h]
    exact hv.isValue_unwrap hx _
  | asAny h =>
    rw [eq_of_asAny h]
    exact hx
  | field h => exact hpart (exists_of_field h)
  | fieldOfText h =>
    rw [View.fieldOfText] at h
    split at h
    · exact hpart (exists_of_field h)
    · cases h
  | fields h => exact hpart (exists_of_mem_fields h)
  | element h =>
    have hmem := List.mem_of_getElem? h
    rw [elements] at hmem
    split at hmem
    · rename_i elem elements hn
      obtain ⟨u, hu, rfl⟩ := List.mem_map.1 hmem
      exact hchild hn hu
    · cases hmem
  | payload =>
    rw [View.payload]
    split
    · rename_i payload hn
      exact hchild hn (List.mem_singleton.2 rfl)
    · exact hx

/-- Whatever a reader of a sealed arena gets to from a value is a value. -/
theorem Leads.isValue (h : v.Leads x y) (hv : v.nodes.Sealed) (hx : v.nodes.IsValue x) :
    v.nodes.IsValue y := by
  induction h with
  | refl => exact hx
  | tail _ hmove ih => exact hmove.isValue hv ih

end View

theorem Workspace.nodes_view (w : Workspace) (g : GraphId) :
    (w.view g).nodes = (w.graph g).nodes := by
  rw [view]
  split <;> rfl

/-! ## Results -/

/-- What an evaluation leaves behind is sealed. -/
theorem Evaluator.Evaluates.isSealed {e : Evaluator} {w w' : Workspace} {n : Name}
    {params : List (Option Value)} {v : Value} {p : Preparation} {f : Frame} {s₀ s : Session}
    (h : Evaluator.Evaluates e w n params w' v p f s₀ s) : (w'.graph v.graph).nodes.Sealed := by
  rw [h.graph]
  exact h.completed.2.whole.sealed_finish

/-- The graph of a request that succeeds is sealed: its references are values that stand for
themselves, its bindings name values, and the result is an object of the class that was asked for.
A reader who starts there gets to values of the graph only. -/
theorem Evaluator.instantiateName_sealed {e : Evaluator} {w w' : Workspace} {n : Name}
    {params : List (Option Value)} {steps : Nat} {v : Value}
    (h : e.instantiateName w n params steps = (w', .ok v)) :
    (∀ {id : ValueId} {m : Node}, (w'.graph v.graph).nodes.node? id = some m →
      ∀ c ∈ m.children, c.index < (w'.graph v.graph).nodes.size ∧
        (w'.graph v.graph).nodes.IsValue c ∧ (w'.graph v.graph).nodes.resolve c = c) ∧
    (∀ {id : ValueId} {slot : Slot} {state : BindingState},
      (w'.graph v.graph).nodes.node? id = some (.binding slot state) →
        ∃ t, state = .resolved t ∧ (w'.graph v.graph).nodes.IsValue t) ∧
    (∃ fields, (w'.graph v.graph).nodes.node? v.id = some (.object n fields)) ∧
    ∀ {x : ValueId}, (w'.view v.graph).Leads v.id x →
      x.index < (w'.graph v.graph).nodes.size ∧ (w'.graph v.graph).nodes.IsValue x ∧
        (w'.graph v.graph).nodes.resolve x = x := by
  obtain ⟨p, f, s₀, s, heval⟩ := exists_evaluates h
  have hsealed : (w'.graph v.graph).nodes.Sealed := by
    rw [heval.graph]
    exact heval.completed.2.whole.sealed_finish
  have hobject : ∃ fields, (w'.graph v.graph).nodes.node? v.id = some (.object n fields) := by
    obtain ⟨fields, -, hobj⟩ := heval.completed.2.sound.layout.object heval.first
    rw [heval.opens.cls_name] at hobj
    rw [heval.graph, heval.root]
    exact ⟨_, Arena.node?_finish_of_eq_some hobj⟩
  refine ⟨fun hm c hc => ?_, hsealed.resolved, hobject, fun {x} hx => ?_⟩
  · have hc := hsealed.children hm c hc
    exact ⟨hc.lt, hc, hc.resolve⟩
  · obtain ⟨fields, hv⟩ := hobject
    have hroot : (w'.view v.graph).nodes.IsValue v.id := by
      rw [w'.nodes_view]
      exact ⟨_, hv, rfl⟩
    have hvalue := hx.isValue (by rwa [w'.nodes_view]) hroot
    rw [w'.nodes_view] at hvalue
    exact ⟨hvalue.lt, hvalue, hvalue.resolve⟩

namespace Sample

/-- The item of the left box, two fields away from the pair, is a value. -/
theorem pair_left_item : ∃ w v, evaluator.instantiateName workspace ⟨3⟩ [] 12 = (w, .ok v) ∧
    ∃ x y, (w.view v.graph).field v.id ⟨4⟩ = .ok x ∧ (w.view v.graph).field x ⟨2⟩ = .ok y ∧
      (w.graph v.graph).nodes.IsValue y := by
  have h : evaluator.instantiateName workspace ⟨3⟩ [] 12 =
      ((evaluator.instantiateName workspace ⟨3⟩ [] 12).1, .ok ⟨⟨0⟩, ⟨4⟩⟩) :=
    Prod.ext rfl (by decide +kernel)
  have hleft : ((evaluator.instantiateName workspace ⟨3⟩ [] 12).1.view ⟨0⟩).field ⟨4⟩ ⟨4⟩ =
      .ok ⟨5⟩ := by
    decide +kernel
  have hitem : ((evaluator.instantiateName workspace ⟨3⟩ [] 12).1.view ⟨0⟩).field ⟨5⟩ ⟨2⟩ =
      .ok ⟨6⟩ := by
    decide +kernel
  refine ⟨_, _, h, ⟨5⟩, ⟨6⟩, hleft, hitem, ?_⟩
  exact ((Evaluator.instantiateName_sealed h).2.2.2
    (.tail (.single (.field hleft)) (.field hitem))).2.1

end Sample

end ObjectModel
