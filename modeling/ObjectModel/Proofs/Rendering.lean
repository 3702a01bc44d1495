import ObjectModel.Proofs.Rendering.Forms
import ObjectModel.Proofs.SealedGraphs
import ObjectModel.Proofs.StructuralBodies

/-!
# Rendering

What the writer writes of a sealed graph is a written form (`View.exists_written`), and there is
only one for each value (`View.Written.unique`). So the bound on the depth, one more than the nodes
of the graph, never cuts a value short, and what is written has the properties of all written forms
(`View.rendersTo_pieces`): each object that the value leads to is written in full exactly once.
-/

set_option autoImplicit false

namespace ObjectModel

/-- A sealed arena is whole. -/
theorem Arena.Sealed.whole {a : Arena} (h : a.Sealed) : a.Whole where
  resolved := h.resolved
  children hn c hc := (h.children hn c hc).lt

/-! ## What is written so far -/

namespace Writing

/-- What the pieces say that are written so far. -/
def reading (w : Writing) : Reading where
  opened := w.opened
  active := w.active

/-- The writing after some more pieces, if it keeps to what they say. -/
def after (w : Writing) (ps : List Piece) : Writing where
  opened := (w.reading.reads ps).opened
  active := (w.reading.reads ps).active
  pieces := w.pieces ++ ps.toArray

variable {w : Writing} {ps qs : List Piece} {p : Piece}

@[simp] theorem reading_after : (w.after ps).reading = w.reading.reads ps := rfl

@[simp] theorem after_nil : w.after [] = w := by
  simp [after, reading]

@[simp] theorem after_after : (w.after ps).after qs = w.after (ps ++ qs) := by
  simp [after, reading]

theorem emit_eq_after (h : w.reading.read p = w.reading) : w.emit p = w.after [p] := by
  simp [after, emit, h]
  exact ⟨rfl, rfl⟩

theorem openObject_eq_after (id : ValueId) (cls : String) :
    w.openObject id cls = w.after [.objectStart id cls] := by
  simp [after, openObject, reading, Reading.read]

theorem enter_eq_after (id : ValueId) (h : w.reading.read p = ⟨w.opened, id :: w.active⟩) :
    w.enter id p = w.after [p] := by
  simp [after, enter, h]

/-- Ending the innermost list or erased type takes it off. -/
theorem leave_eq_after {id : ValueId} {active : List ValueId} (hw : w.active = id :: active)
    (h : w.reading.read p = ⟨w.opened, w.active.tail⟩) : w.leave id p = w.after [p] := by
  simp [after, leave, h, hw]

theorem emits_eq_after (h : ∀ p ∈ ps, p.IsLead) : ps.foldl emit w = w.after ps := by
  induction ps generalizing w with
  | nil => exact after_nil.symm
  | cons p ps ih =>
    obtain ⟨hp, hps⟩ := List.forall_mem_cons.1 h
    rw [List.foldl_cons, ih hps, emit_eq_after (Reading.read_of_isLead hp), after_after,
      List.singleton_append]

theorem active_emits (w : Writing) (ps : List Piece) : (ps.foldl emit w).active = w.active := by
  induction ps generalizing w with
  | nil => rfl
  | cons p ps ih => exact ih (w.emit p)

end Writing

namespace View

variable {v : View}

/-! ## The lists and erased types that are being written -/

/-- Write some values in order, each behind the pieces that lead to it. -/
def writeAll (v : View) (depth : Nat) (children : List (List Piece × ValueId)) (w : Writing) :
    Writing :=
  children.foldl (fun w c => v.write depth c.2 (c.1.foldl .emit w)) w

theorem active_writeAll {depth : Nat}
    (h : ∀ id (w : Writing), (v.write depth id w).active = w.active)
    (children : List (List Piece × ValueId)) (w : Writing) :
    (v.writeAll depth children w).active = w.active := by
  induction children generalizing w with
  | nil => rfl
  | cons c children ih =>
    refine (ih _).trans ((h c.2 _).trans ?_)
    exact w.active_emits c.1

/-- Writing a value leaves the lists and erased types that are being written as they were. -/
theorem active_write (v : View) (depth : Nat) (id : ValueId) (w : Writing) :
    (v.write depth id w).active = w.active := by
  induction depth generalizing id w with
  | zero => rfl
  | succ depth ih =>
    rw [write]
    dsimp only
    split
    · rfl
    · rfl
    · rfl
    · split
      · rfl
      · exact active_writeAll ih _ _
    · split
      · rfl
      · show List.erase (v.writeAll depth _ _).active _ = w.active
        rw [active_writeAll ih]
        exact List.erase_cons_head _ _
    · split
      · rfl
      · show List.erase (v.write depth _ _).active _ = w.active
        rw [ih]
        exact List.erase_cons_head _ _

/-! ## The written form -/

/-- Down to this depth a writer writes some values of the graph in their written form, if there are
not more nodes than the depth and the values that were begun. -/
def WritesForms (v : View) (depth : Nat) : Prop :=
  ∀ (children : List (List Piece × ValueId)) (w : Writing), Leading children →
    (∀ c ∈ children, c.2.index < v.nodes.size) → w.reading.Fits v →
    v.nodes.size < depth + w.reading.known.length →
    ∃ ps, v.Written w.reading children ps ∧ v.writeAll depth children w = w.after ps

/-- One more level: a value of the graph is written as one piece, or in full with what it contains
in written form. -/
theorem WritesForms.write {depth : Nat} (ih : v.WritesForms depth) (hv : v.nodes.Sealed)
    {id x : ValueId} {w : Writing} (hx : v.nodes.resolve id = x) (hvalue : v.nodes.IsValue x)
    (hfits : w.reading.Fits v) (hroom : v.nodes.size < depth + 1 + w.reading.known.length) :
    (∃ p, v.Brief w.reading x p ∧ v.write (depth + 1) id w = w.after [p]) ∨
    ∃ start inside stop qs, v.Full w.reading x start inside stop ∧
      v.Written (w.reading.read start) inside qs ∧
      v.write (depth + 1) id w = w.after (start :: (qs ++ [stop])) := by
  -- What stands inside a value that is begun is written with one level less.
  have hinside : ∀ {start inside stop}, v.Full w.reading x start inside stop →
      (w.reading.read start).known.length = w.reading.known.length + 1 →
      ∃ qs, v.Written (w.reading.read start) inside qs ∧
        v.writeAll depth inside (w.after [start]) = w.after (start :: qs) := by
    intro start inside stop hfull hlength
    obtain ⟨n, hn, hchildren⟩ := hfull.children_eq
    have hin : ∀ c ∈ inside, c.2.index < v.nodes.size := fun c hc =>
      (hv.children hn c.2 (hchildren ▸ List.mem_map_of_mem hc)).lt
    have hroom : v.nodes.size < depth + (w.after [start]).reading.known.length := by
      show _ < depth + (w.reading.read start).known.length
      omega
    obtain ⟨qs, hqs, heq⟩ :=
      ih inside (w.after [start]) hfull.leading hin (hfits.read hfull.allows) hroom
    refine ⟨qs, hqs, ?_⟩
    rw [heq, Writing.after_after, List.singleton_append]
  obtain ⟨n, hn, hb⟩ := hvalue
  have hn' : v.node? x = some n := hn
  rw [View.write]
  simp only [hx, hn', List.contains_iff_mem]
  cases n with
  | literal l =>
    have hbrief : v.Brief w.reading x (.literal l) := .literal hn
    exact Or.inl ⟨_, hbrief, Writing.emit_eq_after hbrief.read_eq⟩
  | object cls fields =>
    dsimp only
    split
    · rename_i hmem
      have hbrief : v.Brief w.reading x (.backReference x (v.names.text cls)) :=
        .backReference hn hmem
      exact Or.inl ⟨_, hbrief, Writing.emit_eq_after hbrief.read_eq⟩
    · rename_i hmem
      have hfull := Full.object (r := w.reading) hn hmem
      obtain ⟨qs, hqs, heq⟩ := hinside hfull (by simp [Reading.read, Reading.known])
      refine Or.inr ⟨_, _, _, qs, hfull, hqs, ?_⟩
      rw [writeAll] at heq
      rw [Writing.openObject_eq_after, heq, Writing.emit_eq_after rfl, Writing.after_after,
        List.cons_append]
  | list elem elements =>
    dsimp only
    split
    · rename_i hmem
      have hbrief : v.Brief w.reading x (.cut x) := .cut (.list hn) hmem
      exact Or.inl ⟨_, hbrief, Writing.emit_eq_after rfl⟩
    · rename_i hmem
      have hfull := Full.list (r := w.reading) hn hmem
      obtain ⟨qs, hqs, heq⟩ := hinside hfull (by simp [Reading.read, Reading.known]; omega)
      have hactive : (w.after (.listStart x :: qs)).active = x :: w.active :=
        hqs.active_reads hfull.leading
      refine Or.inr ⟨_, _, _, qs, hfull, hqs, ?_⟩
      rw [writeAll] at heq
      rw [Writing.enter_eq_after x rfl, heq, Writing.leave_eq_after hactive rfl,
        Writing.after_after, List.cons_append]
  | any payload =>
    dsimp only
    split
    · rename_i hmem
      have hbrief : v.Brief w.reading x (.cut x) := .cut (.any hn) hmem
      exact Or.inl ⟨_, hbrief, Writing.emit_eq_after rfl⟩
    · rename_i hmem
      have hfull := Full.any (r := w.reading) hn hmem
      obtain ⟨qs, hqs, heq⟩ := hinside hfull (by simp [Reading.read, Reading.known]; omega)
      have hactive : (w.after (.anyStart x :: qs)).active = x :: w.active :=
        hqs.active_reads hfull.leading
      refine Or.inr ⟨_, _, _, qs, hfull, hqs, ?_⟩
      have heq : v.write depth payload (w.after [.anyStart x]) = w.after (.anyStart x :: qs) := heq
      rw [Writing.enter_eq_after x rfl, heq, Writing.leave_eq_after hactive rfl,
        Writing.after_after, List.cons_append]
  | binding slot state => simp [Node.isBinding] at hb

theorem writesForms (hv : v.nodes.Sealed) (depth : Nat) : v.WritesForms depth := by
  induction depth with
  | zero =>
    -- More values would be begun than there are nodes.
    intro children w _ _ hfits hroom
    have := hfits.length_known_le
    omega
  | succ depth ih =>
    intro children
    induction children with
    | nil => exact fun w _ _ _ _ => ⟨[], .nil, Writing.after_nil.symm⟩
    | cons c rest ihrest =>
      intro w hlead hin hfits hroom
      obtain ⟨hl, hleadrest⟩ := List.forall_mem_cons.1 hlead
      obtain ⟨hc, hinrest⟩ := List.forall_mem_cons.1 hin
      have hreading : (w.after c.1).reading = w.reading := Reading.reads_of_isLead hl
      have hvalue := Arena.Whole.isValue hv.whole hc
      -- The rest is written after this value, when at least as many values were begun.
      have htail : ∀ qs, w.reading.AllowsAll v qs →
          (w.reading.reads qs).active = w.reading.active →
          v.write (depth + 1) c.2 (w.after c.1) = (w.after c.1).after qs →
          ∃ ps, v.Written (w.reading.reads qs) rest ps ∧
            v.writeAll (depth + 1) (c :: rest) w = w.after (c.1 ++ (qs ++ ps)) := by
        intro qs hallowed hactive hwrite
        have hknown : w.reading.known.length ≤ (w.reading.reads qs).known.length := by
          simp only [Reading.known, Reading.opened_reads, hactive, List.length_append]
          omega
        have hafter : ((w.after c.1).after qs).reading = w.reading.reads qs := by
          rw [Writing.reading_after, hreading]
        obtain ⟨ps, hps, heq⟩ := ihrest ((w.after c.1).after qs) hleadrest hinrest
          (hafter ▸ hfits.reads hallowed) (by rw [hafter]; omega)
        rw [hafter] at hps
        refine ⟨ps, hps, ?_⟩
        rw [writeAll, List.foldl_cons, Writing.emits_eq_after hl, hwrite]
        rw [writeAll] at heq
        rw [heq, Writing.after_after, Writing.after_after]
      rcases ih.write hv rfl hvalue (hreading ▸ hfits) (by rw [hreading]; exact hroom) with
        ⟨p, hbrief, hwrite⟩ | ⟨start, inside, stop, qs, hfull, hqs, hwrite⟩
      · rw [hreading] at hbrief
        have hread : w.reading.reads [p] = w.reading := hbrief.read_eq
        obtain ⟨ps, hps, heq⟩ := htail [p] ⟨hbrief.allows, trivial⟩ (by rw [hread]) hwrite
        rw [hread] at hps
        exact ⟨_, .brief hbrief hps, heq⟩
      · rw [hreading] at hfull hqs
        have hone : v.Written w.reading [([], c.2)] ([] ++ start :: (qs ++ [stop])) :=
          .full hfull hqs .nil
        have hleadone : Leading [([], c.2)] := by simp [Leading]
        obtain ⟨ps, hps, heq⟩ := htail _ (hone.allowed hleadone) (hone.active_reads hleadone) hwrite
        simp only [Reading.reads_cons, Reading.reads_append, Reading.reads_nil, List.nil_append]
          at hps
        refine ⟨_, .full hfull hqs hps, heq.trans ?_⟩
        simp

/-- However deep the writer may go beyond the number of nodes, it writes a value of a sealed graph
in its written form. -/
theorem exists_written (hv : v.nodes.Sealed) {id : ValueId} (hid : id.index < v.nodes.size)
    {depth : Nat} (hdepth : v.nodes.size < depth) :
    ∃ ps, v.Written {} [([], id)] ps ∧ v.write depth id {} = Writing.after {} ps := by
  apply writesForms hv depth [([], id)] {}
  · simp [Leading]
  · simpa using hid
  · exact Reading.fits_empty v
  · omega

/-- Whatever a value leads to is shown in its written form. -/
theorem Written.shown_of_leadsTo {id x : ValueId} {ps : List Piece}
    (h : v.Written {} [([], id)] ps) (hx : v.nodes.LeadsTo (v.nodes.resolve id) x) :
    v.Shown (ps.flatMap Piece.starts) x := by
  obtain ⟨hshown, hclosed⟩ := h.covers (by simp [Leading])
  induction hx with
  | refl => exact hshown _ (List.mem_singleton_self _)
  | tail _ hrefers ih =>
    rcases ih with ⟨l, hl⟩ | hbegun
    · -- A literal refers to nothing.
      obtain ⟨n, hn, c, hc, -⟩ := hrefers
      obtain rfl : Node.literal l = n := Option.some.inj (hl.symm.trans hn)
      cases hc
    · exact hclosed _ hbegun _ hrefers

/-! ## The pieces of a value -/

/-- The pieces are those of the value, however deep the writer may go, and show what it leads to. -/
structure RendersTo (v : View) (id : ValueId) (ps : List Piece) : Prop where
  /-- The writer ends by itself: more depth than nodes makes no difference. -/
  ends : ∀ depth, v.nodes.size < depth → (v.write depth id {}).pieces.toList = ps
  text : v.render id = String.join (ps.map Piece.text)
  form : v.Written {} [([], id)] ps
  /-- No object is written in full twice. -/
  once : (ps.flatMap Piece.opens).Nodup
  /-- The objects that are written in full are those that the value leads to. -/
  objects : ∀ x, x ∈ ps.flatMap Piece.opens ↔
    v.IsObject x ∧ v.nodes.LeadsTo (v.nodes.resolve id) x
  /-- What is begun is written in full at that place: the fields of an object, the elements of a
  list or the payload, in order and each in written form. -/
  inside : ∀ x ∈ ps.flatMap Piece.starts, ∃ pre start inside qs stop post,
    ps = pre ++ start :: (qs ++ stop :: post) ∧
      v.Full (Reading.reads {} pre) x start inside stop ∧
      v.Written (Reading.reads {} (pre ++ [start])) inside qs
  /-- Each piece is allowed by the pieces before it. -/
  allowed : ∀ pre p post, ps = pre ++ p :: post → (Reading.reads {} pre).Allows v p

/-- The written form of a value of a sealed graph. Each object that the value leads to is written in
full exactly once, every other occurrence of it refers back, and a list or an erased type is cut
exactly inside itself. Whatever is written, the lists and erased types that are being written stay
the same. -/
theorem rendersTo_pieces (hv : v.nodes.Sealed) {id : ValueId} (hid : id.index < v.nodes.size) :
    v.RendersTo id (v.pieces id).toList ∧
    ∀ (depth : Nat) (x : ValueId) (w : Writing), (v.write depth x w).active = w.active := by
  refine ⟨?_, v.active_write⟩
  have hlead : Leading [([], id)] := by simp [Leading]
  obtain ⟨ps, hform, hwrite⟩ := exists_written hv hid (Nat.lt_succ_self _)
  have hpieces : (v.pieces id).toList = ps := by
    rw [pieces, hwrite, Writing.after]
    simp
  rw [hpieces]
  have hallowed := hform.allowed hlead
  have hbegun : ∀ x, x ∈ ps.flatMap Piece.opens ↔ v.IsObject x ∧ x ∈ ps.flatMap Piece.starts :=
    fun x => hform.mem_opens_iff hlead
  refine ⟨fun depth hdepth => ?_, ?_, hform, ?_, fun x => ?_, fun x hx => ?_, fun _ _ _ heq => ?_⟩
  · obtain ⟨qs, hqs, heq⟩ := exists_written hv hid hdepth
    rw [heq, Writing.after, hqs.unique hform]
    simp
  · rw [render, ← Array.foldl_toList, hpieces, String.join, List.foldl_map]
  · -- The objects that were opened are different, in whatever order they are read.
    have hfits := (Reading.fits_empty v).reads hallowed
    have hnodup := hfits.opened
    rw [Reading.opened_reads, List.append_nil, List.nodup_reverse] at hnodup
    exact hnodup
  · rw [hbegun]
    refine and_congr_right fun hobject => ⟨fun hx => ?_, fun hx => ?_⟩
    · apply hform.leadsTo hlead (fun hx hxy => hx.tail hxy) _ x hx
      simpa using Relation.ReflTransGen.refl
    · -- What is shown is closed under references, so it is everything that the value leads to.
      rcases hform.shown_of_leadsTo hx with ⟨l, hl⟩ | hx
      · obtain ⟨cls, fields, hn⟩ := hobject
        simp [hn] at hl
      · exact hx
  · obtain ⟨pre, start, inside, qs, stop, post, heq, hfull, hqs⟩ := hform.exists_inside hlead x hx
    exact ⟨pre, start, inside, qs, stop, post, heq, hfull, by simpa using hqs⟩
  · exact hallowed.allows heq

end View

namespace Sample

/-- A hub refers to itself from its list, from its spoke and inside an erased type. It is written in
full once, and so is its spoke. -/
theorem hub_rendersTo : ∃ w v, (turning 2).instantiateName wheel ⟨1⟩ [] 30 = (w, .ok v) ∧
    (w.view v.graph).nodes.Sealed ∧ v.id.index < (w.view v.graph).nodes.size ∧
    (w.view v.graph).RendersTo v.id ((w.view v.graph).pieces v.id).toList ∧
    (w.view v.graph).render v.id =
      "Hub \x7b item: [..., Spoke \x7b item: [<Hub#3>, ...] \x7d, any(...)] \x7d" := by
  have h : (turning 2).instantiateName wheel ⟨1⟩ [] 30 =
      (((turning 2).instantiateName wheel ⟨1⟩ [] 30).1, .ok ⟨⟨0⟩, ⟨3⟩⟩) :=
    Prod.ext rfl (by decide +kernel)
  obtain ⟨p, f, s₀, s, heval⟩ := Evaluator.exists_evaluates h
  have hsealed : (((turning 2).instantiateName wheel ⟨1⟩ [] 30).1.view ⟨0⟩).nodes.Sealed := by
    rw [Workspace.nodes_view]
    exact heval.isSealed
  have hlt : 3 < (((turning 2).instantiateName wheel ⟨1⟩ [] 30).1.view ⟨0⟩).nodes.size := by
    decide +kernel
  exact ⟨_, _, h, hsealed, hlt, (View.rendersTo_pieces hsealed hlt).1, by decide +kernel⟩

end Sample

end ObjectModel
