import ObjectModel.Graph.Render
import ObjectModel.Proofs.Intake.Reachability

/-!
# Written forms

The pieces of a written value, read from left to right, say which objects were opened so far and
which lists and erased types are being written (`Reading`). `Reading.Allows` is what may come next:
an object in full only before it is opened, a back reference only after it, a cut only inside the
value that it stands for. `View.Written` is the written form of some values, as a grammar without
any bound on the depth. Its readings allow every piece (`View.Written.allowed`), leave the lists and
erased types as they were (`View.Written.active_reads`), show nothing that the values do not lead to
(`View.Written.leadsTo`) and show everything that they do (`View.Written.covers`).
-/

set_option autoImplicit false

namespace ObjectModel

/-! ## Pieces -/

namespace Piece

/-- The object that the piece begins to write in full. -/
def opens : Piece → List ValueId
  | .objectStart id _ => [id]
  | _ => []

/-- The list or erased type that the piece begins to write. -/
def enters : Piece → List ValueId
  | .listStart id => [id]
  | .anyStart id => [id]
  | _ => []

/-- The value that the piece begins to write in full. -/
def starts (p : Piece) : List ValueId := p.opens ++ p.enters

/-- What stands before a field or an element. -/
inductive IsLead : Piece → Prop
  | label (position : Nat) (name : Option String) : IsLead (.label position name)
  | separator : IsLead .separator

end Piece

/-- Only labels and separators stand before the values. -/
def Leading (children : List (List Piece × ValueId)) : Prop :=
  ∀ c ∈ children, ∀ p ∈ c.1, p.IsLead

theorem starts_of_isLead {ps : List Piece} (h : ∀ p ∈ ps, p.IsLead) :
    ps.flatMap Piece.starts = [] := by
  refine List.flatMap_eq_nil_iff.2 fun p hp => ?_
  cases h p hp <;> rfl

/-! ## Kinds of values -/

namespace View

variable {v : View} {x : ValueId}

/-- A position that holds an object. -/
def IsObject (v : View) (x : ValueId) : Prop := ∃ cls fields, v.node? x = some (.object cls fields)

/-- A position that holds a list or an erased type. -/
inductive IsContainer (v : View) (x : ValueId) : Prop
  | list {elem : Ty} {elements : List ValueId} : v.node? x = some (.list elem elements) →
      IsContainer v x
  | any {payload : ValueId} : v.node? x = some (.any payload) → IsContainer v x

theorem IsContainer.not_isObject (h : v.IsContainer x) : ¬ v.IsObject x := by
  rintro ⟨cls, fields, hobject⟩
  cases h with
  | list hn => simp [hn] at hobject
  | any hn => simp [hn] at hobject

end View

/-! ## Reading what is written -/

/-- What is known of a written value after some of its pieces. -/
structure Reading where
  /-- The objects that were opened, the last one first. -/
  opened : List ValueId := []
  /-- The lists and erased types that were begun and not ended, the innermost one first. -/
  active : List ValueId := []
deriving DecidableEq, Repr

namespace Reading

/-- Read one more piece. -/
def read (r : Reading) : Piece → Reading
  | .objectStart id _ => { r with opened := id :: r.opened }
  | .listStart id => { r with active := id :: r.active }
  | .anyStart id => { r with active := id :: r.active }
  | .listEnd => { r with active := r.active.tail }
  | .anyEnd => { r with active := r.active.tail }
  | _ => r

/-- Read some more pieces. -/
def reads (r : Reading) (ps : List Piece) : Reading := ps.foldl read r

/-- The values that were begun. -/
def known (r : Reading) : List ValueId := r.opened ++ r.active

variable {r : Reading} {v : View} {p : Piece} {ps qs : List Piece}

@[simp] theorem reads_nil : r.reads [] = r := rfl

@[simp] theorem reads_cons : r.reads (p :: ps) = (r.read p).reads ps := rfl

@[simp] theorem reads_append : r.reads (ps ++ qs) = (r.reads ps).reads qs := List.foldl_append

theorem read_of_isLead (h : p.IsLead) : r.read p = r := by
  cases h <;> rfl

theorem reads_of_isLead (h : ∀ p ∈ ps, p.IsLead) : r.reads ps = r := by
  induction ps with
  | nil => rfl
  | cons p ps ih =>
    rw [reads_cons, read_of_isLead (h p List.mem_cons_self)]
    exact ih fun q hq => h q (List.mem_cons_of_mem _ hq)

theorem opened_read (p : Piece) : (r.read p).opened = p.opens ++ r.opened := by
  cases p <;> rfl

/-- The opened objects are those that the pieces open, in reverse. -/
theorem opened_reads (r : Reading) (ps : List Piece) :
    (r.reads ps).opened = (ps.flatMap Piece.opens).reverse ++ r.opened := by
  induction ps generalizing r with
  | nil => rfl
  | cons p ps ih =>
    rw [reads_cons, ih, opened_read]
    cases p <;> simp [Piece.opens]

/-- What is known after some pieces was known before them or is begun by them. -/
theorem mem_known_reads {y : ValueId} (hactive : (r.reads ps).active = r.active)
    (hy : y ∈ (r.reads ps).known) : y ∈ r.known ∨ y ∈ ps.flatMap Piece.starts := by
  rw [known, opened_reads, hactive] at hy
  simp only [known, List.mem_append, List.mem_reverse, List.mem_flatMap, Piece.starts] at hy ⊢
  grind

/-- What may be written next. -/
inductive Allows (v : View) (r : Reading) : Piece → Prop
  | literal {x : ValueId} {l : Literal} : v.node? x = some (.literal l) → Allows v r (.literal l)
  | objectStart {x : ValueId} {cls : Name} {fields : List ValueId} :
      v.node? x = some (.object cls fields) → x ∉ r.opened →
      Allows v r (.objectStart x (v.names.text cls))
  | lead {p : Piece} : p.IsLead → Allows v r p
  | objectEnd (fieldCount : Nat) : Allows v r (.objectEnd fieldCount)
  | backReference {x : ValueId} {cls : Name} {fields : List ValueId} :
      v.node? x = some (.object cls fields) → x ∈ r.opened →
      Allows v r (.backReference x (v.names.text cls))
  | listStart {x : ValueId} {elem : Ty} {elements : List ValueId} :
      v.node? x = some (.list elem elements) → x ∉ r.active → Allows v r (.listStart x)
  | listEnd : Allows v r .listEnd
  | anyStart {x payload : ValueId} : v.node? x = some (.any payload) → x ∉ r.active →
      Allows v r (.anyStart x)
  | anyEnd : Allows v r .anyEnd
  | cut {x : ValueId} : v.IsContainer x → x ∈ r.active → Allows v r (.cut x)

/-- What is opened is an object. -/
theorem Allows.isObject {x : ValueId} (h : r.Allows v p) (hx : x ∈ p.opens) : v.IsObject x := by
  cases h with
  | objectStart hn _ =>
    obtain rfl := List.mem_singleton.1 hx
    exact ⟨_, _, hn⟩
  | lead hlead => cases hlead <;> cases hx
  | _ => cases hx

/-- What is entered is a list or an erased type. -/
theorem Allows.isContainer {x : ValueId} (h : r.Allows v p) (hx : x ∈ p.enters) :
    v.IsContainer x := by
  cases h with
  | listStart hn _ =>
    obtain rfl := List.mem_singleton.1 hx
    exact .list hn
  | anyStart hn _ =>
    obtain rfl := List.mem_singleton.1 hx
    exact .any hn
  | lead hlead => cases hlead <;> cases hx
  | _ => cases hx

/-- Each of the pieces may be written after the ones before it. -/
def AllowsAll (v : View) : Reading → List Piece → Prop
  | _, [] => True
  | r, p :: ps => r.Allows v p ∧ AllowsAll v (r.read p) ps

@[simp] theorem allowsAll_nil : r.AllowsAll v [] := trivial

@[simp] theorem allowsAll_cons : r.AllowsAll v (p :: ps) ↔
    r.Allows v p ∧ (r.read p).AllowsAll v ps := Iff.rfl

@[simp] theorem allowsAll_append : r.AllowsAll v (ps ++ qs) ↔
    r.AllowsAll v ps ∧ (r.reads ps).AllowsAll v qs := by
  induction ps generalizing r with
  | nil => simp
  | cons p ps ih => simp [ih, and_assoc]

theorem allowsAll_of_isLead (h : ∀ p ∈ ps, p.IsLead) : r.AllowsAll v ps := by
  induction ps with
  | nil => trivial
  | cons p ps ih =>
    have hp := h p List.mem_cons_self
    refine ⟨.lead hp, ?_⟩
    rw [read_of_isLead hp]
    exact ih fun q hq => h q (List.mem_cons_of_mem _ hq)

/-- Each piece is allowed by what was read before it. -/
theorem AllowsAll.allows (h : r.AllowsAll v ps) {pre post : List Piece}
    (heq : ps = pre ++ p :: post) : (r.reads pre).Allows v p := by
  subst heq
  exact (allowsAll_cons.1 (allowsAll_append.1 h).2).1

/-- What a reading of a graph knows: no object was opened twice, and no list or erased type is
inside itself. -/
structure Fits (v : View) (r : Reading) : Prop where
  opened : r.opened.Nodup
  active : r.active.Nodup
  objects : ∀ x ∈ r.opened, v.IsObject x
  containers : ∀ x ∈ r.active, v.IsContainer x

theorem fits_empty (v : View) : Fits v {} where
  opened := List.nodup_nil
  active := List.nodup_nil
  objects := by simp
  containers := by simp

/-- A reading fits after a piece that it allows. -/
theorem Fits.read (h : r.Fits v) (hp : r.Allows v p) : (r.read p).Fits v := by
  have hend : Fits v { r with active := r.active.tail } :=
    ⟨h.opened, h.active.tail, h.objects, fun x hx => h.containers x (List.mem_of_mem_tail hx)⟩
  have hstart : ∀ x, v.IsContainer x → x ∉ r.active → Fits v { r with active := x :: r.active } :=
    fun x hx hnew => ⟨h.opened, List.nodup_cons.2 ⟨hnew, h.active⟩, h.objects,
      List.forall_mem_cons.2 ⟨hx, h.containers⟩⟩
  cases hp with
  | objectStart hn hnew =>
    exact ⟨List.nodup_cons.2 ⟨hnew, h.opened⟩, h.active,
      List.forall_mem_cons.2 ⟨⟨_, _, hn⟩, h.objects⟩, h.containers⟩
  | lead hlead =>
    rw [read_of_isLead hlead]
    exact h
  | listStart hn hnew => exact hstart _ (.list hn) hnew
  | anyStart hn hnew => exact hstart _ (.any hn) hnew
  | listEnd => exact hend
  | anyEnd => exact hend
  | literal _ => exact h
  | objectEnd _ => exact h
  | backReference _ _ => exact h
  | cut _ _ => exact h

theorem Fits.reads (h : r.Fits v) (hps : r.AllowsAll v ps) : (r.reads ps).Fits v := by
  induction ps generalizing r with
  | nil => exact h
  | cons p ps ih => exact ih (h.read hps.1) hps.2

/-- The values that were begun are different nodes of the graph. -/
theorem Fits.length_known_le (h : r.Fits v) : r.known.length ≤ v.nodes.size := by
  apply Arena.length_le_of_nodup
  · -- An object is neither a list nor an erased type.
    refine List.nodup_append'.2 ⟨h.opened, h.active, fun x hx hx' => ?_⟩
    exact (h.containers x hx').not_isObject (h.objects x hx)
  · intro x hx
    rcases List.mem_append.1 hx with hx | hx
    · obtain ⟨cls, fields, hn⟩ := h.objects x hx
      exact Arena.node?_lt hn
    · cases h.containers x hx with
      | list hn => exact Arena.node?_lt hn
      | any hn => exact Arena.node?_lt hn

end Reading

/-! ## Written forms -/

namespace View

/-- A value that is written as one piece: a literal, an object that was opened before, or a list or
erased type inside itself. -/
inductive Brief (v : View) (r : Reading) (x : ValueId) : Piece → Prop
  | literal {l : Literal} : v.node? x = some (.literal l) → Brief v r x (.literal l)
  | backReference {cls : Name} {fields : List ValueId} : v.node? x = some (.object cls fields) →
      x ∈ r.opened → Brief v r x (.backReference x (v.names.text cls))
  | cut : v.IsContainer x → x ∈ r.active → Brief v r x (.cut x)

/-- A value that is written in full: the first piece, what it contains in order, the last piece. -/
inductive Full (v : View) (r : Reading) (x : ValueId) :
    Piece → List (List Piece × ValueId) → Piece → Prop
  | object {cls : Name} {fields : List ValueId} : v.node? x = some (.object cls fields) →
      x ∉ r.opened → Full v r x (.objectStart x (v.names.text cls)) (v.labelled cls fields)
        (.objectEnd fields.length)
  | list {elem : Ty} {elements : List ValueId} : v.node? x = some (.list elem elements) →
      x ∉ r.active → Full v r x (.listStart x) (separated elements) .listEnd
  | any {payload : ValueId} : v.node? x = some (.any payload) → x ∉ r.active →
      Full v r x (.anyStart x) [([], payload)] .anyEnd

/-- The written form of some values in order, each behind the pieces that lead to it. -/
inductive Written (v : View) : Reading → List (List Piece × ValueId) → List Piece → Prop
  | nil {r : Reading} : Written v r [] []
  | brief {r : Reading} {lead : List Piece} {c : ValueId} {rest : List (List Piece × ValueId)}
      {p : Piece} {ps : List Piece} :
      v.Brief r (v.nodes.resolve c) p → Written v r rest ps →
      Written v r ((lead, c) :: rest) (lead ++ p :: ps)
  | full {r : Reading} {lead : List Piece} {c : ValueId} {rest inside : List (List Piece × ValueId)}
      {start stop : Piece} {ps qs : List Piece} :
      v.Full r (v.nodes.resolve c) start inside stop → Written v (r.read start) inside qs →
      Written v (((r.read start).reads qs).read stop) rest ps →
      Written v r ((lead, c) :: rest) (lead ++ start :: (qs ++ stop :: ps))

variable {v : View} {r : Reading} {x y : ValueId} {p start stop : Piece} {ps qs : List Piece}
  {inside children : List (List Piece × ValueId)}

/-! ### One value -/

theorem Brief.read_eq (h : v.Brief r x p) : r.read p = r := by
  cases h <;> rfl

theorem Brief.allows (h : v.Brief r x p) : r.Allows v p := by
  cases h with
  | literal hn => exact .literal hn
  | backReference hn hx => exact .backReference hn hx
  | cut hn hx => exact .cut hn hx

theorem Brief.starts_eq (h : v.Brief r x p) : p.starts = [] := by
  cases h <;> rfl

theorem Full.allows (h : v.Full r x start inside stop) : r.Allows v start := by
  cases h with
  | object hn hx => exact .objectStart hn hx
  | list hn hx => exact .listStart hn hx
  | any hn hx => exact .anyStart hn hx

theorem Full.allows_stop (h : v.Full r x start inside stop) (r' : Reading) : r'.Allows v stop := by
  cases h with
  | object _ _ => exact .objectEnd _
  | list _ _ => exact .listEnd
  | any _ _ => exact .anyEnd

theorem Full.starts_eq (h : v.Full r x start inside stop) : start.starts = [x] := by
  cases h <;> rfl

theorem Full.starts_stop (h : v.Full r x start inside stop) : stop.starts = [] := by
  cases h <;> rfl

theorem Full.known_read (h : v.Full r x start inside stop) :
    ∀ y ∈ (r.read start).known, y = x ∨ y ∈ r.known := by
  cases h <;> simp [Reading.read, Reading.known, or_left_comm]

/-- The value that is written is the one whose node holds what stands inside. -/
theorem Full.children_eq (h : v.Full r x start inside stop) :
    ∃ n, v.node? x = some n ∧ inside.map Prod.snd = n.children := by
  cases h with
  | object hn _ => exact ⟨_, hn, by simp [labelled, Node.children, Function.comp_def]⟩
  | list hn _ => exact ⟨_, hn, by simp [separated, Node.children, Function.comp_def]⟩
  | any hn _ => exact ⟨_, hn, rfl⟩

theorem Full.leading (h : v.Full r x start inside stop) : Leading inside := by
  cases h with
  | object _ _ =>
    intro c hc p hp
    simp only [labelled, List.mem_map] at hc
    obtain ⟨⟨field, position⟩, -, rfl⟩ := hc
    obtain rfl := List.mem_singleton.1 hp
    exact .label _ _
  | list _ _ =>
    intro c hc p hp
    simp only [separated, List.mem_map] at hc
    obtain ⟨⟨element, position⟩, -, rfl⟩ := hc
    dsimp only at hp
    split at hp
    · cases hp
    · obtain rfl := List.mem_singleton.1 hp
      exact .separator
  | any _ _ => simp [Leading]

/-- After the last piece of a value the lists and erased types are those before the first one, if
what stands inside leaves them as they are. -/
theorem Full.active_read (h : v.Full r x start inside stop) {r' : Reading}
    (heq : r'.active = (r.read start).active) : (r'.read stop).active = r.active := by
  cases h <;> simp_all [Reading.read]

/-! ### Some values -/

/-- Whatever is written leaves the lists and erased types that are being written as they are. -/
theorem Written.active_reads (h : v.Written r children ps) (hlead : Leading children) :
    (r.reads ps).active = r.active := by
  induction h with
  | nil => rfl
  | brief hbrief _ ih =>
    obtain ⟨hl, hrest⟩ := List.forall_mem_cons.1 hlead
    rw [Reading.reads_append, Reading.reads_of_isLead hl, Reading.reads_cons, hbrief.read_eq]
    exact ih hrest
  | full hfull _ _ ihinside ihrest =>
    obtain ⟨hl, hrest⟩ := List.forall_mem_cons.1 hlead
    simp only [Reading.reads_append, Reading.reads_of_isLead hl, Reading.reads_cons]
    rw [ihrest hrest]
    exact hfull.active_read (ihinside hfull.leading)

/-- Each piece of a written form is allowed by the ones before it. -/
theorem Written.allowed (h : v.Written r children ps) (hlead : Leading children) :
    r.AllowsAll v ps := by
  induction h with
  | nil => trivial
  | brief hbrief _ ih =>
    obtain ⟨hl, hrest⟩ := List.forall_mem_cons.1 hlead
    simp only [Reading.allowsAll_append, Reading.allowsAll_cons, Reading.reads_of_isLead hl,
      hbrief.read_eq]
    exact ⟨Reading.allowsAll_of_isLead hl, hbrief.allows, ih hrest⟩
  | full hfull _ _ ihinside ihrest =>
    obtain ⟨hl, hrest⟩ := List.forall_mem_cons.1 hlead
    simp only [Reading.allowsAll_append, Reading.allowsAll_cons, Reading.reads_of_isLead hl]
    exact ⟨Reading.allowsAll_of_isLead hl, hfull.allows, ihinside hfull.leading,
      hfull.allows_stop _, ihrest hrest⟩

/-- Only values that the written ones lead to are begun: whatever property the written values have
and references pass on, every value that is begun has it. -/
theorem Written.leadsTo (h : v.Written r children ps) (hlead : Leading children)
    {Q : ValueId → Prop} (hclosed : ∀ {x y : ValueId}, Q x → v.nodes.Refers x y → Q y)
    (hQ : ∀ c ∈ children, Q (v.nodes.resolve c.2)) : ∀ x ∈ ps.flatMap Piece.starts, Q x := by
  induction h with
  | nil => simp
  | brief hbrief _ ih =>
    obtain ⟨hl, hrest⟩ := List.forall_mem_cons.1 hlead
    have htail := ih hrest (List.forall_mem_cons.1 hQ).2
    simpa [starts_of_isLead hl, hbrief.starts_eq] using htail
  | full hfull _ _ ihinside ihrest =>
    obtain ⟨hl, hrest⟩ := List.forall_mem_cons.1 hlead
    obtain ⟨hx, hQrest⟩ := List.forall_mem_cons.1 hQ
    have htail := ihrest hrest hQrest
    -- What stands inside are the references of the value that is written.
    have hinside := ihinside hfull.leading fun c hc => by
      obtain ⟨n, hn, hchildren⟩ := hfull.children_eq
      refine hclosed hx ⟨n, hn, c.2, ?_, rfl⟩
      rw [← hchildren]
      exact List.mem_map_of_mem hc
    intro y hy
    simp only [List.flatMap_append, List.flatMap_cons, starts_of_isLead hl, hfull.starts_eq,
      hfull.starts_stop, List.nil_append, List.cons_append, List.mem_cons, List.mem_append] at hy
    rcases hy with rfl | hy | hy
    · exact hx
    · exact hinside y hy
    · exact htail y hy

/-- A value that is a literal or among those that were begun. -/
def Shown (v : View) (begun : List ValueId) (x : ValueId) : Prop :=
  (∃ l, v.node? x = some (.literal l)) ∨ x ∈ begun

theorem Shown.mono {xs ys : List ValueId} (h : v.Shown xs x) (hsub : ∀ y ∈ xs, y ∈ ys) :
    v.Shown ys x :=
  h.imp_right (hsub x)

theorem Brief.shown (h : v.Brief r x p) : v.Shown r.known x := by
  cases h with
  | literal hn => exact .inl ⟨_, hn⟩
  | backReference _ hx => exact .inr (List.mem_append_left _ hx)
  | cut _ hx => exact .inr (List.mem_append_right _ hx)

/-- Everything that is written is shown, and so is everything that a value refers to that is begun:
a back reference or a cut hides nothing that is not begun elsewhere. -/
theorem Written.covers (h : v.Written r children ps) (hlead : Leading children) :
    (∀ c ∈ children, v.Shown (r.known ++ ps.flatMap Piece.starts) (v.nodes.resolve c.2)) ∧
    ∀ x ∈ ps.flatMap Piece.starts, ∀ y, v.nodes.Refers x y →
      v.Shown (r.known ++ ps.flatMap Piece.starts) y := by
  induction h with
  | nil => simp
  | brief hbrief _ ih =>
    obtain ⟨hl, hrest⟩ := List.forall_mem_cons.1 hlead
    obtain ⟨hchildren, hbegun⟩ := ih hrest
    simp only [List.flatMap_append, List.flatMap_cons, starts_of_isLead hl, hbrief.starts_eq,
      List.nil_append]
    refine ⟨List.forall_mem_cons.2 ⟨?_, hchildren⟩, hbegun⟩
    exact hbrief.shown.mono fun y hy => List.mem_append_left _ hy
  | @full r lead c rest inside start stop ps qs hfull hinside hrest' ihinside ihrest =>
    obtain ⟨hl, hrest⟩ := List.forall_mem_cons.1 hlead
    obtain ⟨hin, hinbegun⟩ := ihinside hfull.leading
    obtain ⟨hchildren, hbegun⟩ := ihrest hrest
    simp only [List.flatMap_append, List.flatMap_cons, starts_of_isLead hl, hfull.starts_eq,
      hfull.starts_stop, List.nil_append, List.cons_append]
    -- What was begun inside, or after it, was begun before or is begun by this value.
    have hinner : ∀ z ∈ (r.read start).known ++ qs.flatMap Piece.starts,
        z ∈ r.known ++
          v.nodes.resolve c :: (qs.flatMap Piece.starts ++ ps.flatMap Piece.starts) := by
      intro z hz
      have := hfull.known_read z
      grind
    have hafter : ∀ z ∈ (((r.read start).reads qs).read stop).known ++ ps.flatMap Piece.starts,
        z ∈ r.known ++
          v.nodes.resolve c :: (qs.flatMap Piece.starts ++ ps.flatMap Piece.starts) := by
      intro z hz
      have hactive : (r.reads (start :: (qs ++ [stop]))).active = r.active := by
        simp only [Reading.reads_cons, Reading.reads_append, Reading.reads_nil]
        exact hfull.active_read (hinside.active_reads hfull.leading)
      have := @Reading.mem_known_reads r (start :: (qs ++ [stop])) z hactive
      simp only [Reading.reads_cons, Reading.reads_append, Reading.reads_nil, List.flatMap_cons,
        List.flatMap_append, hfull.starts_eq, hfull.starts_stop, List.flatMap_nil] at this
      grind
    refine ⟨List.forall_mem_cons.2 ⟨.inr (by simp), fun d hd => (hchildren d hd).mono hafter⟩, ?_⟩
    intro x hx y hxy
    simp only [List.mem_cons, List.mem_append] at hx
    rcases hx with rfl | hx | hx
    · -- The references of the value itself stand inside.
      obtain ⟨n, hn, hns⟩ := hfull.children_eq
      obtain ⟨m, hm, d, hd, rfl⟩ := hxy
      obtain rfl : n = m := Option.some.inj (hn.symm.trans hm)
      rw [← hns] at hd
      obtain ⟨e, he, rfl⟩ := List.mem_map.1 hd
      exact (hin e he).mono hinner
    · exact (hinbegun x hx y hxy).mono hinner
    · exact (hbegun x hx y hxy).mono hafter

/-- A value that is begun is written in full, with what it contains in written form. -/
theorem Written.exists_inside (h : v.Written r children ps) (hlead : Leading children) :
    ∀ x ∈ ps.flatMap Piece.starts, ∃ pre start inside qs stop post,
      ps = pre ++ start :: (qs ++ stop :: post) ∧ v.Full (r.reads pre) x start inside stop ∧
        v.Written ((r.reads pre).read start) inside qs := by
  induction h with
  | nil => simp
  | @brief r lead c rest p ps hbrief _ ih =>
    obtain ⟨hl, hrest⟩ := List.forall_mem_cons.1 hlead
    intro x hx
    simp only [List.flatMap_append, List.flatMap_cons, starts_of_isLead hl, hbrief.starts_eq,
      List.nil_append] at hx
    obtain ⟨pre, start, inside, qs, stop, post, rfl, hfull, hqs⟩ := ih hrest x hx
    have hpre : r.reads (lead ++ p :: pre) = r.reads pre := by
      simp [Reading.reads_of_isLead hl, hbrief.read_eq]
    refine ⟨lead ++ p :: pre, start, inside, qs, stop, post, by simp, ?_, ?_⟩
    · rwa [hpre]
    · rwa [hpre]
  | @full r lead c rest inside start stop ps qs hfull hinside _ ihinside ihrest =>
    obtain ⟨hl, hrest⟩ := List.forall_mem_cons.1 hlead
    intro x hx
    simp only [List.flatMap_append, List.flatMap_cons, starts_of_isLead hl, hfull.starts_eq,
      hfull.starts_stop, List.nil_append, List.cons_append, List.mem_cons, List.mem_append] at hx
    rcases hx with rfl | hx | hx
    · refine ⟨lead, start, inside, qs, stop, ps, rfl, ?_, ?_⟩
      · rwa [Reading.reads_of_isLead hl]
      · rwa [Reading.reads_of_isLead hl]
    · -- The value is begun inside: what comes before it there is behind the first piece.
      obtain ⟨pre, start', inside', qs', stop', post, rfl, hfull', hqs'⟩ :=
        ihinside hfull.leading x hx
      have hpre : r.reads (lead ++ start :: pre) = (r.read start).reads pre := by
        simp [Reading.reads_of_isLead hl]
      refine ⟨lead ++ start :: pre, start', inside', qs', stop', post ++ stop :: ps, by simp,
        ?_, ?_⟩
      · rwa [hpre]
      · rwa [hpre]
    · -- The value is begun later, behind the last piece.
      obtain ⟨pre, start', inside', qs', stop', post, rfl, hfull', hqs'⟩ := ihrest hrest x hx
      have hpre : r.reads (lead ++ start :: (qs ++ stop :: pre)) =
          (((r.read start).reads qs).read stop).reads pre := by
        simp [Reading.reads_of_isLead hl]
      refine ⟨lead ++ start :: (qs ++ stop :: pre), start', inside', qs', stop', post, by simp,
        ?_, ?_⟩
      · rwa [hpre]
      · rwa [hpre]

/-- The objects that are opened are the objects among the values that are begun. -/
theorem Written.mem_opens_iff (h : v.Written r children ps) (hlead : Leading children) :
    x ∈ ps.flatMap Piece.opens ↔ v.IsObject x ∧ x ∈ ps.flatMap Piece.starts := by
  simp only [List.mem_flatMap, Piece.starts, List.mem_append]
  constructor
  · rintro ⟨p, hp, hx⟩
    obtain ⟨pre, post, heq⟩ := List.append_of_mem hp
    exact ⟨((h.allowed hlead).allows heq).isObject hx, p, hp, Or.inl hx⟩
  · rintro ⟨hobject, p, hp, hx | hx⟩
    · exact ⟨p, hp, hx⟩
    · obtain ⟨pre, post, heq⟩ := List.append_of_mem hp
      exact absurd hobject (((h.allowed hlead).allows heq).isContainer hx).not_isObject

/-! ### One written form -/

theorem Brief.unique {q : Piece} (h : v.Brief r x p) (h' : v.Brief r x q) : p = q := by
  rcases h with ⟨hn⟩ | ⟨hn, hx⟩ | ⟨⟨hn⟩ | ⟨hn⟩, hx⟩ <;>
    rcases h' with ⟨hn'⟩ | ⟨hn', hx'⟩ | ⟨⟨hn'⟩ | ⟨hn'⟩, hx'⟩ <;> simp_all

theorem Full.unique {start' stop' : Piece} {inside' : List (List Piece × ValueId)}
    (h : v.Full r x start inside stop) (h' : v.Full r x start' inside' stop') :
    start = start' ∧ inside = inside' ∧ stop = stop' := by
  cases h <;> cases h' <;> simp_all

theorem Brief.not_full (h : v.Brief r x p) : ¬ v.Full r x start inside stop := by
  intro h'
  rcases h with ⟨hn⟩ | ⟨hn, hx⟩ | ⟨⟨hn⟩ | ⟨hn⟩, hx⟩ <;> cases h' <;> simp_all

/-- Values have one written form. -/
theorem Written.unique {qs : List Piece} (h : v.Written r children ps)
    (h' : v.Written r children qs) : ps = qs := by
  induction h generalizing qs with
  | nil =>
    cases h'
    rfl
  | brief hbrief _ ih =>
    cases h' with
    | brief hbrief' hrest' => rw [hbrief.unique hbrief', ih hrest']
    | full hfull' _ _ => exact absurd hfull' hbrief.not_full
  | full hfull _ _ ihinside ihrest =>
    cases h' with
    | brief hbrief' _ => exact absurd hfull hbrief'.not_full
    | full hfull' hinside' hrest' =>
      obtain ⟨rfl, rfl, rfl⟩ := hfull.unique hfull'
      obtain rfl := ihinside hinside'
      rw [ihrest hrest']

end View

end ObjectModel
