import ObjectModel.Proofs.Reordering.Pairing

/-!
# Paired requests

Paired instructions ask for the same when they start, and paired tasks ask for the same at paired
values (`Pairing.Frames.start`, `Pairing.Values.resume`), unless the reference refuses. Nothing but
the shape of a value, its class or element type and its children is read for that.
-/

set_option autoImplicit false

namespace ObjectModel

variable {env : Environment} {ref : Reference env} {p q : Pairing ref}

/-- A moved instruction builds what it built before. -/
theorem Instr.builds_move (σ : Equiv.Perm ℕ) (i : Instr) : (i.move σ).builds = i.builds := by
  cases i <;> rfl

theorem Instr.creates_move (σ : Equiv.Perm ℕ) (i : Instr) : (i.move σ).creates = i.creates := by
  cases i <;> rfl

namespace Pairing

/-- Two tasks that do the same with what they wait for. -/
inductive Tasks (p : Pairing ref) : Task → Task → Prop
  | forward : Tasks p .forward .forward
  | project (field : Name) (path : List Name) : Tasks p (.project field path) (.project field path)
  | concat {seen seen' rest rest' : List ValueId} : List.Forall₂ p.Values seen seen' →
      List.Forall₂ p.Locals rest rest' → Tasks p (.concat seen rest) (.concat seen' rest')
  | left (op : IntOp) {rhs rhs' : ValueId} : p.Locals rhs rhs' →
      Tasks p (.left op rhs) (.left op rhs')
  | right (op : IntOp) {lhs lhs' : ValueId} : p.Values lhs lhs' →
      Tasks p (.right op lhs) (.right op lhs')

/-- Two requests for the same. -/
inductive Requests (p : Pairing ref) : Request → Request → Prop
  | await {t t' : Task} {x y : ValueId} : p.Tasks t t' → p.Locals x y →
      Requests p (.await t x) (.await t' y)
  | produce {n m : Node} : n.Alike p.Locals m → Requests p (.produce n) (.produce m)
  | forward {v w : ValueId} : p.Values v w → Requests p (.forward v) (.forward w)
  | create (target : Name) {xs ys : List ValueId} : List.Forall₂ p.Locals xs ys →
      Requests p (.create target xs) (.create target ys)

theorem Tasks.mono {t t' : Task} (h : p.Tasks t t') (hpq : p.Extends q) : q.Tasks t t' := by
  cases h with
  | forward => exact .forward
  | project field path => exact .project field path
  | concat hseen hrest =>
    exact .concat (hseen.imp fun _ _ hv => hv.mono hpq) (hrest.imp fun _ _ hx => hx.mono hpq)
  | left op hx => exact .left op (hx.mono hpq)
  | right op hv => exact .right op (hv.mono hpq)

theorem Tasks.narrows {t t' : Task} (h : p.Tasks t t') : t'.narrows = t.narrows := by
  cases h <;> rfl

/-! ## Starting an instruction -/

/-- An instruction asks for the same at its two places. -/
theorem Frames.start {j k : ℕ} {f g : Frame} (h : p.Frames j k f g) (hp : p.Aligned) {i : Instr}
    (hi : i ∈ f.cls.instrs)
    (hne : ∀ e, g.start ref.env' (i.move (ref.order f.cls.name)) ≠ .fail e) :
    p.Requests (f.start env i) (g.start ref.env' (i.move (ref.order f.cls.name))) := by
  have hstarts : f.Starts env i (f.start env i) :=
    Frame.starts_start (hp.sound.layout.params_size h.left) hi
  generalize f.start env i = req at hstarts
  -- Moving an instruction renames its operands, and the renamed ones are the partners.
  cases hstarts with
  | constant l => exact .produce (.literal l)
  | object hxs =>
    obtain ⟨ys, hys, hall⟩ := h.locals? hp hxs
    rw [Instr.move, Frame.start, hys]
    exact .create _ hall
  | value hx =>
    obtain ⟨y, hy, hxy⟩ := h.local? hp hx
    rw [Instr.move, Frame.start, hy]
    exact .await .forward hxy
  | project hx =>
    obtain ⟨y, hy, hxy⟩ := h.local? hp hx
    rw [Instr.move, Frame.start, hy]
    exact .await (.project _ _) hxy
  | list hxs =>
    obtain ⟨ys, hys, hall⟩ := h.locals? hp hxs
    rw [Instr.move, Frame.start, hys]
    exact .produce (.list hall)
  | concat hxs =>
    obtain ⟨ys, hys, hall⟩ := h.locals? hp hxs
    rw [Instr.move, Frame.start, hys]
    cases hall with
    | cons hx hrest => exact .await (.concat .nil hrest) hx
  | any hx =>
    obtain ⟨y, hy, hxy⟩ := h.local? hp hx
    rw [Instr.move, Frame.start, hy]
    exact .produce (.any hxy)
  | binary hl hr =>
    obtain ⟨l, hl', hll⟩ := h.local? hp hl
    obtain ⟨r, hr', hrr⟩ := h.local? hp hr
    rw [Instr.move, Frame.start, hl']
    show p.Requests _ (Request.about (g.local? _) _)
    rw [hr']
    exact .await (.left _ hrr) hll
  | unknown op => exact absurd rfl (hne _)

/-! ## Reading paired values -/

namespace Values

variable {v w : ValueId}

theorem intAt (h : p.Values v w) {i : IntLit} (hi : ref.session.nodes.intAt w = .ok i) :
    p.session.nodes.intAt v = .ok i := by
  obtain ⟨n, m, hv, hw, halike⟩ := h.nodes
  rw [Arena.intAt_eq_ok_iff] at hi ⊢
  rw [hw] at hi
  cases hi
  cases halike with
  | literal l => exact hv

theorem listAt (h : p.Values v w) {l' : TypedList}
    (hl : ref.session.nodes.listAt w = .ok l') :
    ∃ l, p.session.nodes.listAt v = .ok l ∧ l.elem = l'.elem ∧
      List.Forall₂ p.Locals l.elements l'.elements := by
  obtain ⟨n, m, hv, hw, halike⟩ := h.nodes
  rw [Arena.listAt_eq_ok_iff] at hl
  rw [hw] at hl
  cases hl
  cases halike with
  | @list _ xs _ hall => exact ⟨⟨_, xs⟩, Arena.listAt_eq_ok_iff.2 hv, rfl, hall⟩

/-- A class declares its fields in one order, whatever the order of its instructions. -/
theorem fieldAt (h : p.Values v w) {field : Name} {y : ValueId}
    (hy : ref.session.nodes.fieldAt ref.env' w field = .ok y) :
    ∃ x, p.session.nodes.fieldAt env v field = .ok x ∧ p.Locals x y := by
  obtain ⟨n, m, hv, hw, halike⟩ := h.nodes
  obtain ⟨cls, ys, d, index, hobj, hd, hindex, hget⟩ := Arena.fieldAt_eq_ok_iff.1 hy
  rw [hw] at hobj
  cases hobj
  obtain ⟨c, hc, hdc⟩ := ref.classes.symm.lookup? hd
  cases halike with
  | @object _ xs _ hall =>
    obtain ⟨hlt, hget'⟩ := List.getElem?_eq_some_iff.1 hget
    have hlt' : index < xs.length := by
      rw [hall.length_eq]
      exact hlt
    refine ⟨xs[index], ?_, ?_⟩
    · refine Arena.fieldAt_eq_ok_iff.2 ⟨cls, xs, c, index, hv, hc, ?_, ?_⟩
      · rw [hdc.fieldIndex?, hindex]
      · exact List.getElem?_eq_getElem hlt'
    · rw [← hget']
      exact hall.get hlt' hlt

/-- Lists that are joined in the reference can be joined. -/
theorem listsAt {vs ws : List ValueId} (h : List.Forall₂ p.Values vs ws) {ls' : List TypedList}
    (hls : ws.mapM ref.session.nodes.listAt = .ok ls') :
    ∃ ls, vs.mapM p.session.nodes.listAt = .ok ls ∧
      List.Forall₂ (fun l l' => l.elem = l'.elem ∧ List.Forall₂ p.Locals l.elements l'.elements)
        ls ls' := by
  rw [mapM_eq_ok_iff] at hls
  induction h generalizing ls' with
  | nil =>
    cases hls
    exact ⟨[], rfl, .nil⟩
  | cons hv _ ih =>
    cases hls with
    | cons hl' hrest =>
      obtain ⟨l, hl, helem, hall⟩ := hv.listAt hl'
      obtain ⟨ls, hls, hrel⟩ := ih hrest
      refine ⟨l :: ls, ?_, .cons ⟨helem, hall⟩ hrel⟩
      rw [mapM_eq_ok_iff] at hls ⊢
      exact .cons hl hls

end Values

theorem concat_eq_ok_of_forall₂ {ls ls' : List TypedList} {l' : TypedList}
    (h : List.Forall₂ (fun l l' => l.elem = l'.elem ∧ List.Forall₂ p.Locals l.elements l'.elements)
      ls ls') (hl' : TypedList.concat ls' = .ok l') :
    ∃ l, TypedList.concat ls = .ok l ∧ l.elem = l'.elem ∧
      List.Forall₂ p.Locals l.elements l'.elements := by
  obtain ⟨hne, helem, helements⟩ := TypedList.concat_eq_ok hl'
  have helem' : ∀ l ∈ ls, l.elem = l'.elem := by
    intro l hl
    obtain ⟨l'', hmem, heq, -⟩ := exists_of_forall₂_of_mem h hl
    rw [heq, helem l'' hmem]
  cases ls with
  | nil =>
    cases h
    exact absurd rfl hne
  | cons first rest =>
    obtain ⟨l, hl⟩ := (TypedList.concat_eq_ok_iff first rest).2 fun x hx => by
      rw [helem' x (List.mem_cons_of_mem _ hx), helem' first List.mem_cons_self]
    obtain ⟨-, hsame, hjoined⟩ := TypedList.concat_eq_ok hl
    refine ⟨l, hl, ?_, ?_⟩
    · rw [← hsame first List.mem_cons_self, helem' first List.mem_cons_self]
    · rw [hjoined, helements]
      exact List.rel_flatMap h fun _ _ hll => hll.2

/-! ## Resuming a task -/

/-- A task asks for the same at two values that are paired. -/
theorem Values.resume {v w : ValueId} (h : p.Values v w) {t t' : Task} (ht : p.Tasks t t')
    (hne : ∀ e, t'.resume ref.env' ref.session.nodes w ≠ .fail e) :
    p.Requests (t.resume env p.session.nodes v)
      (t'.resume ref.env' ref.session.nodes w) := by
  have hres := Task.resumes_resume ref.env' ref.session.nodes w t'
  generalize t'.resume ref.env' ref.session.nodes w = req at hres hne
  -- What the reference reads at its value can be read at the partner of that value.
  cases hres with
  | forward =>
    cases ht
    exact .forward h
  | last hy =>
    cases ht
    obtain ⟨x, hx, hxy⟩ := h.fieldAt hy
    rw [Task.resume, hx]
    exact .await .forward hxy
  | project hy =>
    cases ht
    obtain ⟨x, hx, hxy⟩ := h.fieldAt hy
    rw [Task.resume, hx]
    exact .await (.project _ _) hxy
  | gather seen rest next =>
    cases ht with
    | concat hseen hrest =>
      cases hrest with
      | cons hx hxs =>
        refine .await (.concat ?_ hxs) hx
        exact List.rel_append hseen (.cons h .nil)
  | join hls hl =>
    cases ht with
    | concat hseen hrest =>
      cases hrest
      obtain ⟨ls, hls', hrel⟩ := Values.listsAt (List.rel_append hseen (.cons h .nil)) hls
      obtain ⟨l, hl', helem, hall⟩ := concat_eq_ok_of_forall₂ hrel hl
      rw [Task.resume, hls', Request.ofExcept, hl', Request.ofExcept, ← helem]
      exact .produce (.list hall)
  | left op rhs =>
    cases ht with
    | left _ hx => exact .await (.right op h) hx
  | operate hl hr hi =>
    cases ht with
    | right _ hlhs =>
      rw [Task.resume, hlhs.intAt hl, Request.ofExcept, h.intAt hr, Request.ofExcept, hi,
        Request.ofExcept]
      exact .produce (.literal _)
  | refuse _ => exact absurd rfl (hne _)

end Pairing

end ObjectModel
