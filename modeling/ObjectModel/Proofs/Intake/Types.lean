import ObjectModel.Proofs.Intake.Tracing
import ObjectModel.Proofs.Independence.Parameters

/-!
# Types of parameters

The type of a parameter is that of the value behind its erased types (`Workspace.RuntimeType`), with
class names that its own graph reads. A declared type admits it if class types with the same text
are taken for one class (`Ty.Admits`). The type that an intake reports is the same, with the names of
the table (`Intake.Traces.translates_runtimeType`). Names that were issued have the same texts,
whatever was copied and interned before (`Workspace.Translates.same`), so a declared type accepts the
one exactly if it admits the other (`Ty.Same.accepts_iff_admits`).
-/

set_option autoImplicit false

namespace ObjectModel

/-! ## Types under two interners -/

namespace Ty

/-- Whether a value of type `found` may be bound where `declared` stands, the class names in the two
types read by two interners: `any` admits every type, `integer` every exact width, lists are
covariant, and a class admits a class of the same text. -/
def Admits (t u : Interner) : (declared found : Ty) → Prop
  | .any, _ => True
  | .integer, .int _ => True
  | .list a, .list b => a.Admits t u b
  | .cls n, .cls m => t.text n = u.text m
  | a, b => a = b

variable {t t' u u' : Interner} {a b c : Ty}

/-- A type without class names is the same everywhere. -/
theorem same_of_names_eq_nil (h : a.names = []) : a.Same t u a :=
  same_of_shares fun n hn => absurd hn (by simp [h])

/-- A type of a name that was issued for the text of another one is that type. -/
theorem same_cls {n m : Name} (hn : t.Issued n) (hm : u.Issued m) (h : u.text m = t.text n) :
    (Ty.cls n).Same t u (.cls m) := by
  obtain ⟨hcarries, hcarry⟩ := Interner.carries_of_text hn hm h
  refine ⟨fun k hk => ?_, ?_⟩
  · rw [List.mem_singleton.1 hk]
    exact hcarries
  · rw [rename, hcarry]

theorem Same.list (h : a.Same t u b) : (Ty.list a).Same t u (.list b) :=
  ⟨h.carried, congrArg Ty.list h.eq⟩

/-- The same type stays so when both interners have issued more names. -/
theorem Same.mono (h : a.Same t u b) (ht : t.Extends t') (hu : u.Extends u') : a.Same t' u' b := by
  refine ⟨fun n hn => ((h.carried n hn).mono ht hu).1, ?_⟩
  rw [h.eq]
  exact rename_congr fun n hn => ((h.carried n hn).mono ht hu).2.symm

/-- The same type was so before other names were issued. -/
theorem Same.of_extends (h : a.Same t' u b) (ht : t.Extends t')
    (ha : ∀ n ∈ a.names, t.Issued n) : a.Same t u b := by
  have hcarries : ∀ n ∈ a.names, t.Carries u n ∧ t.carry u n = t'.carry u n := by
    intro n hn
    have hcarried := h.carried n hn
    exact Interner.carries_of_text (ha n hn) hcarried.text_carry.1
      (hcarried.text_carry.2.trans (ht n (ha n hn)).2)
  refine ⟨fun n hn => (hcarries n hn).1, ?_⟩
  rw [h.eq]
  exact rename_congr fun n hn => (hcarries n hn).2.symm

/-- A declared type accepts the copy of a type exactly if it admits the type itself. -/
theorem Same.accepts_iff_admits (h : b.Same u t c) (ha : ∀ n ∈ a.names, t.Issued n) :
    a.accepts c = true ↔ a.Admits t u b := by
  obtain ⟨hcarried, rfl⟩ := h
  -- The rules of both follow the declared type; only class types are compared in two ways.
  induction a generalizing b with
  | any => simp [any_accepts, Admits]
  | list elem ih =>
    cases b with
    | list elem' =>
      rw [rename, list_accepts_list]
      exact ih ha hcarried
    | _ => simp [rename, Ty.accepts, Admits]
  | cls n =>
    cases b with
    | cls m =>
      have hm := (hcarried m List.mem_cons_self).text_carry
      have hn := ha n List.mem_cons_self
      simp only [rename, Ty.accepts, beq_iff_eq, cls.injEq, Admits]
      rw [← Interner.text_inj hn hm.1, hm.2]
    | _ => simp [rename, Ty.accepts, Admits]
  | _ => cases b <;> simp [rename, Ty.accepts, Admits]

/-- Issued names are compared alike when more of them have been issued. -/
theorem admits_iff_of_extends (ht : t.Extends t') (hu : u.Extends u')
    (ha : ∀ n ∈ a.names, t.Issued n) (hb : ∀ n ∈ b.names, u.Issued n) :
    a.Admits t' u' b ↔ a.Admits t u b := by
  induction a generalizing b with
  | list elem ih =>
    cases b with
    | list elem' => exact ih ha hb
    | _ => exact Iff.rfl
  | cls n =>
    cases b with
    | cls m =>
      simp only [Admits, (ht n (ha n List.mem_cons_self)).2, (hu m (hb m List.mem_cons_self)).2]
    | _ => exact Iff.rfl
  | _ => cases b <;> exact Iff.rfl

end Ty

theorem Literal.names_type (l : Literal) : l.type.names = [] := by
  cases l <;> rfl

/-- The class names in the type of a node are those of the node. -/
theorem Node.names_type (n : Node) : n.type.names = n.names := by
  cases n with
  | literal l => exact l.names_type
  | _ => rfl

/-! ## Types of values -/

/-- The type of a value, in the names of its graph: that of the first value behind its erased types,
or that of an erased type if they loop. -/
inductive Workspace.RuntimeType (w : Workspace) (v : Value) : Ty → Prop
  | behind {k : ℕ} {u : ValueId} {n : Node} :
      (w.graph v.graph).nodes.Narrows (fun _ => True) k v.id u →
      (w.graph v.graph).nodes.node? u = some n → RuntimeType w v n.type
  | loops : (w.graph v.graph).nodes.Loops v.id → RuntimeType w v .any

namespace Workspace

variable {w w' : Workspace} {target : TableId} {source : Option TableId} {v : Value} {ty ty' : Ty}

/-- A value has one type at most. -/
theorem RuntimeType.unique (h : w.RuntimeType v ty) (h' : w.RuntimeType v ty') : ty = ty' := by
  cases h with
  | behind hn hnode =>
    cases h' with
    | behind hn' hnode' =>
      obtain ⟨-, rfl⟩ := hn.unique hn'
      rw [Option.some.inj (hnode.symm.trans hnode')]
    | loops hloops => exact absurd hn hloops.not_narrows
  | loops hloops =>
    cases h' with
    | behind hn' _ => exact absurd hn' hloops.not_narrows
    | loops _ => rfl

/-- Every value has a type. -/
theorem Whole.exists_runtimeType (h : w.Whole) (hv : w.Holds v) : ∃ ty, w.RuntimeType v ty := by
  rcases (h v.graph).narrows_or_loops hv with ⟨k, u, hn⟩ | hloops
  · obtain ⟨n, hnode, -⟩ := hn.isValue
    exact ⟨_, .behind hn hnode⟩
  · exact ⟨_, .loops hloops⟩

/-- The names in the type of a value are names of its graph. -/
theorem RuntimeType.issued (h : w.RuntimeType v ty) {t : Interner}
    (hg : (w.graph v.graph).Issued t) : ∀ n ∈ ty.names, t.Issued n := by
  cases h with
  | @behind k u n _ hnode =>
    rw [Node.names_type]
    exact Node.issued_iff.1 (hg u n hnode)
  | loops _ => simp [Ty.names]

/-- A translated element type is the type of the graph, with names of the same texts. -/
theorem Knows.same_translateType (hw : w.Knows target)
    (hty : ∀ n ∈ ty.names, (w.tableNames (source.getD target)).Issued n) :
    ty.Same (w.tableNames (source.getD target))
      ((w.translateType target source ty).2.tableNames target)
      (w.translateType target source ty).1 := by
  by_cases hsource : source.getD target = target
  · rw [Parallel.translateType_eq_self w hsource]
    rw [hsource] at hty ⊢
    exact Ty.same_of_shares fun n hn => ⟨hty n hn, hty n hn, rfl⟩
  · obtain ⟨t, rfl⟩ : ∃ t, source = some t := by
      cases source with
      | none => exact absurd rfl hsource
      | some t => exact ⟨t, rfl⟩
    change ¬ t = target at hsource
    induction ty with
    | cls n =>
      have hfst := text_fst_intern hw.interner ((w.tableNames t).text n)
      rw [translateType, if_neg hsource]
      exact Ty.same_cls (hty n List.mem_cons_self) hfst.1 hfst.2
    | list elem ih => exact (ih hty).list
    | _ => exact Ty.same_of_names_eq_nil rfl

end Workspace

/-! ## Types of copies -/

/-- A type of a graph with the names that stand for it in a table. A workspace between the two has
interned them. -/
inductive Workspace.Translates (w w' : Workspace) (target : TableId) (source : Option TableId)
    (ty : Ty) : Ty → Prop
  | intro {w₁ : Workspace} : w.Keeps w₁ → (w₁.translateType target source ty).2.Keeps w' →
      Translates w w' target source ty (w₁.translateType target source ty).1

variable {w w' w₀ : Workspace} {target : TableId} {source : Option TableId}
  {copies : Index Value ValueId} {g : GraphId} {n m : Node} {intake : Intake} {v : Value}
  {id : ValueId} {ty found : Ty}

theorem Workspace.Translates.keeps (h : w.Translates w' target source ty found) : w.Keeps w' := by
  cases h with
  | intro hk hk' => exact (hk.trans (.translateType _ target source ty)).trans hk'

/-- A translated type of issued names has the same texts. -/
theorem Workspace.Translates.same (h : w.Translates w' target source ty found)
    (hknows : w.Knows target) (hty : ∀ n ∈ ty.names, (w.tableNames (source.getD target)).Issued n) :
    ty.Same (w.tableNames (source.getD target)) (w'.tableNames target) found := by
  cases h with
  | intro hk hk' =>
    have hextends := hk.extends (source.getD target)
    have hsame := (hk.knows hknows).same_translateType fun n hn => (hextends n (hty n hn)).1
    -- The names were translated on the way, and none has changed since then.
    exact (hsame.mono (.refl _) (hk'.extends target)).of_extends hextends hty

/-- The class of an object is translated like a type, although no name is interned for it: the table
has one of the same text. -/
theorem Workspace.translateType_cls {n m : Name} (h : w.translateClass target source n = .ok m) :
    w.translateType target source (.cls n) = (.cls m, w) := by
  cases source with
  | none => cases h
  | some t =>
    by_cases heq : t = target
    · have hsource : (some t).getD target = target := heq
      rw [translateClass, if_pos heq] at h
      cases h
      exact Parallel.translateType_eq_self w hsource _
    · simp only [translateClass, if_neg heq] at h
      split at h
      · rename_i c hc
        cases h
        obtain ⟨m, hm, hlookup⟩ := Option.bind_eq_some_iff.1 hc
        obtain ⟨-, rfl⟩ := ClassTable.of_lookup?_eq_some hlookup
        obtain ⟨hissued, htext⟩ := Interner.issued_of_get? hm
        rw [translateType, if_neg heq, ← htext, tableNames, intern_text hissued]
      · cases h

/-- The type of a copy is that of its original, with the names that were translated for it. -/
theorem CopyOf.translateType_type (h : CopyOf w target copies g n m) :
    w.translateType target (w.graph g).table n.type =
      (m.type, (copyNode w target copies g n).1) := by
  cases h with
  | literal l => cases l <;> rfl
  | object hcls _ => exact Workspace.translateType_cls hcls
  | list _ => rfl
  | any _ => rfl

namespace Intake

/-- The type that is reported for a copied value is the type of the value, with names of the
table. -/
theorem Traces.translates_runtimeType (h : Traces w₀ w target intake)
    (hid : intake.copies.get? v = some id) (hty : w₀.RuntimeType v ty) :
    w₀.Translates w target (w₀.graph v.graph).table ty (intake.runtimeType id) := by
  cases hty with
  | @behind k u n hnarrows hnode =>
    have hvalue : (w₀.graph v.graph).nodes.IsValue v.id := (h.complete v.graph).value hid
    obtain ⟨c, hc, hcopy⟩ := h.narrows hnarrows (c := id) (by rw [hvalue.resolve]; exact hid)
    obtain ⟨w₁, n', m, hk, hk', hn', hm, hform⟩ := h.form hc
    cases Option.some.inj (hnode.symm.trans hn')
    have htype := hform.translateType_type
    rw [hk.graph] at htype
    have htranslates : w₀.Translates w target (w₀.graph v.graph).table n.type
        (w₁.translateType target (w₀.graph v.graph).table n.type).1 :=
      .intro hk (by rw [htype]; exact hk')
    rwa [htype, ← runtimeType_of_narrows hcopy hm] at htranslates
  | loops hloops =>
    have hcopy := h.loops hid hloops
    have hvalue := h.order.nodes.isValue (h.order.copies hid)
    rw [runtimeType_of_loops (by rwa [hvalue.resolve])]
    exact .intro h.keeps (.refl w)

end Intake

end ObjectModel
