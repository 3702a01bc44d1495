import ObjectModel.Class.Basic
import ObjectModel.Class.Error

/-!
# Class drafts

A class under construction. Parameters, fields and instructions are declared one call after the
other; a slot may be reserved and filled later, which is how an instruction refers to a later one.
`ClassDraft.finish` reports the first fault of the draft or gives the class, nothing moved: the
instruction of slot `i` is instruction `i` of the class.
-/

set_option autoImplicit false

namespace ObjectModel

/-- A call that filled a slot which was not waiting for an instruction. -/
structure Misuse where
  /-- The number of slots at the time of the call. -/
  slotCount : Nat
  target : LocalRef
deriving DecidableEq, Repr

/-- A class under construction. -/
structure ClassDraft where
  interner : InternerId
  name : Name
  params : List Decl := []
  fields : List Decl := []
  /-- One slot per instruction, empty while it is only reserved. -/
  slots : Array (Option Instr) := #[]
  /-- The locals of the last terminator. -/
  terminator : Option (List LocalRef) := none
  /-- The first misuse. -/
  misuse : Option Misuse := none

/-- What a draft can be told. -/
inductive DraftCall where
  | param (name : Name) (type : Ty)
  | field (name : Name) (type : Ty)
  /-- Add a slot with its instruction. -/
  | append (instr : Instr)
  /-- Add an empty slot. -/
  | reserve
  /-- Fill an empty slot. -/
  | fill (target : LocalRef) (instr : Instr)
  /-- Set the terminator. -/
  | yields (values : List LocalRef)
deriving DecidableEq, Repr

namespace ClassDraft

/-- Put an instruction into a reserved slot; any other target is a misuse. -/
def fill (d : ClassDraft) (target : LocalRef) (i : Instr) : ClassDraft :=
  match target with
  | .instr k =>
    if d.slots[k]? = some none then { d with slots := d.slots.setIfInBounds k (some i) }
    else { d with misuse := d.misuse.or (some ⟨d.slots.size, target⟩) }
  | .param _ => { d with misuse := d.misuse.or (some ⟨d.slots.size, target⟩) }

/-- The draft after one call. -/
def apply (d : ClassDraft) : DraftCall → ClassDraft
  | .param name type => { d with params := d.params ++ [⟨name, type⟩] }
  | .field name type => { d with fields := d.fields ++ [⟨name, type⟩] }
  | .append i => { d with slots := d.slots.push (some i) }
  | .reserve => { d with slots := d.slots.push none }
  | .fill target i => d.fill target i
  | .yields values => { d with terminator := some values }

/-- The local that a call returns: the parameter or the slot that it adds. -/
def ref? (d : ClassDraft) : DraftCall → Option LocalRef
  | .param _ _ => some (.param d.params.length)
  | .append _ => some (.instr d.slots.size)
  | .reserve => some (.instr d.slots.size)
  | _ => none

/-- The draft of a class after some calls. -/
def after (interner : InternerId) (name : Name) (calls : List DraftCall) : ClassDraft :=
  calls.foldl apply { interner, name }

end ClassDraft

/-! ## Faults -/

/-- The first name that repeats an earlier one, where `seen` has come before. -/
def firstRepeatAfter (seen : List Name) : List Name → Option Name
  | [] => none
  | n :: rest => if n ∈ seen then some n else firstRepeatAfter (n :: seen) rest

/-- The first name that repeats an earlier one. -/
def firstRepeat? (ns : List Name) : Option Name := firstRepeatAfter [] ns

theorem firstRepeatAfter_eq_none {seen ns : List Name} (h : firstRepeatAfter seen ns = none) :
    ns.Nodup ∧ ∀ n ∈ ns, n ∉ seen := by
  induction ns generalizing seen with
  | nil => simp
  | cons n rest ih =>
    rw [firstRepeatAfter] at h
    split at h
    · cases h
    · rename_i hn
      obtain ⟨hnodup, hdisj⟩ := ih h
      refine ⟨List.nodup_cons.2 ⟨fun hmem => hdisj n hmem List.mem_cons_self, hnodup⟩, ?_⟩
      intro m hm
      rcases List.mem_cons.1 hm with rfl | hm
      · exact hn
      · exact fun hs => hdisj m hm (List.mem_cons_of_mem n hs)

/-- Names without a repeat are distinct. -/
theorem nodup_of_firstRepeat?_eq_none {ns : List Name} (h : firstRepeat? ns = none) : ns.Nodup :=
  (firstRepeatAfter_eq_none h).1

/-- What can be wrong with a draft. -/
inductive DraftFault where
  | misuse (m : Misuse)
  | duplicateParam (name : Name)
  | duplicateField (name : Name)
  | undefinedSlot (index : Nat)
  | operandOutOfRange (index : Nat) (operand : LocalRef)
  | emptyConcat (index : Nat)
  | missingTerminator
  | fieldCountMismatch (declared yielded : Nat)
deriving DecidableEq, Repr

/-- The fault as a rejected class, with every name in words. -/
def DraftFault.toError (names : Interner) (cls : String) : DraftFault → ClassError
  | .misuse m => .operandOutOfRange cls m.slotCount m.target.describe
  | .duplicateParam n => .duplicateParam cls (names.text n)
  | .duplicateField n => .duplicateField cls (names.text n)
  | .undefinedSlot i => .undefinedSlot cls i
  | .operandOutOfRange i r => .operandOutOfRange cls i r.describe
  | .emptyConcat i => .emptyConcat cls i
  | .missingTerminator => .missingTerminator cls
  | .fieldCountMismatch declared yielded => .fieldCountMismatch cls declared yielded

namespace ClassDraft

/-- The first of some references that the draft does not have. -/
def missingLocal? (d : ClassDraft) (rs : List LocalRef) : Option LocalRef :=
  rs.find? fun r => !decide (r.InRange d.params.length d.slots.size)

/-- The fault of the slot at a position. -/
def slotFault? (d : ClassDraft) (index : Nat) : Option Instr → Option DraftFault
  | none => some (.undefinedSlot index)
  | some i =>
    match d.missingLocal? i.operands with
    | some r => some (.operandOutOfRange index r)
    | none => if i = .concat [] then some (.emptyConcat index) else none

/-- The first faulty slot in ascending order. -/
def bodyFault? (d : ClassDraft) : Option DraftFault :=
  d.slots.toList.zipIdx.findSome? fun (slot, index) => d.slotFault? index slot

/-- The fault of the terminator. -/
def terminatorFault? (d : ClassDraft) : Option DraftFault :=
  match d.terminator with
  | none => some .missingTerminator
  | some values =>
    if values.length = d.fields.length then
      (d.missingLocal? values).map (.operandOutOfRange d.slots.size)
    else some (.fieldCountMismatch d.fields.length values.length)

/-- The first fault of a draft: a misuse, a repeated parameter, a repeated field, a faulty slot,
and last the terminator. -/
def fault? (d : ClassDraft) : Option DraftFault :=
  (d.misuse.map .misuse).or <|
    ((firstRepeat? (d.params.map Decl.name)).map .duplicateParam).or <|
      ((firstRepeat? (d.fields.map Decl.name)).map .duplicateField).or <|
        d.bodyFault?.or d.terminatorFault?

/-- The instructions of the filled slots. -/
def instrs (d : ClassDraft) : Array Instr := d.slots.filterMap id

/-! ## Drafts without a fault -/

theorem inRange_of_missingLocal?_eq_none {d : ClassDraft} {rs : List LocalRef}
    (h : d.missingLocal? rs = none) :
    ∀ r ∈ rs, r.InRange d.params.length d.slots.size := by
  intro r hr
  simpa using List.find?_eq_none.1 h r hr

/-- A slot without a fault holds an instruction whose operands exist. -/
theorem slot_of_slotFault?_eq_none {d : ClassDraft} {index : Nat} {slot : Option Instr}
    (h : d.slotFault? index slot = none) :
    ∃ i, slot = some i ∧ (∀ r ∈ i.operands, r.InRange d.params.length d.slots.size) ∧
      i ≠ .concat [] := by
  cases slot with
  | none => simp [slotFault?] at h
  | some i =>
    simp only [slotFault?] at h
    split at h
    · cases h
    · rename_i hmissing
      refine ⟨i, rfl, inRange_of_missingLocal?_eq_none hmissing, ?_⟩
      intro hi
      simp [hi] at h

/-- A body without a fault has a faultless instruction in every slot. -/
theorem slot_of_bodyFault?_eq_none {d : ClassDraft} (h : d.bodyFault? = none) :
    ∀ slot ∈ d.slots, ∃ i, slot = some i ∧
      (∀ r ∈ i.operands, r.InRange d.params.length d.slots.size) ∧ i ≠ .concat [] := by
  intro slot hslot
  obtain ⟨k, hk, rfl⟩ := Array.mem_iff_getElem.1 hslot
  have hmem : (d.slots[k], k) ∈ d.slots.toList.zipIdx := by
    rw [List.mem_zipIdx_iff_getElem?]
    simp [hk]
  exact slot_of_slotFault?_eq_none (List.findSome?_eq_none_iff.1 h _ hmem)

/-- Without an empty slot the instructions are those of the slots, in order. -/
theorem map_some_instrs {d : ClassDraft} (h : ∀ slot ∈ d.slots, slot.isSome) :
    d.instrs.map some = d.slots := by
  have key : ∀ l : List (Option Instr), (∀ slot ∈ l, slot.isSome) →
      (l.filterMap id).map some = l := by
    intro l
    induction l with
    | nil => simp
    | cons slot rest ih =>
      intro hl
      obtain ⟨i, rfl⟩ := Option.isSome_iff_exists.1 (hl slot List.mem_cons_self)
      exact congrArg (some i :: ·) (ih fun s hs => hl s (List.mem_cons_of_mem _ hs))
  rw [← Array.toList_inj, Array.toList_map, instrs, Array.toList_filterMap]
  exact key _ fun slot hs => h slot (Array.mem_toList_iff.1 hs)

theorem size_instrs {d : ClassDraft} (h : ∀ slot ∈ d.slots, slot.isSome) :
    d.instrs.size = d.slots.size := by
  rw [← map_some_instrs h, Array.size_map]

/-- A draft without a fault has a terminator, and its parts fit together. -/
theorem valid_of_fault?_eq_none {d : ClassDraft} (h : d.fault? = none) :
    ValidBody d.params d.fields d.instrs (d.terminator.getD []) := by
  simp only [fault?, Option.or_eq_none_iff, Option.map_eq_none_iff] at h
  obtain ⟨_, hparams, hfields, hbody, hterm⟩ := h
  have hslots := slot_of_bodyFault?_eq_none hbody
  have hsize : d.instrs.size = d.slots.size :=
    size_instrs fun slot hs => by obtain ⟨i, rfl, _⟩ := hslots slot hs; rfl
  have hmem : ∀ i ∈ d.instrs, some i ∈ d.slots := by
    intro i hi
    simpa [instrs] using hi
  refine
    { params_nodup := nodup_of_firstRepeat?_eq_none hparams
      fields_nodup := nodup_of_firstRepeat?_eq_none hfields
      operands_inRange := ?_
      concat_nonempty := ?_
      yields_length := ?_
      yields_inRange := ?_ }
  · intro i hi
    obtain ⟨j, hj, hops, _⟩ := hslots _ (hmem i hi)
    cases hj
    rwa [hsize]
  · intro i hi
    obtain ⟨j, hj, _, hne⟩ := hslots _ (hmem i hi)
    cases hj
    exact hne
  · simp only [terminatorFault?] at hterm
    split at hterm
    · cases hterm
    · rename_i values hv
      split at hterm
      · simpa [hv]
      · cases hterm
  · simp only [terminatorFault?] at hterm
    split at hterm
    · cases hterm
    · rename_i values hv
      split at hterm
      · rw [hsize, hv]
        exact inRange_of_missingLocal?_eq_none (Option.map_eq_none_iff.1 hterm)
      · cases hterm

/-- The class that a draft describes, or the error for its first fault. -/
def finish (d : ClassDraft) (names : Interner) : Except ClassError ClassDef :=
  match h : d.fault? with
  | some fault => .error (fault.toError names (names.text d.name))
  | none =>
    .ok
      { interner := d.interner
        name := d.name
        params := d.params
        fields := d.fields
        instrs := d.instrs
        yields := d.terminator.getD []
        valid := valid_of_fault?_eq_none h }

end ClassDraft

end ObjectModel
