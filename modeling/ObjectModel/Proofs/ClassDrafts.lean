import Mathlib.Data.List.Induction
import ObjectModel.Class.Draft
import ObjectModel.Proofs.Traversal

/-!
# Class drafts and their calls

What a sequence of calls describes, read off the calls themselves: the parameters and fields that
they declare, the instruction that they supply for each slot (`DraftCall.Supplies`) and the locals
that they yield last. A draft records just that (`ClassDraft.Records`), so it is finished to the
class that its calls describe if they are acceptable (`DraftCall.Accepted`), and refused for their
first fault if not (`DraftCall.FirstFault`): this is `ClassDraft.finish_after`.
-/

set_option autoImplicit false

namespace ObjectModel

namespace DraftCall

/-! ## What calls say -/

/-- The parameter that a call declares. -/
def param? : DraftCall → Option Decl
  | .param name type => some ⟨name, type⟩
  | _ => none

/-- The field that a call declares. -/
def field? : DraftCall → Option Decl
  | .field name type => some ⟨name, type⟩
  | _ => none

/-- Whether a call adds a slot. -/
def addsSlot : DraftCall → Bool
  | .append _ => true
  | .reserve => true
  | _ => false

/-- The locals that a call yields. -/
def yields? : DraftCall → Option (List LocalRef)
  | .yields values => some values
  | _ => none

/-- The parameters that some calls declare, in order. -/
def params (calls : List DraftCall) : List Decl := calls.filterMap param?

/-- The fields that some calls declare, in order. -/
def fields (calls : List DraftCall) : List Decl := calls.filterMap field?

/-- How many slots some calls add. -/
def slotCount (calls : List DraftCall) : ℕ := calls.countP addsSlot

/-- The locals that the last terminator yields. -/
def terminator? (calls : List DraftCall) : Option (List LocalRef) :=
  (calls.filterMap yields?).getLast?

/-- Slot `k` is reserved and not filled. -/
def Waits (calls : List DraftCall) (k : ℕ) : Prop :=
  ∃ before rest, calls = before ++ .reserve :: rest ∧ slotCount before = k ∧
    ∀ i, .fill (.instr k) i ∉ rest

/-- The instruction of slot `k`: that of the call which added the slot, or that of the first call
which filled it. -/
inductive Supplies (calls : List DraftCall) (k : ℕ) (i : Instr) : Prop
  | append {before rest : List DraftCall} : calls = before ++ .append i :: rest →
      slotCount before = k → Supplies calls k i
  | fill {before rest : List DraftCall} : calls = before ++ .fill (.instr k) i :: rest →
      Waits before k → Supplies calls k i

/-- What a call may not fill after these ones: a parameter, a slot that is not there, or a slot that
has its instruction. -/
inductive Misused (calls : List DraftCall) : LocalRef → Prop
  | param (index : ℕ) : Misused calls (.param index)
  | absent {k : ℕ} : slotCount calls ≤ k → Misused calls (.instr k)
  | filled {k : ℕ} {i : Instr} : Supplies calls k i → Misused calls (.instr k)

/-- Every call that fills something fills a slot which waits. -/
def WellFilled (calls : List DraftCall) : Prop :=
  ∀ before target i rest, calls = before ++ .fill target i :: rest → ¬ Misused before target

/-- The first call that fills what it may not. -/
def FirstMisuse (calls : List DraftCall) (m : Misuse) : Prop :=
  ∃ before i rest, calls = before ++ .fill m.target i :: rest ∧ WellFilled before ∧
    Misused before m.target ∧ m.slotCount = slotCount before

/-- A local of the class that some calls describe, however early it is referred to. -/
def Has (calls : List DraftCall) (r : LocalRef) : Prop :=
  r.InRange (params calls).length (slotCount calls)

/-- Slot `k` has an instruction, with operands that are there and with a list if it joins lists. -/
def SlotSound (calls : List DraftCall) (k : ℕ) : Prop :=
  ∃ i, Supplies calls k i ∧ (∀ r ∈ i.operands, Has calls r) ∧ i ≠ .concat []

/-- Slots are filled as they should be, and no two parameters and no two fields share a name. -/
structure Declared (calls : List DraftCall) : Prop where
  wellFilled : WellFilled calls
  params_nodup : ((params calls).map Decl.name).Nodup
  fields_nodup : ((fields calls).map Decl.name).Nodup

/-- The calls describe a class. -/
structure Accepted (calls : List DraftCall) : Prop extends Declared calls where
  slots : ∀ k < slotCount calls, SlotSound calls k
  terminator : ∃ values, terminator? calls = some values ∧
    values.length = (fields calls).length ∧ ∀ r ∈ values, Has calls r

/-! ## The first fault -/

/-- The first name that occurs before. -/
def FirstRepeat (ns : List Name) (n : Name) : Prop :=
  ∃ before rest, ns = before ++ n :: rest ∧ n ∈ before ∧ before.Nodup

/-- The first of some references that is none to a local of the class. -/
def FirstMissing (calls : List DraftCall) (rs : List LocalRef) (r : LocalRef) : Prop :=
  ∃ before rest, rs = before ++ r :: rest ∧ ¬ Has calls r ∧ ∀ b ∈ before, Has calls b

/-- What is wrong with slot `k`. -/
inductive SlotFault (calls : List DraftCall) (k : ℕ) : DraftFault → Prop
  | undefined : Waits calls k → SlotFault calls k (.undefinedSlot k)
  | operand {i : Instr} {r : LocalRef} : Supplies calls k i → FirstMissing calls i.operands r →
      SlotFault calls k (.operandOutOfRange k r)
  | emptyConcat : Supplies calls k (.concat []) → SlotFault calls k (.emptyConcat k)

/-- What is wrong with the terminator. Its locals are those of an instruction after the last one. -/
inductive TerminatorFault (calls : List DraftCall) : DraftFault → Prop
  | missing : terminator? calls = none → TerminatorFault calls .missingTerminator
  | count {values : List LocalRef} : terminator? calls = some values →
      values.length ≠ (fields calls).length →
      TerminatorFault calls (.fieldCountMismatch (fields calls).length values.length)
  | operand {values : List LocalRef} {r : LocalRef} : terminator? calls = some values →
      values.length = (fields calls).length → FirstMissing calls values r →
      TerminatorFault calls (.operandOutOfRange (slotCount calls) r)

/-- The first fault of some calls: a misuse, then a repeated parameter, then a repeated field, then
the first faulty slot, and the terminator last. -/
inductive FirstFault (calls : List DraftCall) : DraftFault → Prop
  | misuse {m : Misuse} : FirstMisuse calls m → FirstFault calls (.misuse m)
  | param {n : Name} : WellFilled calls → FirstRepeat ((params calls).map Decl.name) n →
      FirstFault calls (.duplicateParam n)
  | field {n : Name} : WellFilled calls → ((params calls).map Decl.name).Nodup →
      FirstRepeat ((fields calls).map Decl.name) n → FirstFault calls (.duplicateField n)
  | slot {k : ℕ} {fault : DraftFault} : Declared calls → (∀ j < k, SlotSound calls j) →
      SlotFault calls k fault → FirstFault calls fault
  | terminator {fault : DraftFault} : Declared calls →
      (∀ j < slotCount calls, SlotSound calls j) → TerminatorFault calls fault →
      FirstFault calls fault

/-! ## One more call -/

variable {calls : List DraftCall} {c : DraftCall} {k : ℕ} {i : Instr}

theorem params_concat : params (calls ++ [c]) = params calls ++ c.param?.toList := by
  rw [params, params, List.filterMap_append]
  cases hc : c.param? <;> simp [hc]

theorem fields_concat : fields (calls ++ [c]) = fields calls ++ c.field?.toList := by
  rw [fields, fields, List.filterMap_append]
  cases hc : c.field? <;> simp [hc]

theorem slotCount_concat :
    slotCount (calls ++ [c]) = slotCount calls + if c.addsSlot then 1 else 0 := by
  rw [slotCount, slotCount, List.countP_append, List.countP_singleton]

theorem terminator?_concat : terminator? (calls ++ [c]) = c.yields?.or (terminator? calls) := by
  rw [terminator?, terminator?, List.filterMap_append]
  cases hc : c.yields? <;> simp [hc]

theorem waits_concat : Waits (calls ++ [c]) k ↔
    (c = .reserve ∧ slotCount calls = k) ∨ (Waits calls k ∧ ∀ i, c ≠ .fill (.instr k) i) := by
  constructor
  · rintro ⟨before, rest, hcalls, hk, hfill⟩
    rcases concat_eq_append_cons_iff.1 hcalls with ⟨rfl, rfl, -⟩ | ⟨rest', rfl, rfl⟩
    · exact Or.inl ⟨rfl, hk⟩
    · refine Or.inr ⟨⟨before, rest', rfl, hk, fun i hi => hfill i (List.mem_append_left _ hi)⟩, ?_⟩
      rintro i rfl
      exact hfill i (List.mem_append_right _ List.mem_cons_self)
  · rintro (⟨rfl, hk⟩ | ⟨⟨before, rest, rfl, hk, hfill⟩, hc⟩)
    · exact ⟨calls, [], rfl, hk, fun i => List.not_mem_nil⟩
    · refine ⟨before, rest ++ [c], by simp, hk, fun i hi => ?_⟩
      rcases List.mem_append.1 hi with hi | hi
      · exact hfill i hi
      · exact hc i (List.mem_singleton.1 hi).symm

theorem supplies_concat : Supplies (calls ++ [c]) k i ↔
    Supplies calls k i ∨ (c = .append i ∧ slotCount calls = k) ∨
      (c = .fill (.instr k) i ∧ Waits calls k) := by
  constructor
  · rintro (⟨hcalls, hk⟩ | ⟨hcalls, hwaits⟩)
    · rcases concat_eq_append_cons_iff.1 hcalls with ⟨rfl, rfl, -⟩ | ⟨rest', -, rfl⟩
      · exact Or.inr (Or.inl ⟨rfl, hk⟩)
      · exact Or.inl (.append rfl hk)
    · rcases concat_eq_append_cons_iff.1 hcalls with ⟨rfl, rfl, -⟩ | ⟨rest', -, rfl⟩
      · exact Or.inr (Or.inr ⟨rfl, hwaits⟩)
      · exact Or.inl (.fill rfl hwaits)
  · rintro ((⟨rfl, hk⟩ | ⟨rfl, hwaits⟩) | ⟨rfl, hk⟩ | ⟨rfl, hwaits⟩)
    · exact .append (List.append_assoc _ _ _) hk
    · exact .fill (List.append_assoc _ _ _) hwaits
    · exact .append rfl hk
    · exact .fill rfl hwaits

theorem wellFilled_concat : WellFilled (calls ++ [c]) ↔
    WellFilled calls ∧ ∀ target i, c = .fill target i → ¬ Misused calls target := by
  constructor
  · intro h
    refine ⟨?_, ?_⟩
    · rintro before target i rest rfl
      exact h before target i (rest ++ [c]) (by simp)
    · rintro target i rfl
      exact h calls target i [] rfl
  · rintro ⟨hcalls, hc⟩ before target i rest heq
    rcases concat_eq_append_cons_iff.1 heq with ⟨rfl, rfl, -⟩ | ⟨rest', -, rfl⟩
    · exact hc target i rfl
    · exact hcalls before target i rest' rfl

theorem firstMisuse_concat {m : Misuse} : FirstMisuse (calls ++ [c]) m ↔
    FirstMisuse calls m ∨ (WellFilled calls ∧ ∃ i, c = .fill m.target i ∧
      Misused calls m.target ∧ m.slotCount = slotCount calls) := by
  constructor
  · rintro ⟨before, i, rest, heq, hfilled, hmisused, hcount⟩
    rcases concat_eq_append_cons_iff.1 heq with ⟨rfl, rfl, -⟩ | ⟨rest', -, rfl⟩
    · exact Or.inr ⟨hfilled, i, rfl, hmisused, hcount⟩
    · exact Or.inl ⟨before, i, rest', rfl, hfilled, hmisused, hcount⟩
  · rintro (⟨before, i, rest, rfl, hfilled, hmisused, hcount⟩ |
      ⟨hfilled, i, rfl, hmisused, hcount⟩)
    · exact ⟨before, i, rest ++ [c], by simp, hfilled, hmisused, hcount⟩
    · exact ⟨calls, i, [], rfl, hfilled, hmisused, hcount⟩

end DraftCall

/-! ## What a draft records -/

namespace ClassDraft

open DraftCall

/-- A draft has what its calls say. -/
structure Records (d : ClassDraft) (calls : List DraftCall) : Prop where
  params : d.params = DraftCall.params calls
  fields : d.fields = DraftCall.fields calls
  size : d.slots.size = slotCount calls
  empty_iff : ∀ {k : ℕ}, d.slots[k]? = some none ↔ Waits calls k
  filled_iff : ∀ {k : ℕ} {i : Instr}, d.slots[k]? = some (some i) ↔ Supplies calls k i
  terminator : d.terminator = terminator? calls
  misuse_iff : ∀ {m : Misuse}, d.misuse = some m ↔ FirstMisuse calls m
  not_misuse_iff : d.misuse = none ↔ WellFilled calls

theorem records_empty (interner : InternerId) (name : Name) :
    Records { interner, name } [] where
  params := rfl
  fields := rfl
  size := rfl
  empty_iff := by
    intro k
    simp [Waits]
  filled_iff := by
    intro k i
    refine ⟨fun h => by simp at h, ?_⟩
    rintro (⟨h, -⟩ | ⟨h, -⟩) <;> simp at h
  terminator := rfl
  misuse_iff := by
    intro m
    simp [FirstMisuse]
  not_misuse_iff := by simp [WellFilled]

variable {d : ClassDraft} {calls : List DraftCall}

namespace Records

/-- A slot that is there and has no instruction waits for one. -/
theorem misused_iff (h : d.Records calls) {target : LocalRef} :
    Misused calls target ↔ ∀ k, target = .instr k → d.slots[k]? ≠ some none := by
  constructor
  · rintro hm k rfl hk
    cases hm with
    | absent hle =>
      rw [← h.size] at hle
      rw [Array.getElem?_eq_none hle] at hk
      cases hk
    | filled hs =>
      rw [h.filled_iff.2 hs] at hk
      cases hk
  · intro hne
    cases target with
    | param index => exact .param index
    | instr k =>
      cases hk : d.slots[k]? with
      | none =>
        refine .absent ?_
        rw [← h.size]
        exact Array.getElem?_eq_none_iff.1 hk
      | some slot =>
        cases slot with
        | none => exact absurd hk (hne k rfl)
        | some i => exact .filled (h.filled_iff.1 hk)

/-- A call that neither adds a slot nor fills one leaves the slots as they are. -/
theorem of_slots (h : d.Records calls) {d' : ClassDraft} {c : DraftCall}
    (hadds : c.addsSlot = false) (hfill : ∀ target i, c ≠ .fill target i)
    (hslots : d'.slots = d.slots) (hmisuse : d'.misuse = d.misuse)
    (hparams : d'.params = d.params ++ c.param?.toList)
    (hfields : d'.fields = d.fields ++ c.field?.toList)
    (hterminator : d'.terminator = c.yields?.or d.terminator) : d'.Records (calls ++ [c]) where
  params := by rw [hparams, h.params, params_concat]
  fields := by rw [hfields, h.fields, fields_concat]
  size := by rw [hslots, h.size, slotCount_concat, hadds]; rfl
  empty_iff := by
    intro k
    have hreserve : c ≠ .reserve := by
      rintro rfl
      cases hadds
    rw [hslots, h.empty_iff, waits_concat]
    simp [hreserve, hfill]
  filled_iff := by
    intro k i
    have happend : c ≠ .append i := by
      rintro rfl
      cases hadds
    rw [hslots, h.filled_iff, supplies_concat]
    simp [happend, hfill]
  terminator := by rw [hterminator, h.terminator, terminator?_concat]
  misuse_iff := by
    intro m
    rw [hmisuse, h.misuse_iff, firstMisuse_concat]
    simp [hfill]
  not_misuse_iff := by
    rw [hmisuse, h.not_misuse_iff, wellFilled_concat]
    simp [hfill]

/-- The calls so far say nothing about the next slot. -/
theorem not_waits (h : d.Records calls) : ¬ Waits calls (slotCount calls) := by
  rw [← h.empty_iff, ← h.size, Array.getElem?_eq_none (Nat.le_refl _)]
  simp

theorem not_supplies (h : d.Records calls) {i : Instr} :
    ¬ Supplies calls (slotCount calls) i := by
  rw [← h.filled_iff, ← h.size, Array.getElem?_eq_none (Nat.le_refl _)]
  simp

/-- A call that adds a slot adds it behind the others. -/
theorem push (h : d.Records calls) (slot : Option Instr) {c : DraftCall}
    (hc : c = slot.elim .reserve .append) :
    { d with slots := d.slots.push slot }.Records (calls ++ [c]) where
  params := by cases slot <;> cases hc <;> rw [h.params, params_concat] <;> simp [param?]
  fields := by cases slot <;> cases hc <;> rw [h.fields, fields_concat] <;> simp [field?]
  size := by
    cases slot <;> cases hc <;> rw [Array.size_push, h.size, slotCount_concat] <;> rfl
  empty_iff := by
    intro k
    rw [Array.getElem?_push, h.size, waits_concat]
    by_cases hk : k = slotCount calls
    · have hnot := h.not_waits
      rw [← hk] at hnot
      cases slot <;> simp [hc, hk.symm, hnot]
    · cases slot <;> simp [hc, hk, Ne.symm hk, h.empty_iff]
  filled_iff := by
    intro k i
    rw [Array.getElem?_push, h.size, supplies_concat]
    by_cases hk : k = slotCount calls
    · have hnot := h.not_supplies (i := i)
      rw [← hk] at hnot
      cases slot <;> simp [hc, hk.symm, hnot, eq_comm]
    · cases slot <;> simp [hc, hk, Ne.symm hk, h.filled_iff]
  terminator := by
    cases slot <;> cases hc <;> rw [h.terminator, terminator?_concat] <;> rfl
  misuse_iff := by
    intro m
    rw [h.misuse_iff, firstMisuse_concat]
    cases slot <;> simp [hc]
  not_misuse_iff := by
    rw [h.not_misuse_iff, wellFilled_concat]
    cases slot <;> simp [hc]

/-- A call that fills a slot which waits gives it its instruction. -/
theorem fill (h : d.Records calls) {k : ℕ} {i : Instr} (hk : d.slots[k]? = some none) :
    { d with slots := d.slots.setIfInBounds k (some i) }.Records
      (calls ++ [DraftCall.fill (.instr k) i]) where
  params := by rw [h.params, params_concat]; simp [param?]
  fields := by rw [h.fields, fields_concat]; simp [field?]
  size := by rw [Array.size_setIfInBounds, h.size, slotCount_concat]; rfl
  empty_iff := by
    intro j
    have hlt := (Array.getElem?_eq_some_iff.1 hk).1
    rw [Array.getElem?_setIfInBounds, waits_concat]
    by_cases hj : k = j
    · subst hj
      simp [hlt]
    · simp [hj, h.empty_iff]
  filled_iff := by
    intro j i'
    have hlt := (Array.getElem?_eq_some_iff.1 hk).1
    rw [Array.getElem?_setIfInBounds, supplies_concat]
    by_cases hj : k = j
    · subst hj
      have hnot : ¬ Supplies calls k i' := by
        rw [← h.filled_iff, hk]
        simp
      simp [hlt, hnot, h.empty_iff.1 hk]
    · simp [hj, h.filled_iff]
  terminator := by rw [h.terminator, terminator?_concat]; rfl
  misuse_iff := by
    intro m
    have hmisused : ¬ Misused calls (.instr k) := fun hm => h.misused_iff.1 hm k rfl hk
    rw [h.misuse_iff, firstMisuse_concat]
    constructor
    · exact Or.inl
    · rintro (hm | ⟨-, i', heq, hm, -⟩)
      · exact hm
      · rw [← (DraftCall.fill.inj heq).1] at hm
        exact absurd hm hmisused
  not_misuse_iff := by
    have hmisused : ¬ Misused calls (.instr k) := fun hm => h.misused_iff.1 hm k rfl hk
    rw [h.not_misuse_iff, wellFilled_concat]
    refine ⟨fun hw => ⟨hw, ?_⟩, And.left⟩
    rintro target i' heq
    cases heq
    exact hmisused

/-- A call that fills anything else is a misuse, of which the draft keeps the first. -/
theorem misuse (h : d.Records calls) {target : LocalRef} {i : Instr}
    (hm : Misused calls target) :
    { d with misuse := d.misuse.or (some ⟨d.slots.size, target⟩) }.Records
      (calls ++ [DraftCall.fill target i]) where
  params := by rw [h.params, params_concat]; simp [param?]
  fields := by rw [h.fields, fields_concat]; simp [field?]
  size := by rw [h.size, slotCount_concat]; rfl
  empty_iff := by
    intro k
    rw [waits_concat, ← h.empty_iff]
    constructor
    · intro hk
      exact Or.inr ⟨hk, fun i' heq => h.misused_iff.1 hm k (DraftCall.fill.inj heq).1 hk⟩
    · rintro (⟨hc, -⟩ | ⟨hk, -⟩)
      · cases hc
      · exact hk
  filled_iff := by
    intro k i'
    rw [supplies_concat, ← h.filled_iff, ← h.empty_iff]
    constructor
    · exact Or.inl
    · rintro (hk | ⟨hc, -⟩ | ⟨hc, hk⟩)
      · exact hk
      · cases hc
      · exact absurd hk (h.misused_iff.1 hm k (DraftCall.fill.inj hc).1)
  terminator := by rw [h.terminator, terminator?_concat]; rfl
  misuse_iff := by
    intro m
    rw [Option.or_eq_some_iff, h.misuse_iff, h.not_misuse_iff, h.size, firstMisuse_concat]
    constructor
    · rintro (hfirst | ⟨hfilled, heq⟩)
      · exact Or.inl hfirst
      · cases heq
        exact Or.inr ⟨hfilled, i, rfl, hm, rfl⟩
    · rintro (hfirst | ⟨hfilled, i', heq, -, hcount⟩)
      · exact Or.inl hfirst
      · obtain ⟨count, target'⟩ := m
        cases heq
        cases hcount
        exact Or.inr ⟨hfilled, rfl⟩
  not_misuse_iff := by
    rw [wellFilled_concat, Option.or_eq_none_iff]
    constructor
    · rintro ⟨-, h⟩
      cases h
    · rintro ⟨-, hc⟩
      exact absurd hm (hc target i rfl)

/-- A draft that is told one more call goes on recording. -/
theorem apply (h : d.Records calls) (c : DraftCall) : (d.apply c).Records (calls ++ [c]) := by
  cases c with
  | param name type =>
    exact h.of_slots rfl (fun _ _ => nofun) rfl rfl rfl (List.append_nil _).symm rfl
  | field name type =>
    exact h.of_slots rfl (fun _ _ => nofun) rfl rfl (List.append_nil _).symm rfl rfl
  | yields values =>
    exact h.of_slots rfl (fun _ _ => nofun) rfl rfl (List.append_nil _).symm
      (List.append_nil _).symm rfl
  | append i => exact h.push (some i) rfl
  | reserve => exact h.push none rfl
  | fill target i =>
    cases target with
    | param index => exact h.misuse (.param index)
    | instr k =>
      rw [ClassDraft.apply, ClassDraft.fill]
      split
      · rename_i hk
        exact h.fill hk
      · rename_i hk
        refine h.misuse (h.misused_iff.2 fun k' heq => ?_)
        cases heq
        exact hk

end Records

/-- A draft has what its calls say. -/
theorem records_after (interner : InternerId) (name : Name) (calls : List DraftCall) :
    (after interner name calls).Records calls := by
  induction calls using List.reverseRecOn with
  | nil => exact records_empty interner name
  | append_singleton calls c ih =>
    rw [after, List.foldl_append]
    exact ih.apply c

end ClassDraft

/-! ## Faults -/

theorem firstRepeatAfter_eq_some_iff {seen ns : List Name} {n : Name} :
    firstRepeatAfter seen ns = some n ↔ ∃ before rest, ns = before ++ n :: rest ∧
      (n ∈ seen ∨ n ∈ before) ∧ before.Nodup ∧ ∀ b ∈ before, b ∉ seen := by
  induction ns generalizing seen with
  | nil => simp [firstRepeatAfter]
  | cons m ns ih =>
    rw [firstRepeatAfter]
    split
    · rename_i hm
      -- The first name was seen already, so nothing stands before the repeat.
      constructor
      · rintro ⟨⟩
        exact ⟨[], ns, rfl, Or.inl hm, List.nodup_nil, fun _ hb => absurd hb List.not_mem_nil⟩
      · rintro ⟨before, rest, heq, -, -, hseen⟩
        cases before with
        | nil => rw [List.head_eq_of_cons_eq heq]
        | cons b before =>
          rw [List.head_eq_of_cons_eq heq] at hm
          exact absurd hm (hseen b List.mem_cons_self)
    · rename_i hm
      -- The first name is new. What was seen for the rest is what was seen before and this name.
      rw [ih]
      constructor
      · rintro ⟨before, rest, rfl, hn, hnodup, hseen⟩
        refine ⟨m :: before, rest, rfl, ?_, List.nodup_cons.2 ⟨?_, hnodup⟩, ?_⟩
        · rw [List.mem_cons] at hn ⊢
          exact (or_assoc.1 hn).elim (Or.inr ∘ Or.inl) (Or.imp_right Or.inr)
        · exact fun hmem => hseen m hmem List.mem_cons_self
        · intro b hb
          rcases List.mem_cons.1 hb with rfl | hb
          · exact hm
          · exact fun hs => hseen b hb (List.mem_cons_of_mem _ hs)
      · rintro ⟨before, rest, heq, hn, hnodup, hseen⟩
        cases before with
        | nil =>
          cases heq
          simp [hm] at hn
        | cons b before =>
          cases heq
          obtain ⟨hnot, hnodup⟩ := List.nodup_cons.1 hnodup
          refine ⟨before, rest, rfl, ?_, hnodup, ?_⟩
          · rw [List.mem_cons] at hn ⊢
            exact or_assoc.2 (or_left_comm.1 hn)
          · intro b hb hs
            rcases List.mem_cons.1 hs with rfl | hs
            · exact hnot hb
            · exact hseen b (List.mem_cons_of_mem _ hb) hs

theorem firstRepeat?_eq_some_iff {ns : List Name} {n : Name} :
    firstRepeat? ns = some n ↔ DraftCall.FirstRepeat ns n := by
  rw [firstRepeat?, firstRepeatAfter_eq_some_iff]
  simp [DraftCall.FirstRepeat]

theorem firstRepeat?_eq_none_iff {ns : List Name} : firstRepeat? ns = none ↔ ns.Nodup := by
  refine ⟨nodup_of_firstRepeat?_eq_none, fun hnodup => ?_⟩
  cases h : firstRepeat? ns with
  | none => rfl
  | some n =>
    obtain ⟨before, rest, rfl, hn, -⟩ := firstRepeat?_eq_some_iff.1 h
    exact absurd rfl ((List.nodup_append.1 hnodup).2.2 n hn n List.mem_cons_self)

/-- A draft without a fault has no empty slot. -/
theorem ClassDraft.isSome_of_fault?_eq_none {d : ClassDraft} (h : d.fault? = none) :
    ∀ slot ∈ d.slots, slot.isSome := by
  simp only [fault?, Option.or_eq_none_iff] at h
  intro slot hslot
  obtain ⟨i, rfl, -⟩ := slot_of_bodyFault?_eq_none h.2.2.2.1 slot hslot
  rfl

namespace ClassDraft.Records

open DraftCall

variable {d : ClassDraft} {calls : List DraftCall} (h : d.Records calls) {k : ℕ}
  {slot : Option Instr} {fault : DraftFault}
include h

theorem has_iff {r : LocalRef} : r.InRange d.params.length d.slots.size ↔ Has calls r := by
  rw [Has, h.params, h.size]

theorem missingLocal?_eq_some_iff {rs : List LocalRef} {r : LocalRef} :
    d.missingLocal? rs = some r ↔ FirstMissing calls rs r := by
  rw [missingLocal?, List.find?_eq_some_iff_append]
  simp only [h.has_iff, FirstMissing, Bool.not_eq_true', decide_eq_false_iff_not,
    Bool.not_not, decide_eq_true_eq]
  constructor
  · rintro ⟨hr, before, rest, rfl, hbefore⟩
    exact ⟨before, rest, rfl, hr, hbefore⟩
  · rintro ⟨before, rest, rfl, hr, hbefore⟩
    exact ⟨hr, before, rest, rfl, hbefore⟩

theorem missingLocal?_eq_none_iff {rs : List LocalRef} :
    d.missingLocal? rs = none ↔ ∀ r ∈ rs, Has calls r := by
  simp [missingLocal?, List.find?_eq_none, h.has_iff]

/-- A slot has no fault if it is sound. -/
theorem slotFault?_eq_none_iff (hk : d.slots[k]? = some slot) :
    d.slotFault? k slot = none ↔ SlotSound calls k := by
  constructor
  · intro hnone
    obtain ⟨i, rfl, hops, hne⟩ := slot_of_slotFault?_eq_none hnone
    exact ⟨i, h.filled_iff.1 hk, fun r hr => h.has_iff.1 (hops r hr), hne⟩
  · rintro ⟨i, hi, hops, hne⟩
    rw [← h.filled_iff, hk] at hi
    cases hi
    simp only [slotFault?, h.missingLocal?_eq_none_iff.2 hops, if_neg hne]

theorem slotFault?_eq_some_iff (hk : d.slots[k]? = some slot) :
    d.slotFault? k slot = some fault ↔ SlotFault calls k fault := by
  -- What stands in the slot leaves one kind of fault, or two that are looked for in order.
  cases slot with
  | none =>
    have hwaits := h.empty_iff.1 hk
    constructor
    · rintro ⟨⟩
      exact .undefined hwaits
    · intro hfault
      cases hfault with
      | undefined _ => rfl
      | operand hi _ =>
        rw [← h.filled_iff, hk] at hi
        cases hi
      | emptyConcat hi =>
        rw [← h.filled_iff, hk] at hi
        cases hi
  | some i =>
    have hsupplies := h.filled_iff.1 hk
    rw [slotFault?]
    constructor
    · intro hfault
      split at hfault
      · rename_i r hr
        cases hfault
        exact .operand hsupplies (h.missingLocal?_eq_some_iff.1 hr)
      · split at hfault
        · rename_i hi
          cases hfault
          rw [hi] at hsupplies
          exact .emptyConcat hsupplies
        · cases hfault
    · intro hfault
      cases hfault with
      | undefined hwaits =>
        rw [← h.empty_iff, hk] at hwaits
        cases hwaits
      | operand hi hr =>
        rw [← h.filled_iff, hk] at hi
        cases hi
        rw [h.missingLocal?_eq_some_iff.2 hr]
      | emptyConcat hi =>
        rw [← h.filled_iff, hk] at hi
        cases hi
        rfl

/-- A faulty slot is there. -/
theorem exists_of_slotFault (hfault : SlotFault calls k fault) :
    ∃ slot, d.slots[k]? = some slot := by
  cases hfault with
  | undefined hwaits => exact ⟨_, h.empty_iff.2 hwaits⟩
  | operand hi _ => exact ⟨_, h.filled_iff.2 hi⟩
  | emptyConcat hi => exact ⟨_, h.filled_iff.2 hi⟩

/-- The fault of the body is that of the first slot which is not sound. -/
theorem bodyFault?_eq_some_iff :
    d.bodyFault? = some fault ↔ ∃ k, (∀ j < k, SlotSound calls j) ∧ SlotFault calls k fault := by
  rw [bodyFault?, findSome?_zipIdx_eq_some_iff]
  simp only [Array.getElem?_toList]
  constructor
  · rintro ⟨k, slot, hk, hfault, hbefore⟩
    refine ⟨k, fun j hj => ?_, (h.slotFault?_eq_some_iff hk).1 hfault⟩
    have hlt := Nat.lt_trans hj (Array.getElem?_eq_some_iff.1 hk).1
    have hget := Array.getElem?_eq_getElem hlt
    exact (h.slotFault?_eq_none_iff hget).1 (hbefore j hj _ hget)
  · rintro ⟨k, hbefore, hfault⟩
    obtain ⟨slot, hk⟩ := h.exists_of_slotFault hfault
    exact ⟨k, slot, hk, (h.slotFault?_eq_some_iff hk).2 hfault,
      fun j hj slot' hj' => (h.slotFault?_eq_none_iff hj').2 (hbefore j hj)⟩

theorem bodyFault?_eq_none_iff :
    d.bodyFault? = none ↔ ∀ k < slotCount calls, SlotSound calls k := by
  constructor
  · intro hnone k hk
    rw [← h.size] at hk
    obtain ⟨i, hi, hops, hne⟩ :=
      slot_of_bodyFault?_eq_none hnone _ (Array.getElem_mem hk)
    have hget := Array.getElem?_eq_getElem hk
    rw [hi] at hget
    exact ⟨i, h.filled_iff.1 hget, fun r hr => h.has_iff.1 (hops r hr), hne⟩
  · intro hsound
    cases hfault : d.bodyFault? with
    | none => rfl
    | some fault =>
      obtain ⟨k, -, hslot⟩ := h.bodyFault?_eq_some_iff.1 hfault
      obtain ⟨slot, hk⟩ := h.exists_of_slotFault hslot
      have hlt := (Array.getElem?_eq_some_iff.1 hk).1
      rw [h.size] at hlt
      have hnone := (h.slotFault?_eq_none_iff hk).2 (hsound k hlt)
      rw [(h.slotFault?_eq_some_iff hk).2 hslot] at hnone
      cases hnone

theorem terminatorFault?_eq_some_iff :
    d.terminatorFault? = some fault ↔ TerminatorFault calls fault := by
  rw [terminatorFault?, h.terminator, h.fields, h.size]
  constructor
  · intro hfault
    split at hfault
    · rename_i hnone
      cases hfault
      exact .missing hnone
    · rename_i values hvalues
      split at hfault
      · rename_i hlength
        obtain ⟨r, hr, rfl⟩ := Option.map_eq_some_iff.1 hfault
        exact .operand hvalues hlength (h.missingLocal?_eq_some_iff.1 hr)
      · rename_i hlength
        cases hfault
        exact .count hvalues hlength
  · intro hfault
    cases hfault with
    | missing hnone => rw [hnone]
    | count hvalues hlength =>
      rw [hvalues]
      exact if_neg hlength
    | operand hvalues hlength hr =>
      rw [hvalues]
      dsimp only
      rw [if_pos hlength, h.missingLocal?_eq_some_iff.2 hr]
      rfl

theorem terminatorFault?_eq_none_iff : d.terminatorFault? = none ↔
    ∃ values, terminator? calls = some values ∧
      values.length = (DraftCall.fields calls).length ∧ ∀ r ∈ values, Has calls r := by
  rw [terminatorFault?, h.terminator, h.fields]
  constructor
  · intro hnone
    split at hnone
    · cases hnone
    · rename_i values hvalues
      split at hnone
      · rename_i hlength
        exact ⟨values, hvalues, hlength,
          h.missingLocal?_eq_none_iff.1 (Option.map_eq_none_iff.1 hnone)⟩
      · cases hnone
  · rintro ⟨values, hvalues, hlength, hhas⟩
    rw [hvalues]
    dsimp only
    rw [if_pos hlength, h.missingLocal?_eq_none_iff.2 hhas]
    rfl

/-- A draft is at fault for the first fault of its calls. -/
theorem fault?_eq_some_iff : d.fault? = some fault ↔ FirstFault calls fault := by
  simp only [fault?, Option.or_eq_some_iff, Option.map_eq_some_iff, Option.map_eq_none_iff,
    h.misuse_iff, h.not_misuse_iff, firstRepeat?_eq_some_iff, firstRepeat?_eq_none_iff, h.params,
    h.fields, h.bodyFault?_eq_some_iff, h.bodyFault?_eq_none_iff, h.terminatorFault?_eq_some_iff]
  constructor
  · rintro (⟨m, hm, rfl⟩ | ⟨hfilled, ⟨n, hn, rfl⟩ | ⟨hparams, ⟨n, hn, rfl⟩ | ⟨hfields,
      ⟨k, hbefore, hslot⟩ | ⟨hslots, hterminator⟩⟩⟩⟩)
    · exact .misuse hm
    · exact .param hfilled hn
    · exact .field hfilled hparams hn
    · exact .slot ⟨hfilled, hparams, hfields⟩ hbefore hslot
    · exact .terminator ⟨hfilled, hparams, hfields⟩ hslots hterminator
  · intro hfault
    cases hfault with
    | misuse hm => exact Or.inl ⟨_, hm, rfl⟩
    | param hfilled hn => exact Or.inr ⟨hfilled, Or.inl ⟨_, hn, rfl⟩⟩
    | field hfilled hparams hn => exact Or.inr ⟨hfilled, Or.inr ⟨hparams, Or.inl ⟨_, hn, rfl⟩⟩⟩
    | slot hd hbefore hslot =>
      exact Or.inr ⟨hd.wellFilled, Or.inr ⟨hd.params_nodup, Or.inr ⟨hd.fields_nodup,
        Or.inl ⟨_, hbefore, hslot⟩⟩⟩⟩
    | terminator hd hslots hterminator =>
      exact Or.inr ⟨hd.wellFilled, Or.inr ⟨hd.params_nodup, Or.inr ⟨hd.fields_nodup,
        Or.inr ⟨hslots, hterminator⟩⟩⟩⟩

/-- A draft has no fault if its calls describe a class. -/
theorem fault?_eq_none_iff : d.fault? = none ↔ Accepted calls := by
  simp only [fault?, Option.or_eq_none_iff, Option.map_eq_none_iff, h.not_misuse_iff,
    firstRepeat?_eq_none_iff, h.params, h.fields, h.bodyFault?_eq_none_iff,
    h.terminatorFault?_eq_none_iff]
  constructor
  · rintro ⟨hfilled, hparams, hfields, hslots, hterminator⟩
    exact ⟨⟨hfilled, hparams, hfields⟩, hslots, hterminator⟩
  · rintro ⟨⟨hfilled, hparams, hfields⟩, hslots, hterminator⟩
    exact ⟨hfilled, hparams, hfields, hslots, hterminator⟩

/-- In a draft without a fault the instruction of a slot is at the place of the slot. -/
theorem getElem?_instrs (hnone : d.fault? = none) {i : Instr} :
    d.instrs[k]? = some i ↔ Supplies calls k i := by
  rw [← h.filled_iff, ← map_some_instrs (isSome_of_fault?_eq_none hnone), Array.getElem?_map,
    Option.map_eq_some_iff]
  simp

end ClassDraft.Records

namespace ClassDraft

open DraftCall

variable {d : ClassDraft} {names : Interner}

theorem finish_eq_error_iff {err : ClassError} : d.finish names = .error err ↔
    ∃ fault, d.fault? = some fault ∧ err = fault.toError names (names.text d.name) := by
  unfold finish
  split
  · rename_i fault hfault
    constructor
    · rintro ⟨⟩
      exact ⟨fault, hfault, rfl⟩
    · rintro ⟨fault', hfault', rfl⟩
      rw [hfault] at hfault'
      cases hfault'
      rfl
  · rename_i hnone
    simp [hnone]

theorem finish_eq_ok_iff {c : ClassDef} : d.finish names = .ok c ↔
    ∃ hnone : d.fault? = none, c =
      { interner := d.interner, name := d.name, params := d.params, fields := d.fields
        instrs := d.instrs, yields := d.terminator.getD []
        valid := valid_of_fault?_eq_none hnone } := by
  unfold finish
  split
  · rename_i fault hfault
    simp [hfault]
  · rename_i hnone
    constructor
    · rintro ⟨⟩
      exact ⟨hnone, rfl⟩
    · rintro ⟨-, rfl⟩
      rfl

theorem apply_named (d : ClassDraft) (c : DraftCall) :
    (d.apply c).interner = d.interner ∧ (d.apply c).name = d.name := by
  cases c with
  | fill target i =>
    cases target with
    | param index => exact ⟨rfl, rfl⟩
    | instr k =>
      rw [apply, fill]
      split <;> exact ⟨rfl, rfl⟩
  | _ => exact ⟨rfl, rfl⟩

/-- No call changes the name of the class. -/
theorem after_named (interner : InternerId) (name : Name) (calls : List DraftCall) :
    (after interner name calls).interner = interner ∧ (after interner name calls).name = name := by
  induction calls using List.reverseRecOn with
  | nil => exact ⟨rfl, rfl⟩
  | append_singleton calls c ih =>
    rw [after, List.foldl_append]
    obtain ⟨hinterner, hname⟩ := apply_named (after interner name calls) c
    exact ⟨hinterner.trans ih.1, hname.trans ih.2⟩

/-- A draft is finished exactly if its calls describe a class, and then to that class: with the
parameters, fields and last terminator of the calls, and with the instruction of each slot where the
call that added the slot said it would be. Otherwise the error is that of the first fault. -/
theorem finish_after (interner : InternerId) (name : Name) (names : Interner)
    (calls : List DraftCall) :
    ((∃ c, (after interner name calls).finish names = .ok c) ↔ Accepted calls) ∧
    (∀ {c : ClassDef}, (after interner name calls).finish names = .ok c →
      c.interner = interner ∧ c.name = name ∧ c.params = DraftCall.params calls ∧
        c.fields = DraftCall.fields calls ∧ terminator? calls = some c.yields ∧
        c.instrs.size = slotCount calls ∧
          ∀ {k : ℕ} {i : Instr}, c.instrs[k]? = some i ↔ Supplies calls k i) ∧
    (∀ {err : ClassError}, (after interner name calls).finish names = .error err ↔
      ∃ fault, FirstFault calls fault ∧ err = fault.toError names (names.text name)) ∧
    ∀ {c : DraftCall} {k : ℕ},
      ((after interner name calls).ref? c = some (.instr k) ↔
        c.addsSlot = true ∧ slotCount calls = k) ∧
      ((after interner name calls).ref? c = some (.param k) ↔
        c.param?.isSome = true ∧ (DraftCall.params calls).length = k) := by
  have h := records_after interner name calls
  obtain ⟨hinterner, hname⟩ := after_named interner name calls
  refine ⟨?_, ?_, ?_, ?_⟩
  · rw [← h.fault?_eq_none_iff]
    constructor
    · rintro ⟨c, hc⟩
      exact (finish_eq_ok_iff.1 hc).1
    · exact fun hnone => ⟨_, finish_eq_ok_iff.2 ⟨hnone, rfl⟩⟩
  · intro c hc
    obtain ⟨hnone, rfl⟩ := finish_eq_ok_iff.1 hc
    have haccepted := h.fault?_eq_none_iff.1 hnone
    obtain ⟨values, hvalues, -⟩ := haccepted.terminator
    refine ⟨hinterner, hname, h.params, h.fields, ?_, ?_, h.getElem?_instrs hnone⟩
    · show terminator? calls = some ((after interner name calls).terminator.getD [])
      rw [h.terminator, hvalues, Option.getD_some]
    · exact (size_instrs (isSome_of_fault?_eq_none hnone)).trans h.size
  · intro err
    simp only [finish_eq_error_iff, h.fault?_eq_some_iff, hname]
  · intro c k
    cases c <;> simp [ref?, addsSlot, param?, h.params, h.size]

end ClassDraft

namespace Sample

/-- Calls that refer to an instruction before it is there. -/
def loopCalls : List DraftCall :=
  [.param ⟨1⟩ .any, .reserve, .append (.list .any [.instr 0, .param 0]), .field ⟨2⟩ .any,
    .fill (.instr 0) (.any (.instr 1)), .yields [.instr 0]]

/-- The calls describe a class with the filled slot in front. Filling that slot once more is a misuse,
which is told although a parameter is repeated too. -/
theorem loop_finished :
    (∃ c, (ClassDraft.after ⟨0⟩ ⟨3⟩ loopCalls).finish .empty = .ok c ∧
      c.instrs = #[.any (.instr 1), .list .any [.instr 0, .param 0]]) ∧
    DraftCall.Accepted loopCalls ∧
    ∃ fault, DraftCall.FirstFault
        (loopCalls ++ [.param ⟨1⟩ .any, .fill (.instr 0) (.constant (.bool true))]) fault ∧
      fault.toError .empty "" = .operandOutOfRange "" 2 "instruction 0" := by
  have hinstrs : ((ClassDraft.after ⟨0⟩ ⟨3⟩ loopCalls).finish .empty).toOption.map
      ClassDef.instrs = some #[.any (.instr 1), .list .any [.instr 0, .param 0]] := by
    decide
  obtain ⟨c, hc, hinstrs⟩ := Option.map_eq_some_iff.1 hinstrs
  have hok : (ClassDraft.after ⟨0⟩ ⟨3⟩ loopCalls).finish .empty = .ok c := by
    cases hfinish : (ClassDraft.after ⟨0⟩ ⟨3⟩ loopCalls).finish .empty with
    | error err =>
      rw [hfinish] at hc
      cases hc
    | ok c' =>
      rw [hfinish] at hc
      cases hc
      rfl
  obtain ⟨haccepted, -, -, -⟩ := ClassDraft.finish_after ⟨0⟩ ⟨3⟩ .empty loopCalls
  obtain ⟨-, -, hfault, -⟩ := ClassDraft.finish_after ⟨0⟩ ⟨3⟩ .empty
    (loopCalls ++ [.param ⟨1⟩ .any, .fill (.instr 0) (.constant (.bool true))])
  obtain ⟨fault, hfirst, heq⟩ := hfault.1 rfl
  exact ⟨⟨c, hok, hinstrs⟩, haccepted.1 ⟨c, hok⟩, fault, hfirst, heq.symm⟩

end Sample

end ObjectModel
