import ObjectModel.Proofs.Session.Sound
import Mathlib.Logic.Function.Basic

/-!
# Explained sessions

Why every evaluated binding has the value that it has (`Session.Explained`). Its value answers what
its instruction asks for when it starts, and the answer reads bindings of a lower rank only: a
binding gets a rank above all earlier ones when it is evaluated, a constant gets the rank zero.
While an instruction waits, whatever will answer its task will answer the instruction, in any later
state of the session (`Explained.waits`). That is what a transition preserves although operands are
read at different moments.
-/

set_option autoImplicit false

namespace ObjectModel

variable {env : Environment} {start : Nat}

/-- An instruction that gives a literal asks for its node at once. -/
theorem Frame.start_of_literal? {f : Frame} {i : Instr} {l : Literal} (h : i.literal? = some l) :
    f.start env i = .produce (.literal l) := by
  cases i with
  | constant l' =>
    cases h
    rfl
  | _ => cases h

namespace Session

variable {s s' : Session} {t : ValueId}

/-- The slot belongs to an instruction of a frame. -/
structure Located (s : Session) (slot : Slot) (f : Frame) (i : Instr) : Prop where
  frame : s.frames[slot.frame]? = some f
  instr : f.cls.instrs[slot.instr]? = some i

/-- The binding of the slot names its value. -/
def Known (s : Session) (slot : Slot) : Prop :=
  ∃ id t, s.nodes.node? id = some (.binding slot (.resolved t))

namespace Located

variable {slot : Slot} {f g : Frame} {i j : Instr}

theorem grows (h : s.Located slot f i) (hs : s.Grows s') : s'.Located slot f i :=
  ⟨hs.frames h.frame, h.instr⟩

theorem instr?_eq (h : s.Located slot f i) : s.instr? slot = some i := by
  rw [instr?, h.frame]
  exact h.instr

theorem unique (h : s.Located slot f i) (h' : s.Located slot g j) : f = g ∧ i = j := by
  have hf : f = g := Option.some.inj (h.frame.symm.trans h'.frame)
  subst hf
  exact ⟨rfl, Option.some.inj (h.instr.symm.trans h'.instr)⟩

/-- A slot of a binding is the slot of an instruction. -/
theorem of_binding (h : Layout env start s.nodes s.frames) {id : ValueId} {state : BindingState}
    (hn : s.nodes.node? id = some (.binding slot state)) : ∃ f i, s.Located slot f i := by
  obtain ⟨f, hf, hi, -⟩ := h.owned hn
  exact ⟨f, f.cls.instrs[slot.instr], hf, Array.getElem?_eq_some_iff.2 ⟨hi, rfl⟩⟩

/-- Where a later state has an instruction, an earlier one that has the binding has it too. -/
theorem of_grows (h : Layout env start s.nodes s.frames) (hs : s.Grows s') {id : ValueId}
    {state : BindingState} (hn : s.nodes.node? id = some (.binding slot state))
    (hloc : s'.Located slot f i) : s.Located slot f i := by
  obtain ⟨g, j, hg⟩ := of_binding h hn
  obtain ⟨rfl, rfl⟩ := (hg.grows hs).unique hloc
  exact hg

end Located

/-- What is recognized by a literal is that literal or the binding of a constant. -/
theorem literal_of_memoArg? (hl : Layout env start s.nodes s.frames) {id : ValueId} {l : Literal}
    (hid : s.memoArg? id = some (.literal l)) :
    s.nodes.node? id = some (.literal l) ∨ ∃ slot state f i,
      s.nodes.node? id = some (.binding slot state) ∧ s.Located slot f i ∧ i.literal? = some l := by
  obtain ⟨n, hn, hnl⟩ := Option.map_eq_some_iff.1 hid
  cases n with
  | literal l' =>
    cases hnl
    exact Or.inl hn
  | binding slot state =>
    obtain ⟨f, i, hloc⟩ := Located.of_binding hl hn
    simp only [hloc.instr?_eq, Option.bind_some] at hnl
    split at hnl
    · rename_i l' hlit
      cases hnl
      exact Or.inr ⟨slot, state, f, i, hn, hloc, hlit⟩
    · cases hnl
  | _ => cases hnl

theorem Known.grows {slot : Slot} (h : s.Known slot) (hs : s.Grows s') : s'.Known slot := by
  obtain ⟨id, t, hn⟩ := h
  exact ⟨id, t, hs.nodes.resolved hn⟩

/-- The end of an activation leaves the instructions where they are. -/
theorem located_settle {slot : Slot} {f : Frame} {i : Instr} :
    (s.settle t).Located slot f i ↔ s.Located slot f i := by
  constructor
  · intro h
    exact ⟨by rw [← frames_settle s t]; exact h.frame, h.instr⟩
  · intro h
    exact ⟨by rw [frames_settle s t]; exact h.frame, h.instr⟩

/-- What the most recent activation is to compute has no value yet. -/
theorem Sound.not_known_top (h : Sound env start s) {top : Activation} {rest : List Activation}
    (hchain : s.chain.entries = top :: rest) : ¬ s.Known top.slot := by
  rintro ⟨id, u, hid⟩
  have hn := h.waiting top (hchain ▸ List.mem_cons_self)
  cases h.layout.binding_unique hn hid
  rw [hn] at hid
  cases hid

/-! ## The invariant -/

/-- The value of every evaluated binding answers its instruction through bindings of lower rank.
Constants have rank zero, and they alone. -/
structure Ranked (env : Environment) (s : Session) (rank : Slot → Nat) : Prop where
  answers : ∀ {id t : ValueId} {slot : Slot} {f : Frame} {i : Instr},
    s.nodes.node? id = some (.binding slot (.resolved t)) → s.Located slot f i →
      s.Answers env (fun x => rank x < rank slot) (f.start env i) t
  constant : ∀ {id t : ValueId} {slot : Slot} {f : Frame} {i : Instr},
    s.nodes.node? id = some (.binding slot (.resolved t)) → s.Located slot f i →
      (rank slot = 0 ↔ ∃ l, i.literal? = some l)

/-- Why every evaluated binding has the value that it has, and what those that wait will have. -/
structure Explained (env : Environment) (s : Session) : Prop where
  ranked : ∃ (rank : Slot → Nat) (bound : Nat), (∀ slot, rank slot < bound) ∧ s.Ranked env rank
  /-- What answers the task of an activation answers its instruction. -/
  waits : ∀ a ∈ s.chain.entries, ∀ {f : Frame} {i : Instr}, s.Located a.slot f i →
    ∀ {task : Task} {focus : ValueId} {unwrapped : Nat}, a.work = .await task focus unwrapped →
      ∀ {s' : Session} {P : Slot → Prop} {t : ValueId}, s.Grows s' →
        (∀ slot, s.Known slot → P slot) → s'.Answers env P (.await task focus) t →
          s'.Answers env P (f.start env i) t

namespace Ranked

variable {rank : Slot → Nat} {id : ValueId} {l : Literal}

/-- The value of a constant is its literal. -/
theorem literal (h : s.Ranked env rank) {slot : Slot}
    (hn : s.nodes.node? id = some (.binding slot (.resolved t))) {f : Frame} {i : Instr}
    (hloc : s.Located slot f i) (hlit : i.literal? = some l) :
    s.nodes.node? t = some (.literal l) := by
  have hans := h.answers hn hloc
  rw [Frame.start_of_literal? hlit] at hans
  cases hans with
  | produce ht _ => exact ht

/-- What is recognized by a literal stands for that literal. -/
theorem literal_of_denotes (h : s.Ranked env rank) (hl : Layout env start s.nodes s.frames)
    (hid : s.memoArg? id = some (.literal l)) {P : Slot → Prop} (hd : s.nodes.Denotes P id t) :
    s.nodes.node? t = some (.literal l) := by
  rcases literal_of_memoArg? hl hid with hn | ⟨slot, state, f, i, hn, hloc, hlit⟩
  · cases hd.eq_of_isValue ⟨_, hn, rfl⟩
    exact hn
  · obtain ⟨rfl, -⟩ := hd.eq_of_binding hn
    exact h.literal hn hloc hlit

end Ranked

namespace Explained

/-! ## Updates -/

/-- A later state is explained if it has the same evaluated bindings and every activation that
waits waited before for the same. -/
theorem of_same (h : Explained env s) (hs : Sound env start s) (hg : s.Grows s')
    (hres : ∀ {id t : ValueId} {slot : Slot},
      s'.nodes.node? id = some (.binding slot (.resolved t)) →
        s.nodes.node? id = some (.binding slot (.resolved t)))
    (hchain : ∀ a ∈ s'.chain.entries, a.work = .start ∨ a ∈ s.chain.entries) :
    Explained env s' where
  ranked := by
    obtain ⟨rank, bound, hbound, hrank⟩ := h.ranked
    refine ⟨rank, bound, hbound, ?_, ?_⟩
    · intro id t slot f i hn hf
      exact (hrank.answers (hres hn) (.of_grows hs.layout hg (hres hn) hf)).mono hg
        fun _ hlt => hlt
    · intro id t slot f i hn hf
      exact hrank.constant (hres hn) (.of_grows hs.layout hg (hres hn) hf)
  waits := by
    intro a ha f i hf task focus unwrapped hwork s'' P t hg' hP
    -- An activation that is new has not begun, so it waits for nothing yet.
    rcases hchain a ha with hstart | hmem
    · rw [hstart] at hwork
      cases hwork
    · exact h.waits a hmem (.of_grows hs.layout hg (hs.waiting a hmem) hf) hwork (hg.trans hg')
        fun slot hk => hP slot (hk.grows hg)

/-- The most recent activation may wait for something else, if what answers that answers its
instruction. -/
theorem setWork (h : Explained env s) {top : Activation} {rest : List Activation}
    (hchain : s.chain.entries = top :: rest) {task : Task} {focus : ValueId} {unwrapped : Nat}
    (hwait : ∀ {f : Frame} {i : Instr}, s.Located top.slot f i → ∀ {s' : Session}
      {P : Slot → Prop} {t : ValueId}, s.Grows s' → (∀ slot, s.Known slot → P slot) →
        s'.Answers env P (.await task focus) t → s'.Answers env P (f.start env i) t) :
    Explained env (s.setWork (.await task focus unwrapped)) where
  ranked := by
    obtain ⟨rank, bound, hbound, hrank⟩ := h.ranked
    have hs : s.Grows (s.setWork (.await task focus unwrapped)) :=
      ⟨.refl _, fun hk => hk, fun hm => hm⟩
    refine ⟨rank, bound, hbound, ?_, ?_⟩
    · intro id t slot f i hn hf
      exact (hrank.answers hn ⟨hf.frame, hf.instr⟩).mono hs fun _ hlt => hlt
    · intro id t slot f i hn hf
      exact hrank.constant hn ⟨hf.frame, hf.instr⟩
  waits := by
    intro a ha f i hf task' focus' unwrapped' hwork s' P t hs hP hans
    have hs' : s.Grows s' := ⟨hs.nodes, hs.frames, hs.memoArg⟩
    rw [chain_setWork hchain] at ha
    rcases List.mem_cons.1 ha with rfl | ha
    · cases hwork
      exact hwait ⟨hf.frame, hf.instr⟩ hs' hP hans
    · exact h.waits a (hchain ▸ List.mem_cons_of_mem _ ha) ⟨hf.frame, hf.instr⟩ hwork hs' hP hans

/-- The slot of the most recent activation may be ranked anew when the activation ends with a value
that answers its instruction: above all others, or as a constant. -/
theorem ranked_settle {rank : Slot → Nat} {bound : Nat} (h : s.Ranked env rank)
    (hbound : ∀ slot, rank slot < bound) (hs : Sound env start s) {top : Activation}
    {rest : List Activation} (hchain : s.chain.entries = top :: rest) (ht : s.nodes.IsValue t)
    {f : Frame} {i : Instr} (hloc : s.Located top.slot f i)
    (hans : ∀ {P : Slot → Prop}, (∀ slot, s.Known slot → P slot) →
      s.Answers env P (f.start env i) t)
    {own : Nat} (hzero : own = 0 ↔ ∃ l, i.literal? = some l)
    (hgreat : i.literal? = none → bound < own) :
    (s.settle t).Ranked env (Function.update rank top.slot own) := by
  have hgrows := (hs.settle hchain ht).1
  have hset := hs.node?_settle hchain t
  -- The slot was not evaluated before, so every slot that was keeps its rank.
  have hold : ∀ {id target slot}, s.nodes.node? id = some (.binding slot (.resolved target)) →
      Function.update rank top.slot own slot = rank slot := by
    intro id target slot hid
    apply Function.update_of_ne
    rintro rfl
    exact hs.not_known_top hchain ⟨id, target, hid⟩
  have hown : Function.update rank top.slot own top.slot = own :=
    Function.update_self top.slot own rank
  refine ⟨?_, ?_⟩
  · intro id target slot g j hid hg
    rw [hset] at hid
    split at hid
    · cases hid
      obtain ⟨rfl, rfl⟩ := hloc.unique (located_settle.1 hg)
      -- A constant asks for its literal at once and reads nothing, so rank zero will do.
      cases hlit : i.literal? with
      | some l =>
        have hstart := hans (P := fun _ => True) fun _ _ => trivial
        rw [Frame.start_of_literal? hlit] at hstart ⊢
        cases hstart with
        | produce hprod hb => exact .produce (hgrows.nodes.value hprod hb) hb
      | none =>
        refine (hans (P := fun x => rank x < bound) fun slot _ => hbound slot).mono hgrows ?_
        intro j' t' x hx hlt
        rw [hold hx, hown]
        exact Nat.lt_trans hlt (hgreat hlit)
    · refine (h.answers hid (located_settle.1 hg)).mono hgrows ?_
      intro j' t' x hx hlt
      rw [hold hx, hold hid]
      exact hlt
  · intro id target slot g j hid hg
    rw [hset] at hid
    split at hid
    · cases hid
      obtain ⟨rfl, rfl⟩ := hloc.unique (located_settle.1 hg)
      rw [hown]
      exact hzero
    · rw [hold hid]
      exact h.constant hid (located_settle.1 hg)

/-- The most recent activation may end with a value that answers its instruction. -/
theorem settle (h : Explained env s) (hs : Sound env start s) {top : Activation}
    {rest : List Activation} (hchain : s.chain.entries = top :: rest) (ht : s.nodes.IsValue t)
    (hans : ∀ {f : Frame} {i : Instr}, s.Located top.slot f i → ∀ {P : Slot → Prop},
      (∀ slot, s.Known slot → P slot) → s.Answers env P (f.start env i) t) :
    Explained env (s.settle t) where
  ranked := by
    obtain ⟨rank, bound, hbound, hrank⟩ := h.ranked
    have hn := hs.waiting top (hchain ▸ List.mem_cons_self)
    obtain ⟨f, i, hloc⟩ := Located.of_binding hs.layout hn
    obtain ⟨own, hlt, hzero, hgreat⟩ : ∃ own, own < bound + 2 ∧
        (own = 0 ↔ ∃ l, i.literal? = some l) ∧ (i.literal? = none → bound < own) := by
      cases i.literal? with
      | none => exact ⟨bound + 1, by omega, by simp, fun _ => by omega⟩
      | some l => exact ⟨0, by omega, by simp, by simp⟩
    refine ⟨Function.update rank top.slot own, bound + 2, ?_,
      ranked_settle hrank hbound hs hchain ht hloc (hans hloc) hzero hgreat⟩
    intro slot
    by_cases hslot : slot = top.slot
    · rw [hslot, Function.update_self]
      exact hlt
    · rw [Function.update_of_ne hslot]
      have := hbound slot
      omega
  waits := by
    have hgrows := (hs.settle hchain ht).1
    intro a ha g j hg task focus unwrapped hwork s' P t' hs' hP
    rw [chain_settle hchain] at ha
    exact h.waits a (hchain ▸ List.mem_cons_of_mem _ ha) (located_settle.1 hg) hwork
      (hgrows.trans hs') fun slot hk => hP slot (hk.grows hgrows)

/-! ## Transitions -/

/-- What answers the request of the most recent activation answers its instruction. -/
theorem answers (h : Explained env s) {top : Activation} {rest : List Activation}
    (hchain : s.chain.entries = top :: rest) {req : Request} (hreq : s.Asks env top req)
    {f : Frame} {i : Instr} (hloc : s.Located top.slot f i) {P : Slot → Prop} (hg : s.Grows s')
    (hP : ∀ slot, s.Known slot → P slot) (hans : s'.Answers env P req t) :
    s'.Answers env P (f.start env i) t := by
  cases hreq with
  | start hwork hf hi =>
    obtain ⟨rfl, rfl⟩ := hloc.unique ⟨hf, hi⟩
    exact hans
  | resume hwork hn hb _ =>
    exact h.waits top (hchain ▸ List.mem_cons_self) hloc hwork hg hP
      (hans.of_resume ⟨_, hn, hb⟩ hg)

/-- A served request keeps the session explained. -/
theorem serve (h : Explained env s) (hs : Sound env start s) {top : Activation}
    {rest : List Activation} (hchain : s.chain.entries = top :: rest) {req : Request}
    (hreq : s.Asks env top req) (hserve : (s.counted top).serve env req = .running s') :
    Explained env s' := by
  have hsafe := hs.safe hchain hreq
  -- The session in which the request is served: nothing but a counter has changed.
  generalize hcounted : s.counted top = r at hserve
  have hgr : s.Grows r := hcounted ▸ Grows.counted s top
  have hr : Sound env start r := hcounted ▸ hs.counted top
  have hnodes : r.nodes = s.nodes := hcounted ▸ nodes_counted s top
  have hrchain : r.chain.entries = top :: rest := by
    rw [← hcounted, chain_counted, hchain]
  have hrh : Explained env r := by
    refine h.of_same hs hgr (fun hn => hnodes ▸ hn) fun a ha => Or.inr ?_
    rw [hchain, ← hrchain]
    exact ha
  have hloc : ∀ {f i}, r.Located top.slot f i → s.Located top.slot f i :=
    fun hf => .of_grows hs.layout hgr (hs.waiting top (hchain ▸ List.mem_cons_self)) hf
  have hknown : ∀ {P : Slot → Prop}, (∀ slot, r.Known slot → P slot) →
      ∀ slot, s.Known slot → P slot := fun hP slot hk => hP slot (hk.grows hgr)
  rw [← hnodes] at hsafe
  rcases serve_running hserve with ⟨task, focus, rfl, rfl⟩ | ⟨n, rfl, rfl⟩ | ⟨id, rfl, rfl⟩ |
    ⟨target, args, c, rfl, hc, rfl⟩
  · refine hrh.setWork hrchain fun hf s'' P t hg hP hans => ?_
    exact h.answers hchain hreq (hloc hf) (hgr.trans hg) (hknown hP) hans
  · obtain ⟨hg, hsound⟩ := hr.alloc hsafe.1 hsafe.2
    have hnew : (r.alloc n).2.nodes.node? (r.alloc n).1 = some n :=
      Arena.node?_push_size r.nodes n
    have hmid : Explained env (r.alloc n).2 := by
      apply hrh.of_same hr hg
      · exact fun hn => (Arena.binding_push_iff hsafe.1).1 hn
      · exact fun a ha => Or.inr ha
    refine hmid.settle hsound (hrchain : (r.alloc n).2.chain.entries = _) ⟨n, hnew, hsafe.1⟩ ?_
    intro f i hf P hP
    exact h.answers hchain hreq (hloc ⟨hf.frame, hf.instr⟩) (hgr.trans hg)
      (hknown fun slot hk => hP slot (hk.grows hg)) (.produce hnew hsafe.1)
  · refine hrh.settle hr hrchain hsafe ?_
    intro f i hf P hP
    exact h.answers hchain hreq (hloc hf) hgr (hknown hP) (.forward hsafe)
  · obtain ⟨hg, hsound, hvalue, hsame⟩ := hr.create hc hsafe
    have hcchain : (r.create c).2.chain.entries = top :: rest := by rw [hsame, hrchain]
    have hmid : Explained env (r.create c).2 := by
      refine hrh.of_same hr hg ?_ fun a ha => Or.inr (by rwa [hsame] at ha)
      intro id t slot hn
      cases c with
      | known o => exact hn
      | fresh f key fields =>
        rcases (Arena.node?_addBlock (creation_eq_fresh hc).base).1 hn with
          hn | ⟨_, -, -, hn⟩ | ⟨-, hn⟩
        · exact hn
        · cases hn
        · cases hn
    refine hmid.settle hsound hcchain hvalue ?_
    intro f i hf P hP
    refine h.answers hchain hreq
      (hloc (.of_grows hr.layout hg (hr.waiting top (hrchain ▸ List.mem_cons_self)) hf))
      (hgr.trans hg) (hknown fun slot hk => hP slot (hk.grows hg)) ?_
    obtain ⟨k, g, key, hk, hname, hobj, hargs, hparams⟩ := hr.created hc hsafe
    rw [← hobj]
    exact .create hk hname hargs hparams

/-- A step that goes on keeps the session explained. -/
theorem transition (h : Explained env s) (hs : Sound env start s) (ht : Transition env s s') :
    Explained env s' := by
  have hg := (hs.transition ht).1
  -- Marking a binding as begun resolves none: one that is resolved then was resolved before.
  have hmark : ∀ {id : ValueId} {slot : Slot} {r : Session},
      s.nodes.node? id = some (.binding slot .unstarted) →
      r.nodes = s.nodes.setIfInBounds id.index (.binding slot .inProgress) →
      ∀ {j t : ValueId} {x : Slot}, r.nodes.node? j = some (.binding x (.resolved t)) →
        s.nodes.node? j = some (.binding x (.resolved t)) := by
    intro id slot r hn hr j t x hj
    rw [hr, Arena.node?_set hn] at hj
    split at hj
    · cases hj
    · exact hj
  cases ht with
  | pass hchain _ _ => exact h.of_same hs hg (fun hn => hn) fun a ha => Or.inr ha
  | skip hchain _ _ _ _ => exact h.of_same hs hg (fun hn => hn) fun a ha => Or.inr ha
  | next hchain hf hid hn hd =>
    obtain ⟨g, chain, -, hentries, rfl⟩ := demand_running hd
    refine h.of_same hs hg (hmark hn rfl) fun a ha => ?_
    change a ∈ chain.entries at ha
    rw [hentries] at ha
    rcases List.mem_cons.1 ha with rfl | ha
    · exact Or.inl rfl
    · exact Or.inr ha
  | demand hchain hwork hn hd =>
    obtain ⟨g, chain, -, hentries, rfl⟩ := demand_running hd
    refine h.of_same hs hg (hmark hn rfl) fun a ha => ?_
    change a ∈ chain.entries at ha
    rw [hentries] at ha
    rcases List.mem_cons.1 ha with rfl | ha
    · exact Or.inl rfl
    · exact Or.inr ha
  | follow hchain hwork hn =>
    refine h.setWork hchain fun hf s'' P t hg' hP hans => ?_
    exact h.waits _ (hchain ▸ List.mem_cons_self) hf hwork hg' hP
      (hans.of_resolved (hg'.nodes.resolved hn) (hg'.nodes.isValue (hs.layout.resolved hn))
        (hP _ ⟨_, _, hn⟩))
  | unwrap hchain hwork hn hnar _ =>
    refine h.setWork hchain fun hf s'' P t hg' hP hans => ?_
    exact h.waits _ (hchain ▸ List.mem_cons_self) hf hwork hg' hP
      (hans.of_any (hg'.nodes.value hn rfl) hnar)
  | serve hchain hreq hserve => exact h.serve hs hchain hreq hserve

end Explained

end Session

end ObjectModel
