import ObjectModel.Proofs.Session.Completion
import Mathlib.Data.List.Chain

/-!
# The chain of demands

Why every activation of the chain is there (`Session.Stacked`): it stands for the demand of its
instruction, and the activation below it waits for its binding. An activation waits on behalf of its
instruction, so whatever will answer the instruction will answer its task. That makes the slot of an
activation need the slot that it waits for (`Session.Needs`), and each slot of the chain need those
above it (`Stacked.needs_top`). In a completed session no slot needs itself
(`Completed.not_needs_self`).
-/

set_option autoImplicit false

namespace ObjectModel

variable {env : Environment} {start : Nat}

/-! ## Erased types on the way -/

namespace Arena

variable {a b : Arena} {focus target payload v : ValueId} {unwrapped k : Nat} {slot : Slot}

/-- So many erased types were looked through on the way to a position: if there is a value behind
it in a later arena, they are distinct nodes further away from that value. -/
def Trail (a : Arena) (focus : ValueId) (unwrapped : Nat) : Prop :=
  ∀ (b : Arena) (k : Nat) (v : ValueId), a.Grows b → b.Narrows (fun _ => True) k focus v →
    ∃ l : List ValueId, l.length = unwrapped ∧ l.Nodup ∧
      ∀ u ∈ l, u.index < a.size ∧ ∃ j, k < j ∧ b.Narrows (fun _ => True) j u v

namespace Trail

theorem zero (a : Arena) (focus : ValueId) : a.Trail focus 0 :=
  fun _ _ _ _ _ => ⟨[], rfl, List.nodup_nil, by simp⟩

theorem grows (h : a.Trail focus unwrapped) (hab : a.Grows b) : b.Trail focus unwrapped := by
  intro c k v hbc hn
  obtain ⟨l, hlength, hnodup, hl⟩ := h c k v (hab.trans hbc) hn
  exact ⟨l, hlength, hnodup, fun u hu => ⟨Nat.lt_of_lt_of_le (hl u hu).1 hab.size_le, (hl u hu).2⟩⟩

/-- What stands behind the value of a binding stands behind the binding. -/
theorem follow (h : a.Trail focus unwrapped)
    (hn : a.node? focus = some (.binding slot (.resolved target))) (hv : a.IsValue target) :
    a.Trail target unwrapped := by
  intro b k v hab hnarrows
  refine h b k v hab ?_
  have htarget : b.Denotes (fun _ => True) focus target :=
    .binding (hab.resolved hn) trivial (hab.isValue hv)
  cases hnarrows with
  | stop hd hv' =>
    rw [hd.eq_of_isValue (hab.isValue hv)] at hv' ⊢
    exact .stop htarget hv'
  | pass hd hp htail =>
    rw [hd.eq_of_isValue (hab.isValue hv)] at hp
    exact .pass htarget hp htail

/-- An erased type that is looked through is one step further away than its payload. -/
theorem unwrap (h : a.Trail focus unwrapped) (hn : a.node? focus = some (.any payload)) :
    a.Trail payload (unwrapped + 1) := by
  intro b k v hab hnarrows
  have hfocus : b.Narrows (fun _ => True) (k + 1) focus v :=
    .pass (.value (hab.isValue ⟨_, hn, rfl⟩)) (hab.value hn rfl) hnarrows
  obtain ⟨l, hlength, hnodup, hl⟩ := h b (k + 1) v hab hfocus
  refine ⟨focus :: l, by rw [List.length_cons, hlength], List.nodup_cons.2 ⟨?_, hnodup⟩, ?_⟩
  · -- The erased types before it are further away still.
    intro hmem
    obtain ⟨-, j, hj, hnj⟩ := hl focus hmem
    have := (hfocus.unique hnj).1
    omega
  · intro u hu
    rcases List.mem_cons.1 hu with rfl | hu
    · exact ⟨node?_lt hn, k + 1, Nat.lt_succ_self k, hfocus⟩
    · obtain ⟨hlt, j, hj, hnj⟩ := hl u hu
      exact ⟨hlt, j, by omega, hnj⟩

/-- No more erased types than nodes are looked through where there is a value behind them. -/
theorem le_size (h : a.Trail focus unwrapped) (hab : a.Grows b)
    (hn : b.Narrows (fun _ => True) k focus v) : unwrapped ≤ a.size := by
  obtain ⟨l, rfl, hnodup, hl⟩ := h b k v hab hn
  exact length_le_of_nodup hnodup fun u hu => (hl u hu).1

end Trail

end Arena

/-- The activation below waits for the binding of the one above. -/
def Activation.Calls (above below : Activation) : Prop :=
  ∃ task unwrapped, below.work = .await task above.binding unwrapped

namespace Session

variable {s s' : Session} {P : Slot → Prop} {t v : ValueId}

/-! ## Answers on the way -/

/-- A task that is answered at a binding is answered at the binding's value. -/
theorem Answers.target {task : Task} {focus target : ValueId} {slot : Slot}
    (hn : s.nodes.node? focus = some (.binding slot (.resolved target)))
    (hv : s.nodes.IsValue target) (h : s.Answers env P (.await task focus) t) :
    s.Answers env P (.await task target) t := by
  cases h with
  | await harr hans =>
    refine .await ?_ hans
    rw [Task.Arrives] at harr ⊢
    split at harr
    · rename_i hnar
      rw [if_pos hnar]
      obtain ⟨k, hk⟩ := harr
      refine ⟨k, hk.of_denotes (.binding hn ?_ hv)⟩
      cases hk with
      | stop hd _ => exact (hd.eq_of_binding hn).2
      | pass hd _ _ => exact (hd.eq_of_binding hn).2
    · rename_i hnar
      rw [if_neg hnar]
      cases (harr.eq_of_binding hn).1
      exact .value hv

/-- A task that looks through erased types is answered at the payload if it is at all. -/
theorem Answers.payload {task : Task} {focus payload : ValueId}
    (hn : s.nodes.node? focus = some (.any payload)) (hnar : task.narrows)
    (h : s.Answers env P (.await task focus) t) : s.Answers env P (.await task payload) t := by
  cases h with
  | await harr hans =>
    refine .await ?_ hans
    rw [Task.Arrives, if_pos hnar] at harr ⊢
    obtain ⟨k, hk⟩ := harr
    cases hk with
    | stop hd hv =>
      rw [hd.eq_of_isValue ⟨_, hn, rfl⟩] at hv
      exact absurd hn (hv payload)
    | pass hd hp htail =>
      rw [hd.eq_of_isValue ⟨_, hn, rfl⟩, hn] at hp
      cases hp
      exact ⟨_, htail⟩

/-- A task that is answered where a value has arrived is answered by what it asks for next. -/
theorem Answers.resume {task : Task} (hv : s.nodes.IsValue v)
    (hany : task.narrows → ∀ p, s.nodes.node? v ≠ some (.any p))
    (h : s.Answers env P (.await task v) t) : s.Answers env P (task.resume env s.nodes v) t := by
  cases h with
  | @await _ _ u _ harr hans =>
    have hu : u = v := by
      rw [Task.Arrives] at harr
      split at harr
      · rename_i hnar
        obtain ⟨k, hk⟩ := harr
        cases hk with
        | stop hd _ => exact hd.eq_of_isValue hv
        | pass hd hp _ =>
          rw [hd.eq_of_isValue hv] at hp
          exact absurd hp (hany hnar _)
      · exact harr.eq_of_isValue hv
    rw [← hu]
    exact hans

/-- A task that looks through erased types has a value behind them if it is answered. -/
theorem Answers.exists_narrows {task : Task} {focus : ValueId} (hnar : task.narrows)
    (h : s.Answers env P (.await task focus) t) :
    ∃ k u, s.nodes.Narrows (fun _ => True) k focus u := by
  cases h with
  | await harr _ =>
    rw [Task.Arrives, if_pos hnar] at harr
    obtain ⟨k, hk⟩ := harr
    exact ⟨k, _, hk.mono (.refl _) fun _ _ => trivial⟩

/-! ## The invariant -/

/-- Why every activation of the chain is there. -/
structure Stacked (env : Environment) (s : Session) : Prop where
  named : ∀ a ∈ s.chain.entries, ∀ {f : Frame} {i : Instr}, s.Located a.slot f i →
    a.demand = ⟨f.cls.name, a.slot.instr⟩
  linked : s.chain.entries.IsChain Activation.Calls
  /-- What answers the instruction of an activation answers its task. -/
  asked : ∀ a ∈ s.chain.entries, ∀ {f : Frame} {i : Instr}, s.Located a.slot f i →
    ∀ {task : Task} {focus : ValueId} {unwrapped : Nat}, a.work = .await task focus unwrapped →
      ∀ {s' : Session} {P : Slot → Prop} {t : ValueId}, s.Grows s' →
        s'.Answers env P (f.start env i) t → s'.Answers env P (.await task focus) t
  trail : ∀ a ∈ s.chain.entries, ∀ {task : Task} {focus : ValueId} {unwrapped : Nat},
    a.work = .await task focus unwrapped → s.nodes.Trail focus unwrapped

namespace Stacked

/-- The chain may stay as it is while the session grows. -/
theorem of_same (h : Stacked env s) (hs : Sound env start s) (hg : s.Grows s')
    (hchain : s'.chain.entries = s.chain.entries) : Stacked env s' where
  named := by
    intro a ha f i hf
    rw [hchain] at ha
    exact h.named a ha (.of_grows hs.layout hg (hs.waiting a ha) hf)
  linked := hchain ▸ h.linked
  asked := by
    intro a ha f i hf task focus unwrapped hwork s'' P t hg'
    rw [hchain] at ha
    exact h.asked a ha (.of_grows hs.layout hg (hs.waiting a ha) hf) hwork (hg.trans hg')
  trail := by
    intro a ha task focus unwrapped hwork
    rw [hchain] at ha
    exact (h.trail a ha hwork).grows hg.nodes

/-- The most recent activation may end. -/
theorem settle (h : Stacked env s) (hs : Sound env start s) {top : Activation}
    {rest : List Activation} (hchain : s.chain.entries = top :: rest) (ht : s.nodes.IsValue t) :
    Stacked env (s.settle t) := by
  have hg := (hs.settle hchain ht).1
  have hmem : ∀ {a}, a ∈ (s.settle t).chain.entries → a ∈ s.chain.entries := by
    intro a ha
    rw [chain_settle hchain] at ha
    exact hchain ▸ List.mem_cons_of_mem _ ha
  refine ⟨?_, ?_, ?_, ?_⟩
  · intro a ha f i hf
    exact h.named a (hmem ha) (located_settle.1 hf)
  · rw [chain_settle hchain]
    have hlinked := h.linked
    rw [hchain] at hlinked
    exact hlinked.tail
  · intro a ha f i hf task focus unwrapped hwork s'' P t hg'
    exact h.asked a (hmem ha) (located_settle.1 hf) hwork (hg.trans hg')
  · intro a ha task focus unwrapped hwork
    exact (h.trail a (hmem ha) hwork).grows hg.nodes

/-- The most recent activation may wait for something else, if that is answered by whatever answers
its instruction. -/
theorem setWork (h : Stacked env s) {top : Activation} {rest : List Activation}
    (hchain : s.chain.entries = top :: rest) {task : Task} {focus : ValueId} {unwrapped : Nat}
    (hasked : ∀ {f : Frame} {i : Instr}, s.Located top.slot f i → ∀ {s' : Session}
      {P : Slot → Prop} {t : ValueId}, s.Grows s' → s'.Answers env P (f.start env i) t →
        s'.Answers env P (.await task focus) t)
    (htrail : s.nodes.Trail focus unwrapped) :
    Stacked env (s.setWork (.await task focus unwrapped)) := by
  have hentries := chain_setWork hchain (.await task focus unwrapped)
  have hnamed := h.named
  have hlinked := h.linked
  rw [hchain] at hnamed hlinked
  refine ⟨?_, ?_, ?_, ?_⟩
  · intro a ha f i hf
    rw [hentries] at ha
    rcases List.mem_cons.1 ha with rfl | ha
    · exact hnamed top List.mem_cons_self ⟨hf.frame, hf.instr⟩
    · exact hnamed a (List.mem_cons_of_mem _ ha) ⟨hf.frame, hf.instr⟩
  · -- The activation keeps its binding, which is all that the one below it refers to.
    rw [hentries]
    cases rest with
    | nil => exact .singleton _
    | cons below rest =>
      rw [List.isChain_cons_cons] at hlinked ⊢
      exact hlinked
  · intro a ha f i hf task' focus' unwrapped' hwork s' P t hg
    have hg' : s.Grows s' := ⟨hg.nodes, hg.frames, hg.memoArg⟩
    rw [hentries] at ha
    rcases List.mem_cons.1 ha with rfl | ha
    · cases hwork
      exact hasked ⟨hf.frame, hf.instr⟩ hg'
    · exact h.asked a (hchain ▸ List.mem_cons_of_mem _ ha) ⟨hf.frame, hf.instr⟩ hwork hg'
  · intro a ha task' focus' unwrapped' hwork
    rw [hentries] at ha
    rcases List.mem_cons.1 ha with rfl | ha
    · cases hwork
      exact htrail
    · exact h.trail a (hchain ▸ List.mem_cons_of_mem _ ha) hwork

/-- A demand joins the chain above the activation that waits for it. -/
theorem demand (h : Stacked env s) (hs : Sound env start s) (hg : s.Grows s') {f : Frame}
    {id : ValueId} {slot : Slot} (hf : s.frames[slot.frame]? = some f)
    (hchain : s'.chain.entries =
      { binding := id, slot, demand := ⟨f.cls.name, slot.instr⟩, work := .start } ::
        s.chain.entries)
    (hlink : ∀ {top : Activation} {rest : List Activation}, s.chain.entries = top :: rest →
      ∃ task unwrapped, top.work = .await task id unwrapped) : Stacked env s' := by
  refine ⟨?_, ?_, ?_, ?_⟩
  · intro a ha g i hloc
    rw [hchain] at ha
    rcases List.mem_cons.1 ha with rfl | ha
    · cases Option.some.inj ((hg.frames hf).symm.trans hloc.frame)
      rfl
    · exact h.named a ha (.of_grows hs.layout hg (hs.waiting a ha) hloc)
  · rw [hchain]
    cases hentries : s.chain.entries with
    | nil => exact .singleton _
    | cons top rest =>
      have hlinked := h.linked
      rw [hentries] at hlinked
      rw [List.isChain_cons_cons]
      exact ⟨hlink hentries, hlinked⟩
  · intro a ha g i hloc task focus unwrapped hwork s'' P t hg'
    rw [hchain] at ha
    -- The new activation has not begun, so it waits for nothing yet.
    rcases List.mem_cons.1 ha with rfl | ha
    · cases hwork
    · exact h.asked a ha (.of_grows hs.layout hg (hs.waiting a ha) hloc) hwork (hg.trans hg')
  · intro a ha task focus unwrapped hwork
    rw [hchain] at ha
    rcases List.mem_cons.1 ha with rfl | ha
    · cases hwork
    · exact (h.trail a ha hwork).grows hg.nodes

/-! ## Transitions -/

/-- What answers the instruction of the most recent activation answers its request. -/
theorem answers (h : Stacked env s) {top : Activation} {rest : List Activation}
    (hchain : s.chain.entries = top :: rest) {req : Request} (hreq : s.Asks env top req)
    (hreq' : ∀ f, req ≠ .fail f) {f : Frame} {i : Instr} (hloc : s.Located top.slot f i)
    (hg : s.Grows s') (hans : s'.Answers env P (f.start env i) t) : s'.Answers env P req t := by
  cases hreq with
  | start hwork hf hi =>
    obtain ⟨rfl, rfl⟩ := hloc.unique ⟨hf, hi⟩
    exact hans
  | @resume task focus unwrapped n hwork hn hb hany =>
    have hmem : top ∈ s.chain.entries := hchain ▸ List.mem_cons_self
    have hawait := h.asked top hmem hloc hwork hg hans
    rw [← Task.resume_of_grows hg.nodes hreq']
    refine hawait.resume (hg.nodes.isValue ⟨n, hn, hb⟩) ?_
    -- An erased type is a value for a task that looks through them only once there were more of
    -- them than nodes, and then there is no value behind it.
    intro hnar p hp
    rw [hg.nodes.value hn hb] at hp
    obtain ⟨k, u, hk⟩ := hawait.exists_narrows hnar
    exact hany p (Option.some.inj hp) ⟨hnar, (h.trail top hmem hwork).le_size hg.nodes hk⟩

/-- A served request keeps the chain as it should be. -/
theorem serve (h : Stacked env s) (hs : Sound env start s) {top : Activation}
    {rest : List Activation} (hchain : s.chain.entries = top :: rest) {req : Request}
    (hreq : s.Asks env top req) (hserve : (s.counted top).serve env req = .running s') :
    Stacked env s' := by
  have hsafe := hs.safe hchain hreq
  rw [← nodes_counted s top] at hsafe
  have hgr := Grows.counted s top
  have hr := hs.counted top
  have hrchain : (s.counted top).chain.entries = top :: rest := by rw [chain_counted, hchain]
  have hrh : Stacked env (s.counted top) := h.of_same hs hgr (by rw [chain_counted])
  rcases serve_running hserve with ⟨task, focus, rfl, rfl⟩ | ⟨n, rfl, rfl⟩ | ⟨id, rfl, rfl⟩ |
    ⟨target, args, c, rfl, hc, rfl⟩
  · refine hrh.setWork hrchain (fun hf s'' P t hg hans => ?_) (.zero _ _)
    refine h.answers hchain hreq (by simp) ?_ (hgr.trans hg) hans
    exact .of_grows hs.layout hgr (hs.waiting top (hchain ▸ List.mem_cons_self)) hf
  · obtain ⟨hg, hsound⟩ := hr.alloc hsafe.1 hsafe.2
    refine (hrh.of_same hr hg rfl).settle hsound hrchain ?_
    exact ⟨n, Arena.node?_push_size (s.counted top).nodes n, hsafe.1⟩
  · exact hrh.settle hr hrchain hsafe
  · obtain ⟨hg, hsound, hvalue, hsame⟩ := hr.create hc hsafe
    exact (hrh.of_same hr hg (by rw [hsame])).settle hsound (by rw [hsame, hrchain]) hvalue

/-- A step that goes on keeps the chain as it should be. -/
theorem transition (h : Stacked env s) (hs : Sound env start s) (ht : Transition env s s') :
    Stacked env s' := by
  have hg := (hs.transition ht).1
  cases ht with
  | pass _ _ _ => exact h.of_same hs hg rfl
  | skip _ _ _ _ _ => exact h.of_same hs hg rfl
  | next hchain _ _ _ hd =>
    obtain ⟨g, chain, hf, hentries, rfl⟩ := demand_running hd
    refine h.demand hs hg hf hentries fun htop => ?_
    rw [hchain] at htop
    cases htop
  | demand hchain hwork _ hd =>
    obtain ⟨g, chain, hf, hentries, rfl⟩ := demand_running hd
    refine h.demand hs hg hf hentries fun htop => ?_
    rw [hchain] at htop
    cases htop
    exact ⟨_, _, hwork⟩
  | follow hchain hwork hn =>
    have hmem := hchain ▸ List.mem_cons_self
    have hv := hs.layout.resolved hn
    refine h.setWork hchain (fun hf s'' P t hg' hans => ?_) ((h.trail _ hmem hwork).follow hn hv)
    exact (h.asked _ hmem hf hwork hg' hans).target (hg'.nodes.resolved hn) (hg'.nodes.isValue hv)
  | unwrap hchain hwork hn hnar _ =>
    have hmem := hchain ▸ List.mem_cons_self
    refine h.setWork hchain (fun hf s'' P t hg' hans => ?_) ((h.trail _ hmem hwork).unwrap hn)
    exact (h.asked _ hmem hf hwork hg' hans).payload (hg'.nodes.value hn rfl) hnar
  | serve hchain hreq hserve => exact h.serve hs hchain hreq hserve

/-- With nothing waiting the chain is as it should be. -/
theorem initial (hchain : s.chain.entries = []) : Stacked env s := by
  refine ⟨?_, ?_, ?_, ?_⟩
  all_goals
    rw [hchain]
    simp

theorem reaches (h : Stacked env s) (hs : Sound env start s) (hr : Reaches env s s') :
    Stacked env s' :=
  (hr.induct (I := fun r => Sound env start r ∧ Stacked env r)
    (fun _ _ hr ht => ⟨(hr.1.transition ht).2, hr.2.transition hr.1 ht⟩) ⟨hs, h⟩).2

end Stacked

/-! ## Needs -/

/-- The value of one slot needs that of another one: in any later state, whatever answers the
instruction of the first reads the second. -/
def Needs (env : Environment) (s : Session) (x y : Slot) : Prop :=
  ∃ f i, s.Located x f i ∧ ∀ {s' : Session} {P : Slot → Prop} {t : ValueId}, s.Grows s' →
    s'.Answers env P (f.start env i) t → P y

/-- A slot needs the slot of the binding that its activation waits for. -/
theorem Stacked.needs (h : Stacked env s) (hs : Sound env start s) {a : Activation}
    (ha : a ∈ s.chain.entries) {task : Task} {focus : ValueId} {unwrapped : Nat}
    (hwork : a.work = .await task focus unwrapped) {slot : Slot} {state : BindingState}
    (hn : s.nodes.node? focus = some (.binding slot state)) : s.Needs env a.slot slot := by
  obtain ⟨f, i, hloc⟩ := Located.of_binding hs.layout (hs.waiting a ha)
  refine ⟨f, i, hloc, fun {s' P t} hg hans => ?_⟩
  obtain ⟨state', hn'⟩ := hg.nodes.binding hn
  -- The task is answered through the binding, so the binding may be read.
  cases h.asked a ha hloc hwork hg hans with
  | await harr _ =>
    rw [Task.Arrives] at harr
    split at harr
    · obtain ⟨k, hk⟩ := harr
      cases hk with
      | stop hd _ => exact (hd.eq_of_binding hn').2
      | pass hd _ _ => exact (hd.eq_of_binding hn').2
    · exact (harr.eq_of_binding hn').2

/-- Every slot of the chain needs the slot of the most recent activation. -/
theorem Stacked.needs_top (h : Stacked env s) (hs : Sound env start s) {top : Activation}
    {rest : List Activation} (hchain : s.chain.entries = top :: rest) :
    ∀ a ∈ s.chain.entries, Relation.ReflTransGen (s.Needs env) a.slot top.slot := by
  -- One step of the chain is one need, so the activations are related in the order of the chain.
  have hpairs : (top :: rest).Pairwise fun above below =>
      Relation.ReflTransGen (s.Needs env) below.slot above.slot := by
    have htrans : IsTrans Activation fun above below =>
        Relation.ReflTransGen (s.Needs env) below.slot above.slot :=
      ⟨fun _ _ _ hxy hyz => hyz.trans hxy⟩
    refine List.IsChain.pairwise (List.IsChain.imp_of_mem_imp ?_ (hchain ▸ h.linked))
    rintro above below habove hbelow ⟨task, unwrapped, hwork⟩
    exact .single (h.needs hs (hchain ▸ hbelow) hwork (hs.waiting above (hchain ▸ habove)))
  intro a ha
  rw [hchain] at ha
  rcases List.mem_cons.1 ha with rfl | ha
  · exact .refl
  · exact (List.pairwise_cons.1 hpairs).1 a ha

/-- In a completed session no slot needs itself. -/
theorem Completed.not_needs_self (h : Completed env start s) (slot : Slot) :
    ¬ Relation.TransGen (s.Needs env) slot slot := by
  -- A value is answered through slots of lower rank only, so each need lowers the rank.
  obtain ⟨rank, bound, -, hrank⟩ := h.explained.ranked
  have hlower : ∀ {x y : Slot}, s.Needs env x y → rank y < rank x := by
    rintro x y ⟨f, i, hloc, hneeds⟩
    obtain ⟨state, hn⟩ := h.sound.layout.binding hloc.frame
      (Array.getElem?_eq_some_iff.1 hloc.instr).1
    obtain ⟨t, rfl⟩ := h.resolved hn
    exact hneeds (.refl s) (hrank.answers hn hloc)
  have htrans : ∀ {y : Slot}, Relation.TransGen (s.Needs env) slot y → rank y < rank slot := by
    intro y hy
    induction hy with
    | single hxy => exact hlower hxy
    | tail _ hyz ih => exact Nat.lt_trans (hlower hyz) ih
  intro hself
  exact Nat.lt_irrefl _ (htrans hself)

end Session

end ObjectModel
