import ObjectModel.Proofs.Session.Progress
import ObjectModel.Proofs.Session.Stack
import ObjectModel.Proofs.Arena.Wrapping

/-!
# Forcing through erased types

A task that looks through erased types waits at one position after the other, while the payloads on
the way are evaluated and the arena grows. Throughout, the position that it waits at is seen from
the first one (`Session.Forcing`), so the value at which it goes on (`Session.Arrives`) is the first
one behind the erased types, or these loop (`Session.Forcing.arrived`). A run in which the task is
done with has gone through such a value (`Session.exists_arrives`).
-/

set_option autoImplicit false

namespace ObjectModel.Session

variable {env : Environment} {start : ℕ} {s s' : Session} {id o focus : ValueId} {task : Task}
  {unwrapped : ℕ} {top : Activation} {rest : List Activation}

/-- The most recent activation is that of a binding, and its task goes on at this value: one that is
no erased type, or one of more erased types than there are nodes. -/
structure Arrives (s : Session) (id : ValueId) (task : Task) (focus : ValueId) (unwrapped : ℕ) :
    Prop where
  waits : ∃ top rest, s.chain.entries = top :: rest ∧ top.binding = id ∧
    top.work = .await task focus unwrapped
  value : s.nodes.IsValue focus
  ends : ∀ p, s.nodes.node? focus = some (.any p) → s.nodes.size < unwrapped

/-- A task that looks through erased types goes on at the value at which it arrives. -/
theorem Arrives.step (h : s.Arrives id task focus unwrapped) :
    s.step env = s.serve env (task.resume env s.nodes focus) := by
  obtain ⟨top, rest, hchain, -, hwork⟩ := h.waits
  obtain ⟨n, hn, hb⟩ := h.value
  have hfaces : s.Faces task focus := by
    refine .intro hchain hwork hn hb ?_
    rintro p rfl ⟨-, hle⟩
    exact Nat.not_le.2 (h.ends p hn) hle
  exact hfaces.step_eq env

/-! ## The position that a task waits at -/

/-- A binding was demanded, and if it is evaluated still, then with the task, at a position that is
seen from the first one, or with a task that has less to wait for. -/
structure Forcing (s : Session) (id : ValueId) (task : Task) (o : ValueId) : Prop where
  demanded : ∃ slot state, s.nodes.node? id = some (.binding slot state) ∧ state ≠ .unstarted
  waits : ∀ a ∈ s.chain.entries, a.binding = id → ∃ task' focus unwrapped,
    a.work = .await task' focus unwrapped ∧
      (task' = task ∧ s.nodes.Sees o unwrapped focus ∨ task'.remaining < task.remaining)

namespace Forcing

/-- The most recent activation waits for the first value of its task. -/
theorem initial (hs : Sound env start s) (hchain : s.chain.entries = top :: rest)
    (hwork : top.work = .await task o 0) : s.Forcing top.binding task o where
  demanded := by
    have hmem : top ∈ s.chain.entries := hchain ▸ List.mem_cons_self
    exact ⟨_, _, hs.waiting top hmem, by simp⟩
  waits := by
    intro a ha hid
    have hnodup := hs.nodup
    rw [hchain] at ha hnodup
    rcases List.mem_cons.1 ha with rfl | ha
    · exact ⟨task, o, 0, hwork, Or.inl ⟨rfl, .start⟩⟩
    · -- No other activation has the binding.
      rw [List.map_cons, List.nodup_cons, ← hid] at hnodup
      exact absurd (List.mem_map_of_mem ha) hnodup.1

/-- A binding that was demanded is not demanded again. -/
theorem demanded_of_grows (h : s.Forcing id task o) (hg : s.Grows s') :
    ∃ slot state, s'.nodes.node? id = some (.binding slot state) ∧ state ≠ .unstarted := by
  obtain ⟨slot, state, hn, hstate⟩ := h.demanded
  obtain ⟨state', hn'⟩ := hg.nodes.binding hn
  refine ⟨slot, state', hn', ?_⟩
  rintro rfl
  have hold := hg.nodes.unstarted hn' (Arena.node?_lt hn)
  rw [hn] at hold
  cases hold
  exact hstate rfl

/-- Activations may leave the chain while the session grows. -/
theorem of_subset (h : s.Forcing id task o) (hg : s.Grows s')
    (hchain : ∀ a ∈ s'.chain.entries, a ∈ s.chain.entries) : s'.Forcing id task o where
  demanded := h.demanded_of_grows hg
  waits := by
    intro a ha hid
    obtain ⟨task', focus, unwrapped, hwork, hwaits⟩ := h.waits a (hchain a ha) hid
    exact ⟨task', focus, unwrapped, hwork, hwaits.imp_left fun hw => ⟨hw.1, hw.2.grows hg.nodes⟩⟩

/-- A binding that is demanded for the first time is another one. -/
theorem demand (h : s.Forcing id task o) (hg : s.Grows s') {a : Activation} {slot : Slot}
    (hn : s.nodes.node? a.binding = some (.binding slot .unstarted))
    (hchain : s'.chain.entries = a :: s.chain.entries) : s'.Forcing id task o where
  demanded := h.demanded_of_grows hg
  waits := by
    intro b hb hid
    rw [hchain] at hb
    rcases List.mem_cons.1 hb with rfl | hb
    · obtain ⟨slot', state, hn', hstate⟩ := h.demanded
      rw [← hid, hn] at hn'
      cases hn'
      exact absurd rfl hstate
    · obtain ⟨task', focus, unwrapped, hwork, hwaits⟩ := h.waits b hb hid
      exact ⟨task', focus, unwrapped, hwork, hwaits.imp_left fun hw => ⟨hw.1, hw.2.grows hg.nodes⟩⟩

/-- The most recent activation may go on waiting if it is that of another binding, or with the task
at a position that is seen, or with a task that has less to wait for. -/
theorem setWork (h : s.Forcing id task o) (hchain : s.chain.entries = top :: rest) {next : Task}
    (hnext : top.binding = id → next = task ∧ s.nodes.Sees o unwrapped focus ∨
      next.remaining < task.remaining) :
    (s.setWork (.await next focus unwrapped)).Forcing id task o where
  demanded := h.demanded
  waits := by
    intro a ha hid
    rw [chain_setWork hchain] at ha
    rcases List.mem_cons.1 ha with rfl | ha
    · exact ⟨next, focus, unwrapped, rfl, hnext hid⟩
    · exact h.waits a (hchain ▸ List.mem_cons_of_mem _ ha) hid

/-- A request that is served ends the most recent activation, or it waits with another task. -/
theorem serve (h : s.Forcing id task o) (hg : s.Grows s') (hchain : s.chain.entries = top :: rest)
    {req : Request} (hreq : s.Asks env top req)
    (hserve : (s.counted top).serve env req = .running s') : s'.Forcing id task o := by
  have hcchain : (s.counted top).chain.entries = top :: rest := by rw [chain_counted, hchain]
  have hrest : s'.chain.entries = rest → s'.Forcing id task o := by
    intro heq
    apply h.of_subset hg
    intro a ha
    rw [heq] at ha
    exact hchain ▸ List.mem_cons_of_mem _ ha
  rcases serve_running hserve with ⟨next, focus, rfl, rfl⟩ | ⟨n, rfl, rfl⟩ | ⟨t, rfl, rfl⟩ |
    ⟨target, args, c, rfl, hc, rfl⟩
  · have hcounted : (s.counted top).Forcing id task o :=
      h.of_subset (.counted s top) fun a ha => by rwa [chain_counted] at ha
    refine hcounted.setWork hcchain fun hid => Or.inr ?_
    obtain ⟨before, value, unwrapped, hwork, hwaits⟩ :=
      h.waits top (hchain ▸ List.mem_cons_self) hid
    generalize hask : Request.await next focus = req at hreq
    cases hreq with
    | start hstart _ _ =>
      rw [hwork] at hstart
      cases hstart
    | @resume before' _ _ _ hwork' _ _ _ =>
      -- What the task asks for next has less to wait for than the task itself.
      rw [hwork] at hwork'
      cases hwork'
      have hresumes := before.resumes_resume env s.nodes value
      rw [← hask] at hresumes
      have hlt := hresumes.remaining_lt
      rcases hwaits with ⟨rfl, -⟩ | hless
      · exact hlt
      · exact Nat.lt_trans hlt hless
  · exact hrest (chain_settle (s := ((s.counted top).alloc n).2) hcchain _)
  · exact hrest (chain_settle hcchain _)
  · have hmchain : ((s.counted top).create c).2.chain.entries = top :: rest := by
      cases c <;> exact hcchain
    exact hrest (chain_settle hmchain _)

/-- A step keeps to the positions that are seen. -/
theorem transition (h : s.Forcing id task o) (hs : Sound env start s)
    (ht : Transition env s s') : s'.Forcing id task o := by
  have hg := (hs.transition ht).1
  cases ht with
  | pass _ _ _ => exact h.of_subset hg fun _ ha => ha
  | skip _ _ _ _ _ => exact h.of_subset hg fun _ ha => ha
  | next hchain _ _ hn hd =>
    obtain ⟨f, chain, hf, hentries, rfl⟩ := demand_running hd
    exact h.demand hg hn hentries
  | demand hchain hwork hn hd =>
    obtain ⟨f, chain, hf, hentries, rfl⟩ := demand_running hd
    exact h.demand hg hn hentries
  | follow hchain hwork hn =>
    refine h.setWork hchain fun hid => ?_
    obtain ⟨task', focus, unwrapped, hwork', hwaits⟩ :=
      h.waits _ (hchain ▸ List.mem_cons_self) hid
    rw [hwork] at hwork'
    cases hwork'
    exact hwaits.imp_left fun hw => ⟨hw.1, hw.2.follow hn⟩
  | unwrap hchain hwork hn _ _ =>
    refine h.setWork hchain fun hid => ?_
    obtain ⟨task', focus, unwrapped, hwork', hwaits⟩ :=
      h.waits _ (hchain ▸ List.mem_cons_self) hid
    rw [hwork] at hwork'
    cases hwork'
    exact hwaits.imp_left fun hw => ⟨hw.1, hw.2.unwrap hn⟩
  | serve hchain hreq hserve => exact h.serve hg hchain hreq hserve

theorem reaches (h : s.Forcing id task o) (hs : Sound env start s) (hr : Reaches env s s') :
    s'.Forcing id task o :=
  (hr.induct (I := fun r => Sound env start r ∧ r.Forcing id task o)
    (fun _ _ hr ht => ⟨(hr.1.transition ht).2, hr.2.transition hr.1 ht⟩) ⟨hs, h⟩).2

/-- A task that looks through erased types arrives at the first value behind them, having looked
through each of them once, or they loop. -/
theorem arrived (h : s.Forcing id task o) (hs : Sound env start s) (hk : Stacked env s)
    (ha : s.Arrives id task focus unwrapped) :
    (∀ {b : Arena} {k : ℕ} {u : ValueId}, s.nodes.Grows b → b.Narrows (fun _ => True) k o u →
      focus = u ∧ unwrapped = k) ∧
    (s.nodes.Narrows (fun _ => True) unwrapped o focus ∨
      (∃ p, s.nodes.node? focus = some (.any p)) ∧ s.nodes.Loops (s.nodes.resolve o)) := by
  obtain ⟨top, rest, hchain, hid, hwork⟩ := ha.waits
  have hmem : top ∈ s.chain.entries := hchain ▸ List.mem_cons_self
  have hnames : s.nodes.NamesValues := fun hn => hs.layout.resolved hn
  have hsees : s.nodes.Sees o unwrapped focus := by
    obtain ⟨task', focus', unwrapped', hwork', hwaits⟩ := h.waits top hmem hid
    rw [hwork] at hwork'
    cases hwork'
    rcases hwaits with ⟨-, hsees⟩ | hless
    · exact hsees
    · exact absurd hless (Nat.lt_irrefl _)
  constructor
  · intro b k u hg hn
    obtain ⟨j, rfl, hj⟩ := hsees.of_narrows hnames hg hn
    have hvalue := hg.isValue ha.value
    cases hj with
    | stop hd _ => exact ⟨(hd.eq_of_isValue hvalue).symm, rfl⟩
    | pass hd hp htail =>
      -- The erased types that were looked through are different nodes, so there is room to go on.
      have hle := (hk.trail top hmem hwork).le_size hg (.pass hd hp htail)
      obtain ⟨n, hnode, hb⟩ := ha.value
      rw [hd.eq_of_isValue hvalue, hg.value hnode hb] at hp
      cases hp
      exact absurd (ha.ends _ hnode) (Nat.not_lt.2 hle)
  · by_cases hany : ∃ p, s.nodes.node? focus = some (.any p)
    · obtain ⟨p, hp⟩ := hany
      exact Or.inr ⟨⟨p, hp⟩, hsees.loops hnames (ha.ends p hp)⟩
    · exact Or.inl (hsees.narrows hnames (.stop (.value ha.value) fun p hp => hany ⟨p, hp⟩))

end Forcing

/-! ## Arrival -/

/-- The activation of a binding waits with a task. -/
def WaitsWith (s : Session) (id : ValueId) (task : Task) : Prop :=
  ∃ a ∈ s.chain.entries, a.binding = id ∧ ∃ focus unwrapped, a.work = .await task focus unwrapped

/-- An activation goes on waiting with its task if the most recent one goes on waiting with its. -/
theorem WaitsWith.setWork (h : s.WaitsWith id task) (hchain : s.chain.entries = top :: rest)
    {task' : Task} {focus' : ValueId} {unwrapped' : ℕ}
    (hwork : top.work = .await task' focus unwrapped) :
    (s.setWork (.await task' focus' unwrapped')).WaitsWith id task := by
  obtain ⟨a, ha, hid, seen, looked, hawaits⟩ := h
  rw [WaitsWith, chain_setWork hchain]
  rw [hchain] at ha
  rcases List.mem_cons.1 ha with rfl | ha
  · rw [hawaits] at hwork
    cases hwork
    exact ⟨{ a with work := .await task focus' unwrapped' }, List.mem_cons_self, hid, _, _, rfl⟩
  · exact ⟨a, List.mem_cons_of_mem _ ha, hid, seen, looked, hawaits⟩

/-- An activation below the most recent one goes on waiting while that one is served. -/
theorem waitsWith_of_serve {a : Activation} (ha : a ∈ rest) (hid : a.binding = id)
    (hwork : a.work = .await task focus unwrapped) (hchain : s.chain.entries = top :: rest)
    {req : Request} (hserve : s.serve env req = .running s') : s'.WaitsWith id task := by
  have hrest : ∀ r : Session, (∀ b ∈ rest, b ∈ r.chain.entries) → r.WaitsWith id task :=
    fun r hr => ⟨a, hr a ha, hid, focus, unwrapped, hwork⟩
  rcases serve_running hserve with ⟨next, focus', rfl, rfl⟩ | ⟨n, rfl, rfl⟩ | ⟨t, rfl, rfl⟩ |
    ⟨target, args, c, rfl, hc, rfl⟩
  · refine hrest _ fun b hb => ?_
    rw [chain_setWork hchain]
    exact List.mem_cons_of_mem _ hb
  · refine hrest _ fun b hb => ?_
    rwa [chain_settle (s := (s.alloc n).2) hchain]
  · refine hrest _ fun b hb => ?_
    rwa [chain_settle hchain]
  · have hmchain : (s.create c).2.chain.entries = top :: rest := by
      cases c <;> exact hchain
    refine hrest _ fun b hb => ?_
    rwa [chain_settle hmchain]

/-- A task that looks through erased types waits on with the next step, or it has arrived. -/
theorem WaitsWith.transition (h : s.WaitsWith id task) (hnar : task.narrows)
    (ht : Transition env s s') :
    s'.WaitsWith id task ∨ ∃ focus unwrapped, s.Arrives id task focus unwrapped := by
  have hne : s.chain.entries ≠ [] := by
    obtain ⟨a, ha, -⟩ := h
    exact List.ne_nil_of_mem ha
  cases ht with
  | pass hchain _ _ => exact absurd hchain hne
  | skip hchain _ _ _ _ => exact absurd hchain hne
  | next hchain _ _ _ _ => exact absurd hchain hne
  | demand _ _ _ hd =>
    obtain ⟨a, ha, hid, hawaits⟩ := h
    obtain ⟨f, chain, hf, hentries, rfl⟩ := demand_running hd
    exact Or.inl ⟨a, hentries ▸ List.mem_cons_of_mem _ ha, hid, hawaits⟩
  | follow hchain hwork _ => exact Or.inl (h.setWork hchain hwork)
  | unwrap hchain hwork _ _ _ => exact Or.inl (h.setWork hchain hwork)
  | @serve top rest req _ hchain hreq hserve =>
    obtain ⟨a, ha, hid, focus, unwrapped, hwork⟩ := h
    rw [hchain] at ha
    rcases List.mem_cons.1 ha with rfl | ha
    · -- The most recent activation is served only when its value has arrived.
      right
      cases hreq with
      | start hstart _ _ =>
        rw [hwork] at hstart
        cases hstart
      | @resume task' focus' unwrapped' n hwork' hn hb hany =>
        rw [hwork] at hwork'
        cases hwork'
        refine ⟨focus, unwrapped, ⟨a, rest, hchain, hid, hwork⟩, ⟨n, hn, hb⟩, fun p hp => ?_⟩
        have hlook := hany p (Option.some.inj (hn.symm.trans hp))
        by_contra hle
        exact hlook ⟨hnar, Nat.le_of_not_lt hle⟩
    · left
      have hcchain : (s.counted top).chain.entries = top :: rest := by rw [chain_counted, hchain]
      exact waitsWith_of_serve ha hid hwork hcchain hserve

/-- A task that looks through erased types is done with only where it has arrived. -/
theorem exists_arrives (h : s.WaitsWith id task) (hnar : task.narrows) (hr : Reaches env s s')
    (hdone : ¬ s'.WaitsWith id task) :
    ∃ r focus unwrapped, Reaches env s r ∧ Reaches env r s' ∧
      r.Arrives id task focus unwrapped := by
  induction hr using Relation.ReflTransGen.head_induction_on with
  | refl => exact absurd h hdone
  | @head r r' hstep hlater ih =>
    rcases h.transition hnar (step_transition hstep) with hwaits | ⟨focus, unwrapped, harrives⟩
    · obtain ⟨t, focus, unwrapped, hreach, hreach', harrives⟩ := ih hwaits
      exact ⟨t, focus, unwrapped, hreach.head hstep, hreach', harrives⟩
    · exact ⟨r, focus, unwrapped, .refl, hlater.head hstep, harrives⟩

end ObjectModel.Session
