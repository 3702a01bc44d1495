import ObjectModel.Proofs.Session.Completion

/-!
# How bindings go on

A binding is demanded at most once, and then its evaluation ends with a value or fails
(`BindingState.Moves`). A step that goes on lets every binding stay as it is or make one such move,
and changes no value (`Sound.evolves`). A step that gives up lets whatever was in progress fail,
after a demand that is too deep has been marked and refused (`Sound.evolves_of_givesUp`). So along a
whole run bindings only ever move on (`Sound.evolves_of_runsTo`).
-/

set_option autoImplicit false

namespace ObjectModel

/-! ## States -/

namespace BindingState

/-- One move of a binding. -/
inductive Moves : BindingState → BindingState → Prop
  | start : Moves .unstarted .inProgress
  | resolve (target : ValueId) : Moves .inProgress (.resolved target)
  | fail : Moves .inProgress .failed

/-- Any number of moves. -/
abbrev Later : BindingState → BindingState → Prop := Relation.ReflTransGen Moves

variable {state state' : BindingState}

/-- A binding that is started never gets back. -/
theorem Later.ne_unstarted (h : Later state state') (hs : state ≠ .unstarted) :
    state' ≠ .unstarted := by
  induction h with
  | refl => exact hs
  | tail _ hmove _ =>
    rintro rfl
    cases hmove

theorem Later.eq_of_resolved {target : ValueId} (h : Later (.resolved target) state) :
    state = .resolved target := by
  induction h with
  | refl => rfl
  | tail _ hmove ih =>
    rw [ih] at hmove
    cases hmove

/-- The state of a binding that an evaluation leaves when it gives up. -/
theorem later_failed (h : state = .unstarted ∨ state = .inProgress) : Later state .failed := by
  rcases h with rfl | rfl
  · exact (Relation.ReflTransGen.single .start).tail .fail
  · exact .single .fail

end BindingState

open BindingState (Moves Later)

/-! ## Arenas -/

namespace Arena

variable {R S T : BindingState → BindingState → Prop} {a b c : Arena}

/-- Values stay, bindings go from one state to a related one, and new bindings are related to those
that are not started. -/
structure Evolves (R : BindingState → BindingState → Prop) (a b : Arena) : Prop where
  value : ∀ {id : ValueId} {n : Node}, a.node? id = some n → n.isBinding = false →
    b.node? id = some n
  binding : ∀ {id : ValueId} {slot : Slot} {state : BindingState},
    a.node? id = some (.binding slot state) →
      ∃ state', b.node? id = some (.binding slot state') ∧ R state state'
  fresh : ∀ {id : ValueId} {slot : Slot} {state : BindingState},
    b.node? id = some (.binding slot state) → a.size ≤ id.index → R .unstarted state

namespace Evolves

theorem refl (hR : ∀ state, R state state) (a : Arena) : a.Evolves R a where
  value hn _ := hn
  binding hn := ⟨_, hn, hR _⟩
  fresh hn hle := absurd (node?_lt hn) (Nat.not_lt.2 hle)

/-- One change after the other. -/
theorem comp (hab : a.Evolves R b) (hbc : b.Evolves S c)
    (hRS : ∀ {x y z}, R x y → S y z → T x z) (hS : ∀ {z}, S .unstarted z → T .unstarted z) :
    a.Evolves T c where
  value hn hb := hbc.value (hab.value hn hb) hb
  binding hn := by
    obtain ⟨y, hy, hR⟩ := hab.binding hn
    obtain ⟨z, hz, hS⟩ := hbc.binding hy
    exact ⟨z, hz, hRS hR hS⟩
  fresh := by
    intro id slot state hn hle
    -- What is new in the end was new after the first change, or is new since.
    by_cases hlt : id.index < b.size
    · obtain ⟨n, hid⟩ := exists_node? hlt
      cases n with
      | binding slot' y =>
        obtain ⟨z, hz, hyz⟩ := hbc.binding hid
        rw [hn] at hz
        cases hz
        exact hRS (hab.fresh hid hle) hyz
      | _ =>
        rw [hbc.value hid rfl] at hn
        cases hn
    · exact hS (hbc.fresh hn (Nat.not_lt.1 hlt))

/-- A new value changes no binding. -/
theorem of_push (a : Arena) {n : Node} (hn : n.isBinding = false) : a.Evolves Eq (a.push n) where
  value hm _ := node?_push_of_eq_some hm n
  binding hm := ⟨_, node?_push_of_eq_some hm n, rfl⟩
  fresh hm hle := absurd (node?_lt ((binding_push_iff hn).1 hm)) (Nat.not_lt.2 hle)

/-- The bindings of a new frame are not started. -/
theorem of_addBlock {f : Frame} {k : Nat} {fields : List ValueId} (hbase : f.base = a.size) :
    a.Evolves Eq (a.addBlock f k fields) where
  value hm _ := (node?_addBlock hbase).2 (Or.inl hm)
  binding hm := ⟨_, (node?_addBlock hbase).2 (Or.inl hm), rfl⟩
  fresh := by
    intro id slot state hm hle
    rcases (node?_addBlock hbase).1 hm with hm | ⟨_, -, -, hm⟩ | ⟨-, hm⟩
    · exact absurd (node?_lt hm) (Nat.not_lt.2 hle)
    · cases hm
      rfl
    · cases hm

/-- A binding that changes its state leaves everything else as it is. -/
theorem of_set {id : ValueId} {slot : Slot} {state state' : BindingState}
    (hn : a.node? id = some (.binding slot state)) (hR : ∀ x, R x x) (hs : R state state') :
    a.Evolves R (a.setIfInBounds id.index (.binding slot state')) where
  value := by
    intro j m hm hb
    rw [node?_set hn]
    split
    · rename_i hj
      rw [hj, hn] at hm
      cases hm
      cases hb
    · exact hm
  binding := by
    intro j slot₁ state₁ hm
    rw [node?_set hn]
    split
    · rename_i hj
      rw [hj, hn] at hm
      cases hm
      exact ⟨state', rfl, hs⟩
    · exact ⟨state₁, hm, hR state₁⟩
  fresh := by
    intro j slot₁ state₁ hm hle
    have hlt := node?_lt hm
    rw [Array.size_setIfInBounds] at hlt
    exact absurd hlt (Nat.not_lt.2 hle)

end Evolves

/-- The arena after the bindings of some activations have failed. -/
def failAll (a : Arena) (l : List Activation) : Arena :=
  l.foldl (fun nodes x => nodes.setIfInBounds x.binding.index (.binding x.slot .failed)) a

/-- Exactly the bindings of the activations fail. -/
theorem node?_failAll {l : List Activation} (hn : ∀ x ∈ l, ∃ n, a.node? x.binding = some n)
    (hnodup : (l.map Activation.binding).Nodup) :
    (∀ x ∈ l, (a.failAll l).node? x.binding = some (.binding x.slot .failed)) ∧
      ∀ j, (∀ x ∈ l, x.binding ≠ j) → (a.failAll l).node? j = a.node? j := by
  induction l generalizing a with
  | nil => exact ⟨by simp, fun _ _ => rfl⟩
  | cons x l ih =>
    obtain ⟨n, hx⟩ := hn x List.mem_cons_self
    rw [List.map_cons, List.nodup_cons] at hnodup
    -- The first binding is set, then the others, which are different ones.
    have hother : ∀ y ∈ l, y.binding ≠ x.binding := by
      intro y hy heq
      exact hnodup.1 (List.mem_map.2 ⟨y, hy, heq⟩)
    have hset := node?_set hx (.binding x.slot .failed)
    obtain ⟨hfailed, hsame⟩ := ih (a := a.setIfInBounds x.binding.index (.binding x.slot .failed))
      (by
        intro y hy
        rw [hset, if_neg (hother y hy)]
        exact hn y (List.mem_cons_of_mem _ hy)) hnodup.2
    constructor
    · intro y hy
      rcases List.mem_cons.1 hy with rfl | hy
      · exact (hsame _ hother).trans (by rw [hset, if_pos rfl])
      · exact hfailed y hy
    · intro j hj
      refine (hsame j fun y hy => hj y (List.mem_cons_of_mem _ hy)).trans ?_
      rw [hset, if_neg (Ne.symm (hj x List.mem_cons_self))]

end Arena

namespace Session

variable {env : Environment} {start : Nat} {s s' : Session} {e : Failure}

/-! ## Steps that go on -/

/-- A served request lets the binding of the most recent activation be evaluated, or changes no
binding. -/
theorem Sound.evolves_of_serve (h : Sound env start s) {top : Activation} {rest : List Activation}
    (hchain : s.chain.entries = top :: rest) {req : Request} (hsafe : req.Safe start s.nodes)
    (hserve : s.serve env req = .running s') :
    s.nodes.Evolves (Relation.ReflGen Moves) s'.nodes := by
  have hrefl : ∀ x, Relation.ReflGen Moves x x := fun _ => .refl
  -- An activation that ends lets its binding name the result.
  have hsettle : ∀ {r : Session}, Sound env start r → r.chain.entries = top :: rest → ∀ t,
      r.nodes.Evolves (Relation.ReflGen Moves) (r.settle t).nodes := by
    intro r hr hrchain t
    have hn := hr.waiting top (hrchain ▸ List.mem_cons_self)
    rw [Session.settle, hrchain]
    exact .of_set hn hrefl (.single (.resolve t))
  rcases serve_running hserve with ⟨task, focus, rfl, rfl⟩ | ⟨n, rfl, rfl⟩ | ⟨id, rfl, rfl⟩ |
    ⟨target, args, c, rfl, hc, rfl⟩
  · exact .refl hrefl _
  · have hpush := Arena.Evolves.of_push s.nodes (n := n) hsafe.1
    exact hpush.comp (hsettle (h.alloc hsafe.1 hsafe.2).2 hchain _) (fun hxy hyz => hxy ▸ hyz) id
  · exact hsettle h hchain id
  · obtain ⟨-, hsound, -, hsame⟩ := h.create hc hsafe
    have hcreate : s.nodes.Evolves Eq (s.create c).2.nodes := by
      cases c with
      | known o => exact .refl (fun _ => rfl) _
      | fresh f key fields => exact .of_addBlock (creation_eq_fresh hc).base
    exact hcreate.comp (hsettle hsound (by rw [hsame, hchain]) _) (fun hxy hyz => hxy ▸ hyz)
      fun hz => hz

/-- A step that goes on lets every binding make one move at most. -/
theorem Sound.evolves (h : Sound env start s) (ht : Transition env s s') :
    s.nodes.Evolves (Relation.ReflGen Moves) s'.nodes := by
  have hrefl : ∀ x, Relation.ReflGen Moves x x := fun _ => .refl
  cases ht with
  | pass _ _ _ => exact .refl hrefl _
  | skip _ _ _ _ _ => exact .refl hrefl _
  | next _ _ _ hn hd =>
    obtain ⟨f, chain, -, -, rfl⟩ := demand_running hd
    exact .of_set hn hrefl (.single .start)
  | demand _ _ hn hd =>
    obtain ⟨f, chain, -, -, rfl⟩ := demand_running hd
    exact .of_set hn hrefl (.single .start)
  | follow _ _ _ => exact .refl hrefl _
  | unwrap _ _ _ _ _ => exact .refl hrefl _
  | @serve top rest req s' hchain hreq hserve =>
    have hsafe := h.safe hchain hreq
    rw [← nodes_counted s top] at hsafe ⊢
    exact (h.counted top).evolves_of_serve (by rw [chain_counted, hchain]) hsafe hserve

/-! ## Steps that give up -/

/-- The last state after a session gave up: whatever was in progress has failed, and so has a demand
that was refused. -/
def GivesUp (s s' : Session) : Prop :=
  ∃ nodes, s'.nodes = Arena.failAll nodes s.chain.entries ∧ s'.chain.entries = [] ∧
    (nodes = s.nodes ∨ ∃ id slot, s.nodes.node? id = some (.binding slot .unstarted) ∧
      nodes = s.nodes.setIfInBounds id.index (.binding slot .failed))

section

-- The session in which a step gives up may differ from the one before in its counters and cursor.
variable {r : Session} (hnodes : r.nodes = s.nodes) (hchain : r.chain = s.chain)

include hnodes hchain

theorem givesUp_of_abort {f : Failure} (h : r.abort f = .stopped e s') : s.GivesUp s' := by
  cases h
  refine ⟨r.nodes, ?_, rfl, Or.inl hnodes⟩
  rw [← hchain]
  rfl

theorem givesUp_of_demand {id : ValueId} {slot : Slot}
    (hn : s.nodes.node? id = some (.binding slot .unstarted))
    (h : r.demand env id slot = .stopped e s') : s.GivesUp s' := by
  rw [demand] at h
  split at h
  · exact givesUp_of_abort hnodes hchain h
  · split at h
    · cases h
    · cases h
      refine ⟨_, ?_, rfl, Or.inr ⟨id, slot, hn, rfl⟩⟩
      rw [← hnodes, ← hchain]
      rfl

theorem givesUp_of_enter {id : ValueId} {slot : Slot} {state : BindingState}
    (hn : s.nodes.node? id = some (.binding slot state))
    (h : r.enter env id slot state = .stopped e s') : s.GivesUp s' := by
  cases state with
  | unstarted => exact givesUp_of_demand hnodes hchain hn h
  | inProgress => exact givesUp_of_abort hnodes hchain h
  | failed => exact givesUp_of_abort hnodes hchain h
  | resolved t => cases h

theorem givesUp_of_serve {req : Request} (h : r.serve env req = .stopped e s') : s.GivesUp s' := by
  cases req with
  | create target args =>
    rw [serve] at h
    split at h
    · cases h
    · exact givesUp_of_abort hnodes hchain h
  | fail f => exact givesUp_of_abort hnodes hchain h
  | _ => cases h

end

theorem givesUp_of_step (h : s.step env = .stopped e s') : s.GivesUp s' := by
  rw [step] at h
  split at h
  · rw [advance] at h
    split at h
    · cases h
    · split at h
      · cases h
      · split at h
        · exact givesUp_of_abort rfl rfl h
        · rename_i hn
          exact givesUp_of_enter (r := { s with cursor := ⟨s.cursor.frame, s.cursor.instr + 1⟩ })
            rfl rfl hn h
        · cases h
  · split at h
    · rw [Session.start] at h
      split at h
      · exact givesUp_of_abort rfl rfl h
      · split at h
        · exact givesUp_of_abort rfl rfl h
        · exact givesUp_of_serve (r := { s with stats := s.stats.countInstruction }) rfl rfl h
    · rw [look] at h
      split at h
      · exact givesUp_of_abort rfl rfl h
      · cases h
      · rename_i hn
        exact givesUp_of_enter rfl rfl hn h
      · split at h
        · cases h
        · exact givesUp_of_serve rfl rfl h
      · exact givesUp_of_serve rfl rfl h

namespace Sound

/-- When a session gives up, what was in progress fails, what was refused fails, and everything else
stays. -/
theorem node?_of_givesUp (h : Sound env start s) (hs : s.GivesUp s') (id : ValueId) :
    (s'.nodes.node? id = s.nodes.node? id ∧ ∀ a ∈ s.chain.entries, a.binding ≠ id) ∨
      ∃ slot state, s.nodes.node? id = some (.binding slot state) ∧
        (state = .unstarted ∨ state = .inProgress) ∧
          s'.nodes.node? id = some (.binding slot .failed) := by
  obtain ⟨nodes, hnodes, -, hmarked⟩ := hs
  -- The bindings in progress are there, also after the demand that was refused has failed.
  have hwaiting : ∀ a ∈ s.chain.entries, nodes.node? a.binding = s.nodes.node? a.binding := by
    intro a ha
    rcases hmarked with rfl | ⟨j, slot, hj, rfl⟩
    · rfl
    · rw [Arena.node?_set hj, if_neg]
      rintro heq
      have hwait := h.waiting a ha
      rw [heq, hj] at hwait
      cases hwait
  obtain ⟨hfailed, hsame⟩ := Arena.node?_failAll (a := nodes)
    (fun a ha => ⟨_, (hwaiting a ha).trans (h.waiting a ha)⟩) h.nodup
  rw [hnodes]
  by_cases hid : ∃ a ∈ s.chain.entries, a.binding = id
  · obtain ⟨a, ha, rfl⟩ := hid
    exact Or.inr ⟨a.slot, .inProgress, h.waiting a ha, Or.inr rfl, hfailed a ha⟩
  · have hnot : ∀ a ∈ s.chain.entries, a.binding ≠ id := fun a ha heq => hid ⟨a, ha, heq⟩
    rw [hsame id hnot]
    rcases hmarked with rfl | ⟨j, slot, hj, rfl⟩
    · exact Or.inl ⟨rfl, hnot⟩
    · rw [Arena.node?_set hj]
      split
      · rename_i heq
        exact Or.inr ⟨slot, .unstarted, by rw [heq, hj], Or.inl rfl, rfl⟩
      · exact Or.inl ⟨rfl, hnot⟩

/-- Nothing is in progress after a session gave up. -/
theorem not_inProgress_of_givesUp (h : Sound env start s) (hs : s.GivesUp s') {id : ValueId}
    {slot : Slot} : s'.nodes.node? id ≠ some (.binding slot .inProgress) := by
  intro hn
  rcases h.node?_of_givesUp hs id with ⟨hsame, hnot⟩ | ⟨slot', state, -, -, hfailed⟩
  · rw [hsame] at hn
    obtain ⟨a, ha, heq⟩ := h.inProgress hn
    exact hnot a ha heq
  · rw [hfailed] at hn
    cases hn

/-- A session that gives up lets every binding stay as it is or move on to its failure. -/
theorem evolves_of_givesUp (h : Sound env start s) (hs : s.GivesUp s') :
    s.nodes.Evolves Later s'.nodes where
  value := by
    intro id n hn hb
    rcases h.node?_of_givesUp hs id with ⟨hsame, -⟩ | ⟨slot, state, hbinding, -, -⟩
    · rw [hsame, hn]
    · rw [hn] at hbinding
      cases hbinding
      cases hb
  binding := by
    intro id slot state hn
    rcases h.node?_of_givesUp hs id with ⟨hsame, -⟩ | ⟨slot', state', hid, hstate, hfailed⟩
    · exact ⟨state, by rw [hsame, hn], .refl⟩
    · rw [hn] at hid
      cases hid
      exact ⟨.failed, hfailed, BindingState.later_failed hstate⟩
  fresh := by
    intro id slot state hn hle
    rcases h.node?_of_givesUp hs id with ⟨hsame, -⟩ | ⟨slot', state', hid, -, -⟩
    · rw [hsame] at hn
      exact absurd (Arena.node?_lt hn) (Nat.not_lt.2 hle)
    · exact absurd (Arena.node?_lt hid) (Nat.not_lt.2 hle)

end Sound

/-! ## Runs -/

/-- A later state of a run, the last one of a run that gives up included. -/
inductive RunsTo (env : Environment) (s : Session) : Session → Prop
  | state {s' : Session} : Reaches env s s' → RunsTo env s s'
  | stopped {last s' : Session} {e : Failure} : Reaches env s last →
      last.step env = .stopped e s' → RunsTo env s s'

/-- Along a run bindings move on and values stay. -/
theorem Sound.evolves_of_reaches (h : Sound env start s) (hr : Reaches env s s') :
    s.nodes.Evolves Later s'.nodes := by
  have hrun := hr.induct (I := fun r => Sound env start r ∧ s.nodes.Evolves Later r.nodes)
    (fun _ _ hr ht => ⟨(hr.1.transition ht).2,
      hr.2.comp (hr.1.evolves ht) (fun hxy hyz => hxy.trans hyz.to_reflTransGen)
        fun hz => hz.to_reflTransGen⟩)
    ⟨h, .refl (fun _ => .refl) _⟩
  exact hrun.2

theorem Sound.evolves_of_runsTo (h : Sound env start s) (hr : RunsTo env s s') :
    s.nodes.Evolves Later s'.nodes := by
  cases hr with
  | state hr => exact h.evolves_of_reaches hr
  | stopped hr hstep =>
    have hlast := (h.reaches hr).2
    exact (h.evolves_of_reaches hr).comp (hlast.evolves_of_givesUp (givesUp_of_step hstep))
      (fun hxy hyz => hxy.trans hyz) fun hz => hz

end Session

end ObjectModel
