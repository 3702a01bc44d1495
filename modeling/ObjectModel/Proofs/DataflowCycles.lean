import ObjectModel.Proofs.Instantiation
import ObjectModel.Proofs.Session.Stack
import ObjectModel.Proofs.Session.States
import ObjectModel.Proofs.Session.Stop

/-!
# Dataflow cycles

A request fails with a dataflow cycle exactly when its evaluation demands a binding that is on the
chain already, and then the value of that binding transitively needs itself. The error names the
class that the binding belongs to and lists the most recent demands
(`Evaluator.instantiateName_cycle_iff`). That the chain has exactly the bindings in progress, in the
order in which they were demanded (`Session.Aligned`), is what makes no cycle false and none missed.
-/

set_option autoImplicit false

namespace ObjectModel

open BindingState (Moves Later)

variable {env : Environment} {start : Nat}

namespace Session

variable {s s' : Session}

/-- A binding is asked for next: the most recent activation waits for it, or nothing waits and the
cursor is at it. -/
inductive Demanded (s : Session) : ValueId → Prop
  | await {top : Activation} {rest : List Activation} {task : Task} {focus : ValueId}
      {unwrapped : Nat} : s.chain.entries = top :: rest → top.work = .await task focus unwrapped →
      Demanded s focus
  | cursor {f : Frame} {id : ValueId} : s.chain.entries = [] →
      s.frames[s.cursor.frame]? = some f → f.binding? s.cursor.instr = some id → Demanded s id

/-- What is demanded while it is on the chain is what the most recent activation waits for. -/
theorem Demanded.exists_await {a : Activation} (h : s.Demanded a.binding)
    (ha : a ∈ s.chain.entries) : ∃ top rest task unwrapped, s.chain.entries = top :: rest ∧
      top.work = .await task a.binding unwrapped := by
  cases h with
  | await hchain hwork => exact ⟨_, _, _, _, hchain, hwork⟩
  | cursor hchain _ _ =>
    rw [hchain] at ha
    cases ha

namespace Sound

/-- A demand for a binding that is on the chain stops the session. -/
theorem step_of_demanded (h : Sound env start s) {a : Activation} (ha : a ∈ s.chain.entries)
    (hd : s.Demanded a.binding) : ∃ s', s.step env = .stopped (s.cycleFailure env a.slot) s' := by
  obtain ⟨top, rest, task, unwrapped, hchain, hwork⟩ := hd.exists_await ha
  have hstep : s.step env = s.abort (s.cycleFailure env a.slot) := by
    rw [step, hchain]
    simp only [hwork, look, h.waiting a ha]
    rfl
  exact ⟨_, hstep⟩

/-- A step that reports a dataflow cycle met a demand for a binding on the chain. -/
theorem demanded_of_stops (h : Sound env start s) {err : EvalError} {cls : String}
    (hs : Stops env s (.error err)) (hk : err.kind = .dataflowCycle cls) :
    ∃ a ∈ s.chain.entries, s.Demanded a.binding := by
  generalize he : Failure.error err = e at hs
  cases hs with
  | cycle hchain hwork hn =>
    obtain ⟨a, ha, rfl⟩ := h.inProgress hn
    exact ⟨a, ha, .await hchain hwork⟩
  | depth hpush =>
    cases he
    obtain ⟨max, -, -, rfl⟩ := DemandChain.push_eq_error hpush
    cases hk
  | request hchain hreq =>
    cases he
    cases h.reported hreq <;> cases hk
  | @creation top rest target args _ hchain hreq hc =>
    cases he
    have hargs : ∀ id ∈ args, id.index < (s.counted top).nodes.size := by
      intro id hid
      rw [nodes_counted]
      exact (h.safe hchain hreq id hid).lt h.layout.start_le
    rcases creation_eq_error hargs hc with ⟨-, he⟩ | ⟨_, -, -, he⟩ |
      ⟨_, _, _, -, -, -, -, -, -, he⟩
    all_goals
      cases he
      cases hk

/-- A step reports a dataflow cycle exactly if it demands a binding that is on the chain. -/
theorem step_cycle_iff (h : Sound env start s) :
    (∃ err s' cls, s.step env = .stopped (.error err) s' ∧ err.kind = .dataflowCycle cls) ↔
      ∃ a ∈ s.chain.entries, s.Demanded a.binding := by
  constructor
  · rintro ⟨err, s', cls, hstep, hk⟩
    exact h.demanded_of_stops (h.step_stops hstep) hk
  · rintro ⟨a, ha, hd⟩
    obtain ⟨s', hstep⟩ := h.step_of_demanded ha hd
    obtain ⟨f, hf⟩ := h.exists_frame (h.waiting a ha)
    rw [cycleFailure_eq hf] at hstep
    exact ⟨_, s', _, hstep, rfl⟩

end Sound

/-! ## The chain and the bindings in progress -/

/-- The bindings in progress are those of the chain, in its order. Each activation stands for the
demand of its instruction, and the one below it waits for its binding and cannot do without. -/
structure Aligned (env : Environment) (s : Session) : Prop where
  inProgress : ∀ {id : ValueId} {slot : Slot},
    s.nodes.node? id = some (.binding slot .inProgress) ↔
      ∃ a ∈ s.chain.entries, a.binding = id ∧ a.slot = slot
  nodup : (s.chain.entries.map Activation.binding).Nodup
  demand : ∀ a ∈ s.chain.entries, ∃ f i, s.Located a.slot f i ∧
    a.demand = ⟨f.cls.name, a.slot.instr⟩
  linked : s.chain.entries.IsChain fun above below =>
    above.Calls below ∧ s.Needs env below.slot above.slot

theorem Sound.aligned (h : Sound env start s) (hs : Stacked env s) : s.Aligned env where
  inProgress := by
    intro id slot
    constructor
    · intro hn
      obtain ⟨a, ha, rfl⟩ := h.inProgress hn
      have hwait := h.waiting a ha
      rw [hn] at hwait
      cases hwait
      exact ⟨a, ha, rfl, rfl⟩
    · rintro ⟨a, ha, rfl, rfl⟩
      exact h.waiting a ha
  nodup := h.nodup
  demand := by
    intro a ha
    obtain ⟨f, i, hloc⟩ := Located.of_binding h.layout (h.waiting a ha)
    exact ⟨f, i, hloc, hs.named a ha hloc⟩
  linked := by
    refine List.IsChain.imp_of_mem_imp ?_ hs.linked
    rintro above below habove hbelow ⟨task, unwrapped, hwork⟩
    exact ⟨⟨task, unwrapped, hwork⟩, hs.needs h hbelow hwork (h.waiting above habove)⟩

/-- A binding that is demanded while it is on the chain needs itself. -/
theorem Stacked.needs_self (hs : Stacked env s) (h : Sound env start s) {a : Activation}
    (ha : a ∈ s.chain.entries) (hd : s.Demanded a.binding) :
    Relation.TransGen (s.Needs env) a.slot a.slot := by
  obtain ⟨top, rest, task, unwrapped, hchain, hwork⟩ := hd.exists_await ha
  have htop := hs.needs h (hchain ▸ List.mem_cons_self) hwork (h.waiting a ha)
  exact Relation.TransGen.tail' (hs.needs_top h hchain a ha) htop

/-- What a slot needs it goes on to need. -/
theorem Needs.grows {x y : Slot} (h : s.Needs env x y) (hg : s.Grows s') : s'.Needs env x y := by
  obtain ⟨f, i, hloc, hneeds⟩ := h
  exact ⟨f, i, hloc.grows hg, fun hg' hans => hneeds (hg.trans hg') hans⟩

/-! ## States of a run -/

/-- What holds of the bindings in every state of a run. -/
structure Orderly (env : Environment) (s : Session) : Prop where
  aligned : s.Aligned env
  /-- A step lets each binding make one move at most. -/
  step : ∀ {s' : Session}, s.step env = .running s' →
    s.nodes.Evolves (Relation.ReflGen Moves) s'.nodes
  /-- Nothing is in progress after the session gave up. -/
  stopped : ∀ {e : Failure} {s' : Session}, s.step env = .stopped e s' →
    s'.chain.entries = [] ∧
      ∀ (id : ValueId) (slot : Slot), s'.nodes.node? id ≠ some (.binding slot .inProgress)
  later : ∀ {s' : Session}, RunsTo env s s' → s.nodes.Evolves Later s'.nodes
  started : ∀ {s' : Session}, RunsTo env s s' → ∀ {id : ValueId} {slot slot' : Slot}
    {state state' : BindingState}, s.nodes.node? id = some (.binding slot state) →
      state ≠ .unstarted → s'.nodes.node? id = some (.binding slot' state') → state' ≠ .unstarted
  resolved : ∀ {id t : ValueId} {slot : Slot},
    s.nodes.node? id = some (.binding slot (.resolved t)) → s.nodes.IsValue t ∧
      ∀ {s' : Session}, RunsTo env s s' →
        s'.nodes.node? id = some (.binding slot (.resolved t))

theorem Sound.orderly (h : Sound env start s) (hs : Stacked env s) : s.Orderly env where
  aligned := h.aligned hs
  step hstep := h.evolves (step_transition hstep)
  stopped hstep := by
    obtain ⟨nodes, -, hchain, -⟩ := givesUp_of_step hstep
    exact ⟨hchain, fun id slot => h.not_inProgress_of_givesUp (givesUp_of_step hstep)⟩
  later hr := h.evolves_of_runsTo hr
  started hr := by
    intro id slot slot' state state' hn hstate hn'
    obtain ⟨later, hlater, hmoves⟩ := (h.evolves_of_runsTo hr).binding hn
    rw [hn'] at hlater
    cases hlater
    exact hmoves.ne_unstarted hstate
  resolved hn := by
    refine ⟨h.layout.resolved hn, fun hr => ?_⟩
    obtain ⟨later, hlater, hmoves⟩ := (h.evolves_of_runsTo hr).binding hn
    rw [hmoves.eq_of_resolved] at hlater
    exact hlater

/-- Of two later states of one run, of which one is the last, the other one leads to it. -/
theorem Reaches.of_finished {r final : Session} (h : Reaches env s s') (h' : Reaches env s r)
    (hr : r.step env = .finished final) : Reaches env s' r := by
  have hunique : Relator.RightUnique fun x y : Session => x.step env = .running y := by
    intro x y z hy hz
    rw [hy] at hz
    cases hz
    rfl
  rcases Relation.ReflTransGen.total_of_right_unique hunique h h' with hle | hle
  · exact hle
  · rcases Relation.ReflTransGen.cases_head hle with heq | ⟨next, hnext, -⟩
    · rw [heq]
    · rw [hr] at hnext
      cases hnext

end Session

/-! ## Requests -/

namespace Environment

variable {nodes : Arena} {target : Name} {args : List ValueId} {f : Frame} {s₀ : Session}
  {steps : Nat}

/-- An evaluation with a first state comes to what the run from there comes to. -/
theorem Opens.complete_eq (h : env.Opens nodes target args f s₀) :
    env.complete nodes target args steps =
      ((s₀.runFor env steps).getD (.error .exhausted)).map fun s => (f.object, s) := by
  cases h with
  | @intro key fields hf =>
    have hcreate : Session.createObject env { nodes } target args =
        .ok (f.object, Session.addFrame { nodes } f key fields) :=
      Session.createObject_eq_ok_iff.2 ⟨_, hf.creation, rfl⟩
    rw [complete, hcreate]
    show ((Session.runFor env steps _).getD (.error .exhausted)).bind (fun s => .ok (_, s)) = _
    cases (Session.runFor env steps _).getD (.error .exhausted) <;> rfl

end Environment

namespace Evaluator

variable {e : Evaluator} {w w₁ : Workspace} {n : Name} {params : List (Option Value)}
  {p : Preparation} {f₀ : Frame} {s₀ : Session} {steps : Nat}

section

variable (hprepare : e.prepare w n params = (w₁, .ok p))
  (hopens : p.env.Opens p.nodes n p.args f₀ s₀)

include hprepare hopens

/-- A request fails as the run of its evaluation does. -/
theorem instantiateName_of_runFor {f : Failure}
    (hrun : (s₀.runFor p.env steps).getD (.error .exhausted) = .error f) :
    e.instantiateName w n params steps = (w₁, .error f) := by
  rw [instantiateName, hprepare]
  dsimp only
  rw [Environment.evaluate, hopens.complete_eq, hrun]
  rfl

theorem runFor_of_instantiateName {err : EvalError}
    (h : (e.instantiateName w n params steps).2 = .error (.error err)) :
    s₀.runFor p.env steps = some (.error (.error err)) := by
  cases hrun : s₀.runFor p.env steps with
  | none =>
    rw [instantiateName_of_runFor hprepare hopens (by rw [hrun]; rfl)] at h
    cases h
  | some r =>
    cases r with
    | error f =>
      rw [instantiateName_of_runFor hprepare hopens (by rw [hrun]; rfl)] at h
      cases h
      rfl
    | ok s =>
      have hwhole := (hopens.ends (prepare_eq_ok hprepare).nodes ⟨steps, hrun⟩).2.whole
      have hok := instantiateName_eq_ok_iff.2 ⟨w₁, p, f₀.object, s, s.nodes.finish, hprepare,
        Environment.complete_eq_ok_iff.2 ⟨f₀, s₀, hopens, rfl, hrun⟩, hwhole.sealed, rfl⟩
      rw [hok] at h
      cases h

end

/-- In an evaluation whose parameters are imported bindings only move on, and those in progress are
the chain of demands. The request fails with a dataflow cycle exactly if a binding is demanded that
is on the chain, which then transitively needs itself. The error names the class of the binding and
lists the most recent demands. -/
theorem instantiateName_cycle_iff (hprepare : e.prepare w n params = (w₁, .ok p))
    (hopens : p.env.Opens p.nodes n p.args f₀ s₀) :
    (∀ {id : ValueId} {slot : Slot} {state : BindingState},
      s₀.nodes.node? id = some (.binding slot state) → state = .unstarted) ∧
    (∀ {s : Session}, Session.Reaches p.env s₀ s → s.Orderly p.env) ∧
    (∀ {s : Session} {a : Activation}, Session.Reaches p.env s₀ s → a ∈ s.chain.entries →
      s.Demanded a.binding → Relation.TransGen (s.Needs p.env) a.slot a.slot ∧
        ∃ f m, s.frames[a.slot.frame]? = some f ∧ ∀ steps ≥ m,
          e.instantiateName w n params steps = (w₁, .error (.error
            { kind := .dataflowCycle (p.env.names.text f.cls.name)
              notes := ("while evaluating class \"" ++ p.env.names.text f.cls.name ++ "\"") ::
                ((s.chain.entries.map Activation.demand).take (min 4 s.chain.depth)).map
                  (Demand.describe p.env.names) }))) ∧
    (∀ {steps : Nat} {err : EvalError} {cls : String},
      (e.instantiateName w n params steps).2 = .error (.error err) →
        err.kind = .dataflowCycle cls → ∃ s a, Session.Reaches p.env s₀ s ∧
          a ∈ s.chain.entries ∧ s.Demanded a.binding) ∧
    ∀ {steps : Nat} {w' : Workspace} {v : Value} {s : Session} {slot : Slot},
      e.instantiateName w n params steps = (w', .ok v) → Session.Reaches p.env s₀ s →
        ¬ Relation.TransGen (s.Needs p.env) slot slot := by
  have hnodes := (prepare_eq_ok hprepare).nodes
  have hsound := hopens.sound hnodes
  have hstacked : s₀.Stacked p.env := .initial hopens.chain
  refine ⟨fun hn => hopens.unstarted hnodes hn, fun hr => ?_, fun {s a} hr ha hd => ?_,
    fun {steps err cls} h hk => ?_, fun {steps w' v s slot} h hr hself => ?_⟩
  · exact (hsound.reaches hr).2.orderly (hstacked.reaches hsound hr)
  · have hs := (hsound.reaches hr).2
    refine ⟨(hstacked.reaches hsound hr).needs_self hs ha hd, ?_⟩
    obtain ⟨s', hstep⟩ := hs.step_of_demanded ha hd
    obtain ⟨f, hf⟩ := hs.exists_frame (hs.waiting a ha)
    obtain ⟨m, hm⟩ := hr.ends ⟨1, by rw [Session.runFor, hstep]⟩
    refine ⟨f, m, hf, fun steps hle => instantiateName_of_runFor hprepare hopens ?_⟩
    rw [Session.runFor_of_le hle hm, Session.cycleFailure_eq hf]
    rfl
  · obtain ⟨s, hr, hend⟩ := Session.Ends.last ⟨steps, runFor_of_instantiateName hprepare hopens h⟩
    rcases hend with ⟨final, -, heq⟩ | ⟨f, final, hstep, heq⟩
    · cases heq
    · cases heq
      obtain ⟨a, ha, hd⟩ := (hsound.reaches hr).2.step_cycle_iff.1 ⟨err, final, cls, hstep, hk⟩
      exact ⟨s, a, hr, ha, hd⟩
  · -- What a slot needs in a state it needs in the last one, where no slot needs itself.
    obtain ⟨p', f', s₀', last, heval⟩ := exists_evaluates h
    obtain ⟨w₂, hprepare'⟩ := heval.prepared
    rw [hprepare] at hprepare'
    cases hprepare'
    obtain ⟨rfl, rfl⟩ := hopens.unique heval.opens
    obtain ⟨r, hreach, hend⟩ := heval.ends.last
    rcases hend with ⟨final, hstep, heq⟩ | ⟨f, final, -, heq⟩
    · cases heq
      obtain ⟨rfl, -, -⟩ := Session.step_finished hstep
      have hgrows := ((hsound.reaches hr).2.reaches (hr.of_finished hreach hstep)).1
      exact heval.completed.2.not_needs_self slot
        (hself.lift id fun _ _ hn => hn.grows hgrows)
    · cases heq

end Evaluator

namespace Sample

/-- A class with two sums, each one of which needs the other. -/
def knot : ClassDef where
  interner := ⟨0⟩
  name := ⟨1⟩
  params := []
  fields := [⟨⟨2⟩, .any⟩]
  instrs := #[.binary .add (.instr 1) (.instr 1), .binary .add (.instr 0) (.instr 0)]
  yields := [.instr 0]
  valid := ⟨by decide, by decide, by decide, by decide, rfl, by decide⟩

def knotTable : ClassTable where
  interner := ⟨0⟩
  classes := [knot]
  names_nodup := by decide
  interner_eq := by decide

def knotted : Workspace :=
  ((["Knot", "sum"].foldl (fun w s => (w.intern ⟨0⟩ s).2) (Workspace.addInterner {}).2).addTable
    knotTable).2

def knotPreparation : Preparation where
  env := { classes := knotTable, names := knotted.tableNames ⟨0⟩, limits := {} }
  nodes := #[]
  args := []

/-- The first sum is demanded while it is on the chain below the second one, so it needs itself. -/
theorem knot_cycle :
    evaluator.prepare knotted ⟨1⟩ [] = (knotted, .ok knotPreparation) ∧
    (evaluator.instantiateName knotted ⟨1⟩ [] 12).2 = .error (.error
      { kind := .dataflowCycle "Knot"
        notes := ["while evaluating class \"Knot\"", "demanded by instruction 1 of class \"Knot\"",
          "demanded by instruction 0 of class \"Knot\""] }) ∧
    ∃ f₀ s₀ s a, knotPreparation.env.Opens #[] ⟨1⟩ [] f₀ s₀ ∧
      Session.Reaches knotPreparation.env s₀ s ∧ a ∈ s.chain.entries ∧ s.Demanded a.binding ∧
        Relation.TransGen (s.Needs knotPreparation.env) a.slot a.slot := by
  have hprepare : evaluator.prepare knotted ⟨1⟩ [] = (knotted, .ok knotPreparation) := rfl
  have hresult : (evaluator.instantiateName knotted ⟨1⟩ [] 12).2 = .error (.error
      { kind := .dataflowCycle "Knot"
        notes := ["while evaluating class \"Knot\"", "demanded by instruction 1 of class \"Knot\"",
          "demanded by instruction 0 of class \"Knot\""] }) := by
    decide +kernel
  have hcreation : Session.creation knotPreparation.env { nodes := #[] } ⟨1⟩ [] =
      .ok (.fresh { cls := knot, params := #[], base := 0 } ⟨⟨1⟩, []⟩ [⟨0⟩]) := rfl
  obtain ⟨f₀, -, hopens⟩ := Environment.opens_of_creation hcreation
  obtain ⟨-, -, hneeds, hcycle, -⟩ :=
    Evaluator.instantiateName_cycle_iff hprepare (p := knotPreparation) hopens
  obtain ⟨s, a, hr, ha, hd⟩ := hcycle hresult rfl
  exact ⟨hprepare, hresult, f₀, _, s, a, hopens, hr, ha, hd, (hneeds hr ha hd).1⟩

end Sample

end ObjectModel
