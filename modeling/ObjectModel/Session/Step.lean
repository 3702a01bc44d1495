import ObjectModel.Session.Task

/-!
# The evaluation machine

One step of a session. While a chain of activations waits, its most recent one starts, follows the
position it waits for, or resumes; when the chain is empty, the cursor demands the next binding in
the order of creation, so every instruction runs although nothing may ask for its value. A demand
for a binding that is in progress is a dataflow cycle.
-/

set_option autoImplicit false

namespace ObjectModel

/-- What a step leads to. -/
inductive Progress where
  | running (s : Session)
  /-- Every binding of every frame is evaluated. -/
  | finished (s : Session)
  | stopped (f : Failure) (s : Session)

namespace Session

/-- How many demands the notes of a dataflow cycle list. -/
def cycleNotes : Nat := 4

/-- Give up: whatever was in progress has failed. -/
def abort (s : Session) (f : Failure) : Progress :=
  .stopped f
    { s with
      nodes := s.chain.entries.foldl
        (fun nodes a => nodes.setIfInBounds a.binding.index (.binding a.slot .failed)) s.nodes
      chain := .empty }

/-- The error of a demand for a binding in progress: its class, and the most recent demands. -/
def cycleFailure (env : Environment) (s : Session) (slot : Slot) : Failure :=
  match s.frames[slot.frame]? with
  | none => .dangling
  | some f =>
    .error <| (s.chain.entries.take cycleNotes).foldl
      (fun e a => e.withNote (a.demand.describe env.names))
      (.dataflowCycle (env.names.text f.cls.name))

/-- Demand a binding that nothing demanded before. -/
def demand (env : Environment) (s : Session) (id : ValueId) (slot : Slot) : Progress :=
  match s.frames[slot.frame]? with
  | none => s.abort .dangling
  | some f =>
    match s.chain.push env.limits.depth
        { binding := id, slot, demand := ⟨f.cls.name, slot.instr⟩, work := .start } with
    | .ok chain =>
      .running
        { s with nodes := s.nodes.setIfInBounds id.index (.binding slot .inProgress), chain }
    | .error e =>
      { s with nodes := s.nodes.setIfInBounds id.index (.binding slot .failed) }.abort (.error e)

/-- Ask for the value of a binding that has none yet. -/
def enter (env : Environment) (s : Session) (id : ValueId) (slot : Slot) :
    BindingState → Progress
  | .unstarted => s.demand env id slot
  | .inProgress => s.abort (s.cycleFailure env slot)
  | .failed => s.abort (.error (.custom "value depends on a computation that already failed"))
  | .resolved _ => .running s

/-- Set the work of the most recent activation. -/
def setWork (s : Session) (work : Work) : Session :=
  { s with chain := s.chain.modifyTop fun a => { a with work } }

/-- End the most recent activation with a result. -/
def settle (s : Session) (result : ValueId) : Session :=
  match s.chain.entries with
  | [] => s
  | top :: _ =>
    { s with
      nodes := s.nodes.setIfInBounds top.binding.index (.binding top.slot (.resolved result))
      chain := s.chain.pop }

/-- Do what the most recent activation asks for. -/
def serve (env : Environment) (s : Session) : Request → Progress
  | .await task focus => .running (s.setWork (.await task focus 0))
  | .produce n =>
    let (id, s) := s.alloc n
    .running (s.settle id)
  | .forward id => .running (s.settle id)
  | .create target args =>
    match s.creation env target args with
    | .ok c =>
      let (id, s) := s.create c
      .running (s.settle id)
    | .error f => s.abort f
  | .fail f => s.abort f

/-- Start the instruction of the most recent activation. -/
def start (env : Environment) (s : Session) (slot : Slot) : Progress :=
  match s.frames[slot.frame]? with
  | none => s.abort .dangling
  | some f =>
    match f.cls.instrs[slot.instr]? with
    | none => s.abort .dangling
    | some i => { s with stats := s.stats.countInstruction }.serve env (f.start env i)

/-- Look at the position that the most recent activation waits for. Looking through erased types
ends when there were more of them than nodes. -/
def look (env : Environment) (s : Session) (task : Task) (focus : ValueId) (unwrapped : Nat) :
    Progress :=
  match s.nodes.node? focus with
  | none => s.abort .dangling
  | some (.binding _ (.resolved target)) => .running (s.setWork (.await task target unwrapped))
  | some (.binding slot state) => s.enter env focus slot state
  | some (.any payload) =>
    if task.narrows ∧ unwrapped ≤ s.nodes.size then
      .running (s.setWork (.await task payload (unwrapped + 1)))
    else s.serve env (task.resume env s.nodes focus)
  | some _ => s.serve env (task.resume env s.nodes focus)

/-- Move the cursor on, demanding the binding it was at unless that has a value. -/
def advance (env : Environment) (s : Session) : Progress :=
  match s.frames[s.cursor.frame]? with
  | none => .finished s
  | some f =>
    match f.binding? s.cursor.instr with
    | none => .running { s with cursor := ⟨s.cursor.frame + 1, 0⟩ }
    | some id =>
      let next := { s with cursor := ⟨s.cursor.frame, s.cursor.instr + 1⟩ }
      match s.nodes.node? id with
      | none => s.abort .dangling
      | some (.binding slot state) => next.enter env id slot state
      | some _ => .running next

/-- One step. -/
def step (env : Environment) (s : Session) : Progress :=
  match s.chain.entries with
  | [] => s.advance env
  | top :: _ =>
    match top.work with
    | .start => s.start env top.slot
    | .await task focus unwrapped => s.look env task focus unwrapped

end Session

end ObjectModel
