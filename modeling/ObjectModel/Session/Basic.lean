import ObjectModel.Graph.Arena
import ObjectModel.Table
import ObjectModel.Evaluation.Concat
import ObjectModel.Evaluation.Demand
import ObjectModel.Evaluation.Stats
import ObjectModel.Session.Memo

/-!
# Evaluation sessions

The state of one evaluation. Every instance of a class has a frame with its actual parameters and
one binding per body instruction. The bindings of a frame and then its object take consecutive
positions of the arena, so the object and its fields exist before any field is computed. A binding
is evaluated when it is demanded; the demands that wait for each other form a chain of activations.

An instantiation is decided first (`creation`) and carried out after (`create`), so one that is
refused leaves the session as it was.
-/

set_option autoImplicit false

namespace ObjectModel

/-- The limits of one evaluation; `none` is no limit. -/
structure Limits where
  /-- The longest chain of demands. -/
  depth : Option Nat := none
  /-- The most objects that one evaluation creates. -/
  instances : Option Nat := some 1000000
deriving DecidableEq, Repr, Inhabited

/-- What an evaluation reads and never changes. -/
structure Environment where
  classes : ClassTable
  /-- The interner of the class table. -/
  names : Interner
  limits : Limits
  /-- Whether an instantiation that was made before gives its object again. -/
  shares : Bool := true

/-- Why an evaluation gives no value. -/
inductive Failure where
  | error (e : EvalError)
  /-- A position without a node, a reference without a local, or a frame that is not there. -/
  | dangling
  /-- The evaluation takes more steps than it may. -/
  | exhausted
deriving DecidableEq, Repr

/-! ## Frames -/

/-- An instance of a class. -/
structure Frame where
  cls : ClassDef
  params : Array ValueId
  /-- The position of the first binding. -/
  base : Nat

namespace Frame

/-- The position of the binding of an instruction. -/
def binding? (f : Frame) (index : Nat) : Option ValueId :=
  if index < f.cls.instrs.size then some ⟨f.base + index⟩ else none

/-- The position that a local stands for. -/
def local? (f : Frame) : LocalRef → Option ValueId
  | .param index => f.params[index]?
  | .instr index => f.binding? index

/-- The positions that some locals stand for. -/
def locals? (f : Frame) (rs : List LocalRef) : Option (List ValueId) := rs.mapM f.local?

/-- The position of the object. -/
def object (f : Frame) : ValueId := ⟨f.base + f.cls.instrs.size⟩

end Frame

/-! ## Activations -/

/-- What an instruction does with the value that it waits for. -/
inductive Task where
  /-- Give the value on. -/
  | forward
  /-- Take a field of the value, then follow the rest of the path. -/
  | project (field : Name) (path : List Name)
  /-- Join the lists seen so far with the value and with the lists that are still to come. -/
  | concat (seen rest : List ValueId)
  /-- Use the value as the left operand; the right one is still to come. -/
  | left (op : IntOp) (rhs : ValueId)
  /-- Use the value as the right operand. -/
  | right (op : IntOp) (lhs : ValueId)
deriving DecidableEq, Repr

/-- Whether a task looks through erased types. -/
def Task.narrows : Task → Bool
  | .forward => false
  | _ => true

/-- What an activation does next. -/
inductive Work where
  /-- Start the instruction. -/
  | start
  /-- Wait for the value at `focus`, having looked through so many erased types. -/
  | await (task : Task) (focus : ValueId) (unwrapped : Nat)
deriving DecidableEq, Repr

/-- An instruction that is being evaluated. -/
structure Activation where
  /-- The binding that gets the result. -/
  binding : ValueId
  slot : Slot
  demand : Demand
  work : Work
deriving DecidableEq, Repr

/-! ## Sessions -/

/-- The state of one evaluation. -/
structure Session where
  nodes : Arena
  frames : Array Frame := #[]
  memo : Memo := .empty
  chain : DemandChain Activation := .empty
  /-- The next binding to be demanded once nothing waits. -/
  cursor : Slot := ⟨0, 0⟩
  stats : Stats := {}

namespace Session

/-- The instruction of a slot. -/
def instr? (s : Session) (slot : Slot) : Option Instr :=
  (s.frames[slot.frame]?).bind fun f => f.cls.instrs[slot.instr]?

/-- What the value at a position is recognized by: the literal of a constant, an imported literal,
or else the position itself. -/
def memoArg? (s : Session) (id : ValueId) : Option MemoArg :=
  (s.nodes.node? id).map fun
    | .literal l => .literal l
    | .binding slot _ =>
      match (s.instr? slot).bind Instr.literal? with
      | some l => .literal l
      | none => .ref id
    | _ => .ref id

/-- What an instantiation is recognized by. -/
def memoKey? (s : Session) (cls : Name) (args : List ValueId) : Option MemoKey :=
  (args.mapM s.memoArg?).map (MemoKey.mk cls)

/-- Add a node. -/
def alloc (s : Session) (n : Node) : ValueId × Session :=
  (⟨s.nodes.size⟩, { s with nodes := s.nodes.push n })

/-- Add a frame: its bindings, then its object with the given fields. -/
def addFrame (s : Session) (f : Frame) (key : MemoKey) (fields : List ValueId) : Session :=
  let id := s.frames.size
  { s with
    nodes :=
      (s.nodes ++ (Array.range f.cls.instrs.size).map fun i => Node.binding ⟨id, i⟩ .unstarted).push
        (.object f.cls.name fields)
    frames := s.frames.push f
    memo := s.memo.insert key f.object
    stats := s.stats.countObject }

/-! ## Instantiation -/

/-- What an instantiation comes to. -/
inductive Creation where
  /-- The object of an earlier instantiation. -/
  | known (object : ValueId)
  /-- A new frame, with the key that recognizes it and the fields of its object. -/
  | fresh (frame : Frame) (key : MemoKey) (fields : List ValueId)

/-- What the instantiation of a class with some arguments comes to. Arguments are not evaluated. -/
def creation (env : Environment) (s : Session) (target : Name) (args : List ValueId) :
    Except Failure Creation :=
  match env.classes.lookup? target with
  | none => .error (.error (.ofKind (.unknownClass (env.names.text target))))
  | some cls =>
    if args.length ≠ cls.params.length then
      .error (.error (.ofKind (.parameterCountMismatch args.length cls.params.length)))
    else
      match s.memoKey? target args with
      | none => .error .dangling
      | some key =>
        match if env.shares then s.memo.get? key else none with
        | some object => .ok (.known object)
        | none =>
          match env.limits.instances.filter (· ≤ s.frames.size) with
          | some limit => .error (.error (.ofKind (.instanceLimit limit)))
          | none =>
            let frame : Frame := { cls, params := args.toArray, base := s.nodes.size }
            match frame.locals? cls.yields with
            | none => .error .dangling
            | some fields => .ok (.fresh frame key fields)

/-- The object of an instantiation, created unless it is there. -/
def create (s : Session) : Creation → ValueId × Session
  | .known object => (object, { s with stats := s.stats.countMemoHit })
  | .fresh frame key fields => (frame.object, s.addFrame frame key fields)

/-- Instantiate a class, or find the object of an earlier instantiation. -/
def createObject (env : Environment) (s : Session) (target : Name) (args : List ValueId) :
    Except Failure (ValueId × Session) :=
  (s.creation env target args).map s.create

/-- A successful instantiation carries out what was decided. -/
theorem createObject_eq_ok_iff {env : Environment} {s : Session} {target : Name}
    {args : List ValueId} {r : ValueId × Session} :
    s.createObject env target args = .ok r ↔
      ∃ c, s.creation env target args = .ok c ∧ s.create c = r := by
  unfold createObject
  cases s.creation env target args <;> simp [Except.map]

end Session

end ObjectModel
