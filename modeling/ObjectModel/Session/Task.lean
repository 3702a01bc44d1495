import ObjectModel.Session.Basic
import ObjectModel.Evaluation.Arithmetic

/-!
# Instructions and tasks

What an instruction asks of the session when it starts, and when a value arrives that it waited
for. Constants, lists, erased types and instantiations are settled at once; projections,
concatenations and integer operators wait for one operand after the other.
-/

set_option autoImplicit false

namespace ObjectModel

/-- What an instruction asks of the session. -/
inductive Request where
  /-- Wait for the value at a position. -/
  | await (task : Task) (focus : ValueId)
  /-- Give a new node as the result. -/
  | produce (node : Node)
  /-- Give a value that is there as the result. -/
  | forward (id : ValueId)
  /-- Give an instance of a class as the result. -/
  | create (target : Name) (args : List ValueId)
  | fail (f : Failure)
deriving DecidableEq, Repr

namespace Request

/-- A request about what a local stands for. -/
def about {α : Type} (found : Option α) (request : α → Request) : Request :=
  found.elim (.fail .dangling) request

/-- The request for a value, or for the error in its place. -/
def ofExcept {α : Type} (result : Except EvalError α) (request : α → Request) : Request :=
  match result with
  | .ok a => request a
  | .error e => .fail (.error e)

end Request

/-- What an instruction of a frame asks for when it starts. -/
def Frame.start (env : Environment) (f : Frame) : Instr → Request
  | .constant l => .produce (.literal l)
  | .object target args => .about (f.locals? args) (.create target)
  | .project source path =>
    .about (f.local? source) fun id =>
      match path with
      | [] => .await .forward id
      | field :: path => .await (.project field path) id
  | .list elem elements => .about (f.locals? elements) fun ids => .produce (.list elem ids)
  | .concat lists =>
    .about (f.locals? lists) fun
      | [] => .ofExcept (TypedList.concat []) fun l => .produce (.list l.elem l.elements)
      | id :: rest => .await (.concat [] rest) id
  | .any operand => .about (f.local? operand) fun id => .produce (.any id)
  | .binary op lhs rhs =>
    .about (f.local? lhs) fun l => .about (f.local? rhs) fun r => .await (.left op r) l
  | .unknown op => .fail (.error (.ofKind (.unknownInstruction (env.names.text op))))

namespace Arena

/-- The error of a value that is not what an instruction needs. -/
def mismatch (a : Arena) (expected : String) (id : ValueId) : EvalError :=
  .ofKind (.typeMismatch expected (a.kind id))

/-- The integer at a position. -/
def intAt (a : Arena) (id : ValueId) : Except EvalError IntLit :=
  match a.node? id with
  | some (.literal (.int i)) => .ok i
  | _ => .error (a.mismatch "integer" id)

/-- The list at a position. -/
def listAt (a : Arena) (id : ValueId) : Except EvalError TypedList :=
  match a.node? id with
  | some (.list elem elements) => .ok ⟨elem, elements⟩
  | _ => .error (a.mismatch "list" id)

/-- The position of a field of the object at a position. -/
def fieldAt (env : Environment) (a : Arena) (id : ValueId) (field : Name) :
    Except EvalError ValueId :=
  match a.node? id with
  | some (.object cls fields) =>
    let slot? := do
      let c ← env.classes.lookup? cls
      let index ← c.fieldIndex? field
      fields[index]?
    match slot? with
    | some slot => .ok slot
    | none => .error (.ofKind (.unknownField (env.names.text field)))
  | _ => .error (a.mismatch "object" id)

end Arena

/-- The result of an integer operator on two integers. An arithmetic failure is wrapped. -/
def IntOp.apply (op : IntOp) (lhs rhs : IntLit) : Except EvalError IntLit :=
  (op.eval lhs rhs).mapError EvalError.integerOperationFailed

/-- What a task asks for when its value has arrived. -/
def Task.resume (env : Environment) (nodes : Arena) (value : ValueId) : Task → Request
  | .forward => .forward value
  | .project field path =>
    .ofExcept (nodes.fieldAt env value field) fun slot =>
      match path with
      | [] => .await .forward slot
      | field :: path => .await (.project field path) slot
  | .concat seen (next :: rest) => .await (.concat (seen ++ [value]) rest) next
  | .concat seen [] =>
    .ofExcept ((seen ++ [value]).mapM nodes.listAt) fun lists =>
      .ofExcept (TypedList.concat lists) fun l => .produce (.list l.elem l.elements)
  | .left op rhs => .await (.right op value) rhs
  | .right op lhs =>
    .ofExcept (nodes.intAt lhs) fun l =>
      .ofExcept (nodes.intAt value) fun r =>
        .ofExcept (op.apply l r) fun i => .produce (.literal (.int i))

end ObjectModel
