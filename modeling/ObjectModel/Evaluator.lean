import ObjectModel.Session.Run
import ObjectModel.Session.Intake

/-!
# Evaluators

An evaluator instantiates classes of one class table under fixed limits. Each request is an
evaluation of its own: nothing but the table is shared, and a workspace gains the result graph and
the strings that were interned for its parameters.
-/

set_option autoImplicit false

namespace ObjectModel

/-- A class table with the limits of its evaluations. -/
structure Evaluator where
  table : TableId
  limits : Limits := {}
deriving DecidableEq, Repr

/-- A class to be instantiated with its actual parameters; `none` is an absent one. -/
structure Instantiation where
  cls : String
  params : List (Option Value)

/-- The declared parameters with their values, or the declaration of the first absent one. -/
def presentParams : List Decl → List (Option Value) → Except Decl (List (Decl × Value))
  | decl :: decls, some v :: vs => (presentParams decls vs).map ((decl, v) :: ·)
  | decl :: _, none :: _ => .error decl
  | _, _ => .ok []

/-- A request whose parameters are checked: what its evaluation reads, the arena with the copies of
the parameters, and where in it they are. -/
structure Preparation where
  env : Environment
  nodes : Arena
  args : List ValueId

namespace Evaluator

/-- Check the parameters of a request before anything is evaluated: their number first, then that
all of them are there, then one after the other their types. -/
def prepare (e : Evaluator) (w : Workspace) (n : Name) (params : List (Option Value)) :
    Workspace × Except Failure Preparation :=
  let classes := w.table e.table
  let names := w.tableNames e.table
  match classes.lookup? n with
  | none => (w, .error (.error (.ofKind (.unknownClass (names.text n)))))
  | some cls =>
    if params.length ≠ cls.params.length then
      (w, .error (.error (.ofKind (.parameterCountMismatch params.length cls.params.length))))
    else
      match presentParams cls.params params with
      | .error decl => (w, .error (.error (.ofKind (.nullParameter (names.text decl.name)))))
      | .ok present =>
        match Intake.addParams e.table present w {} with
        | (w, .error f) => (w, .error f)
        | (w, .ok (args, intake)) =>
          (w, .ok
            { env := { classes, names := w.tableNames e.table, limits := e.limits }
              nodes := intake.nodes
              args })

/-- The steps that an evaluation may take, more than can be carried out. -/
def allowance : Nat := 1 <<< 128

/-- Instantiate the class of a name. -/
def instantiateName (e : Evaluator) (w : Workspace) (n : Name) (params : List (Option Value))
    (steps : Nat := allowance) : Workspace × Except Failure Value :=
  match e.prepare w n params with
  | (w, .error f) => (w, .error f)
  | (w, .ok a) =>
    match a.env.evaluate e.table a.nodes n a.args steps with
    | .error f => (w, .error f)
    | .ok (g, root) =>
      let (v, w) := w.addGraph g root
      (w, .ok v)

/-- Instantiate the class whose name has that text. -/
def instantiate (e : Evaluator) (w : Workspace) (cls : String) (params : List (Option Value)) :
    Workspace × Except Failure Value :=
  match (w.tableNames e.table).get? cls with
  | none => (w, .error (.error (.ofKind (.unknownClass cls))))
  | some n => e.instantiateName w n params

/-- Carry out independent requests in order. -/
def instantiateAll (e : Evaluator) :
    List Instantiation → Workspace → Workspace × List (Except Failure Value)
  | [], w => (w, [])
  | r :: rest, w =>
    let (w, first) := e.instantiate w r.cls r.params
    let (w, others) := e.instantiateAll rest w
    (w, first :: others)

end Evaluator

end ObjectModel
