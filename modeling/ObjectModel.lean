import ObjectModel.Text.Extending
import ObjectModel.Text.Invisible
import ObjectModel.Text.Quoted
import ObjectModel.Interner
import ObjectModel.Type
import ObjectModel.Literal
import ObjectModel.Diagnostic.Code
import ObjectModel.Diagnostic.Basic
import ObjectModel.Class.Instr
import ObjectModel.Class.Error
import ObjectModel.Class.Basic
import ObjectModel.Class.Draft
import ObjectModel.Table
import ObjectModel.Evaluation.Error
import ObjectModel.Evaluation.Arithmetic
import ObjectModel.Evaluation.Demand
import ObjectModel.Evaluation.Stats
import ObjectModel.Evaluation.Concat
import ObjectModel.Index
import ObjectModel.Graph.Node
import ObjectModel.Graph.Arena
import ObjectModel.Graph.Basic
import ObjectModel.Graph.View
import ObjectModel.Graph.Reach
import ObjectModel.Graph.Render
import ObjectModel.Workspace
import ObjectModel.Session.Memo
import ObjectModel.Session.Basic
import ObjectModel.Session.Task
import ObjectModel.Session.Step
import ObjectModel.Session.Run
import ObjectModel.Session.Intake
import ObjectModel.Evaluator
import ObjectModel.Proofs.Arena.Growth
import ObjectModel.Proofs.Arena.Narrowing
import ObjectModel.Proofs.Session.Answer
import ObjectModel.Proofs.Session.Request
import ObjectModel.Proofs.Session.Creation
import ObjectModel.Proofs.Session.Transition
import ObjectModel.Proofs.Session.Sound
import ObjectModel.Proofs.Session.Explained
import ObjectModel.Proofs.Intake.Copies
import ObjectModel.Proofs.Session.Completion
import ObjectModel.Proofs.Session.Equation
import ObjectModel.Proofs.Instantiation
import ObjectModel.Proofs.ObjectIdentity
import ObjectModel.Proofs.Session.Stop
import ObjectModel.Proofs.Intake.Discovery
import ObjectModel.Proofs.Safety
import ObjectModel.Proofs.Reordering.Classes
import ObjectModel.Proofs.Session.Builders
import ObjectModel.Proofs.Session.Counters
import ObjectModel.Proofs.Reordering.Pairing
import ObjectModel.Proofs.Reordering.Requests
import ObjectModel.Proofs.Reordering.Following
import ObjectModel.Proofs.Reordering.Evaluation
import ObjectModel.Proofs.Reordering.Results
import ObjectModel.Proofs.Reordering.Run
import ObjectModel.Proofs.Reordering.Opening
import ObjectModel.Proofs.Reordering.Matching
import ObjectModel.Proofs.Intake.Classes
import ObjectModel.Proofs.Reordering.Transfer
import ObjectModel.Proofs.GraphClasses
import ObjectModel.Proofs.InstructionOrder
import ObjectModel.Proofs.SealedGraphs
import ObjectModel.Proofs.Session.States
import ObjectModel.Proofs.Session.Stack
import ObjectModel.Proofs.DataflowCycles
import ObjectModel.Proofs.TaskFailures
import ObjectModel.Proofs.Intake.Reachability
import ObjectModel.Proofs.Intake.Translation
import ObjectModel.Proofs.Intake.Values
import ObjectModel.Proofs.Arena.Wrapping
import ObjectModel.Proofs.Intake.Tracing
import ObjectModel.Proofs.ParameterCopies
import ObjectModel.Proofs.FieldNames
import ObjectModel.Proofs.Session.Limits
import ObjectModel.Proofs.ResourceLimits
import ObjectModel.Proofs.Session.Trace
import ObjectModel.Proofs.Session.Progress
import ObjectModel.Proofs.Termination
import ObjectModel.Proofs.Session.Accounting
import ObjectModel.Proofs.EvaluationCounts
import ObjectModel.Proofs.Reordering.Mirror
import ObjectModel.Proofs.Reordering.Twins
import ObjectModel.Proofs.SharedInstances
import ObjectModel.Proofs.ErrorShapes
import ObjectModel.Proofs.StructuralBodies
import ObjectModel.Proofs.ClassDrafts
import ObjectModel.Proofs.Independence.Names
import ObjectModel.Proofs.Independence.Requests
import ObjectModel.Proofs.Independence.Sessions
import ObjectModel.Proofs.Independence.Parameters
import ObjectModel.Proofs.Independence.Evaluators
import ObjectModel.Proofs.Independence.Interning
import ObjectModel.Proofs.Independence.Histories
import ObjectModel.Proofs.Independence
import ObjectModel.Proofs.InternerCalls
import ObjectModel.Proofs.TableBuilders
import ObjectModel.Proofs.TwosComplement
import ObjectModel.Proofs.IntegerOperators
import ObjectModel.Proofs.Rendering.Forms
import ObjectModel.Proofs.Rendering
import ObjectModel.Proofs.Session.Forcing
import ObjectModel.Proofs.Narrowing
import ObjectModel.Proofs.Intake.Types
import ObjectModel.Proofs.ParameterChecks
import ObjectModel.Proofs.ObjectFields
import ObjectModel.Proofs.TypeOrder
import ObjectModel.Proofs.TypeForms
import ObjectModel.Proofs.TypeTexts
import ObjectModel.Proofs.Concatenation
import ObjectModel.Proofs.IntegerShifts
import ObjectModel.Proofs.CauseChains
