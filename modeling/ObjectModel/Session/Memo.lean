import ObjectModel.Index
import ObjectModel.Graph.Node

/-!
# Memo keys

An instantiation is recognized by its class and its arguments. A literal argument is recognized by
its value, every other one by its identity, so how far evaluation has come plays no part.
-/

set_option autoImplicit false

namespace ObjectModel

/-- What an argument is recognized by. -/
inductive MemoArg where
  | literal (l : Literal)
  | ref (id : ValueId)
deriving DecidableEq, Repr

/-- What an instantiation is recognized by. -/
structure MemoKey where
  cls : Name
  args : List MemoArg
deriving DecidableEq, Repr

/-- Digests stay below this number. -/
def digestBound : Nat := 1 <<< 56

/-- A number for a literal. -/
def Literal.digest : Literal → Nat
  | .int i => i.value.natAbs % digestBound + i.width
  | .bool b => b.toNat
  | .string s => s.length
  | .tagged kind payload => kind.length + payload.length

/-- A number for an argument. -/
def MemoArg.digest : MemoArg → Nat
  | .literal l => l.digest
  | .ref id => id.index

instance : Digest MemoKey where
  digest key := key.args.foldl (fun d a => (31 * d + a.digest) % digestBound) key.cls.index

/-- The objects of the instantiations so far. -/
abbrev Memo := Index MemoKey ValueId

end ObjectModel
