import ObjectModel.Type
import ObjectModel.Text.Quoted

/-!
# Literals

The constants that instructions and values carry: integers of any size with a declared width,
truth values, strings, and tagged constants that are kept as they are. `IntLit.leastWidth` is the
number of bits that two's complement needs for a value.
-/

set_option autoImplicit false

namespace ObjectModel

/-- How the declared width of an integer literal is to be read. -/
inductive Signedness where
  | signed
  | unsigned
  | signless
deriving DecidableEq, Repr, Inhabited

/-- The letters in front of the width. -/
def Signedness.mark : Signedness → String
  | .signed => "si"
  | .unsigned => "ui"
  | .signless => "i"

/-- An integer with its declared width and signedness. The value need not fit the width. -/
structure IntLit where
  value : Int
  width : Nat
  signedness : Signedness
deriving DecidableEq, Repr, Inhabited

/-- The number of binary digits of `n`, none for zero. -/
def bitLength (n : Nat) : Nat :=
  if n = 0 then 0 else n.log2 + 1

namespace IntLit

/-- The least number of bits that hold `v` in two's complement. A negative number `-(n + 1)` has
the digits of `n` inverted, so it needs as many bits as `n`. -/
def leastWidth : Int → Nat
  | .ofNat n => bitLength n + 1
  | .negSucc n => bitLength n + 1

/-- The value, if 64 bits hold it in two's complement. -/
def toInt64? (i : IntLit) : Option Int :=
  if Int64.minValue.toInt ≤ i.value ∧ i.value ≤ Int64.maxValue.toInt then some i.value else none

/-- The value, the mark of the signedness and the width. -/
def render (i : IntLit) : String :=
  toString i.value ++ " : " ++ i.signedness.mark ++ toString i.width

end IntLit

/-- A constant. Two literals are equal only with equal widths and signedness. -/
inductive Literal where
  | int (i : IntLit)
  | bool (b : Bool)
  | string (s : String)
  /-- A constant of a named kind that is not interpreted. -/
  | tagged (kind payload : String)
deriving DecidableEq, Repr, Inhabited

namespace Literal

/-- The runtime type of a literal. -/
def type : Literal → Ty
  | .int i => .int i.width
  | .bool _ => .bool
  | .string _ => .string
  | .tagged kind _ => .tagged kind

def int? : Literal → Option IntLit
  | .int i => some i
  | _ => none

def bool? : Literal → Option Bool
  | .bool b => some b
  | _ => none

def string? : Literal → Option String
  | .string s => some s
  | _ => none

/-- The written form of a literal. -/
def render : Literal → String
  | .int i => i.render
  | .bool b => toString b
  | .string s => Text.quoted s
  | .tagged kind payload => "#" ++ kind ++ "<" ++ payload ++ ">"

/-- The variant of a literal, in one word. -/
def kind : Literal → String
  | .int _ => "integer"
  | .bool _ => "bool"
  | .string _ => "string"
  | .tagged _ _ => "opaque"

end Literal

end ObjectModel
