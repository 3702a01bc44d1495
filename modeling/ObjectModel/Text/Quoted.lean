import ObjectModel.Text.Extending
import ObjectModel.Text.Invisible

/-!
# Quoted text

The written form of a string literal: double quotes around it, the six short escapes, and the code
point in hexadecimal for a character that has no visible form or attaches to its neighbour. A
single quote is not escaped.
-/

set_option autoImplicit false

namespace ObjectModel.Text

/-- A code point in lower-case hexadecimal, between braces. -/
def codePointEscape (c : Char) : String :=
  "\\u\x7b" ++ String.ofList (Nat.toDigits 16 c.toNat) ++ "\x7d"

/-- One character as it stands between the quotes. -/
def escapeChar (c : Char) : String :=
  match c with
  | '\x00' => "\\0"
  | '\t' => "\\t"
  | '\r' => "\\r"
  | '\n' => "\\n"
  | '\\' => "\\\\"
  | '"' => "\\\""
  | c => if isExtending c || isInvisible c then codePointEscape c else String.singleton c

/-- A string between double quotes, every character in its written form. -/
def quoted (s : String) : String :=
  s.foldl (fun text c => text ++ escapeChar c) "\"" ++ "\""

end ObjectModel.Text
