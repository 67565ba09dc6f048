import Scriptlet.Text.Printable

/-! # Quoted text

A text between double quotes on one line. The quote and the backslash are escaped by a backslash,
four controls have a letter of their own, and whatever is not printable is written by its code
point in hexadecimal.
-/

namespace Scriptlet.Text

def hexadecimal (n : Nat) : String :=
  String.ofList (Nat.toDigits 16 n)

def escaped (c : Char) : String :=
  match c with
  | '"' => "\\\""
  | '\\' => "\\\\"
  | '\t' => "\\t"
  | '\r' => "\\r"
  | '\n' => "\\n"
  | '\x00' => "\\0"
  | c => if isPrintable c then c.toString else "\\u\x7b" ++ hexadecimal c.toNat ++ "\x7d"

def quoted (text : String) : String :=
  "\"" ++ String.join (text.toList.map escaped) ++ "\""

end Scriptlet.Text
