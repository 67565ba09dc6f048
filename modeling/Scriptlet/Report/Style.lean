/-! # Coloured text

Terminal colours are switched on before a piece of text and off after it.
-/

namespace Scriptlet.Report

inductive Style where
  | heading
  | margin
  | marginBetween
  | marked
  | unmarked
  | emphasis
deriving DecidableEq, Repr

def Style.selection : Style → String
  | heading => "31"
  | margin => "38;5;246"
  | marginBetween => "38;5;240"
  | marked => "91"
  | unmarked => "38;5;249"
  | emphasis => "96"

def Style.paint (style : Style) (text : String) : String :=
  "\x1b[" ++ style.selection ++ "m" ++ text ++ "\x1b[0m"

def spaces (n : Nat) : String :=
  String.ofList (List.replicate n ' ')

end Scriptlet.Report
