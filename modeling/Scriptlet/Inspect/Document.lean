import Scriptlet.Text.Quoted

/-! # Structure listings

A listing shows how a value is built: constructors with their arguments, records with named fields,
lists and finite maps. It is laid out on one line, or with one item per line, four spaces deeper at
each level and a comma after every item.
-/

namespace Scriptlet.Inspect

inductive Document where
  | atom (text : String)
  | apply (constructor : String) (arguments : List Document)
  /-- An `open` record has further fields that are not shown. -/
  | record (name : String) (fields : List (String × Document)) (isOpen : Bool)
  | list (items : List Document)
  | map (entries : List (Document × Document))

namespace Document

def string (text : String) : Document :=
  .atom (Text.quoted text)

def fields (name : String) (entries : List (String × Document)) : Document :=
  .record name entries false

def option : Option Document → Document
  | none => .atom "None"
  | some document => .apply "Some" [document]

def pair (first second : Document) : Document :=
  .apply "" [first, second]

mutual

def inline : Document → String
  | .atom text => text
  | .apply constructor arguments =>
    constructor ++ "(" ++ ", ".intercalate (inlineAll arguments) ++ ")"
  | .record name fields isOpen =>
    let parts := inlineFields fields ++ if isOpen then [".."] else []
    name ++ " \x7b " ++ ", ".intercalate parts ++ " \x7d"
  | .list items => "[" ++ ", ".intercalate (inlineAll items) ++ "]"
  | .map entries => "\x7b" ++ ", ".intercalate (inlineEntries entries) ++ "\x7d"

def inlineAll : List Document → List String
  | [] => []
  | document :: rest => document.inline :: inlineAll rest

def inlineFields : List (String × Document) → List String
  | [] => []
  | (name, document) :: rest => (name ++ ": " ++ document.inline) :: inlineFields rest

def inlineEntries : List (Document × Document) → List String
  | [] => []
  | (key, value) :: rest => (key.inline ++ ": " ++ value.inline) :: inlineEntries rest

end

def indentation (level : Nat) : String :=
  String.ofList (List.replicate (4 * level) ' ')

/-- Items on lines of their own between two delimiters; nothing between them if there are none. -/
def stacked (level : Nat) (opening closing : String) (items : List String) : String :=
  if items.isEmpty then opening ++ closing
  else
    opening ++ "\n" ++ String.join (items.map fun item => indentation (level + 1) ++ item ++ "\n")
      ++ indentation level ++ closing

mutual

def stackedAt (level : Nat) : Document → String
  | .atom text => text
  | .apply constructor arguments =>
    stacked level (constructor ++ "(") ")" (stackedAll (level + 1) arguments)
  | .record name fields isOpen =>
    stacked level (name ++ " \x7b") "\x7d"
      (stackedFields (level + 1) fields ++ if isOpen then [".."] else [])
  | .list items => stacked level "[" "]" (stackedAll (level + 1) items)
  | .map entries => stacked level "\x7b" "\x7d" (stackedEntries (level + 1) entries)

def stackedAll (level : Nat) : List Document → List String
  | [] => []
  | document :: rest => (document.stackedAt level ++ ",") :: stackedAll level rest

def stackedFields (level : Nat) : List (String × Document) → List String
  | [] => []
  | (name, document) :: rest =>
    (name ++ ": " ++ document.stackedAt level ++ ",") :: stackedFields level rest

def stackedEntries (level : Nat) : List (Document × Document) → List String
  | [] => []
  | (key, value) :: rest =>
    (key.stackedAt level ++ ": " ++ value.stackedAt level ++ ",") :: stackedEntries level rest

end

def multiline (document : Document) : String :=
  document.stackedAt 0

end Document

end Scriptlet.Inspect
