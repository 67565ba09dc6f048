import Scriptlet.Report.Style
import Scriptlet.Text.Blank
import Scriptlet.Text.Rows

/-! # Framed reports

A report with the rows of the source that it is about, in a frame. Each label underlines its part of
a row, and an arm from the middle of that part leads to the text of the label. Labels count in
characters, and a label belongs to the row that holds it as a whole.
-/

namespace Scriptlet.Report

structure Label where
  start : Nat
  stop : Nat
  text : String

namespace Label

/-- Whether a label lies in a source of `size` characters; it may end one beyond. -/
def fits (size : Nat) (label : Label) : Bool :=
  label.start ≤ size && (label.stop ≤ label.start || label.stop ≤ size + 1)

def isOn (row : Text.Row) (label : Label) : Bool :=
  row.offset ≤ label.start && label.stop ≤ row.offset + row.chars.length

/-- The column of a row that the arm of a label starts from. -/
def column (row : Text.Row) (label : Label) : Nat :=
  max ((label.start + label.stop) / 2) label.start - row.offset

def covers (position : Nat) (label : Label) : Bool :=
  label.start ≤ position && position < label.stop

/-- Arms further to the left come first, and of those in one column the label that starts last. -/
def precedes (row : Text.Row) (a b : Label) : Bool :=
  a.column row < b.column row || (a.column row = b.column row && b.start ≤ a.start)

end Label

/-- The number of terminal columns of a character in column `k`: a tab goes to the next multiple of
four. -/
def cellWidth (text : List Char) (k : Nat) : Nat :=
  if text[k]? = some '\t' then 4 - k % 4 else 1

/-- A cell and the cells that a wide column adds to it. -/
def cells (width : Nat) (head tail : String) : String :=
  head ++ String.join (List.replicate (width - 1) tail)

section Row

variable (row : Text.Row) (labels : List Label)

def isMarked (k : Nat) : Bool :=
  labels.any (·.covers (row.offset + k))

/-- The text of the row in colour. Blank characters are shown as spaces. -/
def rowText (text : List Char) : String :=
  String.join (text.zipIdx.map fun (c, k) =>
    let style : Style := if isMarked row labels k then .marked else .unmarked
    let shown := style.paint (if Text.isBlank c then " " else c.toString)
    cells (cellWidth text k) shown shown)

/-- Whether the arm of one of the labels passes column `k`. -/
def hasArm (k : Nat) : Bool :=
  labels.any (·.column row = k)

/-- A column of the row of arms above the text of a label. The row above the first label underlines
the marked columns as well. -/
def armCell (text : List Char) (first : Bool) (pending : List Label) (k : Nat) : String :=
  let width := cellWidth text k
  let underlined := first && isMarked row labels k
  let line := Style.marked.paint "─"
  if hasArm row pending k then
    if underlined then cells width (Style.marked.paint "┬") line
    else cells width (Style.marked.paint "│") (Style.marked.paint " ")
  else if underlined then cells width line line
  else cells width " " " "

/-- A column of the row in which the arm of a label bends to its text. -/
def elbowCell (text : List Char) (label : Label) (pending : List Label) (k : Nat) : String :=
  let width := cellWidth text k
  let line := Style.marked.paint "─"
  if k = label.column row then cells width (Style.marked.paint "╰") line
  else if label.column row < k then cells width line line
  else if hasArm row pending k then cells width (Style.marked.paint "│") (Style.marked.paint " ")
  else cells width " " " "

/-- The two rows for each label. An arm ends at its own label and passes the labels before it. -/
def arms (text : List Char) (reach : Nat) (first : Bool) : List Label → List String
  | [] => []
  | label :: rest =>
    let columns := List.range reach
    String.join (columns.map (armCell row labels text first (label :: rest)))
      :: (String.join (columns.map (elbowCell row text label (label :: rest))) ++ " " ++ label.text)
      :: arms text reach false rest

end Row

/-- The margin of a row that is not a row of the source. -/
def blankMargin (width : Nat) : String :=
  " " ++ Style.marginBetween.paint (spaces (width + 1) ++ "│") ++ " "

def numberMargin (width number : Nat) : String :=
  let digits := toString number
  " " ++ Style.margin.paint (spaces (width - digits.length) ++ digits ++ " │") ++ " "

/-- A row of the source that has labels, and the rows below it. -/
def labelledRow (width number : Nat) (row : Text.Row) (labels : List Label) : List String :=
  let labels := labels.mergeSort (Label.precedes row)
  let text := Text.trimEnd row.chars
  let reach := (labels.map fun label => label.stop - row.offset).foldl max 0 + 2
  (numberMargin width number ++ rowText row labels text)
    :: (arms row labels text reach true labels).map (blankMargin width ++ ·)

/-- Rows of the source from a number on. Rows without labels are left out; one empty row stands for
all that follow each other. -/
def sourceRows (width : Nat) (labels : List Label) : Nat → Bool → List Text.Row → List String
  | _, _, [] => []
  | number, skipping, row :: rest =>
    match labels.filter (·.isOn row) with
    | [] =>
      (if skipping then [] else [blankMargin width])
        ++ sourceRows width labels (number + 1) true rest
    | here =>
      labelledRow width number row here ++ sourceRows width labels (number + 1) false rest

structure Framed where
  code : String
  message : String
  /-- The character that the report is about. -/
  place : Nat
  labels : List Label

namespace Framed

/-- Row and column of a character, both counted from one. -/
def position (rows : List Text.Row) (size place : Nat) : String :=
  match rows[Text.rowOf rows place]? with
  | some row =>
    if place ≤ size then
      toString (Text.rowOf rows place + 1) ++ ":" ++ toString (place - row.offset + 1)
    else "?:?"
  | none => "?:?"

def frame (path : String) (rows : List Text.Row) (size place : Nat) (labels : List Label) :
    List String :=
  let start := (labels.map (·.start)).min?.getD 0
  let stop := (labels.map (·.stop)).max?.getD 0
  let first := Text.rowOf rows start
  let last := Text.rowOf rows (max (stop - 1) start)
  let width := (toString (last + 1)).length
  let margin := spaces (width + 2)
  let shown := (rows.take (last + 1)).drop first
  [margin ++ Style.margin.paint "╭" ++ Style.margin.paint "─" ++ Style.margin.paint "["
      ++ " " ++ path ++ ":" ++ position rows size place ++ " " ++ Style.margin.paint "]",
    margin ++ Style.margin.paint "│"]
    ++ sourceRows width labels (first + 1) false shown
    ++ [Style.margin.paint (String.join (List.replicate (width + 2) "─") ++ "╯")]

/-- The report on a source that is known by its path. -/
def render (path source : String) (report : Framed) : String :=
  let chars := source.toList
  let heading := Style.heading.paint ("[" ++ report.code ++ "] Error:") ++ " " ++ report.message
  let labels := report.labels.filter (·.fits chars.length)
  let body := if labels.isEmpty then []
    else frame path (Text.rows chars) chars.length report.place labels
  String.join ((heading :: body).map (· ++ "\n"))

end Framed

end Scriptlet.Report
