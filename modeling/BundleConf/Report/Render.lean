import BundleConf.Diagnostic.Basic
import BundleConf.Report.Excerpt
import BundleConf.Source.Table

/-!
# Reports

The report of a diagnostic shows the place that it points to: a headline, the lines of the source from the start to
the end of the place, marks under them, and the message.  A place within one line is underlined; of a longer place the
first and the last line are shown, joined by a bracket at their left.  A diagnostic that points to no known source has
a report of one line.
-/

namespace BundleConf.Report

def category : Diagnostic → String
  | .lexical .. => "lexical"
  | .unexpected .. => "syntax"
  | .missingInclude .. => "include"
  | _ => "structural"

/-- A place in a text: its first character and the character after its last. -/
structure Label where
  start : Nat
  stop : Nat
  deriving DecidableEq, Repr

/-- The bytes that a report marks for a span: at least one where there is one, and none outside the text. -/
def markedBytes (span : Span) (length : Nat) : Nat × Nat :=
  let stop := min (max span.stop (span.start + 1)) (max length 1)
  (min span.start stop, stop)

/-- The characters that a report marks for a span. -/
def Label.ofSpan (span : Span) (text : List Char) : Label :=
  let (start, stop) := markedBytes span (Text.byteLength text)
  ⟨(Text.within start text).length, (Text.within stop text).length⟩

/-- The line of a label's last character. -/
def Label.lastLine (label : Label) (lines : List (List Char)) : Nat :=
  if label.stop ≤ label.start then Text.lineOf lines label.start else Text.lineOf lines (label.stop - 1)

/-- The line and column of a label's start, as the head of a report names them. -/
def Label.position (label : Label) (lines : List (List Char)) : Position where
  line := Text.lineOf lines label.start + 1
  column := label.start - Text.startOf lines (Text.lineOf lines label.start) + 1

/-- A line number, aligned to the right of a column of the given width. -/
def aligned (size number : Nat) : List Char :=
  let digits := (toString number).toList
  List.replicate (size - digits.length) ' ' ++ digits

/-- The left margin of a row without a line number. -/
def margin (size : Nat) : List Char :=
  List.replicate (size + 2) ' '

/-- The rows of a label within one line. -/
def singleLine (size : Nat) (lines : List (List Char)) (label : Label) (message : List Char) : List (List Char) :=
  let number := Text.lineOf lines label.start
  let line := lines.getD number []
  let offset := Text.startOf lines number
  let middle := (label.start + label.stop) / 2 - offset
  let places := label.stop + 2 - offset
  let marked (place : Nat) : Bool := label.start ≤ offset + place && offset + place < label.stop
  let under (place : Nat) : Cell :=
    if place = middle then (if marked place then ⟨'┬', '─'⟩ else ⟨'│', ' '⟩)
    else if marked place then .bar else .space
  let arrow (place : Nat) : Cell :=
    if place = middle then ⟨'╰', '─'⟩ else if middle < place then .bar else .space
  [ ' ' :: aligned size (number + 1) ++ " │ ".toList ++ shownLine line,
    margin size ++ "│ ".toList ++ row line places under,
    margin size ++ "│ ".toList ++ row line places arrow ++ ' ' :: message ]

/-- The rows of a label that spans several lines. -/
def multiLine (size : Nat) (lines : List (List Char)) (label : Label) (message : List Char) : List (List Char) :=
  let first := Text.lineOf lines label.start
  let last := label.lastLine lines
  let line := lines.getD last []
  let places := line.length + 2
  [' ' :: aligned size (first + 1) ++ " │ ╭─▶ ".toList ++ shownLine (lines.getD first [])] ++
    (if first + 1 < last then [margin size ++ "┆ ┆   ".toList] else []) ++
    [ ' ' :: aligned size (last + 1) ++ " │ ├─▶ ".toList ++ shownLine line,
      margin size ++ "│ │   ".toList ++ row line places fun _ => .space,
      margin size ++ "│ ╰───".toList ++ row line places (fun _ => .bar) ++ ' ' :: message ]

/-- The rows under the headline of a report on a text that is not empty. -/
def body (file : Path) (text : List Char) (label : Label) (message : List Char) : List (List Char) :=
  let lines := Text.lines text
  let position := label.position lines
  let size := (toString (label.lastLine lines + 1)).length
  let place := file.text ++ ":" ++ toString position.line ++ ":" ++ toString position.column
  [margin size ++ "╭─[".toList ++ place.toList ++ [']'], margin size ++ ['│']] ++
    (if position.line = label.lastLine lines + 1 then singleLine size lines label message
      else multiLine size lines label message) ++
    [List.replicate (size + 2) '─' ++ ['╯']]

/-- The report of a diagnostic at a location of a source. -/
def located (d : Diagnostic) (location : Location) (source : Source) : List (List Char) :=
  let headline := "Error: " ++ category d ++ " error in " ++ location.file.text
  headline.toList ::
    if source.chars = [] then []
    else body location.file source.chars (Label.ofSpan location.span source.chars) d.message.toList

def render (d : Diagnostic) (sources : SourceTable) : String :=
  let place := d.location?.bind fun location =>
    (sources.get? location.span.source).map fun source => (location, source)
  let rows := match place with
    | some (location, source) => located d location source
    | none => ["error: ".toList ++ d.message.toList]
  String.ofList (rows.flatMap fun row => row ++ ['\n'])

end BundleConf.Report
