import BundleConf.Path.Basic
import BundleConf.Text.LineIndex

/-!
# Sources

A source is the text of one file under the path it was read from.  A span marks a piece of a numbered source by its
two byte offsets.  For a reader an offset is a line and a column: only a line feed ends a line, columns count
characters, both count from one.  An offset past the end stands for the end.

`Source.position?` looks an offset up in the index of lines, and `Source.snippet?` cuts the text there.  Like
`Source.location?` they answer only for offsets that do not lie inside a character; `Source.position`, `Source.snippet`
and `Source.location` count what lies before the offset in any case.

Offsets and the numbers of sources have no bound here.  A machine that keeps the number of a source in 32 bits agrees
with what is said of spans as long as there are fewer than 2 ^ 32 sources.
-/

namespace BundleConf

/-- A piece of a source: the byte offsets of its two ends, and the number of the source, which may be any number. -/
structure Span where
  start : Nat
  stop : Nat
  source : Nat
  deriving DecidableEq, Repr, Inhabited

/-- Something that was written at a span. -/
structure Located (α : Type) where
  value : α
  span : Span
  deriving DecidableEq, Repr

/-- A line and a column, both counted from one. -/
structure Position where
  line : Nat
  column : Nat
  deriving DecidableEq, Repr, Inhabited

/-- The position after the given characters: one more than their line feeds, and one more than the characters after
the last of them. -/
def Position.after (cs : List Char) : Position where
  line := cs.count '\n' + 1
  column := (cs.reverse.takeWhile (· ≠ '\n')).length + 1

def Position.next (p : Position) (c : Char) : Position :=
  if c = '\n' then ⟨p.line + 1, 1⟩ else ⟨p.line, p.column + 1⟩

/-- Where something is, as it is told to a reader. -/
structure Location where
  file : Path
  line : Nat
  column : Nat
  snippet : String
  span : Span
  deriving DecidableEq, Repr

/-- The location's name: its file, line and column. -/
def Location.label (l : Location) : String :=
  l.file.text ++ ":" ++ toString l.line ++ ":" ++ toString l.column

/-- The text of one file. -/
structure Source where
  path : Path
  text : String
  deriving DecidableEq, Repr

namespace Source

/-- The number of characters of a snippet on each side of its offset. -/
def snippetReach : Nat := 10

def chars (s : Source) : List Char :=
  s.text.toList

def byteLength (s : Source) : Nat :=
  Text.byteLength s.chars

/-- Whether the offset does not lie inside a character of the text. -/
def isBoundary (s : Source) (offset : Nat) : Bool :=
  Text.isBoundary offset s.chars

def position (s : Source) (offset : Nat) : Position :=
  Position.after (Text.within offset s.chars)

/-- A few characters on either side of an offset. -/
def snippet (s : Source) (offset : Nat) : String :=
  let before := Text.within offset s.chars
  String.ofList (before.drop (before.length - snippetReach) ++ (Text.beyond offset s.chars).take snippetReach)

/-- The location of the start of a span. -/
def location (s : Source) (span : Span) : Location :=
  let position := s.position span.start
  ⟨s.path, position.line, position.column, s.snippet span.start, span⟩

/-- The line and column of an offset, unless it lies inside a character.  The line is the last that starts at or before
the offset, and the column is told by the piece of the text from there. -/
def position? (s : Source) (offset : Nat) : Option Position := do
  let offset := min offset s.byteLength
  let starts := Text.lineStarts s.chars
  let line := Text.partitionPoint (· ≤ offset) starts
  let start ← if line = 0 then none else starts[line - 1]?
  let piece ← Text.slice? start offset s.chars
  return ⟨line, piece.length + 1⟩

/-- A few characters on either side of an offset, unless it lies inside a character. -/
def snippet? (s : Source) (offset : Nat) : Option String := do
  let offset := min offset s.byteLength
  let before ← Text.slice? 0 offset s.chars
  let after ← Text.slice? offset s.byteLength s.chars
  return String.ofList ((before.reverse.take snippetReach).reverse ++ after.take snippetReach)

/-- The location of the start of a span, unless that lies inside a character. -/
def location? (s : Source) (span : Span) : Option Location :=
  if s.isBoundary span.start then some (s.location span) else none

end Source

/-! ### Positions -/

namespace Position

@[simp] theorem after_nil : after [] = ⟨1, 1⟩ := rfl

/-- A line feed starts the next line. -/
@[simp] theorem after_concat_newline (cs : List Char) : after (cs ++ ['\n']) = ⟨(after cs).line + 1, 1⟩ := by
  simp [after]

theorem after_concat {c : Char} (h : c ≠ '\n') (cs : List Char) :
    after (cs ++ [c]) = ⟨(after cs).line, (after cs).column + 1⟩ := by
  simp [after, h]

theorem after_append_singleton (cs : List Char) (c : Char) : after (cs ++ [c]) = (after cs).next c := by
  by_cases h : c = '\n'
  · simp [h, next]
  · simp [after_concat h, next, h]

/-- The position after a text is reached by going through it. -/
theorem after_append (cs ds : List Char) : after (cs ++ ds) = ds.foldl next (after cs) := by
  induction ds generalizing cs with
  | nil => simp
  | cons d ds ih =>
    have := ih (cs ++ [d])
    simpa [after_append_singleton] using this

end Position

end BundleConf
