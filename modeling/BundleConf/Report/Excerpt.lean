import BundleConf.Text.Blank
import BundleConf.Text.Width

/-!
# Excerpts

How a line of a source is shown in a report, and how marks are put under it.  A tab fills up to the next multiple of
four characters, any other blank is shown as one space, and blanks at the end of the line are left out.  A row of marks
has one cell for each column that the line above it takes up, so that the marks stand under the characters they mean.
-/

namespace BundleConf.Report

/-- The distance of tab stops, in characters. -/
def tabStop : Nat := 4

/-- What is shown for the character at the given place of a line. -/
def shownChar (c : Char) (place : Nat) : List Char :=
  if c = '\t' then List.replicate (tabStop - place % tabStop) ' '
  else if Text.isBlank c then [' ']
  else [c]

def shownLine (line : List Char) : List Char :=
  (Text.trimEnd line).zipIdx.flatMap fun (c, place) => shownChar c place

/-- The columns that a place of a line takes up, given what stands there; a place past the end takes up one. -/
def columns (place : Nat) : Option Char → Nat
  | none => 1
  | some c => if c = '\t' ∨ Text.isBlank c then (shownChar c place).length else Text.width c

/-- What stands in a row of marks at one place: a character for its first column, one for each further column. -/
structure Cell where
  first : Char
  further : Char

def Cell.space : Cell := ⟨' ', ' '⟩
def Cell.bar : Cell := ⟨'─', '─'⟩

/-- A row of marks under the first `places` places of a line. -/
def row (line : List Char) (places : Nat) (cell : Nat → Cell) : List Char :=
  let shown := (Text.trimEnd line).toArray
  (List.range places).flatMap fun place =>
    match columns place shown[place]? with
    | 0 => []
    | further + 1 => (cell place).first :: List.replicate further (cell place).further

end BundleConf.Report
