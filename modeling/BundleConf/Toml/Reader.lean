/-!
# Readers of TOML

A reader takes some characters off the front of a text and yields what they mean, or refuses the text.  This module
holds the readers from which those of the format are put together, among them its blanks, line ends and comments.
-/

namespace BundleConf.Toml

/-- A computation that takes characters off the front of a text, or refuses it. -/
abbrev Reader := StateT (List Char) Option

namespace Reader

variable {α : Type}

def next : Reader Char := do
  match ← get with
  | [] => failure
  | c :: cs => set cs; pure c

/-- The next character, left where it is. -/
def peek : Reader (Option Char) :=
  return (← get).head?

/-- The next character, if it is one of a class. -/
def one (accept : Char → Bool) : Reader Char := do
  let c ← next
  if accept c then pure c else failure

def exactly (text : List Char) : Reader Unit := do
  match text.isPrefixOf? (← get) with
  | some rest => set rest
  | none => failure

/-- All characters of a class that come next, possibly none. -/
def run (accept : Char → Bool) : Reader (List Char) := do
  let cs ← get
  set (cs.dropWhile accept)
  pure (cs.takeWhile accept)

/-- What a reader yields the given number of times. -/
def repeated (p : Reader α) : Nat → Reader (List α)
  | 0 => pure []
  | n + 1 => do
    let a ← p
    let as ← repeated p n
    pure (a :: as)

/-- What a reader yields until it refuses, at most the given number of times. -/
def times (p : Reader α) : Nat → Reader (List α)
  | 0 => pure []
  | n + 1 => (do
      let a ← p
      let as ← times p n
      pure (a :: as)) <|> pure []

/-- What a reader that always takes characters yields until it refuses. -/
def many (p : Reader α) : Reader (List α) := do
  times p (← get).length

/-- What a reader yields before and after every occurrence of a separator, at least once. -/
def separated (p : Reader α) (separator : Reader Unit) : Reader (List α) := do
  let a ← p
  let as ← many do
    separator
    p
  pure (a :: as)

/-- The value of a reader applied to a whole text. -/
def all (p : Reader α) (text : List Char) : Option α :=
  match StateT.run p text with
  | some (a, []) => some a
  | _ => none

end Reader

open Reader

/-- Whether the character may stand in a comment and, quotes and backslashes apart, in a string. -/
def isText (c : Char) : Bool :=
  c == '\t' || (0x20 ≤ c.toNat && c.toNat != 0x7F)

def blanks : Reader Unit := do
  let _ ← run fun c => c == ' ' || c == '\t'

/-- The end of a line: a line feed, perhaps after a carriage return. -/
def lineEnd : Reader Unit :=
  exactly ['\n'] <|> exactly ['\r', '\n']

/-- A comment, up to the end of its line. -/
def comment : Reader Unit := do
  exactly ['#']
  let _ ← run isText

/-- Blanks, comments and line ends between the items of an array. -/
def gap : Reader Unit := do
  let _ ← many (comment <|> lineEnd <|> discard (one fun c => c == ' ' || c == '\t'))

end BundleConf.Toml
