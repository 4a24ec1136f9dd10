import BundleConf.Toml.Reader

/-!
# Strings of TOML

A string stands in quotes or in apostrophes, on one line or, between three of either, on several.  Only strings in
quotes know escapes.  A line end right after three opening quotes does not count, a line end in a string counts as one
line feed, and a backslash at the end of a line takes away all blanks and line ends after it.
-/

namespace BundleConf.Toml

open Reader

def hexDigit : Reader Nat := do
  let c ← next
  if c.isDigit then pure (c.toNat - '0'.toNat)
  else if 'a' ≤ c ∧ c ≤ 'f' then pure (c.toNat - 'a'.toNat + 10)
  else if 'A' ≤ c ∧ c ≤ 'F' then pure (c.toNat - 'A'.toNat + 10)
  else failure

/-- A character given by the digits of its number. -/
def codePoint (digits : Nat) : Reader Char := do
  let number := (← repeated hexDigit digits).foldl (fun n d => 16 * n + d) 0
  if number.isValidChar then pure (Char.ofNat number) else failure

/-- What a backslash and the characters after it stand for. -/
def escape : Reader Char := do
  exactly ['\\']
  match ← next with
  | 'b' => pure '\x08'
  | 't' => pure '\t'
  | 'n' => pure '\n'
  | 'f' => pure '\x0C'
  | 'r' => pure '\r'
  | '"' => pure '"'
  | '\\' => pure '\\'
  | 'u' => codePoint 4
  | 'U' => codePoint 8
  | _ => failure

def quoted : Reader String := do
  exactly ['"']
  let cs ← many (escape <|> one fun c => isText c && c != '"' && c != '\\')
  exactly ['"']
  pure (String.ofList cs)

/-- A string in apostrophes, on one line. -/
def literal : Reader String := do
  exactly ['\'']
  let cs ← run fun c => isText c && c != '\''
  exactly ['\'']
  pure (String.ofList cs)

/-- A line end in a string. -/
def lineFeed : Reader (List Char) := do
  lineEnd
  pure ['\n']

/-- A backslash at the end of a line, and what it takes away. -/
def continuation : Reader (List Char) := do
  exactly ['\\']
  blanks
  lineEnd
  let _ ← many (lineEnd <|> discard (one fun c => c == ' ' || c == '\t'))
  pure []

/-- A quote in a string of several lines, unless the string may end with it. -/
def innerQuote (quote : Char) : Reader (List Char) := do
  if [quote, quote, quote].isPrefixOf (← get) then failure
  exactly [quote]
  pure [quote]

/-- The end of a string of several lines: its closing quotes, with up to two quotes of the string before them. -/
def closing (quote : Char) : Reader (List Char) := do
  let quotes := (← run (· == quote)).length
  let inner := min (quotes - 3) 2
  if quotes < 3 ∨ inner + 3 < quotes then failure
  pure (List.replicate inner quote)

/-- A string of several lines, between three quotes, with the given readers for its inside. -/
def multiLine (quote : Char) (piece : Reader (List Char)) : Reader String := do
  exactly [quote, quote, quote]
  lineEnd <|> pure ()
  let pieces ← many (lineFeed <|> innerQuote quote <|> piece)
  let last ← closing quote
  pure (String.ofList (pieces.flatten ++ last))

/-- A string of several lines, in quotes. -/
def multiLineQuoted : Reader String :=
  multiLine '"' (continuation <|> (do pure [← escape]) <|> do
    pure [← one fun c => isText c && c != '"' && c != '\\'])

/-- A string of several lines, in apostrophes. -/
def multiLineLiteral : Reader String :=
  multiLine '\'' do
    pure [← one fun c => isText c && c != '\'']

def lineString : Reader String :=
  quoted <|> literal

def anyString : Reader String := do
  let cs ← get
  if ['"', '"', '"'].isPrefixOf cs then multiLineQuoted
  else if ['\'', '\'', '\''].isPrefixOf cs then multiLineLiteral
  else lineString

end BundleConf.Toml
