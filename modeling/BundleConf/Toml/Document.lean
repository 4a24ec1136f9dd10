import BundleConf.Toml.Plain
import BundleConf.Toml.Quoted

/-!
# TOML documents

A document is a list of statements, one a line: a header opens a table, an assignment gives a key a value.  Keys are
dotted names.  Of values, only strings, arrays and inline tables are kept in full; a plain value is checked and kept as
such, since nothing here depends on which one it is.  What the headers of a document add up to is for its reader to
say; an inline table adds up by itself, and refuses to give a key two values.
-/

namespace BundleConf.Toml

open Reader

inductive Value where
  | string (text : String)
  /-- A number, a truth value, a date or a time. -/
  | plain
  | array (items : List Value)
  /-- A table; it is `dotted` if only dotted keys of the table around it have opened it. -/
  | table (dotted : Bool) (entries : List (String × Value))

/-- A line of a document. -/
inductive Statement where
  | header (keys : List String)
  /-- A header that opens the next table of an array. -/
  | itemHeader (keys : List String)
  | assign (keys : List String) (value : Value)

/-- How many brackets can be open at once in a value, and how many names can be joined in a key. -/
def maxNesting : Nat := 79

/-- The entries of an inline table after one more assignment, unless the keys already have a value. -/
def insert? (entries : List (String × Value)) : List String → Value → Option (List (String × Value))
  | [], _ => none
  | [key], value => if entries.any (·.1 == key) then none else some (entries ++ [(key, value)])
  | key :: keys, value =>
    match entries.find? (·.1 == key) with
    | none => (insert? [] keys value).map fun inner => entries ++ [(key, .table true inner)]
    | some (_, .table true inner) => (insert? inner keys value).map fun inner =>
        entries.map fun entry => if entry.1 == key then (key, .table true inner) else entry
    | some _ => none

/-! ### Keys -/

/-- A name that is written without quotes. -/
def bareKey : Reader String := do
  let cs ← run fun c => c.isAlphanum || c == '-' || c == '_'
  if cs.isEmpty then failure
  pure (String.ofList cs)

/-- A dotted name, with any blanks around it. -/
def keys : Reader (List String) := do
  let names ← separated (do
    blanks
    let name ← bareKey <|> lineString
    blanks
    pure name) (exactly ['.'])
  if maxNesting < names.length then failure
  pure names

/-! ### Values -/

/-- A word of a plain value. -/
def word : Reader (List Char) :=
  run fun c => c.isAlphanum || c == '+' || c == '-' || c == '.' || c == ':' || c == '_'

/-- A plain value; a date and a time of day may be written with a space between them. -/
def plainValue : Reader Value := do
  let first ← word
  if !isPlain first then failure
  (do
    if !isDate first then failure
    exactly [' ']
    if !isZonedTime (← word) then failure) <|> pure ()
  pure .plain

/-- The keys and the value of an assignment. -/
def assignment (value : Reader Value) : Reader (List String × Value) := do
  let names ← keys
  exactly ['=']
  blanks
  pure (names, ← value)

def arrayItems (value : Reader Value) : Reader (List Value) := do
  let item : Reader Value := do
    gap
    let v ← value
    gap
    pure v
  (do
    let items ← separated item (exactly [','])
    exactly [','] <|> pure ()
    gap
    exactly [']']
    pure items) <|> do
      gap
      exactly [']']
      pure []

def tableEntries (value : Reader Value) : Reader (List (String × Value)) := do
  let entry : Reader (List String × Value) := do
    let e ← assignment value
    blanks
    pure e
  (do
    let assignments ← separated entry (exactly [','])
    exactly ['}']
    assignments.foldlM (fun entries (names, v) => insert? entries names v) []) <|> do
      blanks
      exactly ['}']
      pure []

/-- A value without brackets. -/
def scalar : Reader Value := do
  match ← peek with
  | some '"' => return .string (← anyString)
  | some '\'' => return .string (← anyString)
  | _ => plainValue

/-- A value in which at most the given number of brackets are open at once. -/
def value : Nat → Reader Value
  | 0 => scalar
  | nesting + 1 => do
    match ← peek with
    | some '[' =>
      exactly ['[']
      return .array (← arrayItems (value nesting))
    | some '{' =>
      exactly ['{']
      return .table false (← tableEntries (value nesting))
    | _ => scalar

/-! ### Statements -/

def statement : Reader Statement :=
  (do
    exactly ['[', '[']
    let names ← keys
    exactly [']', ']']
    pure (.itemHeader names)) <|>
  (do
    exactly ['[']
    let names ← keys
    exactly [']']
    pure (.header names)) <|> do
  let (names, v) ← assignment (value maxNesting)
  pure (.assign names v)

/-- A line, with the statement on it if there is one. -/
def line : Reader (Option Statement) := do
  blanks
  let s ← (some <$> statement) <|> pure none
  blanks
  comment <|> pure ()
  pure s

def document : Reader (List Statement) := do
  exactly ['\uFEFF'] <|> pure ()
  let lines ← separated line lineEnd
  pure (lines.filterMap id)

/-- The statements of a text, if it is a document. -/
def statements? (text : String) : Option (List Statement) :=
  document.all text.toList

end BundleConf.Toml
