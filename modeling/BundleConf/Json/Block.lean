/-!
# Blocks of JSON

A JSON value is printed as a block of rows: a scalar on one row, an array or an object with its items on rows of their
own, indented by two spaces, between the rows of its brackets.  Without items the brackets stand together.
-/

namespace BundleConf.Json

/-- The rows of a printed value. -/
abbrev Block := List String

def hexDigit (n : Nat) : Char :=
  ("0123456789abcdef".toList)[n]?.getD '0'

/-- A character as it is written in a string. -/
def escape (c : Char) : List Char :=
  match c with
  | '"' => ['\\', '"']
  | '\\' => ['\\', '\\']
  | '\n' => ['\\', 'n']
  | '\r' => ['\\', 'r']
  | '\t' => ['\\', 't']
  | '\x08' => ['\\', 'b']
  | '\x0C' => ['\\', 'f']
  | c => if c.toNat < 0x20 then ['\\', 'u', '0', '0', hexDigit (c.toNat / 16), hexDigit (c.toNat % 16)] else [c]

def quote (text : String) : String :=
  String.ofList ('"' :: text.toList.flatMap escape ++ ['"'])

def string (text : String) : Block :=
  [quote text]

def bool (b : Bool) : Block :=
  [if b then "true" else "false"]

def null : Block :=
  ["null"]

/-- The rows of several values, with a comma after each but the last. -/
def separate : List Block → Block
  | [] => []
  | [item] => item
  | item :: items => item.dropLast ++ (item.getLast?.map (· ++ ",")).toList ++ separate items

/-- Rows between brackets. -/
def bracket (opening closing : String) (items : List Block) : Block :=
  if items.isEmpty then [opening ++ closing]
  else opening :: (separate items).map ("  " ++ ·) ++ [closing]

def array (items : List Block) : Block :=
  bracket "[" "]" items

def member (name : String) : Block → Block
  | [] => []
  | row :: rows => (quote name ++ ": " ++ row) :: rows

def object (members : List (String × Block)) : Block :=
  bracket (String.singleton '{') (String.singleton '}') (members.map fun (name, value) => member name value)

/-- The rows as one text. -/
def text (b : Block) : String :=
  "\n".intercalate b

end BundleConf.Json
