import BundleConf.Toml.Number

/-!
# Plain values of TOML

The values that are written without quotes or brackets: whole numbers, fractions, truth values, dates and times.  Only
their form is looked at, and whether there is such a number, such a day and such a time.
-/

namespace BundleConf.Toml

/-- The number written with exactly the given number of digits. -/
def fixed? (digits : Nat) (word : List Char) : Option Nat :=
  if word.length = digits ∧ word.all Char.isDigit then some (valueOf 10 word) else none

def daysOf (year month : Nat) : Nat :=
  if month = 2 then (if year % 4 = 0 ∧ (year % 100 ≠ 0 ∨ year % 400 = 0) then 29 else 28)
  else if month ∈ [4, 6, 9, 11] then 30
  else 31

def isDate (word : List Char) : Bool :=
  match splitAt (· == '-') word with
  | [year, month, day] =>
    match fixed? 4 year, fixed? 2 month, fixed? 2 day with
    | some y, some m, some d => 1 ≤ m && m ≤ 12 && 1 ≤ d && d ≤ daysOf y m
    | _, _, _ => false
  | _ => false

/-- Whether the word is an hour and a minute. -/
def isHourMinute (word : List Char) : Bool :=
  match splitAt (· == ':') word with
  | [hour, minute] => (fixed? 2 hour).any (· < 24) && (fixed? 2 minute).any (· < 60)
  | _ => false

/-- Whether the word is a time of day. -/
def isTime (word : List Char) : Bool :=
  let isSecond (cs : List Char) : Bool := (fixed? 2 cs).any (· ≤ 60)
  match splitAt (· == '.') (word.drop 5) with
  | [':' :: second] => isHourMinute (word.take 5) && isSecond second
  | [':' :: second, part] => isHourMinute (word.take 5) && isSecond second && part != [] && part.all Char.isDigit
  | _ => false

/-- Whether the word is a time of day, perhaps with the distance of its zone. -/
def isZonedTime (word : List Char) : Bool :=
  let isZoneMark (c : Char) : Bool := c == '+' || c == '-'
  match word.span fun c => !isZoneMark c with
  | (time, _ :: zone) => isTime time && isHourMinute zone
  | (time, []) => isTime time || ((time.getLast?.any fun c => c == 'Z' || c == 'z') && isTime time.dropLast)

/-- Whether the word is a date, a time of day, or both joined by a letter. -/
def isMoment (word : List Char) : Bool :=
  isDate word || isTime word ||
    (isDate (word.take 10) && ((word.drop 10).head?.any fun c => c == 'T' || c == 't') && isZonedTime (word.drop 11))

/-- Whether the word is a plain value. -/
def isPlain (word : List Char) : Bool :=
  word == "true".toList || word == "false".toList || isInteger word || isFloat word || isMoment word

end BundleConf.Toml
