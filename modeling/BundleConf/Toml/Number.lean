/-!
# Numbers of TOML

Whole numbers and fractions.  Only their form is looked at, and whether they fit into 64 bits.
-/

namespace BundleConf.Toml

/-- The words of a text between the occurrences of a separator. -/
def splitAt (separator : Char → Bool) : List Char → List (List Char)
  | [] => [[]]
  | c :: cs =>
    if separator c then [] :: splitAt separator cs
    else match splitAt separator cs with
      | [] => [[c]]
      | word :: rest => (c :: word) :: rest

/-- Whether the word consists of digits, with single underscores between them. -/
def isDigits (digit : Char → Bool) : List Char → Bool
  | [] => false
  | [c] => digit c
  | c :: '_' :: cs => digit c && isDigits digit cs
  | c :: cs => digit c && isDigits digit cs

def unsigned : List Char → List Char
  | '+' :: cs => cs
  | '-' :: cs => cs
  | cs => cs

/-- Whether the word is a decimal number without sign and without leading zeros. -/
def isDecimal (word : List Char) : Bool :=
  isDigits Char.isDigit word && (word.length == 1 || word.head? != some '0')

/-- The number that digits below ten, or letters after them, stand for in a base. -/
def valueOf (base : Nat) (word : List Char) : Nat :=
  (word.filter (· != '_')).foldl (fun n c => base * n + (if c.isDigit then c.toNat - 48 else c.toLower.toNat - 87)) 0

def isHexDigit (c : Char) : Bool :=
  c.isDigit || ('a' ≤ c.toLower && c.toLower ≤ 'f')

/-- Half of the numbers of 64 bits: those that are not negative. -/
def halfRange : Nat := 9223372036854775808

def isInteger : List Char → Bool
  | '0' :: 'x' :: cs => isDigits isHexDigit cs && valueOf 16 cs < halfRange
  | '0' :: 'o' :: cs => isDigits (fun c => '0' ≤ c && c ≤ '7') cs && valueOf 8 cs < halfRange
  | '0' :: 'b' :: cs => isDigits (fun c => c == '0' || c == '1') cs && valueOf 2 cs < halfRange
  | '-' :: cs => isDecimal cs && valueOf 10 cs ≤ halfRange
  | cs => isDecimal (unsigned cs) && valueOf 10 (unsigned cs) < halfRange

/-! ### Fractions -/

/-- A number in decimal notation: the digits before and after its point, and the power of ten it is multiplied by. -/
structure Decimal where
  whole : List Char
  part : List Char
  exponent : Int

/-- Half a step above the greatest number that a floating point number of 64 bits can be: what is as great as that
rounds to infinity.  It is `2 ^ 1024 - 2 ^ 970`. -/
def roundsToInfinity : Nat := 18014398509481983 <<< 970

/-- The number of decimal digits of `roundsToInfinity`. -/
def digitsToInfinity : Nat := 309

/-- Whether the number is too great for a floating point number of 64 bits.  Of two numbers whose first digits are not
zero, the one with more digits before its point is the greater; only where that does not settle it are the digits
looked at, and those after the point never matter, since the bound is a whole number. -/
def Decimal.overflows (number : Decimal) : Bool :=
  let digits := number.whole ++ number.part
  let significant := digits.dropWhile (· == '0')
  let places := number.whole.length + number.exponent - (digits.length - significant.length : Nat)
  !significant.isEmpty && (digitsToInfinity < places || (places == digitsToInfinity &&
    roundsToInfinity ≤ valueOf 10 ((significant ++ List.replicate digitsToInfinity '0').take digitsToInfinity)))

/-- The digits of a word, without underscores between them. -/
def digits? (word : List Char) : Option (List Char) :=
  if isDigits Char.isDigit word then some (word.filter (· != '_')) else none

/-- The power of ten that a word stands for, which may have a sign. -/
def exponent? : List Char → Option Int
  | '-' :: cs => (digits? cs).map fun ds => -(valueOf 10 ds : Int)
  | cs => (digits? (unsigned cs)).map fun ds => (valueOf 10 ds : Int)

/-- The number without sign that a word stands for, if it has a point or an exponent. -/
def decimal? (word : List Char) : Option Decimal := do
  let (mantissa, exponent) ← match splitAt (fun c => c == 'e' || c == 'E') word with
    | [mantissa] => some (mantissa, none)
    | [mantissa, e] => (exponent? e).map fun e => (mantissa, some e)
    | _ => none
  match splitAt (· == '.') mantissa, exponent with
  | [whole], some e =>
    if isDecimal whole then pure ⟨← digits? whole, [], e⟩ else none
  | [whole, part], e =>
    if isDecimal whole then pure ⟨← digits? whole, ← digits? part, e.getD 0⟩ else none
  | _, _ => none

/-- Whether the word is a fraction or a number with an exponent, or stands for no finite number.  What is too great to
be finite is refused, unless it is negative. -/
def isFloat (word : List Char) : Bool :=
  unsigned word == ['i', 'n', 'f'] || unsigned word == ['n', 'a', 'n'] ||
    (decimal? (unsigned word)).any fun number => word.head? == some '-' || !number.overflows

end BundleConf.Toml
