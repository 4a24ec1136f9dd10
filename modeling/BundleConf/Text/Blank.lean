/-!
# Blanks and lines

The characters with the Unicode property White_Space, and trimming of them at either end of a text.  Comments are
trimmed of all of them, although only four separate tokens.

Reports divide a text into lines at every character that Unicode counts as the end of a line, and take a carriage
return with a line feed after it as one end.  Each line keeps the characters that end it, so the lines of a text
concatenate to the text (`flatten_lines`).  A text that ends with the end of a line has no empty line after it.
-/

namespace BundleConf.Text

/-! ### Blanks -/

/-- The characters with the Unicode property White_Space. -/
def isBlank (c : Char) : Bool :=
  let n := c.toNat
  (9 ≤ n && n ≤ 13) || n == 0x20 || n == 0x85 || n == 0xA0 || n == 0x1680 || (0x2000 ≤ n && n ≤ 0x200A) ||
    n == 0x2028 || n == 0x2029 || n == 0x202F || n == 0x205F || n == 0x3000

/-- The text without its leading blanks. -/
def trimStart (cs : List Char) : List Char :=
  cs.dropWhile isBlank

/-- The text without its trailing blanks. -/
def trimEnd (cs : List Char) : List Char :=
  (cs.reverse.dropWhile isBlank).reverse

/-- The text without its leading and trailing blanks. -/
def trim (cs : List Char) : List Char :=
  trimEnd (trimStart cs)

/-! ### Lines -/

/-- Whether the character ends a line. -/
def endsLine (c : Char) : Bool :=
  let n := c.toNat
  (0x0A ≤ n && n ≤ 0x0D) || n == 0x85 || n == 0x2028 || n == 0x2029

/-- The lines of a text, each with the characters that end it. -/
def lines : List Char → List (List Char)
  | [] => []
  | '\r' :: '\n' :: cs => ['\r', '\n'] :: lines cs
  | c :: cs =>
    if endsLine c then [c] :: lines cs
    else match lines cs with
      | [] => [[c]]
      | line :: rest => (c :: line) :: rest

theorem flatten_lines (cs : List Char) : (lines cs).flatten = cs := by
  fun_induction lines cs with
  | case1 => rfl
  | case2 cs ih => simp [ih]
  | case3 c cs _ _ ih => simp [ih]
  | case4 c cs _ _ h ih => simpa [h] using ih
  | case5 c cs _ _ line rest h ih => simpa [h] using ih

/-- The offsets at which lines start, the first at `offset`. -/
def startsFrom (offset : Nat) : List (List Char) → List Nat
  | [] => []
  | line :: rest => offset :: startsFrom (offset + line.length) rest

/-- The line of an offset: the last that starts at or before it. -/
def lineOf (lines : List (List Char)) (offset : Nat) : Nat :=
  ((startsFrom 0 lines).filter (· ≤ offset)).length - 1

/-- The offset at which a line starts. -/
def startOf (lines : List (List Char)) (line : Nat) : Nat :=
  (lines.take line).flatten.length

end BundleConf.Text
