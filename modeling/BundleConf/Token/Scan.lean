import BundleConf.Text.Blank
import BundleConf.Token.Basic

/-!
# Reading and writing a token

`Token.scan?` looks at the first characters of a text and finds the token that they are, together with the number of
characters that it takes up.  A keyword is found whatever follows it.  A value runs from a quote to the next quote, or
to the end of the text if there is none; a comment runs from two slashes to the end of its line.  A token takes up at
least one character (`scan?_pos`).

`Token.spelling` is what a token is written with.  A value is written in quotes, so its payload must hold none; the
payload of a comment must fit on one line.  Tokens that are written with a space after each of them do not run together.
-/

namespace BundleConf

/-- Whether the character separates tokens. -/
def isSpace (c : Char) : Bool :=
  c == ' ' || c == '\t' || c == '\r' || c == '\n'

/-- The keyword a text begins with. -/
def Keyword.scan? (cs : List Char) : Option Keyword :=
  Keyword.all.find? fun k => k.word.toList.isPrefixOf cs

/-- The token that the text begins with, and the number of its characters; a value without a closing quote takes up
all that there is. -/
def Token.scan? : List Char → Option (Token × Nat)
  | [] => none
  | '\'' :: cs =>
    let payload := cs.takeWhile (· ≠ '\'')
    some (.value (String.ofList payload), payload.length + 2)
  | '/' :: '/' :: cs =>
    let payload := cs.takeWhile (· ≠ '\n')
    some (.comment (String.ofList (Text.trim payload)), payload.length + 2)
  | c :: cs =>
    match Mark.ofChar? c with
    | some m => some (.mark m, 1)
    | none => (Keyword.scan? (c :: cs)).map fun k => (.keyword k, k.word.toList.length)

theorem Keyword.prefix_of_scan? {cs : List Char} {k : Keyword} (h : Keyword.scan? cs = some k) :
    k.word.toList <+: cs := by
  have := List.find?_some (p := fun k : Keyword => k.word.toList.isPrefixOf cs) h
  exact List.isPrefixOf_iff_prefix.1 this

/-- A text that begins with a keyword begins with no other. -/
theorem Keyword.scan?_eq_some_iff {cs : List Char} {k : Keyword} :
    Keyword.scan? cs = some k ↔ k.word.toList <+: cs := by
  refine ⟨prefix_of_scan?, fun h => ?_⟩
  cases hs : Keyword.scan? cs with
  | none =>
    rw [Keyword.scan?, List.find?_eq_none] at hs
    exact absurd (List.isPrefixOf_iff_prefix.2 h) (hs k (mem_all k))
  | some k' =>
    have h' := prefix_of_scan? hs
    rcases List.prefix_or_prefix_of_prefix h h' with hp | hp
    · rw [eq_of_isPrefix hp]
    · rw [eq_of_isPrefix hp]

theorem Keyword.length_word_pos (k : Keyword) : 0 < k.word.toList.length := by
  rw [List.length_pos_iff]
  intro h
  have : Keyword.package = .routes :=
    (eq_of_isPrefix (k := k) (by rw [h]; exact List.nil_prefix)).symm.trans
      (eq_of_isPrefix (k := k) (by rw [h]; exact List.nil_prefix))
  exact absurd this (by decide)

theorem Token.scan?_pos {cs : List Char} {t : Token} {n : Nat} (h : Token.scan? cs = some (t, n)) : 0 < n := by
  unfold Token.scan? at h
  split at h
  · simp at h
  · simp only [Option.some.injEq, Prod.mk.injEq] at h
    omega
  · simp only [Option.some.injEq, Prod.mk.injEq] at h
    omega
  · split at h
    · simp only [Option.some.injEq, Prod.mk.injEq] at h
      omega
    · simp only [Option.map_eq_some_iff, Prod.mk.injEq] at h
      obtain ⟨k, -, -, rfl⟩ := h
      exact k.length_word_pos

/-! ### Writing tokens -/

namespace Token

/-- The characters of a token; the end of a text is written with none. -/
def spelling : Token → List Char
  | keyword k => k.word.toList
  | mark m => [m.char]
  | value payload => '\'' :: payload.toList ++ ['\'']
  | comment payload => '/' :: '/' :: ' ' :: payload.toList
  | finish => []

/-- The text of tokens, with a space after each. -/
def print (ts : List Token) : String :=
  String.ofList (ts.flatMap fun t => t.spelling ++ [' '])

/-- Whether the token reads back from what it is written with. -/
def IsPrintable : Token → Prop
  | value payload => '\'' ∉ payload.toList
  | comment payload => '\n' ∉ payload.toList ∧ Text.trim payload.toList = payload.toList
  | finish => False
  | _ => True

end Token

/-! ### Braces -/

/-- A brace for a round bracket, with which no token begins. -/
def braceFor (c : Char) : Char :=
  if c = '(' then '{' else if c = ')' then '}' else c

/-- The text with braces for its round brackets, with which examples are written. -/
def withBraces (text : String) : String :=
  String.ofList (text.toList.map braceFor)

@[simp] theorem toList_withBraces (text : String) : (withBraces text).toList = text.toList.map braceFor :=
  String.toList_ofList

end BundleConf
