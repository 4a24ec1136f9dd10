import BundleConf.App.Basic
import BundleConf.Source.Basic

/-!
# Tokens

The language has eighteen keywords, seven marks, quoted values and comments; a source ends in an end token.  A token's
`Kind` is what is left of it when the payloads of values and comments are forgotten, and all that the grammar looks
at.  Different keywords have different words and no word begins with another (`Keyword.eq_of_isPrefix`), which is why
keywords can stand side by side.

The words are written down three times: as what a text is scanned for (`Keyword.word`), as the list of words that are
keywords (`Keyword.words`), and in the texts of messages (`Keyword.text`).  The three agree (`Keyword.words_eq`,
`Keyword.text_eq`).
-/

namespace BundleConf

inductive Keyword where
  | package
  | routes
  | ui
  | middleware
  | include
  | layout
  /-- A word that opens a statement of a package. -/
  | statement (field : PackageField)
  /-- A word that opens a list of the user interface. -/
  | list (field : UiField)
  /-- A word that marks a route. -/
  | flag (flag : RouteFlag)
  deriving DecidableEq, Repr

inductive Mark where
  | leftBrace
  | rightBrace
  | leftBracket
  | rightBracket
  | colon
  | comma
  | semicolon
  deriving DecidableEq, Repr

/-- A token: the payload of a value is what stands between its quotes, that of a comment is its trimmed text. -/
inductive Token where
  | keyword (word : Keyword)
  | mark (mark : Mark)
  | value (payload : String)
  | comment (payload : String)
  | finish
  deriving DecidableEq, Repr

inductive Kind where
  | keyword (word : Keyword)
  | mark (mark : Mark)
  | value
  | comment
  | finish
  deriving DecidableEq, Repr

/-! ### Keywords -/

def PackageField.word : PackageField → String
  | .requires => "requires"
  | .directory => "directory"
  | .file => "file"
  | .option => "option"

def UiField.word : UiField → String
  | .template => "template"
  | .assets => "assets"
  | .javascript => "javascript"
  | .stylesheets => "stylesheets"

def RouteFlag.word : RouteFlag → String
  | .error404 => "error404"
  | .index => "index"
  | .isPrivate => "private"
  | .dialog => "dialog"

namespace Keyword

def word : Keyword → String
  | .package => "package"
  | .routes => "routes"
  | .ui => "ui"
  | .middleware => "middleware"
  | .include => "include"
  | .layout => "layout"
  | .statement f => f.word
  | .list f => f.word
  | .flag f => f.word

def all : List Keyword :=
  [.statement .requires, .package, .statement .directory, .statement .file, .statement .option, .routes, .ui,
    .list .template, .list .assets, .list .javascript, .list .stylesheets, .layout, .middleware, .flag .error404,
    .flag .index, .flag .isPrivate, .flag .dialog, .include]

theorem mem_all (k : Keyword) : k ∈ all := by
  rcases k with _ | _ | _ | _ | _ | _ | f | f | f <;> (try cases f) <;> decide

/-- The words that stand for themselves. -/
def words : List String :=
  ["requires", "package", "directory", "file", "option", "routes", "ui", "template", "assets", "javascript",
    "stylesheets", "layout", "middleware", "error404", "index", "private", "dialog", "include"]

/-- Whether a word is that of a keyword. -/
def isKeyword (word : String) : Bool :=
  words.contains word

/-- No keyword begins with another. -/
theorem eq_of_isPrefix {k k' : Keyword} (h : k.word.toList <+: k'.word.toList) : k = k' := by
  have table : ∀ k ∈ all, ∀ k' ∈ all, k.word.toList <+: k'.word.toList → k = k' := by
    decide +kernel
  exact table k (mem_all k) k' (mem_all k') h

/-- The list of words is that of the keywords. -/
theorem words_eq : words = all.map word := rfl

theorem isKeyword_iff {word : String} : isKeyword word = true ↔ ∃ k : Keyword, k.word = word := by
  rw [isKeyword, List.contains_iff_mem, words_eq, List.mem_map]
  exact exists_congr fun k => and_iff_right (mem_all k)

end Keyword

namespace Mark

def char : Mark → Char
  | .leftBrace => '{'
  | .rightBrace => '}'
  | .leftBracket => '['
  | .rightBracket => ']'
  | .colon => ':'
  | .comma => ','
  | .semicolon => ';'

/-- The mark written with a character. -/
def ofChar? : Char → Option Mark
  | '{' => some .leftBrace
  | '}' => some .rightBrace
  | '[' => some .leftBracket
  | ']' => some .rightBracket
  | ':' => some .colon
  | ',' => some .comma
  | ';' => some .semicolon
  | _ => none

@[simp] theorem ofChar?_char (m : Mark) : ofChar? m.char = some m := by
  cases m <;> rfl

theorem ofChar?_eq_some_iff {c : Char} {m : Mark} : ofChar? c = some m ↔ c = m.char := by
  refine ⟨fun h => ?_, fun h => h ▸ ofChar?_char m⟩
  unfold ofChar? at h
  split at h <;> simp at h <;> subst h <;> rfl

end Mark

/-! ### Names and texts of tokens -/

def Keyword.name : Keyword → String
  | .package => "Package"
  | .routes => "Routes"
  | .ui => "Ui"
  | .middleware => "Middleware"
  | .include => "Include"
  | .layout => "Layout"
  | .statement .requires => "Requires"
  | .statement .directory => "Directory"
  | .statement .file => "File"
  | .statement .option => "Option"
  | .list .template => "Template"
  | .list .assets => "Assets"
  | .list .javascript => "Javascript"
  | .list .stylesheets => "Stylesheets"
  | .flag .error404 => "Error404"
  | .flag .index => "Index"
  | .flag .isPrivate => "Private"
  | .flag .dialog => "Dialog"

/-- The keyword as a message speaks of it. -/
def Keyword.text : Keyword → String
  | .package => "'package'"
  | .routes => "'routes'"
  | .ui => "'ui'"
  | .middleware => "'middleware'"
  | .include => "'include'"
  | .layout => "'layout'"
  | .statement .requires => "'requires'"
  | .statement .directory => "'directory'"
  | .statement .file => "'file'"
  | .statement .option => "'option'"
  | .list .template => "'template'"
  | .list .assets => "'assets'"
  | .list .javascript => "'javascript'"
  | .list .stylesheets => "'stylesheets'"
  | .flag .error404 => "'error404'"
  | .flag .index => "'index'"
  | .flag .isPrivate => "'private'"
  | .flag .dialog => "'dialog'"

/-- A message speaks of a keyword by its word, in quotes. -/
theorem Keyword.text_eq (k : Keyword) : k.text = "'" ++ k.word ++ "'" := by
  rcases k with _ | _ | _ | _ | _ | _ | f | f | f <;> (try cases f) <;> rfl

def Mark.name : Mark → String
  | .leftBrace => "LBrace"
  | .rightBrace => "RBrace"
  | .leftBracket => "LBracket"
  | .rightBracket => "RBracket"
  | .colon => "Colon"
  | .comma => "Comma"
  | .semicolon => "Semicolon"

/-- The mark as a message speaks of it. -/
def Mark.text : Mark → String
  | .leftBrace => String.ofList ['\'', '{', '\'']
  | .rightBrace => String.ofList ['\'', '}', '\'']
  | .leftBracket => "'['"
  | .rightBracket => "']'"
  | .colon => "':'"
  | .comma => "','"
  | .semicolon => "';'"

theorem Mark.text_eq (m : Mark) : m.text = "'" ++ String.singleton m.char ++ "'" := by
  cases m <;> rfl

namespace Kind

/-- The kind's name in a list of tokens. -/
def name : Kind → String
  | .keyword k => k.name
  | .mark m => m.name
  | .value => "Value"
  | .comment => "Comment"
  | .finish => "Eof"

/-- The kind as a message speaks of it. -/
def text : Kind → String
  | .keyword k => k.text
  | .mark m => m.text
  | .value => "quoted value"
  | .comment => "comment"
  | .finish => "end of file"

end Kind

namespace Token

def kind : Token → Kind
  | .keyword k => .keyword k
  | .mark m => .mark m
  | .value _ => .value
  | .comment _ => .comment
  | .finish => .finish

/-- The token as a list of tokens shows it: a value in quotes, a comment after its slashes, any other token as its
kind. -/
def text : Token → String
  | .value payload => "'" ++ payload ++ "'"
  | .comment payload => "// " ++ payload
  | .keyword k => (Kind.keyword k).text
  | .mark m => (Kind.mark m).text
  | .finish => Kind.finish.text

def isComment (t : Token) : Bool :=
  t.kind = .comment

end Token

end BundleConf
