import BundleConf.Parse.Parser
import BundleConf.Session.Progress

/-!
# Running a parse

A parse feeds the tokens of a session to a parser, comments apart, until the parser is finished, refuses a token, or
wants to go on with another file (`feed`).  Then the session asks for that file, whose tokens come before the rest of
the file that includes it, and the feeding goes on (`runParser`).

Between two includes a parse comes to an end because there is less and less to read.  The number of includes is
limited: a file can include itself without ever being suspended, and so without coming to the limit of open files.  The
parses `within` a budget are limited to any number, and the others to as many files as can be numbered.
-/

namespace BundleConf

/-- What a parse yields: the application, and the session as the parse leaves it. -/
abbrev Parsed := Outcome (App × Session)

/-- How many files a parse may include: as many as there are numbers of 32 bits. -/
def maxIncludes : Nat := 4294967296

/-- Generates the name of a package as soon as it turns out that none is given. -/
def nameUnnamed (s : Session) (p : Parser) : Session × Parser :=
  match p.state, s.lookahead.value with
  | .packageName _, .value _ => (s, p)
  | .packageName site, _ =>
    let (name, s) := s.freshName p.app.packageNames
    (s, p.openPackage name site)
  | _, _ => (s, p)

theorem files_nameUnnamed (s : Session) (p : Parser) : (nameUnnamed s p).1.files = s.files := by
  rw [nameUnnamed]
  split <;> rfl

/-- Why no more tokens are fed to a parser. -/
inductive Stop where
  | finished (app : App) (s : Session)
  | failed (failure : Failure)
  /-- The parser wants to go on with the file of a path. -/
  | load (path : Located String) (s : Session) (p : Parser)

/-- Feeds the tokens of a session to a parser, from the current one on. -/
def feed (s : Session) (p : Parser) : Stop :=
  let s' := (nameUnnamed s p).1
  let p' := (nameUnnamed s p).2
  let t := s'.lookahead
  match _hreact : p'.react t with
  | .finish => .finished p'.app s'
  | .refuse expected => .failed ⟨.unexpected expected t.value.kind (s'.location t.span), s'⟩
  | .load path => .load path s' p'
  | .take next =>
    match _hnext : s'.proceed with
    | .error failure => .failed failure
    | .ok s'' =>
      match next with
      | .error conflict => .failed ⟨.conflict conflict.value (s''.location conflict.span), s''⟩
      | .ok p'' => feed s'' p''
termination_by s.unread
decreasing_by
  have hfiles := files_nameUnnamed s p
  have hlook : s'.lookahead.value ≠ .finish := fun h => Parser.react_ne_take_of_finish h _ _hreact
  have := Session.unread_proceed_lt _hnext (Session.files_ne_nil_of_lookahead hlook)
  simpa [Session.unread, s', hfiles] using this

/-- Goes on with the file that the parser wants to go on with; `found` is what there is at its path. -/
def Session.loadFile (s : Session) (path : Located String) (found : Lookup) : Outcome Session :=
  (s.includeFile path.value path.span found).bind skipComments

/-- Runs a parser on the tokens of a session and of at most `budget` included files. -/
def runParser (budget : Nat) (s : Session) (p : Parser) : Reading Parsed :=
  match feed s p with
  | .finished app s => .done (.ok (app, s))
  | .failed failure => .done (.error failure)
  | .load path s p =>
    match budget with
    | 0 => .done (.error ⟨.tooManyIncludes (s.location path.span), s⟩)
    | budget + 1 =>
      .look (s.includePath path.value) fun found =>
        match s.loadFile path found with
        | .error failure => .done (.error failure)
        | .ok s => runParser budget s { p with state := .top }

/-- Parses the tokens of a session, from the current one on, and includes at most `budget` files. -/
def Session.parseWithin (budget : Nat) (s : Session) : Reading Parsed :=
  match s.skipComments with
  | .error failure => .done (.error failure)
  | .ok s => runParser budget s .start

/-- Parses a root file and everything it includes, which may be `budget` files. -/
def Session.parseFileWithin (budget : Nat) (s : Session) (file : Path) : Reading Parsed :=
  .look (s.rootPath file) fun found =>
    match s.openRoot file found with
    | .error failure => .done (.error failure)
    | .ok s => s.parseWithin budget

/-- Parses a text as the root file of the given name and everything it includes, which may be `budget` files. -/
def Session.parseTextWithin (budget : Nat) (s : Session) (name : Path) (text : String) : Reading Parsed :=
  match s.openText name text with
  | .error failure => .done (.error failure)
  | .ok s => s.parseWithin budget

/-- Parses a root file and everything it includes. -/
def Session.parseFile (s : Session) (file : Path) : Reading Parsed :=
  s.parseFileWithin maxIncludes file

/-- Parses a text as the root file of the given name, and everything it includes. -/
def Session.parseText (s : Session) (name : Path) (text : String) : Reading Parsed :=
  s.parseTextWithin maxIncludes name text

/-- Parses a text that stands for itself; its includes are relative to the working directory. -/
def parseText (text : String) : Reading Parsed :=
  (Session.new ⟨"."⟩).parseText .input text

end BundleConf
