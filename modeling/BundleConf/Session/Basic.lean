import BundleConf.Parse.Error
import BundleConf.Source.Table

/-!
# Sessions

A session delivers the tokens of a file and of the files it includes as one sequence.  Its open files form a stack:
including a file suspends the file that includes it together with its current token, and a file that comes to its end
is closed, whereupon the file below resumes at the token that was suspended.  If that token is an end too, the file
below is closed as well, and so on (`settle`).

A session keeps every source it has read, and counts the names it has generated; both outlive the files.  An
operation that fails yields the session as the failure leaves it.

A package without a name gets a generated one: a fixed stem and the next number of the session whose name is not taken
yet.  Numbers that are passed over are used up.  At most as many numbers are passed over as names are taken.
-/

namespace BundleConf

/-- A file that is being read. -/
structure OpenFile where
  /-- Where the files are that it includes. -/
  directory : Path
  path : Path
  stream : TokenStream

/-- The state of reading a file with everything it includes. -/
structure Session where
  /-- The directory in which root files are looked for. -/
  root : Path
  sources : SourceTable
  /-- The open files, the innermost first. -/
  files : List OpenFile
  /-- The tokens at which suspended files resume, the innermost first. -/
  suspended : List (Located Token)
  current : Located Token
  /-- How many names have been generated. -/
  generated : Nat

/-- A failed operation: the error, and the session that it leaves. -/
structure Failure where
  error : ParseError
  session : Session

/-- What an operation of a session yields. -/
abbrev Outcome (α : Type) := Except Failure α

namespace Session

/-- The token that is current before anything is read, and while an included file has no first token yet. -/
def noToken : Located Token :=
  ⟨.finish, ⟨0, 0, 0⟩⟩

def new (root : Path) : Session where
  root := root
  sources := .empty
  files := []
  suspended := []
  current := noToken
  generated := 0

def depth (s : Session) : Nat :=
  s.files.length

def isFinished (s : Session) : Bool :=
  s.files.isEmpty

def openFile? (s : Session) : Option OpenFile :=
  s.files.head?

/-- The location of a span; a span of no source is at the start of the root. -/
def location (s : Session) (span : Span) : Location :=
  match s.sources.get? span.source with
  | some source => source.location span
  | none => ⟨s.root, 1, 1, "", span⟩

/-- The location of a span, unless its start lies inside a character. -/
def location? (s : Session) (span : Span) : Option Location :=
  match s.sources.get? span.source with
  | some source => source.location? span
  | none => some (s.location span)

/-! ### Closing files -/

/-- Closes the innermost file if its end has been reached, resumes the file below, and so on. -/
def settleWith : List OpenFile → List (Located Token) → Located Token →
    List OpenFile × List (Located Token) × Located Token
  | [], suspended, current => ([], suspended, current)
  | file :: files, suspended, current =>
    if current.value ≠ .finish then (file :: files, suspended, current)
    else if files.isEmpty then ([], suspended, current)
    else match suspended with
      | [] => (files, [], current)
      | token :: suspended => settleWith files suspended token

/-- The session with every file closed that has come to its end. -/
def settle (s : Session) : Session :=
  let (files, suspended, current) := settleWith s.files s.suspended s.current
  { s with files, suspended, current }

/-- Goes on to the next token; with no file open there is none. -/
def advance (s : Session) : Outcome Session :=
  match s.files with
  | [] => .ok s
  | file :: files =>
    match file.stream.next with
    | .error stray => .error ⟨.stray stray, s⟩
    | .ok (token, stream) => .ok { s with files := { file with stream } :: files, current := token }.settle

/-! ### Opening files -/

/-- Where the files are that a file includes: the directory that the file is in. -/
def directoryOf (s : Session) (path : Path) : Path :=
  path.parent?.getD s.root

/-- Starts reading a text on top of the open files. -/
def enter (s : Session) (path : Path) (text : String) : Outcome Session :=
  let stream := TokenStream.ofSource ⟨path, text⟩ s.sources.size
  let s := { s with sources := s.sources.add ⟨path, text⟩ }
  match stream.next with
  | .error stray => .error ⟨.stray stray, s⟩
  | .ok (token, stream) =>
    .ok { s with files := ⟨s.directoryOf path, path, stream⟩ :: s.files, current := token }.settle

def rootPath (s : Session) (file : Path) : Path :=
  s.root.join file

/-- Closes all files and starts reading a text as the root file of the given name. -/
def openText (s : Session) (name : Path) (text : String) : Outcome Session :=
  { s with files := [], suspended := [] }.enter (s.rootPath name) text

/-- Closes all files and starts reading the root file; `found` is what there is at its path. -/
def openRoot (s : Session) (file : Path) (found : Lookup) : Outcome Session :=
  match found with
  | .error cause => .error ⟨.unreadable (s.rootPath file) cause, s⟩
  | .ok text => s.openText file text

/-- The file that asks for an include, which is the innermost open file. -/
def issuer (s : Session) : Path :=
  match s.files with
  | [] => s.root
  | file :: _ => file.path

/-- The path of the file that the innermost open file asks for. -/
def includePath (s : Session) (requested : String) : Path :=
  let directory := match s.files with
    | [] => s.root
    | file :: _ => file.directory
  directory.resolve requested

/-- Suspends the innermost file and starts reading the file it asks for at the span; `found` is what there is at the
path of that file. -/
def includeFile (s : Session) (requested : String) (span : Span) (found : Lookup) : Outcome Session :=
  let path := s.includePath requested
  if ¬ found.isFile then .error ⟨.missingInclude requested path s.issuer (s.location span), s⟩
  else if maxDepth ≤ s.depth then .error ⟨.includeTooDeep requested (s.location span), s⟩
  else
    match found with
    | .error cause => .error ⟨.unreadable path cause, s⟩
    | .ok text => { s with suspended := s.current :: s.suspended, current := noToken }.enter path text

end Session

/-! ### Generated names -/

/-- The first number from `number` on whose name is not taken, if `tries` numbers are passed over at most. -/
def firstFree (taken : List String) : (tries : Nat) → (number : Nat) → Nat
  | 0, number => number
  | tries + 1, number =>
    if Package.generatedName number ∈ taken then firstFree taken tries (number + 1) else number

namespace Session

/-- The name for the next package without a name, and the session that has generated it. -/
def nextName (s : Session) : String × Session :=
  (Package.generatedName s.generated, { s with generated := s.generated + 1 })

/-- The first generated name that is not taken, and the session that has generated it. -/
def freshName (s : Session) (taken : List String) : String × Session :=
  nextName { s with generated := firstFree taken taken.length s.generated }

end Session

end BundleConf
