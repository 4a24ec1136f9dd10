/-!
# Paths

A path is a text in which `/` separates parts.  It is kept and printed as it was written: nothing normalises it.
What it means is its list of components: empty parts and `.` parts count for nothing, except a `.` that opens a
relative path.  `join` appends one path to another and `parent?` drops the last component.  Splitting a text at its
slashes loses nothing (`unparts_parts`).

A file names the files it includes relative to its own directory.  The request is resolved on its text alone
(`resolve`): each part between its slashes is taken in turn, a silent part leaves the path as it is, a `..` takes a name
back, and any other part is appended.  A leading slash of the request is a silent part, so no request leads to the root
of the file system on its own.
-/

namespace BundleConf

/-- A path, as it was written. -/
structure Path where
  text : String
  deriving DecidableEq, Repr, Inhabited

namespace Path

instance : ToString Path := ⟨Path.text⟩

/-- What a part of a path stands for. -/
inductive Component where
  /-- The `/` that opens an absolute path. -/
  | root
  /-- A `.` that opens a relative path. -/
  | here
  | up
  | name (text : List Char)
  deriving DecidableEq, Repr

/-- The parts of a text between its slashes: one more than it has slashes. -/
def parts : List Char → List (List Char)
  | [] => [[]]
  | c :: cs =>
    if c = '/' then [] :: parts cs
    else match parts cs with
      | [] => [[c]]
      | part :: rest => (c :: part) :: rest

/-- The text with the given parts between its slashes. -/
def unparts : List (List Char) → List Char
  | [] => []
  | [part] => part
  | part :: rest => part ++ '/' :: unparts rest

/-- Whether the part says nothing: it is empty or a single dot. -/
def isSilent (part : List Char) : Bool :=
  part == [] || part == ['.']

/-- The component a part in the middle of a path stands for, if it says anything. -/
def Component.ofPart? (part : List Char) : Option Component :=
  if isSilent part then none else if part = ['.', '.'] then some .up else some (.name part)

/-- The components of a text that is not the start of a path. -/
def componentsOfTail (cs : List Char) : List Component :=
  (parts cs).filterMap Component.ofPart?

/-- Splits off what the start of a path says before any name: a slash, or a dot that is its whole first part. -/
def splitHead : List Char → List Char × List Char
  | '/' :: cs => (['/'], cs)
  | ['.'] => (['.'], [])
  | '.' :: '/' :: cs => (['.'], '/' :: cs)
  | cs => ([], cs)

/-- The component that the head of a path stands for. -/
def headComponent : List Char → List Component
  | ['/'] => [.root]
  | ['.'] => [.here]
  | _ => []

def components (p : Path) : List Component :=
  let (head, tail) := splitHead p.text.toList
  headComponent head ++ componentsOfTail tail

def isAbsolute (p : Path) : Bool :=
  p.text.toList.head? == some '/'

/-- The path `b` as seen from `a`: an absolute `b` stands for itself, any other is written after `a`. -/
def join (a b : Path) : Path :=
  if b.isAbsolute then b
  else
    let a' := a.text.toList
    let slash := if a' = [] ∨ a'.getLast? = some '/' then [] else ['/']
    ⟨String.ofList (a' ++ slash ++ b.text.toList)⟩

/-- Drops the silent parts at the end of a list of parts. -/
def dropSilent (ps : List (List Char)) : List (List Char) :=
  (ps.reverse.dropWhile isSilent).reverse

/-- The path up to its last component, without the slashes and dots in between; none for the root and for the
empty path, which have no last component to drop. -/
def parent? (p : Path) : Option Path :=
  let (head, tail) := splitHead p.text.toList
  match dropSilent (parts tail) with
  | [] => if head = ['.'] then some ⟨""⟩ else none
  | part :: rest => some ⟨String.ofList (head ++ unparts (dropSilent (part :: rest).dropLast))⟩

/-! ### Parts -/

theorem parts_ne_nil (cs : List Char) : parts cs ≠ [] := by
  cases cs with
  | nil => simp [parts]
  | cons c cs =>
    rw [parts]
    split
    · simp
    · split <;> simp

@[simp] theorem parts_slash (cs : List Char) : parts ('/' :: cs) = [] :: parts cs := by
  simp [parts]

/-- Splitting at the slashes loses nothing. -/
@[simp] theorem unparts_parts (cs : List Char) : unparts (parts cs) = cs := by
  induction cs with
  | nil => rfl
  | cons c cs ih =>
    rw [parts]
    obtain ⟨part, rest, h⟩ := List.exists_cons_of_ne_nil (parts_ne_nil cs)
    rw [h] at ih ⊢
    split
    · subst c; simpa [unparts] using ih
    · cases rest with
      | nil => simpa [unparts] using ih
      | cons part' rest => simpa [unparts] using ih

/-! ### Appending -/

theorem join_of_isAbsolute {a b : Path} (h : b.isAbsolute) : a.join b = b := by
  simp [join, h]

@[simp] theorem join_empty_left (b : Path) : join ⟨""⟩ b = b := by
  cases b
  simp [join]

/-! ### Resolving an include -/

/-- The path after one part of a request. -/
def follow (p : Path) (part : List Char) : Path :=
  if isSilent part then p
  else if part = ['.', '.'] then
    match p.components.getLast? with
    | some (.name _) => p.parent?.getD p
    | _ => p.join ⟨".."⟩
  else p.join ⟨String.ofList part⟩

/-- The path of the file that `request` names, as seen from `directory`. -/
def resolve (directory : Path) (request : String) : Path :=
  (parts request.toList).foldl follow directory

end Path

end BundleConf
