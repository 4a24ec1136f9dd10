import BundleConf.Path.Basic

/-!
# Looking up files

Whoever reads files does so only by looking up paths.  A look-up yields the text of the file or the reason why it
cannot be read.  A `Reading` is a computation that may look up paths on its way: it either is done, or names a path
and says how it goes on with what is found there.  Run in a file system, which is the function from paths to
look-ups, it becomes a plain value (`Reading.run`); the same reading can also be carried out step by step with real
files.  `run_bind` says that running commutes with sequencing.
-/

namespace BundleConf

/-- Why there is no text at a path. -/
inductive ReadError where
  | notFound
  /-- Something on the way to the path is not a directory. -/
  | notDirectory
  | isDirectory
  /-- The file's bytes are not the UTF-8 encoding of a text. -/
  | notText
  /-- There is a file, but it is not let be read, for the reason that is given. -/
  | refused (reason : String)
  deriving DecidableEq, Repr

def ReadError.message : ReadError → String
  | .notFound => "No such file or directory (os error 2)"
  | .notDirectory => "Not a directory (os error 20)"
  | .isDirectory => "Is a directory (os error 21)"
  | .notText => "stream did not contain valid UTF-8"
  | .refused reason => reason

/-- What there is to read at a path. -/
abbrev Lookup := Except ReadError String

/-- Whether there is a regular file, of whatever bytes, and whether it can be read or not. -/
def Lookup.isFile : Lookup → Bool
  | .ok _ => true
  | .error .notText => true
  | .error (.refused _) => true
  | .error _ => false

/-- What there is to read at every path. -/
abbrev FileSystem := Path → Lookup

/-- A computation of an `α` that may look up paths. -/
inductive Reading (α : Type) where
  | done (value : α)
  | look (path : Path) (next : Lookup → Reading α)

namespace Reading

variable {α β γ : Type}

/-- The value that the computation has in a file system. -/
def run (files : FileSystem) : Reading α → α
  | done value => value
  | look path next => (next (files path)).run files

def bind (r : Reading α) (f : α → Reading β) : Reading β :=
  match r with
  | done value => f value
  | look path next => look path fun found => (next found).bind f

def lookup (path : Path) : Reading Lookup :=
  look path done

instance : Monad Reading where
  pure := done
  bind := bind

@[simp] theorem run_pure (files : FileSystem) (value : α) : (pure value : Reading α).run files = value := rfl

@[simp] theorem run_done (files : FileSystem) (value : α) : (done value).run files = value := rfl

@[simp] theorem run_look (files : FileSystem) (path : Path) (next : Lookup → Reading α) :
    (look path next).run files = (next (files path)).run files := rfl

@[simp] theorem run_lookup (files : FileSystem) (path : Path) : (lookup path).run files = files path := rfl

@[simp] theorem run_bind (files : FileSystem) (r : Reading α) (f : α → Reading β) :
    (r >>= f).run files = (f (r.run files)).run files := by
  induction r with
  | done value => rfl
  | look path next ih => exact ih (files path)

end Reading

end BundleConf
