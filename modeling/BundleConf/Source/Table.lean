import BundleConf.Source.Basic

/-!
# The table of sources

Sources are numbered in the order in which they are read, from zero.  A file that is read twice is two sources.
`get?_add` says what adding a source does to every number.  The numbers go on for ever, so that no two sources share
one; numbers of 32 bits would start again after 2 ^ 32 sources.
-/

namespace BundleConf

/-- The sources read so far, in order. -/
structure SourceTable where
  sources : Array Source
  deriving DecidableEq, Repr

namespace SourceTable

def empty : SourceTable := ⟨#[]⟩

instance : Inhabited SourceTable := ⟨empty⟩

/-- How many sources there are; this is the next source's number. -/
def size (t : SourceTable) : Nat :=
  t.sources.size

def isEmpty (t : SourceTable) : Bool :=
  t.sources.isEmpty

def add (t : SourceTable) (s : Source) : SourceTable :=
  ⟨t.sources.push s⟩

def get? (t : SourceTable) (number : Nat) : Option Source :=
  t.sources[number]?

/-- The paths of the sources, in order. -/
def paths (t : SourceTable) : List Path :=
  t.sources.toList.map Source.path

@[simp] theorem size_empty : empty.size = 0 := rfl

@[simp] theorem size_add (t : SourceTable) (s : Source) : (t.add s).size = t.size + 1 := by
  simp [add, size]

theorem get?_add (t : SourceTable) (s : Source) (number : Nat) :
    (t.add s).get? number = if number = t.size then some s else t.get? number := by
  exact Array.getElem?_push

@[simp] theorem get?_add_size (t : SourceTable) (s : Source) : (t.add s).get? t.size = some s := by
  simp [get?_add]

theorem get?_eq_none_iff {t : SourceTable} {number : Nat} : t.get? number = none ↔ t.size ≤ number := by
  simp [get?, size]

end SourceTable

end BundleConf
