import BundleConf.Toml.Document

/-!
# Manifests

A manifest is a TOML document that says where a configuration lives: the strings `root` and `entry` of the table
`conf`, either or both of which may be missing.  It says nothing else; any other key, any other kind of value and
anything said twice is refused.  The table may be written in each of the ways that TOML has for tables, and also as an
array whose first two items are the two strings.
-/

namespace BundleConf

structure Manifest where
  root : Option String := none
  entry : Option String := none
  deriving DecidableEq, Repr

namespace Manifest

open Toml (Value Statement)

/-- How much of the table has been written. -/
inductive Progress where
  | nothing
  /-- Some of it, by dotted keys. -/
  | dotted
  /-- Its header, and some of it. -/
  | header
  | everything
  deriving DecidableEq, Repr

/-- The manifest with one more entry of its table, if the entry is one of the two and new. -/
def set? (m : Manifest) (key : String) (value : Value) : Option Manifest :=
  match key, value with
  | "root", .string text => if m.root.isNone then some { m with root := some text } else none
  | "entry", .string text => if m.entry.isNone then some { m with entry := some text } else none
  | _, _ => none

/-- The manifest whose table is a value. -/
def ofValue? : Value → Option Manifest
  | .table _ entries => entries.foldlM (fun m (key, value) => m.set? key value) {}
  | .array (.string root :: .string entry :: _) => some ⟨root, entry⟩
  | _ => none

/-- The manifest after one more statement. -/
def follow? : Manifest × Progress → Statement → Option (Manifest × Progress)
  | (_, .nothing), .assign ["conf"] value => (ofValue? value).map (·, .everything)
  | (m, .nothing), .assign ["conf", key] value => (m.set? key value).map (·, .dotted)
  | (m, .dotted), .assign ["conf", key] value => (m.set? key value).map (·, .dotted)
  | (m, .nothing), .header ["conf"] => some (m, .header)
  | (m, .header), .assign [key] value => (m.set? key value).map (·, .header)
  | _, _ => none

/-- What the statements of a document say, if they are those of a manifest. -/
def ofStatements? (statements : List Statement) : Option Manifest :=
  (statements.foldlM follow? ({}, .nothing)).map Prod.fst

end Manifest

end BundleConf
