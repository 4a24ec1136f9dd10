import BundleConf.Source.Basic

/-!
# Diagnostics

A diagnostic is what a user is told when a command fails: what went wrong and, where that is known, at which place of
which source.  `Diagnostic.message` is its one-line text, which a report carries along.
-/

namespace BundleConf

/-- What a user is told. -/
inductive Diagnostic where
  | lexical (character : Char) (location : Location)
  | unexpected (expected found : String) (location : Location)
  | missingInclude (requested : String) (resolved issuer : Path) (location : Option Location)
  | structural (reason : String) (location : Location)
  | unreadable (path : Path) (reason : String)
  | manifest (reason : String) (path : Path)
  | reference (reason : String)
  | watch (reason : String)
  deriving DecidableEq, Repr

namespace Diagnostic

/-- The place that the diagnostic points to. -/
def location? : Diagnostic → Option Location
  | lexical _ location => some location
  | unexpected _ _ location => some location
  | missingInclude _ _ _ location => location
  | structural _ location => some location
  | _ => none

/-- The end of a message that quotes the text around a place. -/
private def quoting (location : Location) : String :=
  location.label ++ ": `" ++ location.snippet ++ "`"

/-- The diagnostic in words. -/
def message : Diagnostic → String
  | lexical character location =>
    "Lexical error: unexpected character '" ++ String.singleton character ++ "' at " ++ quoting location
  | unexpected expected found location =>
    "Syntax error: expected " ++ expected ++ ", found " ++ found ++ " at " ++ quoting location
  | missingInclude requested resolved issuer _ =>
    "Include error: could not find '" ++ requested ++ "' (resolved to '" ++ resolved.text ++ "') included from '" ++
      issuer.text ++ "'"
  | structural reason location => "Structural error: " ++ reason ++ " at " ++ location.label
  | unreadable path reason => "I/O error: could not read '" ++ path.text ++ "': " ++ reason
  | manifest reason path => "Manifest error: " ++ reason ++ " (" ++ path.text ++ ")"
  | reference reason => "Reference error: " ++ reason
  | watch reason => "Watch error: " ++ reason

end Diagnostic

end BundleConf
