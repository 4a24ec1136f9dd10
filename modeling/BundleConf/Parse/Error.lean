import BundleConf.Diagnostic.Basic
import BundleConf.Files.Lookup
import BundleConf.Token.Stream

/-!
# Parse errors

Why a parse ends without an application.  The first error ends it.  An error keeps its cause, `ParseError.diagnostic`
puts it into words.
-/

namespace BundleConf

/-- What the grammar allows at a place. -/
inductive Expectation where
  | kind (kind : Kind)
  /-- The start of a declaration at top level. -/
  | declaration
  /-- What may follow a comma after a route. -/
  | routeOption
  | entry
  deriving DecidableEq, Repr

def Expectation.text : Expectation → String
  | kind k => k.text
  | declaration => "'package', 'routes', 'ui', 'middleware' or 'include'"
  | routeOption => "route option or 'layout'"
  | entry => "quoted value or 'package'"

/-- Declarations that fit the grammar but not each other. -/
inductive Conflict where
  | duplicatePackage (name : String)
  /-- A flag that only one route may carry, and the route that carries it already. -/
  | flagTaken (route : String) (flag : RouteFlag) (holder : String)
  deriving DecidableEq, Repr

def Conflict.message : Conflict → String
  | duplicatePackage name => "package '" ++ name ++ "' is declared more than once"
  | flagTaken route flag holder =>
    "route '" ++ route ++ "' is marked " ++ flag.word ++ ", but route '" ++ holder ++ "' already is"

/-- How many files can be open at once. -/
def maxDepth : Nat := 64

inductive ParseError where
  | stray (cause : StrayCharacter)
  | unexpected (expected : Expectation) (found : Kind) (location : Location)
  | conflict (cause : Conflict) (location : Location)
  | missingInclude (requested : String) (resolved issuer : Path) (location : Location)
  | includeTooDeep (requested : String) (location : Location)
  | unreadable (path : Path) (cause : ReadError)
  /-- More files were included than a parse is allowed. -/
  | tooManyIncludes (location : Location)
  deriving DecidableEq, Repr

/-- The error as a user is told of it. -/
def ParseError.diagnostic : ParseError → Diagnostic
  | stray cause => .lexical cause.character cause.location
  | unexpected expected found location => .unexpected expected.text found.text location
  | conflict cause location => .structural cause.message location
  | missingInclude requested resolved issuer location => .missingInclude requested resolved issuer (some location)
  | includeTooDeep requested location =>
    .structural ("includes nested deeper than " ++ toString maxDepth ++ " levels (is '" ++ requested ++
      "' including itself?)") location
  | unreadable path cause => .unreadable path cause.message
  | tooManyIncludes location => .structural "too many files included" location

end BundleConf
