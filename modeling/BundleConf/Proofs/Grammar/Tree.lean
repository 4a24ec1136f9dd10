import BundleConf.Token.Basic

/-!
# The grammar

The trees of this module are the derivations of the grammar.  A tree for a sequence says what the sequence begins with
and goes on with the rest of it; `stray` is a semicolon that stands on its own.

* A text is a sequence of declarations: packages, routes blocks, user interfaces, middlewares and semicolons.
* A package is its keyword, its name if it is given one, and its body in braces, which holds statements, routes blocks
  and semicolons.
* A routes block holds routes and semicolons in braces.  A route is its path, a colon and its template, then one layout
  and one list at most, then flags after commas and layouts with or without a comma, then a semicolon.
* A list holds entries in brackets with commas between them.  An entry is the name of a package, or a package.
* A user interface holds lists, each after its word, and semicolons in braces.

`tokens` is what a tree derives and `packages`, `routes` and so on are what it means.  A package that is given no name
shows the number of the name that is generated for it.
-/

namespace BundleConf

/-- How a package gets its name: it is given one, or one with a number is generated. -/
inductive Header where
  | given (name : String)
  | generated (number : Nat)
  deriving DecidableEq, Repr

/-- What may follow a route after its list: a flag after a comma, or a layout, after a comma or without one. -/
inductive Clause where
  | flag (flag : RouteFlag)
  | layout (comma : Bool) (name : String)
  deriving DecidableEq, Repr

mutual

/-- What stands between the braces of a package. -/
inductive BodyTree where
  | done
  | stray (rest : BodyTree)
  | statement (field : PackageField) (value : String) (rest : BodyTree)
  | routes (block : RoutesTree) (rest : BodyTree)

/-- What stands between the braces of a routes block. -/
inductive RoutesTree where
  | done
  | stray (rest : RoutesTree)
  | route (path template : String) (layout : Option String) (list : ListTree) (clauses : List Clause)
    (rest : RoutesTree)

/-- The list of a route, which may be left out. -/
inductive ListTree where
  | absent
  | present (entries : EntriesTree)

/-- What stands between the brackets of a list. -/
inductive EntriesTree where
  | done
  | value (name : String) (rest : EntriesTree)
  | package (header : Header) (body : BodyTree) (rest : EntriesTree)

end

/-- What stands between the braces of a user interface. -/
inductive UiTree where
  | done
  | stray (rest : UiTree)
  | list (field : UiField) (entries : EntriesTree) (rest : UiTree)

inductive Declaration where
  | package (header : Header) (body : BodyTree)
  | routes (block : RoutesTree)
  | ui (tree : UiTree)
  | middleware (name : String)
  | stray

/-- What a file may hold at top level: a declaration, or the inclusion of another file. -/
inductive Item where
  | declaration (declaration : Declaration)
  | inclusion (requested : String)

/-! ### What a tree derives -/

/-- The tokens of a header, up to the opening brace of the body. -/
def Header.tokens : Header → List Token
  | .given name => [.keyword .package, .value name, .mark .leftBrace]
  | .generated _ => [.keyword .package, .mark .leftBrace]

def layoutTokens (name : String) : List Token :=
  [.keyword .layout, .mark .colon, .value name]

def Clause.tokens : Clause → List Token
  | .flag f => [.mark .comma, .keyword (.flag f)]
  | .layout comma name => (if comma then [.mark .comma] else []) ++ layoutTokens name

mutual

/-- The tokens of a body up to its closing brace. -/
def BodyTree.tokens : BodyTree → List Token
  | .done => [.mark .rightBrace]
  | .stray rest => .mark .semicolon :: rest.tokens
  | .statement field value rest => [.keyword (.statement field), .value value, .mark .semicolon] ++ rest.tokens
  | .routes block rest => [.keyword .routes, .mark .leftBrace] ++ block.tokens ++ rest.tokens

/-- The tokens of a routes block up to its closing brace. -/
def RoutesTree.tokens : RoutesTree → List Token
  | .done => [.mark .rightBrace]
  | .stray rest => .mark .semicolon :: rest.tokens
  | .route path template layout list clauses rest =>
    [.value path, .mark .colon, .value template] ++ layout.elim [] layoutTokens ++ list.tokens ++
      clauses.flatMap Clause.tokens ++ .mark .semicolon :: rest.tokens

def ListTree.tokens : ListTree → List Token
  | .absent => []
  | .present entries => .mark .leftBracket :: entries.tokens

/-- The tokens of a list after its opening bracket. -/
def EntriesTree.tokens : EntriesTree → List Token
  | .done => [.mark .rightBracket]
  | .value name rest => .value name :: rest.furtherTokens
  | .package header body rest => header.tokens ++ body.tokens ++ rest.furtherTokens

/-- The tokens of a list after an entry. -/
def EntriesTree.furtherTokens : EntriesTree → List Token
  | .done => [.mark .rightBracket]
  | .value name rest => .mark .comma :: .value name :: rest.furtherTokens
  | .package header body rest => .mark .comma :: header.tokens ++ body.tokens ++ rest.furtherTokens

end

/-- The tokens of a user interface up to its closing brace. -/
def UiTree.tokens : UiTree → List Token
  | .done => [.mark .rightBrace]
  | .stray rest => .mark .semicolon :: rest.tokens
  | .list field entries rest => [.keyword (.list field), .mark .leftBracket] ++ entries.tokens ++ rest.tokens

def Declaration.tokens : Declaration → List Token
  | .package header body => header.tokens ++ body.tokens
  | .routes block => [.keyword .routes, .mark .leftBrace] ++ block.tokens
  | .ui tree => [.keyword .ui, .mark .leftBrace] ++ tree.tokens
  | .middleware name => [.keyword .middleware, .value name, .mark .semicolon]
  | .stray => [.mark .semicolon]

def Item.tokens : Item → List Token
  | .declaration d => d.tokens
  | .inclusion requested => [.keyword .include, .value requested, .mark .semicolon]

/-! ### What a tree means -/

def Header.name : Header → String
  | .given name => name
  | .generated number => Package.generatedName number

/-- The route with a clause added. -/
def Clause.apply (r : Route) : Clause → Route
  | .flag f => r.mark f
  | .layout _ name => r.withLayout name

def EntriesTree.names : EntriesTree → List String
  | .done => []
  | .value name rest => name :: rest.names
  | .package header _ rest => header.name :: rest.names

def ListTree.names : ListTree → List String
  | .absent => []
  | .present entries => entries.names

/-- The route of the given parts. -/
def assembleRoute (path template : String) (layout : Option String) (depends : List String) (clauses : List Clause) :
    Route :=
  clauses.foldl Clause.apply { path, template, layout, depends }

/-- The routes of a block, in order. -/
def RoutesTree.routes : RoutesTree → List Route
  | .done => []
  | .stray rest => rest.routes
  | .route path template layout list clauses rest =>
    assembleRoute path template layout list.names clauses :: rest.routes

/-- The values of a package's statements of one kind, in order. -/
def BodyTree.values (field : PackageField) : BodyTree → List String
  | .done => []
  | .stray rest => rest.values field
  | .statement field' value rest => if field' = field then value :: rest.values field else rest.values field
  | .routes _ rest => rest.values field

/-- A package's own routes, in order. -/
def BodyTree.ownRoutes : BodyTree → List Route
  | .done => []
  | .stray rest => rest.ownRoutes
  | .statement _ _ rest => rest.ownRoutes
  | .routes block rest => block.routes ++ rest.ownRoutes

/-- The package of a header and a body. -/
def assemblePackage (header : Header) (body : BodyTree) : Package where
  name := header.name
  requires := body.values .requires
  directories := body.values .directory
  files := body.values .file
  options := body.values .option
  routes := body.ownRoutes

mutual

/-- The packages in a body, in the order of their keywords. -/
def BodyTree.packages : BodyTree → List Package
  | .done => []
  | .stray rest => rest.packages
  | .statement _ _ rest => rest.packages
  | .routes block rest => block.packages ++ rest.packages

/-- The packages in a routes block, in the order of their keywords. -/
def RoutesTree.packages : RoutesTree → List Package
  | .done => []
  | .stray rest => rest.packages
  | .route _ _ _ list _ rest => list.packages ++ rest.packages

/-- The packages in a list, in the order of their keywords. -/
def ListTree.packages : ListTree → List Package
  | .absent => []
  | .present entries => entries.packages

/-- The packages in the entries of a list, in the order of their keywords. -/
def EntriesTree.packages : EntriesTree → List Package
  | .done => []
  | .value _ rest => rest.packages
  | .package header body rest => assemblePackage header body :: body.packages ++ rest.packages

end

def UiTree.packages : UiTree → List Package
  | .done => []
  | .stray rest => rest.packages
  | .list _ entries rest => entries.packages ++ rest.packages

def UiTree.names (field : UiField) : UiTree → List String
  | .done => []
  | .stray rest => rest.names field
  | .list field' entries rest => if field' = field then entries.names ++ rest.names field else rest.names field

namespace Declaration

def packages : Declaration → List Package
  | .package header body => assemblePackage header body :: body.packages
  | .routes block => block.packages
  | .ui tree => tree.packages
  | _ => []

def rootRoutes : Declaration → List Route
  | .routes block => block.routes
  | _ => []

def uiNames (field : UiField) : Declaration → List String
  | .ui tree => tree.names field
  | _ => []

def middlewares : Declaration → List String
  | .middleware name => [name]
  | _ => []

end Declaration

/-- The application of some declarations. -/
def App.declared (ds : List Declaration) : App where
  packages := ds.flatMap Declaration.packages
  routes := ds.flatMap Declaration.rootRoutes
  ui :=
    { template := ds.flatMap (Declaration.uiNames .template)
      assets := ds.flatMap (Declaration.uiNames .assets)
      javascript := ds.flatMap (Declaration.uiNames .javascript)
      stylesheets := ds.flatMap (Declaration.uiNames .stylesheets) }
  middlewares := ds.flatMap Declaration.middlewares

end BundleConf
