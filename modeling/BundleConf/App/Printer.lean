import BundleConf.Token.Scan

/-!
# Writing applications

The canonical text of an application: its packages with their statements and routes, its routes, the lists of its user
interface and its middlewares, each in order.  A route is written with its layout if it has one, with the list of its
dependencies, and with each of its flags.
-/

namespace BundleConf

/-- A keyword with a value, as a statement. -/
def statementTokens (k : Keyword) (payload : String) : List Token :=
  [.keyword k, .value payload, .mark .semicolon]

/-- A list of package names, in brackets. -/
def listTokens (names : List String) : List Token :=
  .mark .leftBracket :: ((names.map fun name => [Token.value name]).intersperse [.mark .comma]).flatten ++
    [.mark .rightBracket]

/-- The flags that a route is marked with. -/
def Route.flags (r : Route) : List RouteFlag :=
  [.error404, .index, .isPrivate, .dialog].filter r.has

def Route.tokens (r : Route) : List Token :=
  [.value r.path, .mark .colon, .value r.template] ++
    (match r.layout with
      | some layout => [.keyword .layout, .mark .colon, .value layout]
      | none => []) ++
    listTokens r.depends ++
    (r.flags.flatMap fun flag => [Token.mark .comma, .keyword (.flag flag)]) ++
    [.mark .semicolon]

def routesTokens (routes : List Route) : List Token :=
  [.keyword .routes, .mark .leftBrace] ++ routes.flatMap Route.tokens ++ [.mark .rightBrace]

def Package.tokens (p : Package) : List Token :=
  [.keyword .package, .value p.name, .mark .leftBrace] ++
    p.requires.flatMap (statementTokens (.statement .requires)) ++
    p.directories.flatMap (statementTokens (.statement .directory)) ++
    p.files.flatMap (statementTokens (.statement .file)) ++
    p.options.flatMap (statementTokens (.statement .option)) ++
    routesTokens p.routes ++ [.mark .rightBrace]

def Ui.tokens (ui : Ui) : List Token :=
  [.keyword .ui, .mark .leftBrace] ++
    ([.template, .assets, .javascript, .stylesheets].flatMap fun field =>
      Token.keyword (.list field) :: listTokens (ui.get field)) ++
    [.mark .rightBrace]

/-- An application, as it is written. -/
def App.tokens (app : App) : List Token :=
  app.packages.flatMap Package.tokens ++ routesTokens app.routes ++ app.ui.tokens ++
    app.middlewares.flatMap (statementTokens .middleware)

/-- The canonical text of an application. -/
def App.print (app : App) : String :=
  Token.print app.tokens

end BundleConf
