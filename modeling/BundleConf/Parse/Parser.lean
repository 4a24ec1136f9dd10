import BundleConf.Parse.Error
import BundleConf.Parse.State

/-!
# The parser

A parser is the state of a parse together with the application declared so far.  `Parser.react` says what it does at a
token: it takes it, refuses it, is finished, or asks for a file.  A token that it takes may complete a declaration that
conflicts with an earlier one; the conflict comes to light only when the token after it has been read, so the reaction
carries what becomes of the parser then.
-/

namespace BundleConf

/-! ### Changes to an application -/

namespace App

/-- The flags that only one route may carry, in the order in which they are looked at. -/
def uniqueFlags : List RouteFlag :=
  [.error404, .index]

/-- The first unique flag of a route that another route carries already. -/
def flagConflict? (app : App) (route : Route) : Option Conflict :=
  uniqueFlags.findSome? fun flag =>
    if route.has flag then (app.route? flag).map fun holder => .flagTaken route.path flag holder.path else none

/-- The application with a package changed that is still open. -/
def modifyPackage (app : App) (package : OpenPackage) (f : Package → Package) : App :=
  { app with packages := app.packages.modify package.index f }

/-- The application with one more route, at the end of its block. -/
def addRoute (app : App) (route : Route) : RoutesBlock → App
  | .root => { app with routes := app.routes ++ [route] }
  | .package package _ => app.modifyPackage package (·.addRoute route)

end App

/-- A parse, as far as it has come. -/
structure Parser where
  app : App
  state : State
  deriving Repr

/-- What a parser does at a token. -/
inductive Reaction where
  /-- It refuses the token and expects another. -/
  | refuse (expected : Expectation)
  /-- It takes the token; `next` is what becomes of it. -/
  | take (next : Except (Located Conflict) Parser)
  /-- It wants to go on with the file of a path. -/
  | load (path : Located String)
  | finish

namespace Parser

def start : Parser :=
  ⟨{}, .top⟩

/-! ### Declarations -/

/-- Starts the declaration of a package. -/
def openPackage (p : Parser) (name : String) (site : Site) : Parser where
  app := { p.app with packages := p.app.packages ++ [{ name }] }
  state := .packageOpen ⟨p.app.packages.length, name⟩ site

/-- Starts the declaration of a package whose name is given. -/
def declare (p : Parser) (name : Located String) (site : Site) : Except (Located Conflict) Parser :=
  if name.value ∈ p.app.packageNames then .error ⟨.duplicatePackage name.value, name.span⟩
  else .ok (p.openPackage name.value site)

def closeRoute (p : Parser) (block : RoutesBlock) (draft : RouteDraft) : Except (Located Conflict) Parser :=
  match p.app.flagConflict? draft.route with
  | some conflict => .error ⟨conflict, draft.span⟩
  | none => .ok ⟨p.app.addRoute draft.route block, .routesBody block⟩

def closeList (p : Parser) (listing : Listing) (entries : List String) : Parser :=
  match listing with
  | .ui field => ⟨{ p.app with ui := p.app.ui.extend field entries }, .uiBody⟩
  | .route block draft =>
    ⟨p.app, .routeRest block { draft with route := entries.foldl Route.depend draft.route } .options⟩

/-! ### Reactions -/

/-- Takes the token and goes on in a state. -/
def goOn (p : Parser) (state : State) : Reaction :=
  .take (.ok { p with state })

/-- Refuses anything but the mark. -/
def need (m : Mark) : Reaction :=
  .refuse (.kind (.mark m))

def needValue : Reaction :=
  .refuse (.kind .value)

/-- The reaction at a mark that has to come next. -/
def atMark (p : Parser) (m : Mark) (state : State) : Token → Reaction
  | .mark m' => if m' = m then p.goOn state else need m
  | _ => need m

/-- The reaction at a value that has to come next. -/
def atValue (p : Parser) (state : String → State) : Token → Reaction
  | .value payload => p.goOn (state payload)
  | _ => needValue

/-- The reaction between declarations. -/
def atTop (p : Parser) : Token → Reaction
  | .keyword .package => p.goOn (.packageName .top)
  | .keyword .routes => p.goOn (.routesOpen .root)
  | .keyword .ui => p.goOn .uiOpen
  | .keyword .middleware => p.goOn .middlewareName
  | .keyword .include => p.goOn .includePath
  | .mark .semicolon => p.goOn .top
  | .finish => .finish
  | _ => .refuse .declaration

def atPackageBody (p : Parser) (package : OpenPackage) (site : Site) : Token → Reaction
  | .keyword (.statement field) => p.goOn (.statementValue package site field)
  | .keyword .routes => p.goOn (.routesOpen (.package package site))
  | .mark .semicolon => p.goOn (.packageBody package site)
  | .mark .rightBrace => p.goOn (site.resume package.name)
  | _ => need .rightBrace

/-- The reaction between routes. -/
def atRoutesBody (p : Parser) (block : RoutesBlock) (span : Span) : Token → Reaction
  | .value payload => p.goOn (.routeColon block ⟨payload, span⟩)
  | .mark .semicolon => p.goOn (.routesBody block)
  | .mark .rightBrace => p.goOn block.resume
  | _ => need .rightBrace

/-- The reaction after the template of a route. -/
def atRouteRest (p : Parser) (block : RoutesBlock) (draft : RouteDraft) (stage : RouteStage) : Token → Reaction
  | .keyword .layout => p.goOn (.layoutColon block draft stage.afterLayout)
  | .mark .leftBracket =>
    if stage = .options then need .semicolon else p.goOn (.listStart (.route block draft))
  | .mark .comma => p.goOn (.routeOption block draft)
  | .mark .semicolon => .take (p.closeRoute block draft)
  | _ => need .semicolon

/-- The reaction after a comma in a route. -/
def atRouteOption (p : Parser) (block : RoutesBlock) (draft : RouteDraft) : Token → Reaction
  | .keyword (.flag flag) => p.goOn (.routeRest block { draft with route := draft.route.mark flag } .options)
  | .keyword .layout => p.goOn (.layoutColon block draft .options)
  | _ => .refuse .routeOption

def atUiBody (p : Parser) : Token → Reaction
  | .keyword (.list field) => p.goOn (.listOpen field)
  | .mark .semicolon => p.goOn .uiBody
  | .mark .rightBrace => p.goOn .top
  | _ => need .rightBrace

def atEntry (p : Parser) (listing : Listing) (entries : List String) : Token → Reaction
  | .value payload => p.goOn (.listMore listing (entries ++ [payload]))
  | .keyword .package => p.goOn (.packageName (listing.site entries))
  | _ => .refuse .entry

/-- The reaction after an entry of a list. -/
def atListMore (p : Parser) (listing : Listing) (entries : List String) : Token → Reaction
  | .mark .comma => p.goOn (.listEntry listing entries)
  | .mark .rightBracket => .take (.ok (p.closeList listing entries))
  | _ => need .rightBracket

def react (p : Parser) (t : Located Token) : Reaction :=
  match p.state with
  | .top => p.atTop t.value
  | .middlewareName => p.atValue .middlewareEnd t.value
  | .middlewareEnd name =>
    atMark { p with app.middlewares := p.app.middlewares ++ [name] } .semicolon .top t.value
  | .includePath => p.atValue (fun payload => .includeEnd ⟨payload, t.span⟩) t.value
  | .includeEnd path => if t.value = .mark .semicolon then .load path else need .semicolon
  | .packageName site =>
    match t.value with
    | .value payload => .take (p.declare ⟨payload, t.span⟩ site)
    | _ => need .leftBrace
  | .packageOpen package site => p.atMark .leftBrace (.packageBody package site) t.value
  | .packageBody package site => p.atPackageBody package site t.value
  | .statementValue package site field => p.atValue (.statementEnd package site field) t.value
  | .statementEnd package site field value =>
    atMark { p with app := p.app.modifyPackage package (·.add field value) } .semicolon (.packageBody package site)
      t.value
  | .routesOpen block => p.atMark .leftBrace (.routesBody block) t.value
  | .routesBody block => p.atRoutesBody block t.span t.value
  | .routeColon block path => p.atMark .colon (.routeTemplate block path) t.value
  | .routeTemplate block path =>
    p.atValue (fun payload => .routeRest block ⟨{ path := path.value, template := payload }, path.span⟩ .template)
      t.value
  | .routeRest block draft stage => p.atRouteRest block draft stage t.value
  | .routeOption block draft => p.atRouteOption block draft t.value
  | .layoutColon block draft stage => p.atMark .colon (.layoutValue block draft stage) t.value
  | .layoutValue block draft stage =>
    p.atValue (fun payload => .routeRest block { draft with route := draft.route.withLayout payload } stage) t.value
  | .uiOpen => p.atMark .leftBrace .uiBody t.value
  | .uiBody => p.atUiBody t.value
  | .listOpen field => p.atMark .leftBracket (.listStart (.ui field)) t.value
  | .listStart listing =>
    if t.value = .mark .rightBracket then .take (.ok (p.closeList listing [])) else p.atEntry listing [] t.value
  | .listEntry listing entries => p.atEntry listing entries t.value
  | .listMore listing entries => p.atListMore listing entries t.value

/-- The end of the text is never taken. -/
theorem react_ne_take_of_finish {p : Parser} {t : Located Token} (h : t.value = .finish)
    (next : Except (Located Conflict) Parser) : p.react t ≠ .take next := by
  cases hs : p.state <;>
    simp [react, hs, h, atTop, atValue, atMark, atPackageBody, atRoutesBody, atRouteRest, atRouteOption, atUiBody,
      atEntry, atListMore, need, needValue]

end Parser

end BundleConf
