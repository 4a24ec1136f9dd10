import BundleConf.Parse.Parser

/-!
# What the parser does with the tokens that it takes

Most of the tokens that a parser takes only move it to another state of the grammar (`State.Goes`).  The others complete
something, and these are few: a middleware, a statement of a package, the header of a package, a route or a list
(`Parser.Takes`).  What all of them preserve is shown by cases on these two relations (`Parser.takes_of_react`) rather
than by cases on the definition of `Parser.react`.
-/

namespace BundleConf

/-- The token, which stands at the span, moves a parser to another state and changes nothing else. -/
inductive State.Goes (span : Span) : State → Token → State → Prop
  | package : Goes span .top (.keyword .package) (.packageName .top)
  | routes : Goes span .top (.keyword .routes) (.routesOpen .root)
  | ui : Goes span .top (.keyword .ui) .uiOpen
  | middleware : Goes span .top (.keyword .middleware) .middlewareName
  | inclusion : Goes span .top (.keyword .include) .includePath
  | topSemicolon : Goes span .top (.mark .semicolon) .top
  | middlewareName (name : String) : Goes span .middlewareName (.value name) (.middlewareEnd name)
  | includePath (path : String) : Goes span .includePath (.value path) (.includeEnd ⟨path, span⟩)
  | packageOpen (package : OpenPackage) (site : Site) :
      Goes span (.packageOpen package site) (.mark .leftBrace) (.packageBody package site)
  | statement (package : OpenPackage) (site : Site) (field : PackageField) :
      Goes span (.packageBody package site) (.keyword (.statement field)) (.statementValue package site field)
  | packageRoutes (package : OpenPackage) (site : Site) :
      Goes span (.packageBody package site) (.keyword .routes) (.routesOpen (.package package site))
  | packageSemicolon (package : OpenPackage) (site : Site) :
      Goes span (.packageBody package site) (.mark .semicolon) (.packageBody package site)
  | packageClose (package : OpenPackage) (site : Site) :
      Goes span (.packageBody package site) (.mark .rightBrace) (site.resume package.name)
  | statementValue (package : OpenPackage) (site : Site) (field : PackageField) (value : String) :
      Goes span (.statementValue package site field) (.value value) (.statementEnd package site field value)
  | routesOpen (block : RoutesBlock) : Goes span (.routesOpen block) (.mark .leftBrace) (.routesBody block)
  | routePath (block : RoutesBlock) (path : String) :
      Goes span (.routesBody block) (.value path) (.routeColon block ⟨path, span⟩)
  | routesSemicolon (block : RoutesBlock) : Goes span (.routesBody block) (.mark .semicolon) (.routesBody block)
  | routesClose (block : RoutesBlock) : Goes span (.routesBody block) (.mark .rightBrace) block.resume
  | routeColon (block : RoutesBlock) (path : Located String) :
      Goes span (.routeColon block path) (.mark .colon) (.routeTemplate block path)
  | routeTemplate (block : RoutesBlock) (path : Located String) (template : String) :
      Goes span (.routeTemplate block path) (.value template)
        (.routeRest block ⟨{ path := path.value, template }, path.span⟩ .template)
  | layout (block : RoutesBlock) (draft : RouteDraft) (stage : RouteStage) :
      Goes span (.routeRest block draft stage) (.keyword .layout) (.layoutColon block draft stage.afterLayout)
  | dependencies (block : RoutesBlock) (draft : RouteDraft) {stage : RouteStage} (h : stage ≠ .options) :
      Goes span (.routeRest block draft stage) (.mark .leftBracket) (.listStart (.route block draft))
  | options (block : RoutesBlock) (draft : RouteDraft) (stage : RouteStage) :
      Goes span (.routeRest block draft stage) (.mark .comma) (.routeOption block draft)
  | flag (block : RoutesBlock) (draft : RouteDraft) (flag : RouteFlag) :
      Goes span (.routeOption block draft) (.keyword (.flag flag))
        (.routeRest block { draft with route := draft.route.mark flag } .options)
  | layoutOption (block : RoutesBlock) (draft : RouteDraft) :
      Goes span (.routeOption block draft) (.keyword .layout) (.layoutColon block draft .options)
  | layoutColon (block : RoutesBlock) (draft : RouteDraft) (stage : RouteStage) :
      Goes span (.layoutColon block draft stage) (.mark .colon) (.layoutValue block draft stage)
  | layoutValue (block : RoutesBlock) (draft : RouteDraft) (stage : RouteStage) (name : String) :
      Goes span (.layoutValue block draft stage) (.value name)
        (.routeRest block { draft with route := draft.route.withLayout name } stage)
  | uiOpen : Goes span .uiOpen (.mark .leftBrace) .uiBody
  | uiList (field : UiField) : Goes span .uiBody (.keyword (.list field)) (.listOpen field)
  | uiSemicolon : Goes span .uiBody (.mark .semicolon) .uiBody
  | uiClose : Goes span .uiBody (.mark .rightBrace) .top
  | listOpen (field : UiField) : Goes span (.listOpen field) (.mark .leftBracket) (.listStart (.ui field))
  | firstEntry (listing : Listing) (name : String) :
      Goes span (.listStart listing) (.value name) (.listMore listing [name])
  | firstPackage (listing : Listing) :
      Goes span (.listStart listing) (.keyword .package) (.packageName (listing.site []))
  | entry (listing : Listing) (entries : List String) (name : String) :
      Goes span (.listEntry listing entries) (.value name) (.listMore listing (entries ++ [name]))
  | entryPackage (listing : Listing) (entries : List String) :
      Goes span (.listEntry listing entries) (.keyword .package) (.packageName (listing.site entries))
  | comma (listing : Listing) (entries : List String) :
      Goes span (.listMore listing entries) (.mark .comma) (.listEntry listing entries)

namespace Parser

/-- What becomes of a parser that takes the token, which stands at the span. -/
inductive Takes (app : App) (span : Span) : State → Token → Except (Located Conflict) Parser → Prop
  | goes {state state' : State} {t : Token} (h : state.Goes span t state') : Takes app span state t (.ok ⟨app, state'⟩)
  | middleware (name : String) :
      Takes app span (.middlewareEnd name) (.mark .semicolon)
        (.ok ⟨{ app with middlewares := app.middlewares ++ [name] }, .top⟩)
  | statement (package : OpenPackage) (site : Site) (field : PackageField) (value : String) :
      Takes app span (.statementEnd package site field value) (.mark .semicolon)
        (.ok ⟨app.modifyPackage package (·.add field value), .packageBody package site⟩)
  | header (site : Site) {name : String} (free : name ∉ app.packageNames) :
      Takes app span (.packageName site) (.value name)
        (.ok ⟨{ app with packages := app.packages ++ [{ name }] }, .packageOpen ⟨app.packages.length, name⟩ site⟩)
  | duplicate (site : Site) {name : String} (taken : name ∈ app.packageNames) :
      Takes app span (.packageName site) (.value name) (.error ⟨.duplicatePackage name, span⟩)
  | route (block : RoutesBlock) {draft : RouteDraft} (stage : RouteStage)
      (free : app.flagConflict? draft.route = none) :
      Takes app span (.routeRest block draft stage) (.mark .semicolon)
        (.ok ⟨app.addRoute draft.route block, .routesBody block⟩)
  | clash (block : RoutesBlock) {draft : RouteDraft} (stage : RouteStage) {conflict : Conflict}
      (taken : app.flagConflict? draft.route = some conflict) :
      Takes app span (.routeRest block draft stage) (.mark .semicolon) (.error ⟨conflict, draft.span⟩)
  | noList (listing : Listing) :
      Takes app span (.listStart listing) (.mark .rightBracket) (.ok (closeList ⟨app, .listStart listing⟩ listing []))
  | list (listing : Listing) (entries : List String) :
      Takes app span (.listMore listing entries) (.mark .rightBracket)
        (.ok (closeList ⟨app, .listMore listing entries⟩ listing entries))

variable {p : Parser} {t : Located Token} {next : Except (Located Conflict) Parser}

theorem takes_of_react (h : p.react t = .take next) : Takes p.app t.span p.state t.value next := by
  obtain ⟨app, state⟩ := p
  obtain ⟨token, span⟩ := t
  cases state <;>
    simp only [react, atTop, atValue, atMark, atPackageBody, atRoutesBody, atRouteRest, atRouteOption, atUiBody,
      atEntry, atListMore, declare, closeRoute, openPackage, need, needValue, goOn] at h <;>
    (repeat' split at h) <;>
    simp only [Reaction.take.injEq, reduceCtorEq] at h <;>
    subst h
  all_goals
    subst_vars
    first
    | exact .goes (.dependencies _ _ ‹_›)
    | exact .goes (by constructor)
    | exact .header _ ‹_›
    | exact .duplicate _ ‹_›
    | exact .route _ _ ‹_›
    | exact .clash _ _ ‹_›
    | constructor

end Parser

end BundleConf
