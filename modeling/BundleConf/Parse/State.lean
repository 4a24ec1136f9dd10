import BundleConf.App.Basic
import BundleConf.Token.Basic

/-!
# States of a parse

The parser is a machine that takes one token after the other.  Its state says where in the grammar it is, and holds
what it has read of the constructs that are not finished.  Packages can stand in the lists of routes, and routes in
packages, to any depth; so a state inside a package holds the place to return to, and that place may be inside another
package.
-/

namespace BundleConf

/-- A route that is not finished, with the span of its path. -/
structure RouteDraft where
  route : Route
  span : Span
  deriving DecidableEq, Repr

/-- A package whose declaration is not finished: its place among the packages, and its name. -/
structure OpenPackage where
  index : Nat
  name : String
  deriving DecidableEq, Repr

/-- Where a package is declared, and thus where the parse goes on after it. -/
inductive Site where
  | top
  /-- In a list of the user interface, after the given entries. -/
  | uiEntry (field : UiField) (entries : List String)
  /-- In the list of a route at top level, after the given entries. -/
  | rootRoute (draft : RouteDraft) (entries : List String)
  /-- In the list of a route of a package that is itself declared at some site. -/
  | packageRoute (package : OpenPackage) (site : Site) (draft : RouteDraft) (entries : List String)
  deriving DecidableEq, Repr

inductive RoutesBlock where
  | root
  | package (package : OpenPackage) (site : Site)
  deriving DecidableEq, Repr

/-- What a list of packages belongs to. -/
inductive Listing where
  | ui (field : UiField)
  | route (block : RoutesBlock) (draft : RouteDraft)
  deriving DecidableEq, Repr

/-- What has been read of a route after its path. -/
inductive RouteStage where
  /-- The template. -/
  | template
  /-- The template and one layout. -/
  | layout
  /-- The template and more; a list can no longer follow. -/
  | options
  deriving DecidableEq, Repr

/-- Where in the grammar a parse is: each state is named for what is read next. -/
inductive State where
  | top
  | middlewareName
  | middlewareEnd (name : String)
  | includePath
  | includeEnd (path : Located String)
  | packageName (site : Site)
  | packageOpen (package : OpenPackage) (site : Site)
  | packageBody (package : OpenPackage) (site : Site)
  | statementValue (package : OpenPackage) (site : Site) (field : PackageField)
  | statementEnd (package : OpenPackage) (site : Site) (field : PackageField) (value : String)
  | routesOpen (block : RoutesBlock)
  | routesBody (block : RoutesBlock)
  | routeColon (block : RoutesBlock) (path : Located String)
  | routeTemplate (block : RoutesBlock) (path : Located String)
  | routeRest (block : RoutesBlock) (draft : RouteDraft) (stage : RouteStage)
  | routeOption (block : RoutesBlock) (draft : RouteDraft)
  | layoutColon (block : RoutesBlock) (draft : RouteDraft) (stage : RouteStage)
  | layoutValue (block : RoutesBlock) (draft : RouteDraft) (stage : RouteStage)
  | uiOpen
  | uiBody
  | listOpen (field : UiField)
  /-- The first entry of a list, or its end. -/
  | listStart (listing : Listing)
  | listEntry (listing : Listing) (entries : List String)
  /-- A comma after an entry, or the end of the list. -/
  | listMore (listing : Listing) (entries : List String)
  deriving DecidableEq, Repr

/-- The site of a package that is the next entry of a list. -/
def Listing.site (entries : List String) : Listing → Site
  | ui field => .uiEntry field entries
  | route .root draft => .rootRoute draft entries
  | route (.package package site) draft => .packageRoute package site draft entries

/-- Where the parse goes on after a package of the given name. -/
def Site.resume (name : String) : Site → State
  | top => .top
  | uiEntry field entries => .listMore (.ui field) (entries ++ [name])
  | rootRoute draft entries => .listMore (.route .root draft) (entries ++ [name])
  | packageRoute package site draft entries => .listMore (.route (.package package site) draft) (entries ++ [name])

/-- Where the parse goes on after a routes block. -/
def RoutesBlock.resume : RoutesBlock → State
  | root => .top
  | package openPackage site => .packageBody openPackage site

/-- What has been read of a route after another layout: only the first can precede a list. -/
def RouteStage.afterLayout : RouteStage → RouteStage
  | template => layout
  | _ => options

/-- A package in a list becomes the next entry of that list. -/
@[simp] theorem Listing.resume_site (listing : Listing) (entries : List String) (name : String) :
    (listing.site entries).resume name = .listMore listing (entries ++ [name]) := by
  rcases listing with _ | ⟨_ | _, _⟩ <;> rfl

end BundleConf
