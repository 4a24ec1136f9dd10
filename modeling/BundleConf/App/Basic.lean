/-!
# Applications

What a configuration declares: packages of files, routes that depend on packages, the parts of the user interface,
and middleware.  Everything is kept in the order in which it was declared.  Routes stand at top level or in a package;
`App.allRoutes` lists them all, the ones at top level first.  `App.summary` is an application in short.
-/

namespace BundleConf

inductive PackageField where
  | requires
  | directory
  | file
  | option
  deriving DecidableEq, Repr

inductive UiField where
  | template
  | assets
  | javascript
  | stylesheets
  deriving DecidableEq, Repr

/-- What a route can be marked as. -/
inductive RouteFlag where
  /-- The route that stands in for every missing one. -/
  | error404
  /-- The route that is shown first. -/
  | index
  | isPrivate
  | dialog
  deriving DecidableEq, Repr

/-- A route: its path, the template it shows, and the packages it depends on. -/
structure Route where
  path : String
  template : String
  depends : List String := []
  layout : Option String := none
  error404 : Bool := false
  index : Bool := false
  isPrivate : Bool := false
  dialog : Bool := false
  deriving DecidableEq, Repr

/-- A package: the packages it requires, its directories and files, its options and its own routes. -/
structure Package where
  name : String
  requires : List String := []
  directories : List String := []
  files : List String := []
  options : List String := []
  routes : List Route := []
  deriving DecidableEq, Repr

/-- The packages of each part of the user interface. -/
structure Ui where
  template : List String := []
  assets : List String := []
  javascript : List String := []
  stylesheets : List String := []
  deriving DecidableEq, Repr

/-- Everything a configuration declares. -/
structure App where
  packages : List Package := []
  routes : List Route := []
  ui : Ui := {}
  middlewares : List String := []
  deriving DecidableEq, Repr

instance : Inhabited App := ⟨{}⟩

/-! ### Routes -/

namespace Route

def depend (r : Route) (package : String) : Route :=
  { r with depends := r.depends ++ [package] }

/-- The route with a layout; a later layout replaces an earlier one. -/
def withLayout (r : Route) (layout : String) : Route :=
  { r with layout := some layout }

def mark (r : Route) : RouteFlag → Route
  | .error404 => { r with error404 := true }
  | .index => { r with index := true }
  | .isPrivate => { r with isPrivate := true }
  | .dialog => { r with dialog := true }

def has (r : Route) : RouteFlag → Bool
  | .error404 => r.error404
  | .index => r.index
  | .isPrivate => r.isPrivate
  | .dialog => r.dialog

@[simp] theorem path_mark (r : Route) (flag : RouteFlag) : (r.mark flag).path = r.path := by
  cases flag <;> rfl

end Route

/-! ### Packages -/

namespace Package

/-- What the names of packages that were declared without a name begin with. -/
def generatedStem : String := "anonymous-"

/-- The name for the package without a name that has the given number. -/
def generatedName (number : Nat) : String :=
  generatedStem ++ toString number

/-- Whether the package's name begins as generated names do. -/
def isAnonymous (p : Package) : Bool :=
  generatedStem.toList.isPrefixOf p.name.toList

def add (p : Package) (field : PackageField) (value : String) : Package :=
  match field with
  | .requires => { p with requires := p.requires ++ [value] }
  | .directory => { p with directories := p.directories ++ [value] }
  | .file => { p with files := p.files ++ [value] }
  | .option => { p with options := p.options ++ [value] }

def addRoute (p : Package) (r : Route) : Package :=
  { p with routes := p.routes ++ [r] }

@[simp] theorem name_add (p : Package) (field : PackageField) (value : String) : (p.add field value).name = p.name := by
  cases field <;> rfl

@[simp] theorem routes_add (p : Package) (field : PackageField) (value : String) :
    (p.add field value).routes = p.routes := by
  cases field <;> rfl

@[simp] theorem name_addRoute (p : Package) (r : Route) : (p.addRoute r).name = p.name := rfl

end Package

/-! ### The user interface -/

namespace Ui

def get (ui : Ui) : UiField → List String
  | .template => ui.template
  | .assets => ui.assets
  | .javascript => ui.javascript
  | .stylesheets => ui.stylesheets

/-- The user interface with more entries at the end of one list. -/
def extend (ui : Ui) (field : UiField) (entries : List String) : Ui :=
  match field with
  | .template => { ui with template := ui.template ++ entries }
  | .assets => { ui with assets := ui.assets ++ entries }
  | .javascript => { ui with javascript := ui.javascript ++ entries }
  | .stylesheets => { ui with stylesheets := ui.stylesheets ++ entries }

end Ui

/-! ### The whole application -/

namespace App

/-- The names of the packages, in the order of their declaration. -/
def packageNames (app : App) : List String :=
  app.packages.map Package.name

def package? (app : App) (name : String) : Option Package :=
  app.packages.find? (·.name == name)

/-- The routes at top level, then those of each package in turn. -/
def allRoutes (app : App) : List Route :=
  app.routes ++ app.packages.flatMap Package.routes

def route? (app : App) (flag : RouteFlag) : Option Route :=
  app.allRoutes.find? (·.has flag)

/-- The packages whose names begin as generated names do. -/
def anonymous (app : App) : List Package :=
  app.packages.filter Package.isAnonymous

/-- The application in rows: how much there is of everything, and which of its routes are special. -/
def summary (app : App) : List String :=
  let inPackages := (app.packages.flatMap Package.routes).length
  let counts := toString app.packages.length ++ " package(s), " ++ toString app.allRoutes.length ++ " route(s) (" ++
    toString inPackages ++ " in packages), " ++ toString app.middlewares.length ++ " middleware"
  let special (label : String) (flag : RouteFlag) : List String :=
    ((app.route? flag).map fun r => label ++ r.path).toList
  counts :: special "  index:    " .index ++ special "  error404: " .error404

/-- Two packages of different names are told apart by their names. -/
theorem package?_name {app : App} {p : Package} (names : app.packageNames.Nodup) (h : p ∈ app.packages) :
    app.package? p.name = some p := by
  obtain ⟨packages, routes, ui, middlewares⟩ := app
  simp only [packageNames, package?] at names h ⊢
  induction packages with
  | nil => simp at h
  | cons q packages ih =>
    simp only [List.map_cons, List.nodup_cons, List.mem_map, not_exists, not_and] at names
    rcases List.mem_cons.1 h with rfl | hp
    · simp
    · have : q.name ≠ p.name := fun e => names.1 p hp e.symm
      simpa [this] using ih names.2 hp

end App

end BundleConf
