import BundleConf.Proofs.Grammar.Ledger

/-!
# How an application grows

While a text is read, an application only grows: a package or a routes block that is open gets more at its end, and new
packages come after all others.  Since an open package is one of those that are there already, both kinds of growth can
be told apart: what a tree adds to the open package comes first, and then the packages that stand in the tree
(`App.addRoute_addPackages`, `App.modifyPackage_addPackages`).

A ledger describes an application if it has recorded its names and the routes that carry unique flags; recording an
event keeps it so (`Ledger.Describes.addPackage`, `Ledger.Describes.addRoute`).
-/

namespace BundleConf

/-! ### Growth -/

/-- The package with the statements and the routes of a body at the end. -/
def Package.extend (p : Package) (body : BodyTree) : Package where
  name := p.name
  requires := p.requires ++ body.values .requires
  directories := p.directories ++ body.values .directory
  files := p.files ++ body.values .file
  options := p.options ++ body.values .option
  routes := p.routes ++ body.ownRoutes

theorem Package.extend_done (p : Package) : p.extend .done = p := by
  simp [extend, BodyTree.values, BodyTree.ownRoutes]

theorem Package.extend_statement (p : Package) (field : PackageField) (value : String) (rest : BodyTree) :
    p.extend (.statement field value rest) = (p.add field value).extend rest := by
  cases field <;> simp [extend, add, BodyTree.values, BodyTree.ownRoutes]

theorem Package.extend_routes (p : Package) (block : RoutesTree) (rest : BodyTree) :
    p.extend (.routes block rest) = ({ p with routes := p.routes ++ block.routes } : Package).extend rest := by
  simp [extend, BodyTree.values, BodyTree.ownRoutes]

theorem extend_new (header : Header) (body : BodyTree) :
    ({ name := header.name } : Package).extend body = assemblePackage header body := by
  simp [Package.extend, assemblePackage]

/-- The user interface with what a tree adds to its lists. -/
def Ui.append (ui : Ui) (tree : UiTree) : Ui where
  template := ui.template ++ tree.names .template
  assets := ui.assets ++ tree.names .assets
  javascript := ui.javascript ++ tree.names .javascript
  stylesheets := ui.stylesheets ++ tree.names .stylesheets

theorem Ui.append_done (ui : Ui) : ui.append .done = ui := by
  simp [append, UiTree.names]

theorem Ui.append_list (ui : Ui) (field : UiField) (entries : EntriesTree) (rest : UiTree) :
    ui.append (.list field entries rest) = (ui.extend field entries.names).append rest := by
  cases field <;> simp [append, extend, UiTree.names]

/-- The package of the block is one of the application's. -/
def RoutesBlock.FitsIn (app : App) : RoutesBlock → Prop
  | .root => True
  | .package open_ _ => open_.index < app.packages.length

namespace App

def addPackages (app : App) (packages : List Package) : App :=
  { app with packages := app.packages ++ packages }

/-- The application with more routes at the end of a block. -/
def addRoutes (app : App) (routes : List Route) : RoutesBlock → App
  | .root => { app with routes := app.routes ++ routes }
  | .package package _ => app.modifyPackage package fun p => { p with routes := p.routes ++ routes }

/-- The application with one more declaration. -/
def extend (app : App) (d : Declaration) : App where
  packages := app.packages ++ d.packages
  routes := app.routes ++ d.rootRoutes
  ui :=
    { template := app.ui.template ++ d.uiNames .template
      assets := app.ui.assets ++ d.uiNames .assets
      javascript := app.ui.javascript ++ d.uiNames .javascript
      stylesheets := app.ui.stylesheets ++ d.uiNames .stylesheets }
  middlewares := app.middlewares ++ d.middlewares

theorem extend_declared (before : List Declaration) (d : Declaration) :
    (declared before).extend d = declared (before ++ [d]) := by
  simp [declared, extend]

variable (app : App)

theorem addPackages_nil : app.addPackages [] = app := by
  simp [addPackages]

theorem addPackages_addPackages (ps qs : List Package) :
    (app.addPackages ps).addPackages qs = app.addPackages (ps ++ qs) := by
  simp [addPackages]

theorem modifyPackage_modifyPackage (package : OpenPackage) (f g : Package → Package) :
    (app.modifyPackage package f).modifyPackage package g = app.modifyPackage package (g ∘ f) := by
  simp [modifyPackage, List.modify_modify_eq]

theorem modifyPackage_id (package : OpenPackage) : app.modifyPackage package id = app := by
  rw [modifyPackage, List.modify_id]

theorem length_modifyPackage (package : OpenPackage) (f : Package → Package) :
    (app.modifyPackage package f).packages.length = app.packages.length :=
  List.length_modify f app.packages package.index

private theorem modify_middle {α : Type} (f : α → α) (before after : List α) (a : α) :
    (before ++ a :: after).modify before.length f = before ++ f a :: after := by
  induction before with
  | nil => rfl
  | cons b before ih => simp [ih]

variable {app} {package : OpenPackage}

/-- New packages come after the package that is open. -/
theorem modifyPackage_addPackages (h : package.index < app.packages.length) (f : Package → Package)
    (ps : List Package) :
    (app.addPackages ps).modifyPackage package f = (app.modifyPackage package f).addPackages ps := by
  obtain ⟨before, p, after, happ, hlen, hmodify⟩ := List.exists_of_modify f h
  -- the package that changes stands before all new ones
  have longer : (app.packages ++ ps).modify package.index f = app.packages.modify package.index f ++ ps := by
    rw [hmodify, happ, ← hlen, List.append_assoc, List.cons_append, modify_middle, List.append_assoc,
      List.cons_append]
  simp only [modifyPackage, addPackages, longer]

/-- The package that has been declared last. -/
theorem modifyPackage_new (p : Package) (name : String) (f : Package → Package) :
    (app.addPackages [p]).modifyPackage ⟨app.packages.length, name⟩ f = app.addPackages [f p] := by
  simp only [modifyPackage, addPackages, modify_middle]

theorem addRoutes_nil (block : RoutesBlock) : app.addRoutes [] block = app := by
  cases block with
  | root => simp [addRoutes]
  | package package site =>
    have same : (fun p : Package => { p with routes := p.routes ++ [] }) = id := by
      funext p
      simp
    rw [addRoutes, same, modifyPackage_id]

theorem addRoutes_cons (r : Route) (rs : List Route) (block : RoutesBlock) :
    (app.addRoute r block).addRoutes rs block = app.addRoutes (r :: rs) block := by
  cases block with
  | root => simp [addRoutes, addRoute]
  | package package site =>
    rw [addRoutes, addRoute, modifyPackage_modifyPackage, addRoutes]
    congr 1
    funext p
    simp [Package.addRoute]

theorem fitsIn_addPackages {block : RoutesBlock} (h : block.FitsIn app) (ps : List Package) :
    block.FitsIn (app.addPackages ps) := by
  cases block with
  | root => trivial
  | package package site =>
    simp only [RoutesBlock.FitsIn, addPackages, List.length_append] at h ⊢
    omega

theorem fitsIn_addRoute {block : RoutesBlock} (h : block.FitsIn app) (r : Route) :
    block.FitsIn (app.addRoute r block) := by
  cases block with
  | root => trivial
  | package package site =>
    rw [RoutesBlock.FitsIn, addRoute, length_modifyPackage]
    exact h

theorem addRoutes_addPackages {block : RoutesBlock} (h : block.FitsIn app) (rs : List Route) (ps : List Package) :
    (app.addPackages ps).addRoutes rs block = (app.addRoutes rs block).addPackages ps := by
  cases block with
  | root => rfl
  | package package site => exact modifyPackage_addPackages h _ ps

theorem addRoute_addPackages {block : RoutesBlock} (h : block.FitsIn app) (r : Route) (ps : List Package) :
    (app.addPackages ps).addRoute r block = (app.addRoute r block).addPackages ps := by
  cases block with
  | root => rfl
  | package package site => exact modifyPackage_addPackages h _ ps

/-! ### What stays -/

/-- A change of a package in the midst of others. -/
private theorem packages_modifyPackage (h : package.index < app.packages.length) (f : Package → Package) :
    ∃ before p after, app.packages = before ++ p :: after ∧
      (app.modifyPackage package f).packages = before ++ f p :: after := by
  obtain ⟨before, p, after, happ, -, hmodify⟩ := List.exists_of_modify f h
  exact ⟨before, p, after, happ, hmodify⟩

theorem packageNames_modifyPackage (f : Package → Package) (hf : ∀ p, (f p).name = p.name) :
    (app.modifyPackage package f).packageNames = app.packageNames := by
  by_cases h : package.index < app.packages.length
  · obtain ⟨before, p, after, happ, hmodify⟩ := packages_modifyPackage h f
    simp [packageNames, hmodify, happ, hf]
  · rw [modifyPackage, List.modify_eq_self (by omega)]

theorem allRoutes_modifyPackage (f : Package → Package) (hf : ∀ p, (f p).routes = p.routes) :
    (app.modifyPackage package f).allRoutes = app.allRoutes := by
  by_cases h : package.index < app.packages.length
  · obtain ⟨before, p, after, happ, hmodify⟩ := packages_modifyPackage h f
    have routes : (app.modifyPackage package f).routes = app.routes := rfl
    simp [allRoutes, routes, hmodify, happ, hf]
  · rw [modifyPackage, List.modify_eq_self (by omega)]

theorem packageNames_addRoute (r : Route) (block : RoutesBlock) :
    (app.addRoute r block).packageNames = app.packageNames := by
  cases block with
  | root => rfl
  | package package site => exact packageNames_modifyPackage _ (Package.name_addRoute · r)

/-- A new route stands somewhere among all routes. -/
theorem allRoutes_addRoute {block : RoutesBlock} (h : block.FitsIn app) (r : Route) :
    ∃ before after, app.allRoutes = before ++ after ∧ (app.addRoute r block).allRoutes = before ++ r :: after := by
  cases block with
  | root => exact ⟨app.routes, app.packages.flatMap Package.routes, rfl, by simp [allRoutes, addRoute]⟩
  | package package site =>
    obtain ⟨before, p, after, happ, hmodify⟩ := packages_modifyPackage h (·.addRoute r)
    have routes : (app.modifyPackage package (·.addRoute r)).routes = app.routes := rfl
    -- the route comes last among those of its package, and the packages after it follow
    refine ⟨app.routes ++ before.flatMap Package.routes ++ p.routes, after.flatMap Package.routes, ?_, ?_⟩
    · simp [allRoutes, happ]
    · rw [allRoutes, addRoute, hmodify, routes]
      simp [Package.addRoute]

end App

/-! ### Ledgers that describe an application -/

/-- The ledger has recorded the names of the application, and the routes that carry unique flags. -/
structure Ledger.Describes (l : Ledger) (app : App) : Prop where
  names : app.packageNames = l.taken
  holder : ∀ flag ∈ [RouteFlag.error404, .index], app.route? flag = l.closed.find? (·.has flag)

namespace Ledger.Describes

variable {l : Ledger} {app app' : App}

theorem empty (generated : Nat) : Describes ⟨generated, [], []⟩ {} :=
  ⟨rfl, fun _ _ => rfl⟩

/-- Whatever else changes is not recorded. -/
theorem congr (h : l.Describes app) (names : app'.packageNames = app.packageNames)
    (routes : app'.allRoutes = app.allRoutes) : l.Describes app' := by
  refine ⟨names.trans h.names, fun flag hflag => ?_⟩
  rw [App.route?, routes]
  exact h.holder flag hflag

theorem addPackage (h : l.Describes app) (header : Header) :
    (l.record (.header header)).Describes (app.addPackages [{ name := header.name }]) := by
  have routes : (app.addPackages [{ name := header.name }]).allRoutes = app.allRoutes := by
    simp [App.allRoutes, App.addPackages]
  have names : (app.addPackages [{ name := header.name }]).packageNames = l.taken ++ [header.name] := by
    rw [← h.names]
    simp [App.packageNames, App.addPackages]
  have holder : ∀ flag ∈ [RouteFlag.error404, .index],
      (app.addPackages [{ name := header.name }]).route? flag = l.closed.find? (·.has flag) := by
    intro flag hflag
    rw [App.route?, routes]
    exact h.holder flag hflag
  cases header with
  | given name => exact ⟨names, holder⟩
  | generated number => exact ⟨names, holder⟩

theorem conflictAt?_route (h : l.Describes app) (r : Route) : l.conflictAt? (.route r) = app.flagConflict? r := by
  have error404 := h.holder .error404 (by simp)
  have index := h.holder .index (by simp)
  simp only [conflictAt?, App.flagConflict?, App.uniqueFlags, List.findSome?_cons, List.findSome?_nil, error404, index]

theorem addRoute (h : l.Describes app) {block : RoutesBlock} (fits : block.FitsIn app) {r : Route}
    (free : l.conflictAt? (.route r) = none) : (l.record (.route r)).Describes (app.addRoute r block) := by
  refine ⟨(App.packageNames_addRoute r block).trans h.names, fun flag hflag => ?_⟩
  obtain ⟨before, after, hall, hadd⟩ := App.allRoutes_addRoute fits r
  have hold := h.holder flag hflag
  have hroute : app.route? flag = (before.find? (·.has flag)).or (after.find? (·.has flag)) := by
    rw [App.route?, hall, List.find?_append]
  rw [App.route?, hadd, record, List.find?_append, List.find?_append, ← hold, hroute]
  -- if the route carries the flag then it is the first to do so, because it is free
  by_cases hr : r.has flag = true
  · have none : app.route? flag = none := by
      have := List.findSome?_eq_none_iff.1 free flag hflag
      simpa [hr, ← hold] using this
    rw [hroute, Option.or_eq_none_iff] at none
    simp [none.1, none.2, hr]
  · simp [hr]

end Ledger.Describes

end BundleConf
