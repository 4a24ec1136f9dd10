import BundleConf.App.Contract
import BundleConf.Proofs.Grammar.Tree

/-!
# The entries of lists

An entry of a list is the name of a package in quotes, or a package that is declared where it stands.  What is kept of
the list is one name for each entry (`EntriesTree.map_name_written`), so the place of an entry is the place of its name.
`writtenRoutes` gives every route of some declarations together with the entries of its list, in the order of
`App.allRoutes` (`map_route_writtenRoutes`), and `writtenUi` the entries of a list of the user interface.  Every package
that is declared as an entry is one of the packages (`fits_of_mem_writtenRoutes`, `inlineIn_writtenUi`).  So if no name
is taken twice then each name that stands for such a package leads to it (`App.resolves_declared`).
-/

namespace BundleConf

/-- An entry of a list, as it is written. -/
inductive Entry where
  /-- The name of a package, in quotes. -/
  | quoted (name : String)
  /-- A package that is declared in the list. -/
  | inline (header : Header) (body : BodyTree)

/-- The name that is kept of an entry. -/
def Entry.name : Entry → String
  | .quoted name => name
  | .inline header _ => header.name

/-- A route, and the entries of its list as they are written. -/
structure WrittenRoute where
  route : Route
  entries : List Entry

/-! ### What is written in a tree -/

def EntriesTree.written : EntriesTree → List Entry
  | .done => []
  | .value name rest => .quoted name :: rest.written
  | .package header body rest => .inline header body :: rest.written

def ListTree.written : ListTree → List Entry
  | .absent => []
  | .present entries => entries.written

/-- The routes of a block, in order. -/
def RoutesTree.writtenRoutes : RoutesTree → List WrittenRoute
  | .done => []
  | .stray rest => rest.writtenRoutes
  | .route path template layout list clauses rest =>
    ⟨assembleRoute path template layout list.names clauses, list.written⟩ :: rest.writtenRoutes

/-- A package's own routes, in order. -/
def BodyTree.writtenRoutes : BodyTree → List WrittenRoute
  | .done => []
  | .stray rest => rest.writtenRoutes
  | .statement _ _ rest => rest.writtenRoutes
  | .routes block rest => block.writtenRoutes ++ rest.writtenRoutes

mutual

/-- The routes of the packages in a body, package by package. -/
def BodyTree.innerRoutes : BodyTree → List WrittenRoute
  | .done => []
  | .stray rest => rest.innerRoutes
  | .statement _ _ rest => rest.innerRoutes
  | .routes block rest => block.innerRoutes ++ rest.innerRoutes

/-- The routes of the packages in a routes block, package by package. -/
def RoutesTree.innerRoutes : RoutesTree → List WrittenRoute
  | .done => []
  | .stray rest => rest.innerRoutes
  | .route _ _ _ list _ rest => list.innerRoutes ++ rest.innerRoutes

/-- The routes of the packages in a list, package by package. -/
def ListTree.innerRoutes : ListTree → List WrittenRoute
  | .absent => []
  | .present entries => entries.innerRoutes

/-- The routes of the packages in the entries of a list, package by package. -/
def EntriesTree.innerRoutes : EntriesTree → List WrittenRoute
  | .done => []
  | .value _ rest => rest.innerRoutes
  | .package _ body rest => body.writtenRoutes ++ body.innerRoutes ++ rest.innerRoutes

end

def UiTree.innerRoutes : UiTree → List WrittenRoute
  | .done => []
  | .stray rest => rest.innerRoutes
  | .list _ entries rest => entries.innerRoutes ++ rest.innerRoutes

def UiTree.written (field : UiField) : UiTree → List Entry
  | .done => []
  | .stray rest => rest.written field
  | .list field' entries rest => if field' = field then entries.written ++ rest.written field else rest.written field

namespace Declaration

def rootWritten : Declaration → List WrittenRoute
  | .routes block => block.writtenRoutes
  | _ => []

def innerRoutes : Declaration → List WrittenRoute
  | .package _ body => body.writtenRoutes ++ body.innerRoutes
  | .routes block => block.innerRoutes
  | .ui tree => tree.innerRoutes
  | _ => []

def uiWritten (field : UiField) : Declaration → List Entry
  | .ui tree => tree.written field
  | _ => []

end Declaration

/-- All routes of some declarations: the ones at top level, then those of each package in turn. -/
def writtenRoutes (ds : List Declaration) : List WrittenRoute :=
  ds.flatMap Declaration.rootWritten ++ ds.flatMap Declaration.innerRoutes

/-- The entries of a list of the user interface. -/
def writtenUi (field : UiField) (ds : List Declaration) : List Entry :=
  ds.flatMap (Declaration.uiWritten field)

/-! ### Every entry has its name -/

theorem EntriesTree.map_name_written : ∀ tree : EntriesTree, tree.written.map Entry.name = tree.names
  | .done => rfl
  | .value name rest => congrArg (name :: ·) rest.map_name_written
  | .package header _ rest => congrArg (header.name :: ·) rest.map_name_written

theorem ListTree.map_name_written : ∀ tree : ListTree, tree.written.map Entry.name = tree.names
  | .absent => rfl
  | .present entries => entries.map_name_written

theorem UiTree.map_name_written (field : UiField) (tree : UiTree) :
    (tree.written field).map Entry.name = tree.names field := by
  induction tree with
  | done => rfl
  | stray rest ih => exact ih
  | list field' entries rest ih =>
    by_cases h : field' = field <;> simp [written, names, h, ih, entries.map_name_written]

/-- What follows a list does not change it. -/
theorem depends_assembleRoute (path template : String) (layout : Option String) (depends : List String)
    (clauses : List Clause) : (assembleRoute path template layout depends clauses).depends = depends := by
  have apply (r : Route) (clause : Clause) : (clause.apply r).depends = r.depends := by
    rcases clause with (_ | _ | _ | _) | _ <;> rfl
  have all (r : Route) : (clauses.foldl Clause.apply r).depends = r.depends := by
    induction clauses generalizing r with
    | nil => rfl
    | cons clause clauses ih => exact (ih _).trans (apply r clause)
  exact all _

/-! ### The routes in order -/

theorem RoutesTree.map_route_writtenRoutes :
    ∀ tree : RoutesTree, tree.writtenRoutes.map WrittenRoute.route = tree.routes
  | .done => rfl
  | .stray rest => rest.map_route_writtenRoutes
  | .route _ _ _ _ _ rest => congrArg (_ :: ·) rest.map_route_writtenRoutes

theorem BodyTree.map_route_writtenRoutes :
    ∀ tree : BodyTree, tree.writtenRoutes.map WrittenRoute.route = tree.ownRoutes
  | .done => rfl
  | .stray rest => rest.map_route_writtenRoutes
  | .statement _ _ rest => rest.map_route_writtenRoutes
  | .routes block rest => by
    rw [writtenRoutes, List.map_append, block.map_route_writtenRoutes, rest.map_route_writtenRoutes, ownRoutes]

mutual

theorem BodyTree.map_route_innerRoutes :
    ∀ tree : BodyTree, tree.innerRoutes.map WrittenRoute.route = tree.packages.flatMap Package.routes
  | .done => rfl
  | .stray rest => rest.map_route_innerRoutes
  | .statement _ _ rest => rest.map_route_innerRoutes
  | .routes block rest => by
    rw [BodyTree.innerRoutes, BodyTree.packages, List.map_append, List.flatMap_append, block.map_route_innerRoutes,
      rest.map_route_innerRoutes]

theorem RoutesTree.map_route_innerRoutes :
    ∀ tree : RoutesTree, tree.innerRoutes.map WrittenRoute.route = tree.packages.flatMap Package.routes
  | .done => rfl
  | .stray rest => rest.map_route_innerRoutes
  | .route _ _ _ list _ rest => by
    rw [RoutesTree.innerRoutes, RoutesTree.packages, List.map_append, List.flatMap_append, list.map_route_innerRoutes,
      rest.map_route_innerRoutes]

theorem ListTree.map_route_innerRoutes :
    ∀ tree : ListTree, tree.innerRoutes.map WrittenRoute.route = tree.packages.flatMap Package.routes
  | .absent => rfl
  | .present entries => entries.map_route_innerRoutes

theorem EntriesTree.map_route_innerRoutes :
    ∀ tree : EntriesTree, tree.innerRoutes.map WrittenRoute.route = tree.packages.flatMap Package.routes
  | .done => rfl
  | .value _ rest => rest.map_route_innerRoutes
  | .package header body rest => by
    have own : (assemblePackage header body).routes = body.ownRoutes := rfl
    rw [EntriesTree.innerRoutes, EntriesTree.packages, List.map_append, List.map_append, List.cons_append,
      List.flatMap_cons, List.flatMap_append, own, body.map_route_writtenRoutes, body.map_route_innerRoutes,
      rest.map_route_innerRoutes, List.append_assoc]

end

theorem UiTree.map_route_innerRoutes (tree : UiTree) :
    tree.innerRoutes.map WrittenRoute.route = tree.packages.flatMap Package.routes := by
  induction tree with
  | done => rfl
  | stray rest ih => exact ih
  | list _ entries rest ih =>
    rw [innerRoutes, packages, List.map_append, List.flatMap_append, entries.map_route_innerRoutes, ih]

theorem Declaration.map_route_innerRoutes (d : Declaration) :
    d.innerRoutes.map WrittenRoute.route = d.packages.flatMap Package.routes := by
  cases d with
  | package header body =>
    have own : (assemblePackage header body).routes = body.ownRoutes := rfl
    rw [innerRoutes, packages, List.map_append, List.flatMap_cons, own, body.map_route_writtenRoutes,
      body.map_route_innerRoutes]
  | routes block => exact block.map_route_innerRoutes
  | ui tree => exact tree.map_route_innerRoutes
  | middleware name => rfl
  | stray => rfl

/-- The routes of an application are those that are written, in the same order. -/
theorem map_route_writtenRoutes (ds : List Declaration) :
    (writtenRoutes ds).map WrittenRoute.route = (App.declared ds).allRoutes := by
  have root (d : Declaration) : d.rootWritten.map WrittenRoute.route = d.rootRoutes := by
    cases d with
    | routes block => exact block.map_route_writtenRoutes
    | _ => rfl
  simp only [writtenRoutes, App.allRoutes, App.declared, List.map_append, List.map_flatMap, root,
    Declaration.map_route_innerRoutes, List.flatMap_assoc]

theorem map_name_writtenUi (field : UiField) (ds : List Declaration) :
    (writtenUi field ds).map Entry.name = (App.declared ds).ui.get field := by
  have hui (d : Declaration) : (d.uiWritten field).map Entry.name = d.uiNames field := by
    cases d with
    | ui tree => exact tree.map_name_written field
    | _ => rfl
  simp only [writtenUi, List.map_flatMap, hui]
  cases field <;> rfl

/-! ### Every package that is declared as an entry -/

/-- The packages that are declared as entries are among the given ones. -/
def InlineIn (es : List Entry) (packages : List Package) : Prop :=
  ∀ header body, .inline header body ∈ es → assemblePackage header body ∈ packages

theorem InlineIn.mono {es : List Entry} {ps qs : List Package} (h : InlineIn es ps) (hle : ps ⊆ qs) : InlineIn es qs :=
  fun header body hmem => hle (h header body hmem)

/-- The route keeps the names of its entries, and the packages that are declared there are among the given ones. -/
structure WrittenRoute.Fits (w : WrittenRoute) (packages : List Package) : Prop where
  depends : w.route.depends = w.entries.map Entry.name
  inline : InlineIn w.entries packages

theorem WrittenRoute.Fits.mono {ps qs : List Package} {w : WrittenRoute} (h : w.Fits ps) (hle : ps ⊆ qs) : w.Fits qs :=
  ⟨h.depends, h.inline.mono hle⟩

theorem EntriesTree.inlineIn_written : ∀ tree : EntriesTree, InlineIn tree.written tree.packages
  | .done => by simp [InlineIn, written]
  | .value _ rest => by
    intro header body hmem
    exact rest.inlineIn_written header body (by simpa [written] using hmem)
  | .package header body rest => by
    intro header' body' hmem
    rw [packages, List.cons_append, List.mem_cons, List.mem_append]
    rcases List.mem_cons.1 hmem with heq | hmem
    · obtain ⟨rfl, rfl⟩ : header' = header ∧ body' = body := by simpa using heq
      exact .inl rfl
    · exact .inr (.inr (rest.inlineIn_written header' body' hmem))

theorem ListTree.inlineIn_written : ∀ tree : ListTree, InlineIn tree.written tree.packages
  | .absent => by simp [InlineIn, written]
  | .present entries => entries.inlineIn_written

mutual

theorem BodyTree.fits : ∀ tree : BodyTree, ∀ w ∈ tree.writtenRoutes ++ tree.innerRoutes, w.Fits tree.packages
  | .done => by simp [BodyTree.writtenRoutes, BodyTree.innerRoutes]
  | .stray rest => rest.fits
  | .statement _ _ rest => rest.fits
  | .routes block rest => by
    intro w hw
    have hblock : w ∈ block.writtenRoutes ++ block.innerRoutes → w.Fits (block.packages ++ rest.packages) :=
      fun h => (block.fits w h).mono (List.subset_append_left _ _)
    have hrest : w ∈ rest.writtenRoutes ++ rest.innerRoutes → w.Fits (block.packages ++ rest.packages) :=
      fun h => (rest.fits w h).mono (List.subset_append_right _ _)
    simp only [BodyTree.writtenRoutes, BodyTree.innerRoutes, BodyTree.packages, List.mem_append] at hw hblock hrest ⊢
    rcases hw with (hw | hw) | hw | hw
    · exact hblock (.inl hw)
    · exact hrest (.inl hw)
    · exact hblock (.inr hw)
    · exact hrest (.inr hw)

theorem RoutesTree.fits : ∀ tree : RoutesTree, ∀ w ∈ tree.writtenRoutes ++ tree.innerRoutes, w.Fits tree.packages
  | .done => by simp [RoutesTree.writtenRoutes, RoutesTree.innerRoutes]
  | .stray rest => rest.fits
  | .route path template layout list clauses rest => by
    have own : (WrittenRoute.mk (assembleRoute path template layout list.names clauses) list.written).Fits
        (list.packages ++ rest.packages) := by
      refine ⟨?_, list.inlineIn_written.mono (List.subset_append_left _ _)⟩
      rw [depends_assembleRoute, list.map_name_written]
    intro w hw
    have hlist : w ∈ list.innerRoutes → w.Fits (list.packages ++ rest.packages) :=
      fun h => (list.fits w h).mono (List.subset_append_left _ _)
    have hrest : w ∈ rest.writtenRoutes ++ rest.innerRoutes → w.Fits (list.packages ++ rest.packages) :=
      fun h => (rest.fits w h).mono (List.subset_append_right _ _)
    simp only [RoutesTree.writtenRoutes, RoutesTree.innerRoutes, RoutesTree.packages, List.mem_append,
      List.mem_cons] at hw hrest ⊢
    rcases hw with (rfl | hw) | hw | hw
    · exact own
    · exact hrest (.inl hw)
    · exact hlist hw
    · exact hrest (.inr hw)

theorem ListTree.fits : ∀ tree : ListTree, ∀ w ∈ tree.innerRoutes, w.Fits tree.packages
  | .absent => by simp [ListTree.innerRoutes]
  | .present entries => entries.fits

theorem EntriesTree.fits : ∀ tree : EntriesTree, ∀ w ∈ tree.innerRoutes, w.Fits tree.packages
  | .done => by simp [EntriesTree.innerRoutes]
  | .value _ rest => rest.fits
  | .package header body rest => by
    intro w hw
    rw [EntriesTree.packages]
    rcases List.mem_append.1 hw with hw | hw
    · refine (body.fits w hw).mono fun p hp => ?_
      simp [hp]
    · exact (rest.fits w hw).mono (List.subset_append_right _ _)

end

theorem UiTree.fits (tree : UiTree) : ∀ w ∈ tree.innerRoutes, w.Fits tree.packages := by
  induction tree with
  | done => simp [innerRoutes]
  | stray rest ih => exact ih
  | list _ entries rest ih =>
    intro w hw
    rw [packages]
    rcases List.mem_append.1 hw with hw | hw
    · exact (entries.fits w hw).mono (List.subset_append_left _ _)
    · exact (ih w hw).mono (List.subset_append_right _ _)

theorem UiTree.inlineIn_written (field : UiField) (tree : UiTree) : InlineIn (tree.written field) tree.packages := by
  induction tree with
  | done => simp [InlineIn, written]
  | stray rest ih => exact ih
  | list field' entries rest ih =>
    have hrest : InlineIn (rest.written field) (entries.packages ++ rest.packages) :=
      ih.mono (List.subset_append_right _ _)
    rw [written, packages]
    split
    · intro header body hmem
      rcases List.mem_append.1 hmem with hmem | hmem
      · exact List.mem_append_left _ (entries.inlineIn_written header body hmem)
      · exact hrest header body hmem
    · exact hrest

theorem Declaration.fits (d : Declaration) : ∀ w ∈ d.rootWritten ++ d.innerRoutes, w.Fits d.packages := by
  cases d with
  | package header body => exact fun w hw => (body.fits w hw).mono (List.subset_cons_self _ _)
  | routes block => exact block.fits
  | ui tree => exact tree.fits
  | middleware name => simp [rootWritten, innerRoutes]
  | stray => simp [rootWritten, innerRoutes]

theorem Declaration.inlineIn_uiWritten (field : UiField) (d : Declaration) :
    InlineIn (d.uiWritten field) d.packages := by
  cases d with
  | ui tree => exact tree.inlineIn_written field
  | _ => simp [InlineIn, uiWritten]

section Declared

variable {ds : List Declaration}

private theorem packages_subset {d : Declaration} (hd : d ∈ ds) : d.packages ⊆ (App.declared ds).packages :=
  fun _ hp => List.mem_flatMap.2 ⟨d, hd, hp⟩

/-- Every route of an application fits what is written of it. -/
theorem fits_of_mem_writtenRoutes {w : WrittenRoute} (hw : w ∈ writtenRoutes ds) :
    w.Fits (App.declared ds).packages := by
  obtain ⟨d, hd, hw⟩ : ∃ d ∈ ds, w ∈ d.rootWritten ++ d.innerRoutes := by
    simp only [writtenRoutes, List.mem_append, List.mem_flatMap] at hw ⊢
    rcases hw with ⟨d, hd, hw⟩ | ⟨d, hd, hw⟩
    · exact ⟨d, hd, .inl hw⟩
    · exact ⟨d, hd, .inr hw⟩
  exact (d.fits w hw).mono (packages_subset hd)

theorem inlineIn_writtenUi (field : UiField) : InlineIn (writtenUi field ds) (App.declared ds).packages := by
  intro header body hmem
  obtain ⟨d, hd, hmem⟩ := List.mem_flatMap.1 hmem
  exact packages_subset hd (d.inlineIn_uiWritten field header body hmem)

/-- Every list keeps one name for each of its entries, and the name of a package that is declared as an entry leads to
that package. -/
structure App.Resolves (app : App) (ds : List Declaration) : Prop where
  routes : app.allRoutes = (writtenRoutes ds).map WrittenRoute.route
  depends : ∀ w ∈ writtenRoutes ds, w.route.depends = w.entries.map Entry.name
  ui : ∀ field, app.ui.get field = (writtenUi field ds).map Entry.name
  inRoute : ∀ w ∈ writtenRoutes ds, ∀ header body, .inline header body ∈ w.entries →
    app.package? header.name = some (assemblePackage header body)
  inUi : ∀ field header body, .inline header body ∈ writtenUi field ds →
    app.package? header.name = some (assemblePackage header body)
  /-- A package that is found missing was named in quotes. -/
  missing : ∀ name path, app.violation? = some (.missingPackage name path) →
    ∃ w ∈ writtenRoutes ds, w.route.path = path ∧ .quoted name ∈ w.entries ∧
      ∀ header body, .inline header body ∈ w.entries → header.name ≠ name

theorem App.resolves_declared (names : (App.declared ds).packageNames.Nodup) : (App.declared ds).Resolves ds := by
  have found {es : List Entry} (hes : InlineIn es (App.declared ds).packages) :
      ∀ header body, .inline header body ∈ es →
        (App.declared ds).package? header.name = some (assemblePackage header body) :=
    fun header body hmem => App.package?_name names (hes header body hmem)
  have inRoute : ∀ w ∈ writtenRoutes ds, ∀ header body, .inline header body ∈ w.entries →
      (App.declared ds).package? header.name = some (assemblePackage header body) :=
    fun w hw => found (fits_of_mem_writtenRoutes hw).inline
  refine ⟨(map_route_writtenRoutes ds).symm, fun w hw => (fits_of_mem_writtenRoutes hw).depends,
    fun field => (map_name_writtenUi field ds).symm, inRoute, fun field => found (inlineIn_writtenUi field), ?_⟩
  intro name path hmissing
  obtain ⟨r, hr, hpath, hname, hnone⟩ := exists_of_missingPackage hmissing
  rw [← map_route_writtenRoutes] at hr
  obtain ⟨w, hw, rfl⟩ := List.mem_map.1 hr
  have declared : ∀ header body, .inline header body ∈ w.entries → header.name ≠ name := by
    rintro header body hmem rfl
    simp [inRoute w hw header body hmem] at hnone
  refine ⟨w, hw, hpath, ?_, declared⟩
  rw [(fits_of_mem_writtenRoutes hw).depends] at hname
  obtain ⟨entry, hentry, rfl⟩ := List.mem_map.1 hname
  cases entry with
  | quoted name => exact hentry
  | inline header body => exact absurd rfl (declared header body hentry)

end Declared

end BundleConf
