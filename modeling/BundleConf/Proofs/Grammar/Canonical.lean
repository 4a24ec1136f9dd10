import BundleConf.App.Printer
import BundleConf.Proofs.Grammar.Ledger

/-!
# The derivation of an application

Every application is declared by a derivation of its own, `App.declarations`: it gives each package its name, its
statements and one routes block, and then has one routes block, one user interface and the middlewares.  The derivation
derives the tokens that the application is written with (`App.tokens_declarations`) and means the application
(`App.declared_declarations`).  Since every package is given its name, no number is drawn (`App.numbers_declarations`).
-/

namespace BundleConf

/-! ### The trees -/

def EntriesTree.ofNames : List String → EntriesTree
  | [] => .done
  | name :: names => .value name (ofNames names)

/-- Each route has one list and no clauses but its flags. -/
def RoutesTree.ofRoutes : List Route → RoutesTree
  | [] => .done
  | r :: rs => .route r.path r.template r.layout (.present (.ofNames r.depends)) (r.flags.map .flag) (ofRoutes rs)

/-- The body with statements of one kind before it. -/
def BodyTree.withStatements (field : PackageField) (values : List String) (rest : BodyTree) : BodyTree :=
  values.foldr (.statement field) rest

def BodyTree.ofPackage (p : Package) : BodyTree :=
  withStatements .requires p.requires <| withStatements .directory p.directories <| withStatements .file p.files <|
    withStatements .option p.options <| .routes (.ofRoutes p.routes) .done

def UiTree.ofUi (ui : Ui) : UiTree :=
  [UiField.template, .assets, .javascript, .stylesheets].foldr
    (fun field rest => .list field (.ofNames (ui.get field)) rest) .done

def Declaration.ofPackage (p : Package) : Declaration :=
  .package (.given p.name) (.ofPackage p)

def App.declarations (app : App) : List Declaration :=
  app.packages.map .ofPackage ++ [.routes (.ofRoutes app.routes), .ui (.ofUi app.ui)] ++
    app.middlewares.map .middleware

/-! ### Entries -/

/-- Commas between entries are commas before all entries but the first. -/
theorem listTokens_cons (name : String) (names : List String) :
    listTokens (name :: names) =
      [.mark .leftBracket, .value name] ++ (names.flatMap fun name => [.mark .comma, .value name]) ++
        [.mark .rightBracket] := by
  have commas : (((name :: names).map fun name => [Token.value name]).intersperse [.mark .comma]).flatten =
      .value name :: names.flatMap fun name => [.mark .comma, .value name] := by
    induction names generalizing name with
    | nil => rfl
    | cons next names ih =>
      have step := ih next
      rw [List.map_cons] at step
      rw [List.map_cons, List.map_cons, List.intersperse_cons_cons, List.flatten_cons, List.flatten_cons, step]
      simp
  rw [listTokens, commas]
  simp

namespace EntriesTree

private theorem furtherTokens_ofNames (names : List String) :
    (ofNames names).furtherTokens =
      (names.flatMap fun name => [.mark .comma, .value name]) ++ [.mark .rightBracket] := by
  induction names with
  | nil => rfl
  | cons name names ih => simp [ofNames, furtherTokens, ih]

theorem tokens_ofNames (names : List String) : .mark .leftBracket :: (ofNames names).tokens = listTokens names := by
  cases names with
  | nil => rfl
  | cons name names =>
    rw [listTokens_cons, ofNames, tokens, furtherTokens_ofNames]
    simp

theorem names_ofNames (names : List String) : (ofNames names).names = names := by
  induction names with
  | nil => rfl
  | cons name names ih => simp [ofNames, EntriesTree.names, ih]

theorem packages_ofNames (names : List String) : (ofNames names).packages = [] := by
  induction names with
  | nil => rfl
  | cons name names ih => exact ih

theorem events_ofNames (names : List String) : (ofNames names).events = [] := by
  induction names with
  | nil => rfl
  | cons name names ih => exact ih

end EntriesTree

/-! ### Routes -/

/-- A route is put together from its parts and its flags. -/
theorem assembleRoute_flags (r : Route) :
    assembleRoute r.path r.template r.layout r.depends (r.flags.map .flag) = r := by
  obtain ⟨path, template, depends, layout, error404, index, isPrivate, dialog⟩ := r
  cases error404 <;> cases index <;> cases isPrivate <;> cases dialog <;> rfl

namespace RoutesTree

theorem tokens_ofRoutes (rs : List Route) : (ofRoutes rs).tokens = rs.flatMap Route.tokens ++ [.mark .rightBrace] := by
  induction rs with
  | nil => rfl
  | cons r rs ih =>
    have hlist : (ListTree.present (.ofNames r.depends)).tokens = listTokens r.depends :=
      EntriesTree.tokens_ofNames r.depends
    rw [ofRoutes, tokens, hlist, ih, List.flatMap_cons, Route.tokens, List.flatMap_map]
    cases r.layout <;> simp [Clause.tokens, layoutTokens]

theorem routes_ofRoutes (rs : List Route) : (ofRoutes rs).routes = rs := by
  induction rs with
  | nil => rfl
  | cons r rs ih =>
    have hnames : (ListTree.present (.ofNames r.depends)).names = r.depends := EntriesTree.names_ofNames r.depends
    rw [ofRoutes, routes, hnames, assembleRoute_flags, ih]

theorem packages_ofRoutes (rs : List Route) : (ofRoutes rs).packages = [] := by
  induction rs with
  | nil => rfl
  | cons r rs ih => simp [ofRoutes, packages, ListTree.packages, EntriesTree.packages_ofNames, ih]

theorem events_ofRoutes (rs : List Route) : (ofRoutes rs).events = rs.map .route := by
  induction rs with
  | nil => rfl
  | cons r rs ih =>
    have hnames : (ListTree.present (.ofNames r.depends)).names = r.depends := EntriesTree.names_ofNames r.depends
    simp [ofRoutes, events, ListTree.events, EntriesTree.events_ofNames, hnames, assembleRoute_flags, ih]

end RoutesTree

/-! ### Packages -/

namespace BodyTree

variable (field : PackageField) (values : List String) (rest : BodyTree)

private theorem tokens_withStatements :
    (withStatements field values rest).tokens =
      values.flatMap (statementTokens (.statement field)) ++ rest.tokens := by
  induction values with
  | nil => rfl
  | cons value values ih =>
    have step : (withStatements field (value :: values) rest).tokens =
        statementTokens (.statement field) value ++ (withStatements field values rest).tokens := rfl
    rw [step, ih, List.flatMap_cons, List.append_assoc]

private theorem values_withStatements (field' : PackageField) :
    (withStatements field values rest).values field' =
      (if field = field' then values else []) ++ rest.values field' := by
  induction values with
  | nil => simp [withStatements]
  | cons value values ih =>
    have step : (withStatements field (value :: values) rest).values field' =
        if field = field' then value :: (withStatements field values rest).values field'
        else (withStatements field values rest).values field' := rfl
    rw [step, ih]
    by_cases h : field = field' <;> simp [h]

private theorem ownRoutes_withStatements : (withStatements field values rest).ownRoutes = rest.ownRoutes := by
  induction values with
  | nil => rfl
  | cons value values ih => exact ih

private theorem packages_withStatements : (withStatements field values rest).packages = rest.packages := by
  induction values with
  | nil => rfl
  | cons value values ih => exact ih

private theorem events_withStatements : (withStatements field values rest).events = rest.events := by
  induction values with
  | nil => rfl
  | cons value values ih => exact ih

variable (p : Package)

theorem tokens_ofPackage :
    (ofPackage p).tokens =
      p.requires.flatMap (statementTokens (.statement .requires)) ++
        p.directories.flatMap (statementTokens (.statement .directory)) ++
        p.files.flatMap (statementTokens (.statement .file)) ++
        p.options.flatMap (statementTokens (.statement .option)) ++
        routesTokens p.routes ++ [.mark .rightBrace] := by
  simp [ofPackage, tokens_withStatements, tokens, RoutesTree.tokens_ofRoutes, routesTokens]

theorem packages_ofPackage : (ofPackage p).packages = [] := by
  simp [ofPackage, packages_withStatements, packages, RoutesTree.packages_ofRoutes]

theorem events_ofPackage : (ofPackage p).events = p.routes.map .route := by
  simp [ofPackage, events_withStatements, events, RoutesTree.events_ofRoutes]

/-- A package is put together from its name and its body. -/
theorem assemblePackage_ofPackage : assemblePackage (.given p.name) (ofPackage p) = p := by
  simp [assemblePackage, Header.name, ofPackage, values_withStatements, ownRoutes_withStatements, values, ownRoutes,
    RoutesTree.routes_ofRoutes]

end BodyTree

/-! ### The user interface -/

namespace UiTree

variable (ui : Ui)

theorem tokens_ofUi :
    (ofUi ui).tokens =
      ([.template, .assets, .javascript, .stylesheets].flatMap fun field =>
        .keyword (.list field) :: listTokens (ui.get field)) ++ [.mark .rightBrace] := by
  simp [ofUi, tokens, ← EntriesTree.tokens_ofNames]

theorem names_ofUi (field : UiField) : (ofUi ui).names field = ui.get field := by
  cases field <;> simp [ofUi, names, EntriesTree.names_ofNames]

theorem packages_ofUi : (ofUi ui).packages = [] := by
  simp [ofUi, packages, EntriesTree.packages_ofNames]

theorem events_ofUi : (ofUi ui).events = [] := by
  simp [ofUi, events, EntriesTree.events_ofNames]

end UiTree

/-! ### The application -/

/-- Where every package is given its name, no number is drawn. -/
private theorem Ledger.numbers_of_given {l : Ledger} {es : List Event}
    (h : ∀ e ∈ es, ∀ number, e ≠ .header (.generated number)) : l.Numbers es := by
  induction es generalizing l with
  | nil => trivial
  | cons e es ih =>
    obtain ⟨he, hes⟩ := List.forall_mem_cons.1 h
    refine ⟨?_, ih hes⟩
    rcases e with (name | number) | route
    · trivial
    · exact absurd rfl (he number)
    · trivial

namespace App

variable (app : App)

theorem flatMap_declarations {α : Type} (f : Declaration → List α) :
    app.declarations.flatMap f =
      (app.packages.flatMap fun p => f (.ofPackage p)) ++ f (.routes (.ofRoutes app.routes)) ++
        f (.ui (.ofUi app.ui)) ++ app.middlewares.flatMap fun name => f (.middleware name) := by
  simp [declarations, List.flatMap_map]

/-- The derivation of an application derives what the application is written with. -/
theorem tokens_declarations : app.declarations.flatMap Declaration.tokens = app.tokens := by
  have hpackage (p : Package) : (Declaration.ofPackage p).tokens = p.tokens := by
    rw [Declaration.ofPackage, Declaration.tokens, BodyTree.tokens_ofPackage, Package.tokens]
    simp [Header.tokens]
  have hroutes : (Declaration.routes (.ofRoutes app.routes)).tokens = routesTokens app.routes := by
    rw [Declaration.tokens, RoutesTree.tokens_ofRoutes, routesTokens, List.append_assoc]
  have hui : (Declaration.ui (.ofUi app.ui)).tokens = app.ui.tokens := by
    rw [Declaration.tokens, UiTree.tokens_ofUi, Ui.tokens, List.append_assoc]
  rw [flatMap_declarations, hroutes, hui, tokens]
  simp only [hpackage]
  rfl

private theorem flatMap_empty {α β : Type} (xs : List α) : (xs.flatMap fun _ => ([] : List β)) = [] :=
  List.flatMap_eq_nil_iff.2 fun _ _ => rfl

/-- The derivation of an application means the application. -/
theorem declared_declarations : declared app.declarations = app := by
  have hpackages : app.declarations.flatMap Declaration.packages = app.packages := by
    have hpackage (p : Package) : (Declaration.ofPackage p).packages = [p] := by
      rw [Declaration.ofPackage, Declaration.packages, BodyTree.assemblePackage_ofPackage, BodyTree.packages_ofPackage]
    have hroutes : (Declaration.routes (.ofRoutes app.routes)).packages = [] := RoutesTree.packages_ofRoutes app.routes
    have hui : (Declaration.ui (.ofUi app.ui)).packages = [] := UiTree.packages_ofUi app.ui
    have hmiddleware (name : String) : (Declaration.middleware name).packages = [] := rfl
    simp [flatMap_declarations, hpackage, hroutes, hui, hmiddleware, flatMap_empty]
  have hroutes : app.declarations.flatMap Declaration.rootRoutes = app.routes := by
    simp [flatMap_declarations, Declaration.ofPackage, Declaration.rootRoutes, RoutesTree.routes_ofRoutes,
      flatMap_empty]
  have hui (field : UiField) : app.declarations.flatMap (Declaration.uiNames field) = app.ui.get field := by
    simp [flatMap_declarations, Declaration.ofPackage, Declaration.uiNames, UiTree.names_ofUi, flatMap_empty]
  have hmiddlewares : app.declarations.flatMap Declaration.middlewares = app.middlewares := by
    simp [flatMap_declarations, Declaration.ofPackage, Declaration.middlewares]
  simp only [declared, hpackages, hroutes, hui, hmiddlewares]
  rfl

/-- The events of the derivation draw no numbers. -/
theorem numbers_declarations (l : Ledger) : l.Numbers (app.declarations.flatMap Declaration.events) := by
  apply Ledger.numbers_of_given
  intro e he number heq
  rw [flatMap_declarations] at he
  simp [heq, Declaration.ofPackage, Declaration.events, BodyTree.events_ofPackage, RoutesTree.events_ofRoutes,
    UiTree.events_ofUi] at he

end App

end BundleConf
