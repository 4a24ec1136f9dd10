import BundleConf.Proofs.Include.Visiting
import BundleConf.Proofs.Parsing.Acceptance
import BundleConf.Proofs.Parsing.Transitions

/-!
# Names and flags of a parsed application

Whatever is parsed, and however much the session has been used before: the packages of the application have different
names, and no unique flag is carried by two routes (`Session.Parses.unique_names_and_flags`).  A token can change these
in two ways only, which `App.Declares` lists: a package is declared under a name that is free, or a route is closed none
of whose unique flags is taken.  Both keep an application consistent (`App.Declares.isConsistent`), so every application
that a parse comes to on its way is.
-/

namespace BundleConf

namespace App

/-- What a token can do to the names and the routes of an application. -/
inductive Declares (app : App) : App → Prop
  | other {app' : App} (names : app'.packageNames = app.packageNames) (routes : app'.allRoutes = app.allRoutes) :
      Declares app app'
  | package (name : String) (free : name ∉ app.packageNames) :
      Declares app { app with packages := app.packages ++ [{ name }] }
  | route (route : Route) (block : RoutesBlock) (free : app.flagConflict? route = none) :
      Declares app (app.addRoute route block)

variable {app app' : App}

/-- The names of the packages are never taken back, and new ones come behind them. -/
theorem Declares.prefix_packageNames (h : app.Declares app') : app.packageNames <+: app'.packageNames := by
  cases h with
  | other names routes => exact names ▸ List.prefix_rfl
  | package name free =>
    rw [packageNames, packageNames, List.map_append]
    exact List.prefix_append _ _
  | route route block free => exact packageNames_addRoute route block ▸ List.prefix_rfl

theorem isConsistent_empty : ({} : App).IsConsistent :=
  ⟨List.nodup_nil, fun _ _ => Nat.zero_le _⟩

/-- A route adds at most itself to the routes. -/
private theorem countP_allRoutes_addRoute_le (f : Route → Bool) (route : Route) (block : RoutesBlock) :
    (app.addRoute route block).allRoutes.countP f ≤ app.allRoutes.countP f + if f route then 1 else 0 := by
  by_cases fits : block.FitsIn app
  · obtain ⟨before, after, hall, hadd⟩ := allRoutes_addRoute fits route
    rw [hall, hadd, List.countP_append, List.countP_append, List.countP_cons]
    omega
  · -- a route of a package that is not there is dropped
    have same : app.addRoute route block = app := by
      cases block with
      | root => exact absurd trivial fits
      | package package site => rw [addRoute, modifyPackage, List.modify_eq_self (Nat.le_of_not_lt fits)]
    rw [same]
    exact Nat.le_add_right _ _

private theorem countP_allRoutes_of_free {route : Route} (free : app.flagConflict? route = none) {flag : RouteFlag}
    (hflag : flag ∈ uniqueFlags) (hroute : route.has flag = true) : app.allRoutes.countP (·.has flag) = 0 := by
  have hnone : app.route? flag = none := by
    have := List.findSome?_eq_none_iff.1 free flag hflag
    simpa [hroute] using this
  rw [List.countP_eq_zero]
  exact List.find?_eq_none.1 hnone

/-- What a token does keeps names and unique flags apart. -/
theorem Declares.isConsistent (h : app.Declares app') (happ : app.IsConsistent) : app'.IsConsistent := by
  obtain ⟨hnames, hflags⟩ := happ
  cases h with
  | other names routes =>
    refine ⟨names ▸ hnames, fun flag hflag => ?_⟩
    rw [routes]
    exact hflags flag hflag
  | package name free =>
    constructor
    · rw [packageNames, List.map_append, List.nodup_append]
      refine ⟨hnames, by simp, fun taken htaken new hnew heq => free ?_⟩
      obtain rfl : new = name := by simpa using hnew
      exact heq ▸ htaken
    · intro flag hflag
      simpa [allRoutes] using hflags flag hflag
  | route route block free =>
    refine ⟨by rwa [packageNames_addRoute], fun flag hflag => ?_⟩
    have added : (app.addRoute route block).allRoutes.countP (·.has flag) ≤ _ :=
      countP_allRoutes_addRoute_le (·.has flag) route block
    have before := hflags flag hflag
    by_cases hroute : route.has flag = true
    · have unclaimed := countP_allRoutes_of_free free hflag hroute
      simp only [hroute, if_true] at added
      omega
    · rw [if_neg hroute] at added
      omega

/-- Where at most one route carries a flag it is the one that is looked up. -/
theorem route?_eq_some_iff {flag : RouteFlag} (h : app.allRoutes.countP (·.has flag) ≤ 1) {route : Route} :
    app.route? flag = some route ↔ route ∈ app.allRoutes ∧ route.has flag = true := by
  constructor
  · intro hroute
    rw [route?] at hroute
    exact ⟨List.mem_of_find?_eq_some hroute, by simpa using List.find?_some hroute⟩
  · rintro ⟨hmem, hroute⟩
    obtain ⟨before, after, hall⟩ := List.append_of_mem hmem
    rw [hall, List.countP_append, List.countP_cons, if_pos hroute] at h
    have none_before : before.countP (·.has flag) = 0 := by omega
    rw [route?, hall, List.find?_append, List.find?_eq_none.2 (List.countP_eq_zero.1 none_before), Option.none_or,
      List.find?_cons, hroute]

end App

/-! ### One token -/

namespace Parser

variable {p p' : Parser} {t : Located Token}

private theorem declares_closeList (listing : Listing) (entries : List String) :
    p.app.Declares (p.closeList listing entries).app := by
  cases listing with
  | ui field => exact .other rfl rfl
  | route block draft => exact .other rfl rfl

/-- A token that the parser takes declares a package or a route, or neither. -/
theorem declares_of_react (h : p.react t = .take (.ok p')) : p.app.Declares p'.app := by
  obtain ⟨app, state⟩ := p
  obtain ⟨token, span⟩ := t
  cases takes_of_react h with
  | goes => exact .other rfl rfl
  | middleware => exact .other rfl rfl
  | statement =>
    exact .other (App.packageNames_modifyPackage _ (Package.name_add · _ _))
      (App.allRoutes_modifyPackage _ (Package.routes_add · _ _))
  | header _ free => exact .package _ free
  | route _ _ free => exact .route _ _ free
  | noList listing => exact declares_closeList listing []
  | list listing entries => exact declares_closeList listing entries

end Parser

theorem Machine.isConsistent_of_step {m m' : Machine} {t : Located Token} (h : m.step t = .ok m')
    (hm : m.parser.app.IsConsistent) : m'.parser.app.IsConsistent := by
  have named : m.parser.app.Declares (m.named t.value).parser.app := by
    unfold Machine.named
    split
    · exact .other rfl rfl
    · -- the number of a generated name is chosen so that the name is free
      exact .package _ (isFirstFree_freshNumber _ _).2.1
    · exact .other rfl rfl
  exact (Parser.declares_of_react (react_of_step_ok h).1).isConsistent (named.isConsistent hm)

/-! ### Whole parses -/

namespace Session

theorem Visits.isConsistent {s₀ s : Session} {files : FileSystem} {p : Parser} (h : s₀.Visits files s p) :
    p.app.IsConsistent := by
  induction h with
  | start => exact App.isConsistent_empty
  | take _ hstep _ _ ih => exact Machine.isConsistent_of_step hstep ih
  | load _ _ _ ih => exact ih

/-- A parsed application has packages of different names, each of which is found by its name, and at most one route
with error404 and at most one with index, which is the one that is found by the flag. -/
theorem Parses.unique_names_and_flags {s₀ s : Session} {parse : Nat → Reading Parsed} (hparse : s₀.Parses parse)
    (files : FileSystem) (budget : Nat) {app : App} (h : (parse budget).run files = .ok (app, s)) :
    app.packageNames.Nodup ∧ (∀ p ∈ app.packages, app.package? p.name = some p) ∧
      ∀ flag ∈ [RouteFlag.error404, .index], app.allRoutes.countP (·.has flag) ≤ 1 ∧
        ∀ route, app.route? flag = some route ↔ route ∈ app.allRoutes ∧ route.has flag = true := by
  obtain ⟨p, hvisits, -, -, rfl⟩ := hparse.exists_finished h
  have happ := hvisits.isConsistent
  exact ⟨happ.1, fun p hp => App.package?_name happ.1 hp,
    fun flag hflag => ⟨happ.2 flag hflag, fun route => App.route?_eq_some_iff (happ.2 flag hflag)⟩⟩

/-- A file and an include, both with packages that are given no name; one of the generated names is given before. -/
private def declaring : FileSystem := fun path =>
  if path = ⟨"./app.conf"⟩ then
    .ok <| withBraces "package 'anonymous-1' ( ) routes ( '/' : 'a' [package ( )], index; ) " ++ "include 'sub.conf';"
  else if path = ⟨"./sub.conf"⟩ then .ok (withBraces "package ( routes ( '/404' : 'b', error404; ) )")
  else .error .notFound

/-- A session that is used again after a parse has failed in it. -/
theorem unique_names_and_flags_after_failure : ∃ error s app s',
    ((Session.new ⟨"."⟩).parseText ⟨"x.conf"⟩ (withBraces "package ( ) oops")).run declaring = .error ⟨error, s⟩ ∧
    (s.parseFileWithin 1 ⟨"app.conf"⟩).run declaring = .ok (app, s') ∧
    app.packageNames = ["anonymous-1", "anonymous-2", "anonymous-3"] ∧ app.packageNames.Nodup ∧
    (app.route? .index).map Route.path = some "/" ∧ (app.route? .error404).map Route.path = some "/404" := by
  let failed : Parsed := ((Session.new ⟨"."⟩).parseText ⟨"x.conf"⟩ (withBraces "package ( ) oops")).run declaring
  have hfailed : failed.isOk = false := by decide +kernel
  have hparsed : ((failed.session.parseFileWithin 1 ⟨"app.conf"⟩).run declaring).toOption.map (fun x =>
      (x.1.packageNames, (x.1.route? .index).map Route.path, (x.1.route? .error404).map Route.path)) =
      some (["anonymous-1", "anonymous-2", "anonymous-3"], some "/", some "/404") := by
    decide +kernel
  cases hfailure : failed with
  | ok x => simp [hfailure, Except.isOk, Except.toBool] at hfailed
  | error failure =>
    rw [hfailure] at hparsed
    obtain ⟨⟨app, s'⟩, hsome, hdeclared⟩ := Option.map_eq_some_iff.1 hparsed
    have hrun := Outcome.eq_ok_of_toOption hsome
    simp only [Prod.mk.injEq] at hdeclared
    obtain ⟨hnames, hindex, herror404⟩ := hdeclared
    obtain ⟨hnodup, -⟩ := (Parses.file (s := failure.session) ⟨"app.conf"⟩).unique_names_and_flags declaring 1 hrun
    exact ⟨failure.error, failure.session, app, s', hfailure, hrun, hnames, hnodup, hindex, herror404⟩

end Session

end BundleConf
