import BundleConf.Proofs.Grammar.Growth
import BundleConf.Proofs.Grammar.Occurrence
import BundleConf.Proofs.Parsing.Relocation

/-!
# What a machine does with a derivation

A machine that is fed the tokens of a tree never refuses one.  It stops at the first conflict of the tree's events, and
if there is none it ends up where the tree ends, with what the tree means added to its application.  `Plays` states
this for a parser before and after some tokens with their occurrences, and it composes (`Plays.append`).  The theorems
`BodyTree.plays` to `Declaration.plays` go through the trees by recursion; what they need at each kind of token is one
reaction of the parser.

The tokens can stand anywhere, and the conflict is at the token that the occurrence is about.
-/

namespace BundleConf

open Machine (runTokens)

/-- The tokens, at the spans that belong to their numbers; the first one has the number `i`. -/
def place (spans : Nat → Span) (i : Nat) : List Token → List (Located Token)
  | [] => []
  | t :: ts => ⟨t, spans i⟩ :: place spans (i + 1) ts

section Place

variable {spans : Nat → Span} {i : Nat} {ts us : List Token}

theorem place_append : place spans i (ts ++ us) = place spans i ts ++ place spans (i + ts.length) us := by
  induction ts generalizing i with
  | nil => rfl
  | cons t ts ih =>
    rw [List.cons_append, place, ih, List.length_cons, Nat.add_right_comm, Nat.add_assoc]
    rfl

theorem place_nowhere : place (fun _ => nowhere) i ts = ts.map unplaced := by
  induction ts generalizing i with
  | nil => rfl
  | cons t ts ih => exact congrArg (unplaced t :: ·) ih

theorem place_map_value {us : List (Located Token)} (h : ∀ k u, us[k]? = some u → spans (i + k) = u.span) :
    place spans i (us.map Located.value) = us := by
  induction us generalizing i with
  | nil => rfl
  | cons u us ih =>
    have hspan : spans i = u.span := h 0 u rfl
    have hus : place spans (i + 1) (us.map Located.value) = us := by
      refine ih fun k v hv => ?_
      rw [Nat.add_right_comm]
      exact h (k + 1) v hv
    rw [List.map_cons, place, hspan, hus]

end Place

/-- Feeding the tokens leads from one parser to the other, or to the first conflict of the occurrences. -/
def Plays (spans : Nat → Span) (p : Parser) (i : Nat) (ts : List Token) (os : List Occurrence) (p' : Parser) : Prop :=
  ∀ l : Ledger, l.Describes p.app → l.Numbers (os.map Occurrence.event) →
    (l.firstConflict? os = none →
      Machine.run ⟨l.generated, p⟩ (place spans i ts) = .ok ⟨(l.recordAll (os.map Occurrence.event)).generated, p'⟩ ∧
        (l.recordAll (os.map Occurrence.event)).Describes p'.app) ∧
    ∀ o c, l.firstConflict? os = some (o, c) →
      Machine.run ⟨l.generated, p⟩ (place spans i ts) = .error (.conflict ⟨c, spans o.subject⟩)

namespace Plays

variable {spans : Nat → Span} {p p' p'' : Parser} {i : Nat} {t : Token} {ts vs : List Token} {os us : List Occurrence}

theorem nil (p : Parser) : Plays spans p i [] [] p := by
  intro l hl _
  exact ⟨fun _ => ⟨rfl, hl⟩, fun o c hc => nomatch hc⟩

theorem at_eq {j : Nat} (h : Plays spans p i ts os p') (hij : i = j) : Plays spans p j ts os p' :=
  hij ▸ h

theorem append (h : Plays spans p i ts os p') (h' : Plays spans p' (i + ts.length) vs us p'') :
    Plays spans p i (ts ++ vs) (os ++ us) p'' := by
  intro l hl hn
  rw [List.map_append, Ledger.numbers_append] at hn
  obtain ⟨hok, herror⟩ := h l hl hn.1
  rw [Ledger.firstConflict?_append, List.map_append, Ledger.recordAll_append, place_append]
  cases hc : l.firstConflict? os with
  | some found =>
    refine ⟨by simp, fun o c hfound => ?_⟩
    obtain rfl : found = (o, c) := by simpa using hfound
    exact Machine.run_append_of_error (herror o c hc) _
  | none =>
    obtain ⟨hrun, hdescribes⟩ := hok hc
    rw [Machine.run_append_of_ok hrun]
    exact h' _ hdescribes hn.2

/-- A token that changes nothing but the state. -/
theorem skip {app : App} {state state' : State} (hstate : ∀ site, state ≠ .packageName site)
    (hreact : (Parser.mk app state).react ⟨t, spans i⟩ = .take (.ok ⟨app, state'⟩))
    (h : Plays spans ⟨app, state'⟩ (i + 1) ts os p') : Plays spans ⟨app, state⟩ i (t :: ts) os p' := by
  have hstep (generated : Nat) :
      Machine.step ⟨generated, ⟨app, state⟩⟩ ⟨t, spans i⟩ = .ok ⟨generated, ⟨app, state'⟩⟩ :=
    Machine.step_of_react hstate hreact
  intro l hl hn
  rw [place, Machine.run_cons_of_ok (hstep l.generated)]
  exact h l hl hn

/-- A token that changes the application without being an event. -/
theorem change {app app' : App} {state state' : State} (hstate : ∀ site, state ≠ .packageName site)
    (hreact : (Parser.mk app state).react ⟨t, spans i⟩ = .take (.ok ⟨app', state'⟩))
    (hnames : app'.packageNames = app.packageNames) (hroutes : app'.allRoutes = app.allRoutes) :
    Plays spans ⟨app, state⟩ i [t] [] ⟨app', state'⟩ := by
  intro l hl _
  refine ⟨fun _ => ⟨?_, hl.congr hnames hroutes⟩, fun o c hc => nomatch hc⟩
  have hstep : Machine.step ⟨l.generated, ⟨app, state⟩⟩ ⟨t, spans i⟩ = .ok ⟨l.generated, ⟨app', state'⟩⟩ :=
    Machine.step_of_react hstate hreact
  exact Machine.run_cons_of_ok hstep []

/-- The same for tokens that stand nowhere, where only the events count. -/
theorem runTokens {l : Ledger} {es : List Event} (h : Plays (fun _ => nowhere) p i ts os p')
    (hes : os.map Occurrence.event = es) (hl : l.Describes p.app) (hn : l.Numbers es) :
    (l.conflict? es = none → Machine.runTokens ⟨l.generated, p⟩ ts = .ok ⟨(l.recordAll es).generated, p'⟩) ∧
      ∀ c, l.conflict? es = some c → ∃ span, Machine.runTokens ⟨l.generated, p⟩ ts = .error (.conflict ⟨c, span⟩) := by
  subst hes
  obtain ⟨hok, herror⟩ := h l hl hn
  rw [place_nowhere] at hok herror
  rw [← Ledger.map_snd_firstConflict?]
  constructor
  · intro hnone
    exact (hok (Option.map_eq_none_iff.1 hnone)).1
  · intro c hc
    obtain ⟨⟨o, c'⟩, hfound, rfl⟩ := Option.map_eq_some_iff.1 hc
    exact ⟨nowhere, herror o c' hfound⟩

end Plays

/-! ### The events -/

section Events

variable {spans : Nat → Span} {i : Nat} {app : App}

/-- A package is declared at its header, whose keyword has been read. -/
theorem Plays.header (header : Header) (site : Site) :
    Plays spans ⟨app, .packageName site⟩ i header.tokens.tail [⟨.header header, i, i⟩]
      ⟨app.addPackages [{ name := header.name }], .packageBody ⟨app.packages.length, header.name⟩ site⟩ := by
  intro l hl hn
  have describes := hl.addPackage header
  cases header with
  | given name =>
    by_cases h : name ∈ l.taken
    · have hconflict : l.firstConflict? [⟨.header (.given name), i, i⟩] =
          some (⟨.header (.given name), i, i⟩, .duplicatePackage name) := by
        simp [Ledger.firstConflict?, Ledger.conflictAt?, h]
      refine ⟨fun hc => by simp [hconflict] at hc, fun o c hc => ?_⟩
      obtain ⟨rfl, rfl⟩ : ⟨.header (.given name), i, i⟩ = o ∧ Conflict.duplicatePackage name = c := by
        simpa [hconflict] using hc
      refine Machine.run_cons_of_error ?_ _
      simp [Machine.step, Machine.named, Parser.react, Parser.declare, hl.names, h]
    · have hconflict : l.firstConflict? [⟨.header (.given name), i, i⟩] = none := by
        simp [Ledger.firstConflict?, Ledger.conflictAt?, h]
      refine ⟨fun _ => ⟨?_, describes⟩, fun o c hc => by simp [hconflict] at hc⟩
      have hstep : Machine.step ⟨l.generated, ⟨app, .packageName site⟩⟩ ⟨.value name, spans i⟩ =
          .ok ⟨l.generated, (Parser.mk app (.packageName site)).openPackage name site⟩ := by
        simp [Machine.step, Machine.named, Parser.react, Parser.declare, hl.names, h]
      exact Machine.run_cons_of_ok hstep _
  | generated number =>
    -- the header shows the number that the machine draws
    have hfree : freshNumber app.packageNames l.generated = number := by
      rw [hl.names]
      exact (isFirstFree_freshNumber _ _).unique hn.1
    refine ⟨fun _ => ⟨?_, describes⟩, fun o c hc => by simp [Ledger.firstConflict?, Ledger.conflictAt?] at hc⟩
    refine Machine.run_cons_of_ok ?_ _
    simp [Machine.step, Machine.named, Parser.react, Parser.openPackage, Parser.atMark, Parser.goOn, hfree]
    exact ⟨rfl, rfl, rfl⟩

/-- A route is added at the semicolon that ends it. -/
theorem Plays.endRoute {block : RoutesBlock} (fits : block.FitsIn app) (route : Route) (stage : RouteStage)
    (start semicolon : Nat) :
    Plays spans ⟨app, .routeRest block ⟨route, spans start⟩ stage⟩ semicolon [.mark .semicolon]
      [⟨.route route, semicolon, start⟩] ⟨app.addRoute route block, .routesBody block⟩ := by
  intro l hl _
  have hflag := hl.conflictAt?_route route
  have hconflict : l.firstConflict? [⟨.route route, semicolon, start⟩] =
      (app.flagConflict? route).map (⟨.route route, semicolon, start⟩, ·) := by
    simp [Ledger.firstConflict?, hflag]
  rw [hconflict]
  constructor
  · intro hnone
    have hnone : app.flagConflict? route = none := Option.map_eq_none_iff.1 hnone
    have hstep : Machine.step ⟨l.generated, ⟨app, .routeRest block ⟨route, spans start⟩ stage⟩⟩
        ⟨.mark .semicolon, spans semicolon⟩ = .ok ⟨l.generated, ⟨app.addRoute route block, .routesBody block⟩⟩ := by
      simp [Machine.step, Machine.named, Parser.react, Parser.atRouteRest, Parser.closeRoute, hnone]
    exact ⟨Machine.run_cons_of_ok hstep [], hl.addRoute fits (hflag.trans hnone)⟩
  · intro o c hfound
    obtain ⟨c, hc, hpair⟩ := Option.map_eq_some_iff.1 hfound
    obtain ⟨rfl, rfl⟩ := Prod.mk.inj hpair
    refine Machine.run_cons_of_error ?_ []
    simp [Machine.step, Machine.named, Parser.react, Parser.atRouteRest, Parser.closeRoute, hc]

end Events

/-! ### Parts of a route -/

section Route

variable (spans : Nat → Span) (app : App) (block : RoutesBlock) (i : Nat)

private theorem plays_layoutTokens (draft : RouteDraft) (stage : RouteStage) (name : String) :
    Plays spans ⟨app, .layoutColon block draft stage⟩ i [.mark .colon, .value name] []
      ⟨app, .routeRest block ⟨draft.route.withLayout name, draft.span⟩ stage⟩ :=
  .skip (by simp) rfl (.skip (by simp) rfl (.nil _))

private theorem plays_layout (path template : String) (span : Span) (layout : Option String) :
    ∃ stage ≠ .options, Plays spans ⟨app, .routeRest block ⟨{ path, template }, span⟩ .template⟩ i
      (layout.elim [] layoutTokens) [] ⟨app, .routeRest block ⟨{ path, template, layout }, span⟩ stage⟩ := by
  cases layout with
  | none => exact ⟨.template, by simp, .nil _⟩
  | some name => exact ⟨.layout, by simp, .skip (by simp) rfl (plays_layoutTokens spans app block _ _ _ name)⟩

private theorem plays_clause (draft : RouteDraft) (stage : RouteStage) (clause : Clause) :
    ∃ stage', Plays spans ⟨app, .routeRest block draft stage⟩ i clause.tokens []
      ⟨app, .routeRest block ⟨clause.apply draft.route, draft.span⟩ stage'⟩ := by
  cases clause with
  | flag f => exact ⟨.options, .skip (by simp) rfl (.skip (by simp) rfl (.nil _))⟩
  | layout comma name =>
    cases comma with
    | false => exact ⟨stage.afterLayout, .skip (by simp) rfl (plays_layoutTokens spans app block _ _ _ name)⟩
    | true =>
      exact ⟨.options, .skip (by simp) rfl (.skip (by simp) rfl (plays_layoutTokens spans app block _ _ _ name))⟩

private theorem plays_clauses (draft : RouteDraft) (stage : RouteStage) (clauses : List Clause) :
    ∃ stage', Plays spans ⟨app, .routeRest block draft stage⟩ i (clauses.flatMap Clause.tokens) []
      ⟨app, .routeRest block ⟨clauses.foldl Clause.apply draft.route, draft.span⟩ stage'⟩ := by
  induction clauses generalizing i draft stage with
  | nil => exact ⟨stage, .nil _⟩
  | cons clause clauses ih =>
    obtain ⟨stage', hclause⟩ := plays_clause spans app block i draft stage clause
    obtain ⟨stage'', hclauses⟩ := ih (i + clause.tokens.length) ⟨clause.apply draft.route, draft.span⟩ stage'
    exact ⟨stage'', hclause.append hclauses⟩

end Route

private theorem foldl_depend (names : List String) (r : Route) :
    names.foldl Route.depend r = { r with depends := r.depends ++ names } := by
  induction names generalizing r with
  | nil => simp
  | cons name names ih => simp [ih, Route.depend]

/-! ### Parts of a list -/

/-- What becomes of an application and a list when the list ends. -/
def Listing.close (listing : Listing) (app : App) (names : List String) : Parser :=
  (Parser.mk app .top).closeList listing names

section List

variable {spans : Nat → Span} {i : Nat}

private theorem plays_close (app : App) (listing : Listing) (names : List String) :
    Plays spans ⟨app, .listMore listing names⟩ i [.mark .rightBracket] [] (listing.close app names) := by
  cases listing with
  | ui field => exact .change (by simp) rfl rfl rfl
  | route block draft => exact .change (by simp) rfl rfl rfl

private theorem plays_close_start (app : App) (listing : Listing) :
    Plays spans ⟨app, .listStart listing⟩ i [.mark .rightBracket] [] (listing.close app []) := by
  cases listing with
  | ui field => exact .change (by simp) rfl rfl rfl
  | route block draft => exact .change (by simp) rfl rfl rfl

private theorem tokens_eq_cons (header : Header) : header.tokens = .keyword .package :: header.tokens.tail := by
  cases header <;> rfl

private theorem add_length_package (header : Header) (body : BodyTree) (i : Nat) :
    i + header.tokens.length + body.tokens.length = i + 1 + (header.tokens.tail ++ body.tokens).length := by
  have hlength : header.tokens.length = header.tokens.tail.length + 1 := congrArg List.length (tokens_eq_cons header)
  rw [hlength, List.length_append]
  omega

private theorem lt_length_addPackages (app : App) (p : Package) :
    app.packages.length < (app.addPackages [p]).packages.length := by
  simp [App.addPackages]

/-- A package that has just been declared is given its body. -/
private theorem plays_package {app : App} {header : Header} {site : Site} {body : BodyTree} {os : List Occurrence}
    (hbody : Plays spans
      ⟨app.addPackages [{ name := header.name }], .packageBody ⟨app.packages.length, header.name⟩ site⟩
      (i + header.tokens.length) body.tokens os
      ⟨((app.addPackages [{ name := header.name }]).modifyPackage ⟨app.packages.length, header.name⟩
        (·.extend body)).addPackages body.packages, site.resume header.name⟩) :
    Plays spans ⟨app, .packageName site⟩ (i + 1) (header.tokens.tail ++ body.tokens)
      (⟨.header header, i + 1, i + 1⟩ :: os)
      ⟨app.addPackages (assemblePackage header body :: body.packages), site.resume header.name⟩ := by
  rw [App.modifyPackage_new, extend_new, App.addPackages_addPackages, tokens_eq_cons, List.length_cons, ← Nat.add_assoc,
    Nat.add_right_comm] at hbody
  exact (Plays.header header site).append hbody

end List

/-! ### Trees -/

section Trees

variable (spans : Nat → Span)

mutual

theorem BodyTree.plays (app : App) (package : OpenPackage) (site : Site) (h : package.index < app.packages.length)
    (i : Nat) : ∀ tree : BodyTree, Plays spans ⟨app, .packageBody package site⟩ i tree.tokens (tree.occurrences i)
      ⟨(app.modifyPackage package (·.extend tree)).addPackages tree.packages, site.resume package.name⟩
  | .done => by
    have same : (app.modifyPackage package (·.extend .done)).addPackages BodyTree.done.packages = app := by
      rw [BodyTree.packages, App.addPackages_nil]
      simp only [Package.extend_done]
      exact App.modifyPackage_id app package
    rw [same]
    exact .skip (by simp) rfl (.nil _)
  | .stray rest => .skip (by simp) rfl (BodyTree.plays app package site h (i + 1) rest)
  | .statement field value rest => by
    let app' := app.modifyPackage package (·.add field value)
    have h' : package.index < app'.packages.length := by
      rw [App.length_modifyPackage]
      exact h
    have hend : Plays spans ⟨app, .statementEnd package site field value⟩ (i + 2) [.mark .semicolon] []
        ⟨app', .packageBody package site⟩ :=
      .change (by simp) rfl (App.packageNames_modifyPackage _ (Package.name_add · field value))
        (App.allRoutes_modifyPackage _ (Package.routes_add · field value))
    have hrest := BodyTree.plays app' package site h' (i + 3) rest
    have grown : app'.modifyPackage package (·.extend rest) =
        app.modifyPackage package (·.extend (.statement field value rest)) := by
      rw [App.modifyPackage_modifyPackage]
      congr 1
      funext p
      exact (Package.extend_statement p field value rest).symm
    rw [grown] at hrest
    exact .skip (by simp) rfl (.skip (by simp) rfl (hend.append hrest))
  | .routes block rest => by
    let app' := app.modifyPackage package fun p => { p with routes := p.routes ++ block.routes }
    have h' : package.index < app'.packages.length := by
      rw [App.length_modifyPackage]
      exact h
    have h'' : package.index < (app'.addPackages block.packages).packages.length := by
      rw [App.addPackages, List.length_append]
      omega
    have hblock : Plays spans ⟨app, .routesBody (.package package site)⟩ (i + 2) block.tokens
        (block.occurrences (i + 2)) ⟨app'.addPackages block.packages, .packageBody package site⟩ :=
      RoutesTree.plays app (.package package site) h (i + 2) block
    have hrest := BodyTree.plays (app'.addPackages block.packages) package site h'' (i + 2 + block.tokens.length) rest
    have grown : app'.modifyPackage package (·.extend rest) =
        app.modifyPackage package (·.extend (.routes block rest)) := by
      rw [App.modifyPackage_modifyPackage]
      congr 1
      funext p
      exact (Package.extend_routes p block rest).symm
    -- what comes after the block goes to the open package, which stands before those of the block
    rw [App.modifyPackage_addPackages h', grown, App.addPackages_addPackages] at hrest
    exact .skip (by simp) rfl (.skip (by simp) rfl (hblock.append hrest))

theorem RoutesTree.plays (app : App) (block : RoutesBlock) (h : block.FitsIn app) (i : Nat) :
    ∀ tree : RoutesTree, Plays spans ⟨app, .routesBody block⟩ i tree.tokens (tree.occurrences i)
      ⟨(app.addRoutes tree.routes block).addPackages tree.packages, block.resume⟩
  | .done => by
    rw [RoutesTree.routes, RoutesTree.packages, App.addRoutes_nil, App.addPackages_nil]
    exact .skip (by simp) rfl (.nil _)
  | .stray rest => .skip (by simp) rfl (RoutesTree.plays app block h (i + 1) rest)
  | .route path template layout list clauses rest => by
    let r := assembleRoute path template layout list.names clauses
    let afterLayout := i + 3 + (layout.elim [] layoutTokens).length
    let afterList := afterLayout + list.tokens.length
    let semicolon := afterList + (clauses.flatMap Clause.tokens).length
    obtain ⟨stage, hstage, hlayout⟩ := plays_layout spans app block (i + 3) path template (spans i) layout
    obtain ⟨stage', hlist⟩ := ListTree.plays app block ⟨{ path, template, layout }, spans i⟩ stage hstage
      afterLayout list
    obtain ⟨stage'', hclauses⟩ := plays_clauses spans (app.addPackages list.packages) block afterList
      ⟨list.names.foldl Route.depend { path, template, layout }, spans i⟩ stage' clauses
    have assembled : clauses.foldl Clause.apply (list.names.foldl Route.depend { path, template, layout }) = r := by
      rw [foldl_depend, List.nil_append]
      rfl
    rw [assembled] at hclauses
    have fits : block.FitsIn (app.addPackages list.packages) := App.fitsIn_addPackages h list.packages
    have hend : Plays spans _ semicolon _ _ _ := .endRoute fits r stage'' i semicolon
    have hrest := RoutesTree.plays _ block (App.fitsIn_addRoute fits r) (semicolon + 1) rest
    -- the packages in the list have been declared before the route, but are listed after it
    have grown : ((app.addPackages list.packages).addRoute r block).addRoutes rest.routes block =
        (app.addRoutes (r :: rest.routes) block).addPackages list.packages := by
      rw [App.addRoute_addPackages h, App.addRoutes_addPackages (App.fitsIn_addRoute h r), App.addRoutes_cons]
    rw [grown, App.addPackages_addPackages] at hrest
    have all := hlayout.append (hlist.append (hclauses.append (hend.append hrest)))
    simp only [RoutesTree.tokens, List.append_assoc]
    exact .skip (by simp) rfl (.skip (by simp) rfl (.skip (by simp) rfl all))

theorem ListTree.plays (app : App) (block : RoutesBlock) (draft : RouteDraft) (stage : RouteStage)
    (h : stage ≠ .options) (i : Nat) :
    ∀ tree : ListTree, ∃ stage',
      Plays spans ⟨app, .routeRest block draft stage⟩ i tree.tokens (tree.occurrences i)
        ⟨app.addPackages tree.packages, .routeRest block ⟨tree.names.foldl Route.depend draft.route, draft.span⟩ stage'⟩
  | .absent => by
    refine ⟨stage, ?_⟩
    rw [ListTree.packages, App.addPackages_nil]
    exact .nil _
  | .present entries => by
    have hreact : (Parser.mk app (.routeRest block draft stage)).react ⟨.mark .leftBracket, spans i⟩ =
        .take (.ok ⟨app, .listStart (.route block draft)⟩) := by
      simp [Parser.react, Parser.atRouteRest, Parser.goOn, h]
    exact ⟨.options, .skip (by simp) hreact (EntriesTree.plays app (.route block draft) (i + 1) entries)⟩

theorem EntriesTree.plays (app : App) (listing : Listing) (i : Nat) :
    ∀ tree : EntriesTree, Plays spans ⟨app, .listStart listing⟩ i tree.tokens (tree.occurrences i)
      (listing.close (app.addPackages tree.packages) tree.names)
  | .done => by
    rw [EntriesTree.packages, App.addPackages_nil]
    exact plays_close_start app listing
  | .value name rest => .skip (by simp) rfl (EntriesTree.plays_further app listing [name] (i + 1) rest)
  | .package header body rest => by
    have hbody := BodyTree.plays _ ⟨_, header.name⟩ (listing.site [])
      (lt_length_addPackages app { name := header.name }) (i + header.tokens.length) body
    have hpackage := plays_package hbody
    have hrest := EntriesTree.plays_further (app.addPackages (assemblePackage header body :: body.packages)) listing
      [header.name] (i + header.tokens.length + body.tokens.length) rest
    rw [Listing.resume_site] at hpackage
    rw [App.addPackages_addPackages] at hrest
    rw [EntriesTree.tokens, tokens_eq_cons]
    exact .skip (by simp) rfl (hpackage.append (hrest.at_eq (add_length_package header body _)))

theorem EntriesTree.plays_further (app : App) (listing : Listing) (before : List String) (i : Nat) :
    ∀ tree : EntriesTree,
      Plays spans ⟨app, .listMore listing before⟩ i tree.furtherTokens (tree.furtherOccurrences i)
        (listing.close (app.addPackages tree.packages) (before ++ tree.names))
  | .done => by
    rw [EntriesTree.packages, App.addPackages_nil, EntriesTree.names, List.append_nil]
    exact plays_close app listing before
  | .value name rest => by
    have hrest := EntriesTree.plays_further app listing (before ++ [name]) (i + 2) rest
    rw [List.append_assoc] at hrest
    exact .skip (by simp) rfl (.skip (by simp) rfl hrest)
  | .package header body rest => by
    have hbody := BodyTree.plays _ ⟨_, header.name⟩ (listing.site before)
      (lt_length_addPackages app { name := header.name }) (i + 1 + header.tokens.length) body
    have hpackage := plays_package hbody
    have hrest := EntriesTree.plays_further (app.addPackages (assemblePackage header body :: body.packages)) listing
      (before ++ [header.name]) (i + 1 + header.tokens.length + body.tokens.length) rest
    rw [Listing.resume_site] at hpackage
    rw [App.addPackages_addPackages, List.append_assoc] at hrest
    rw [EntriesTree.furtherTokens, tokens_eq_cons]
    exact .skip (by simp) rfl (.skip (by simp) rfl (hpackage.append (hrest.at_eq (add_length_package header body _))))

end

theorem UiTree.plays (app : App) (i : Nat) (tree : UiTree) :
    Plays spans ⟨app, .uiBody⟩ i tree.tokens (tree.occurrences i)
      ⟨{ app.addPackages tree.packages with ui := app.ui.append tree }, .top⟩ := by
  induction tree generalizing app i with
  | done =>
    rw [UiTree.packages, App.addPackages_nil, Ui.append_done]
    exact .skip (by simp) rfl (.nil _)
  | stray rest ih => exact .skip (by simp) rfl (ih app (i + 1))
  | list field entries rest ih =>
    let app' : App := { app.addPackages entries.packages with ui := app.ui.extend field entries.names }
    have hentries : Plays spans ⟨app, .listStart (.ui field)⟩ (i + 2) entries.tokens (entries.occurrences (i + 2))
        ⟨app', .uiBody⟩ :=
      EntriesTree.plays spans app (.ui field) (i + 2) entries
    have hrest := ih app' (i + 2 + entries.tokens.length)
    have grown : ({ app'.addPackages rest.packages with ui := app'.ui.append rest } : App) =
        { app.addPackages (UiTree.list field entries rest).packages with
          ui := app.ui.append (.list field entries rest) } := by
      rw [Ui.append_list]
      simp [app', App.addPackages, UiTree.packages]
    rw [grown] at hrest
    exact .skip (by simp) rfl (.skip (by simp) rfl (hentries.append hrest))

theorem Declaration.plays (app : App) (i : Nat) (d : Declaration) :
    Plays spans ⟨app, .top⟩ i d.tokens (d.occurrences i) ⟨app.extend d, .top⟩ := by
  cases d with
  | package header body =>
    have hbody := BodyTree.plays spans _ ⟨_, header.name⟩ .top (lt_length_addPackages app { name := header.name })
      (i + header.tokens.length) body
    have hpackage := plays_package hbody
    have grown : app.addPackages (assemblePackage header body :: body.packages) =
        app.extend (.package header body) := by
      simp [App.addPackages, App.extend, packages, rootRoutes, uiNames, middlewares]
    rw [grown] at hpackage
    rw [tokens, tokens_eq_cons]
    exact .skip (by simp) rfl hpackage
  | routes block =>
    have hblock := RoutesTree.plays spans app .root trivial (i + 2) block
    have grown : (app.addRoutes block.routes .root).addPackages block.packages = app.extend (.routes block) := by
      simp [App.addRoutes, App.addPackages, App.extend, packages, rootRoutes, uiNames, middlewares]
    rw [grown] at hblock
    exact .skip (by simp) rfl (.skip (by simp) rfl hblock)
  | ui tree =>
    have htree := UiTree.plays spans app (i + 2) tree
    have grown : ({ app.addPackages tree.packages with ui := app.ui.append tree } : App) = app.extend (.ui tree) := by
      simp [App.addPackages, App.extend, Ui.append, packages, rootRoutes, uiNames, middlewares]
    rw [grown] at htree
    exact .skip (by simp) rfl (.skip (by simp) rfl htree)
  | middleware name =>
    have grown : ({ app with middlewares := app.middlewares ++ [name] } : App) = app.extend (.middleware name) := by
      simp [App.extend, packages, rootRoutes, uiNames, middlewares]
    have hend : Plays spans ⟨app, .middlewareEnd name⟩ (i + 2) [.mark .semicolon] []
        ⟨app.extend (.middleware name), .top⟩ := by
      rw [← grown]
      exact .change (by simp) rfl rfl rfl
    exact .skip (by simp) rfl (.skip (by simp) rfl hend)
  | stray =>
    have grown : app.extend .stray = app := by
      simp [App.extend, packages, rootRoutes, uiNames, middlewares]
    rw [grown]
    exact .skip (by simp) rfl (.nil _)

/-- Declarations lead from the application of those before them to that of all of them. -/
theorem plays_declarations (before ds : List Declaration) (i : Nat) :
    Plays spans ⟨.declared before, .top⟩ i (ds.flatMap Declaration.tokens) (Declaration.allOccurrences i ds)
      ⟨.declared (before ++ ds), .top⟩ := by
  induction ds generalizing before i with
  | nil =>
    rw [List.append_nil]
    exact .nil _
  | cons d ds ih =>
    have hd := d.plays spans (.declared before) i
    have hds := ih (before ++ [d]) (i + d.tokens.length)
    rw [App.extend_declared] at hd
    rw [List.append_assoc] at hds
    exact hd.append hds

end Trees

end BundleConf
