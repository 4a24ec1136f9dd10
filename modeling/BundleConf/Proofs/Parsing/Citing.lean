import BundleConf.Proofs.Parsing.Machine
import BundleConf.Proofs.Parsing.Transitions

/-!
# The values that a parser may cite

A parser keeps some of the values that it has taken together with their spans, so that an error can point to them: the
path of an include, and the paths of the routes that are not finished, of which there can be many, since a route can be
inside a package in the list of another.  Every value that is kept was taken as a token (`Machine.cited_of_step`), and
so was the value that a conflict points to (`Machine.culprit_of_step`).  A conflict is told in a sentence that quotes
this value (`Conflict.Wording`, `Machine.wording_of_step`).
-/

namespace BundleConf

/-- The token that a value was taken from. -/
def Located.quoted (v : Located String) : Located Token :=
  ⟨.value v.value, v.span⟩

/-- The path of the route. -/
def RouteDraft.path (draft : RouteDraft) : Located String :=
  ⟨draft.route.path, draft.span⟩

/-- The paths of the routes that a site is inside of. -/
def Site.cited : Site → List (Located String)
  | .top => []
  | .uiEntry _ _ => []
  | .rootRoute draft _ => [draft.path]
  | .packageRoute _ site draft _ => draft.path :: site.cited

def RoutesBlock.cited : RoutesBlock → List (Located String)
  | .root => []
  | .package _ site => site.cited

def Listing.cited : Listing → List (Located String)
  | .ui _ => []
  | .route block draft => draft.path :: block.cited

/-- The values that the parser keeps with their spans. -/
def State.cited : State → List (Located String)
  | .includeEnd path => [path]
  | .packageName site | .packageOpen _ site | .packageBody _ site => site.cited
  | .statementValue _ site _ | .statementEnd _ site _ _ => site.cited
  | .routesOpen block | .routesBody block => block.cited
  | .routeColon block path | .routeTemplate block path => path :: block.cited
  | .routeRest block draft _ | .routeOption block draft => draft.path :: block.cited
  | .layoutColon block draft _ | .layoutValue block draft _ => draft.path :: block.cited
  | .listStart listing | .listEntry listing _ | .listMore listing _ => listing.cited
  | .top | .middlewareName | .middlewareEnd _ | .includePath | .uiOpen | .uiBody | .listOpen _ => []

/-- The value that a conflict is about: the name of the package, or the path of the route. -/
def Conflict.culprit : Conflict → String
  | duplicatePackage name => name
  | flagTaken route _ _ => route

/-- How a user is told of a conflict.  Only error404 and index are flags that a second route cannot carry. -/
inductive Conflict.Wording : Conflict → String → Prop
  | package {name : String} :
      Wording (.duplicatePackage name) ("package '" ++ name ++ "' is declared more than once")
  | error404 {route holder : String} : Wording (.flagTaken route .error404 holder)
      ("route '" ++ route ++ "' is marked error404, but route '" ++ holder ++ "' already is")
  | index {route holder : String} : Wording (.flagTaken route .index holder)
      ("route '" ++ route ++ "' is marked index, but route '" ++ holder ++ "' already is")

theorem Conflict.wording_flagTaken (route holder : String) {flag : RouteFlag} (h : flag ∈ App.uniqueFlags) :
    (flagTaken route flag holder).Wording (flagTaken route flag holder).message := by
  -- the word of the flag is a piece of the sentence
  have joined (front word back : String) :
      front ++ "' is marked " ++ word ++ ", but route '" ++ back =
        front ++ ("' is marked " ++ word ++ ", but route '") ++ back := by
    simp only [String.append_assoc]
  have hflag : flag = .error404 ∨ flag = .index := by simpa [App.uniqueFlags] using h
  rcases hflag with rfl | rfl
  · rw [message, joined]
    exact .error404
  · rw [message, joined]
    exact .index

/-! ### Going on after a construct -/

@[simp] theorem Site.cited_resume (site : Site) (name : String) : (site.resume name).cited = site.cited := by
  cases site <;> rfl

@[simp] theorem RoutesBlock.cited_resume (block : RoutesBlock) : block.resume.cited = block.cited := by
  cases block <;> rfl

@[simp] theorem Listing.cited_site (listing : Listing) (entries : List String) :
    (listing.site entries).cited = listing.cited := by
  rcases listing with _ | ⟨_ | _, _⟩ <;> rfl

theorem Route.path_foldl_depend (entries : List String) (route : Route) :
    (entries.foldl Route.depend route).path = route.path := by
  induction entries generalizing route with
  | nil => rfl
  | cons entry entries ih => exact ih (route.depend entry)

theorem App.exists_of_flagConflict {app : App} {route : Route} {conflict : Conflict}
    (h : app.flagConflict? route = some conflict) :
    ∃ flag ∈ uniqueFlags, ∃ holder, conflict = .flagTaken route.path flag holder := by
  obtain ⟨flag, hmem, hflag⟩ := List.exists_of_findSome?_eq_some h
  split at hflag
  · obtain ⟨holder, -, rfl⟩ := Option.map_eq_some_iff.1 hflag
    exact ⟨flag, hmem, holder.path, rfl⟩
  · simp at hflag

theorem App.culprit_of_flagConflict {app : App} {route : Route} {conflict : Conflict}
    (h : app.flagConflict? route = some conflict) : conflict.culprit = route.path := by
  obtain ⟨flag, -, holder, rfl⟩ := exists_of_flagConflict h
  rfl

theorem App.wording_of_flagConflict {app : App} {route : Route} {conflict : Conflict}
    (h : app.flagConflict? route = some conflict) : conflict.Wording conflict.message := by
  obtain ⟨flag, hflag, holder, rfl⟩ := exists_of_flagConflict h
  exact Conflict.wording_flagTaken route.path holder hflag

/-! ### Taking a token -/

theorem State.cited_of_goes {span : Span} {state state' : State} {t : Token} (h : state.Goes span t state') :
    ∀ v ∈ state'.cited, v ∈ state.cited ∨ (⟨t, span⟩ : Located Token) = v.quoted := by
  intro v hv
  cases h with
  | includePath path =>
    obtain rfl := List.mem_singleton.1 hv
    exact .inr rfl
  | routePath block path =>
    obtain rfl | hv := List.mem_cons.1 hv
    · exact .inr rfl
    · exact .inl hv
  -- where a construct ends the state is not known, but what it cites is
  | packageClose package site =>
    rw [Site.cited_resume] at hv
    exact .inl hv
  | routesClose block =>
    rw [RoutesBlock.cited_resume] at hv
    exact .inl hv
  | firstPackage listing | entryPackage listing =>
    rw [State.cited, Listing.cited_site] at hv
    exact .inl hv
  | flag block draft flag =>
    cases flag <;> exact .inl hv
  | _ => exact .inl hv

namespace Parser

variable {p p' : Parser} {t : Located Token}

@[simp] theorem cited_closeList (listing : Listing) (entries : List String) :
    (p.closeList listing entries).state.cited = listing.cited := by
  cases listing with
  | ui field => rfl
  | route block draft => simp [closeList, State.cited, Listing.cited, RouteDraft.path, Route.path_foldl_depend]

/-- A value that is kept after a token was kept before, or it is the token. -/
theorem cited_of_react (h : p.react t = .take (.ok p')) :
    ∀ v ∈ p'.state.cited, v ∈ p.state.cited ∨ t = v.quoted := by
  obtain ⟨app, state⟩ := p
  obtain ⟨token, span⟩ := t
  cases takes_of_react h with
  | goes hgoes => exact State.cited_of_goes hgoes
  | middleware => exact fun v hv => .inl hv
  | statement => exact fun v hv => .inl hv
  | header => exact fun v hv => .inl hv
  | route => exact fun v hv => .inl (List.mem_cons_of_mem _ hv)
  | noList listing => exact fun v hv => .inl (by rwa [cited_closeList] at hv)
  | list listing entries => exact fun v hv => .inl (by rwa [cited_closeList] at hv)

/-- A conflict is about a value that was kept before, or about the token. -/
theorem culprit_of_react {conflict : Located Conflict} (h : p.react t = .take (.error conflict)) :
    ⟨conflict.value.culprit, conflict.span⟩ ∈ p.state.cited ∨
      t = (⟨conflict.value.culprit, conflict.span⟩ : Located String).quoted := by
  obtain ⟨app, state⟩ := p
  obtain ⟨token, span⟩ := t
  cases takes_of_react h with
  | duplicate => exact .inr rfl
  | clash block stage taken =>
    exact .inl (by simp [State.cited, RouteDraft.path, App.culprit_of_flagConflict taken])

theorem wording_of_react {conflict : Located Conflict} (h : p.react t = .take (.error conflict)) :
    conflict.value.Wording conflict.value.message := by
  obtain ⟨app, state⟩ := p
  obtain ⟨token, span⟩ := t
  cases takes_of_react h with
  | duplicate => exact .package
  | clash block stage taken => exact App.wording_of_flagConflict taken

end Parser

namespace Machine

variable {m m' : Machine} {t : Located Token}

/-- A package that is given no name is at the same place as one that is given a name. -/
private theorem cited_named (next : Token) : (m.named next).parser.state.cited = m.parser.state.cited := by
  unfold named
  split
  · rfl
  · rename_i hstate _
    simp [hstate, Parser.openPackage, State.cited]
  · rfl

theorem cited_of_step (h : m.step t = .ok m') :
    ∀ v ∈ m'.parser.state.cited, v ∈ m.parser.state.cited ∨ t = v.quoted := by
  have := Parser.cited_of_react (react_of_step_ok h).1
  rwa [cited_named] at this

theorem culprit_of_step {conflict : Located Conflict} (h : m.step t = .error (.conflict conflict)) :
    ⟨conflict.value.culprit, conflict.span⟩ ∈ m.parser.state.cited ∨
      t = (⟨conflict.value.culprit, conflict.span⟩ : Located String).quoted := by
  have := Parser.culprit_of_react (react_of_step_conflict h)
  rwa [cited_named] at this

theorem wording_of_step {conflict : Located Conflict} (h : m.step t = .error (.conflict conflict)) :
    conflict.value.Wording conflict.value.message :=
  Parser.wording_of_react (react_of_step_conflict h)

end Machine

end BundleConf
