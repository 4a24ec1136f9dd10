import BundleConf.Proofs.Grammar.Tree
import BundleConf.Proofs.Parsing.Naming
import BundleConf.Parse.Parser

/-!
# What declarations have to agree on

Package names and the flags that only one route may carry are checked while a text is read: a name at the header of the
package, a flag at the semicolon that ends the route.  The events of a tree are these moments in the order of reading,
and a ledger records what has been declared before.  `Ledger.conflict?` is the first conflict that a sequence of events
runs into; there is none exactly when no name and no unique flag occurs twice (`Ledger.conflict?_eq_none_iff`).
-/

namespace BundleConf

/-- A moment at which declarations can turn out to be in conflict. -/
inductive Event where
  | header (header : Header)
  /-- A route ends. -/
  | route (route : Route)

/-! ### The events of a tree -/

mutual

def BodyTree.events : BodyTree → List Event
  | .done => []
  | .stray rest => rest.events
  | .statement _ _ rest => rest.events
  | .routes block rest => block.events ++ rest.events

def RoutesTree.events : RoutesTree → List Event
  | .done => []
  | .stray rest => rest.events
  | .route path template layout list clauses rest =>
    list.events ++ .route (assembleRoute path template layout list.names clauses) :: rest.events

def ListTree.events : ListTree → List Event
  | .absent => []
  | .present entries => entries.events

def EntriesTree.events : EntriesTree → List Event
  | .done => []
  | .value _ rest => rest.events
  | .package header body rest => .header header :: body.events ++ rest.events

end

def UiTree.events : UiTree → List Event
  | .done => []
  | .stray rest => rest.events
  | .list _ entries rest => entries.events ++ rest.events

def Declaration.events : Declaration → List Event
  | .package header body => .header header :: body.events
  | .routes block => block.events
  | .ui tree => tree.events
  | _ => []

namespace Event

def name? : Event → Option String
  | .header h => some h.name
  | .route _ => none

def route? : Event → Option Route
  | .header _ => none
  | .route r => some r

end Event

/-! ### What the events record -/

/-- The packages of a tree are named in the order of their keywords. -/
def RecordsNames (es : List Event) (packages : List Package) : Prop :=
  es.filterMap Event.name? = packages.map Package.name

mutual

theorem BodyTree.recordsNames : ∀ tree : BodyTree, RecordsNames tree.events tree.packages
  | .done => rfl
  | .stray rest => rest.recordsNames
  | .statement _ _ rest => rest.recordsNames
  | .routes block rest => by
    have hblock := block.recordsNames
    have hrest := rest.recordsNames
    simp_all [RecordsNames, BodyTree.events, BodyTree.packages]

theorem RoutesTree.recordsNames : ∀ tree : RoutesTree, RecordsNames tree.events tree.packages
  | .done => rfl
  | .stray rest => rest.recordsNames
  | .route _ _ _ list _ rest => by
    have hlist := list.recordsNames
    have hrest := rest.recordsNames
    simp_all [RecordsNames, RoutesTree.events, RoutesTree.packages, List.filterMap_cons, Event.name?]

theorem ListTree.recordsNames : ∀ tree : ListTree, RecordsNames tree.events tree.packages
  | .absent => rfl
  | .present entries => entries.recordsNames

theorem EntriesTree.recordsNames : ∀ tree : EntriesTree, RecordsNames tree.events tree.packages
  | .done => rfl
  | .value _ rest => rest.recordsNames
  | .package header body rest => by
    have hbody := body.recordsNames
    have hrest := rest.recordsNames
    simp_all [RecordsNames, EntriesTree.events, EntriesTree.packages, Event.name?, assemblePackage]

end

/-- The routes of a tree end in another order than they are listed in, but there are as many of each sort. -/
def RecordsRoutes (es : List Event) (routes : List Route) (packages : List Package) : Prop :=
  ∀ p : Route → Bool, (es.filterMap Event.route?).countP p = (routes ++ packages.flatMap Package.routes).countP p

mutual

theorem BodyTree.recordsRoutes : ∀ tree : BodyTree, RecordsRoutes tree.events tree.ownRoutes tree.packages
  | .done => fun _ => rfl
  | .stray rest => rest.recordsRoutes
  | .statement _ _ rest => rest.recordsRoutes
  | .routes block rest => by
    intro p
    have hblock := block.recordsRoutes p
    have hrest := rest.recordsRoutes p
    simp only [BodyTree.events, BodyTree.ownRoutes, BodyTree.packages, List.filterMap_append, List.flatMap_append,
      List.countP_append] at hblock hrest ⊢
    omega

theorem RoutesTree.recordsRoutes : ∀ tree : RoutesTree, RecordsRoutes tree.events tree.routes tree.packages
  | .done => fun _ => rfl
  | .stray rest => rest.recordsRoutes
  | .route _ _ _ list _ rest => by
    intro p
    have hlist := list.recordsRoutes p
    have hrest := rest.recordsRoutes p
    simp only [RoutesTree.events, RoutesTree.routes, RoutesTree.packages, Event.route?, List.filterMap_append,
      List.filterMap_cons, List.flatMap_append, List.countP_append, List.countP_cons, List.countP_nil] at hlist hrest ⊢
    omega

theorem ListTree.recordsRoutes : ∀ tree : ListTree, RecordsRoutes tree.events [] tree.packages
  | .absent => fun _ => rfl
  | .present entries => entries.recordsRoutes

theorem EntriesTree.recordsRoutes : ∀ tree : EntriesTree, RecordsRoutes tree.events [] tree.packages
  | .done => fun _ => rfl
  | .value _ rest => rest.recordsRoutes
  | .package _ body rest => by
    intro p
    have hbody := body.recordsRoutes p
    have hrest := rest.recordsRoutes p
    simp only [EntriesTree.events, EntriesTree.packages, assemblePackage, Event.route?, List.cons_append,
      List.filterMap_append, List.filterMap_cons, List.flatMap_append, List.flatMap_cons, List.countP_append,
      List.countP_nil] at hbody hrest ⊢
    omega

end

theorem UiTree.recordsNames (tree : UiTree) : RecordsNames tree.events tree.packages := by
  induction tree with
  | done => rfl
  | stray rest ih => exact ih
  | list _ entries rest ih =>
    have hentries := entries.recordsNames
    simp_all [RecordsNames, UiTree.events, UiTree.packages]

theorem UiTree.recordsRoutes (tree : UiTree) : RecordsRoutes tree.events [] tree.packages := by
  induction tree with
  | done => exact fun _ => rfl
  | stray rest ih => exact ih
  | list _ entries rest ih =>
    intro p
    have hentries := entries.recordsRoutes p
    have hrest := ih p
    simp only [UiTree.events, UiTree.packages, List.filterMap_append, List.flatMap_append, List.countP_append,
      List.countP_nil] at hentries hrest ⊢
    omega

theorem Declaration.recordsNames (d : Declaration) : RecordsNames d.events d.packages := by
  cases d with
  | package header body => exact congrArg (header.name :: ·) body.recordsNames
  | routes block => exact block.recordsNames
  | ui tree => exact tree.recordsNames
  | middleware name => rfl
  | stray => rfl

theorem Declaration.recordsRoutes (d : Declaration) : RecordsRoutes d.events d.rootRoutes d.packages := by
  cases d with
  | package header body => exact body.recordsRoutes
  | routes block => exact block.recordsRoutes
  | ui tree => exact tree.recordsRoutes
  | middleware name => exact fun _ => rfl
  | stray => exact fun _ => rfl

/-- The packages of an application are those that its declarations record. -/
theorem packageNames_declared (ds : List Declaration) :
    (App.declared ds).packageNames = (ds.flatMap Declaration.events).filterMap Event.name? := by
  induction ds with
  | nil => rfl
  | cons d ds ih =>
    have hd : d.events.filterMap Event.name? = d.packages.map Package.name := d.recordsNames
    simp only [App.packageNames, App.declared, List.flatMap_cons, List.map_append, List.filterMap_append] at ih ⊢
    rw [ih, hd]

/-- The routes of an application are those that its declarations record, in another order. -/
theorem countP_allRoutes_declared (ds : List Declaration) (p : Route → Bool) :
    (App.declared ds).allRoutes.countP p = ((ds.flatMap Declaration.events).filterMap Event.route?).countP p := by
  induction ds with
  | nil => rfl
  | cons d ds ih =>
    have hd := d.recordsRoutes p
    simp only [App.allRoutes, App.declared, List.flatMap_cons, List.flatMap_append, List.filterMap_append,
      List.countP_append] at ih hd ⊢
    omega

/-! ### Ledgers -/

/-- What has been declared before, in the order of reading. -/
structure Ledger where
  /-- How many names have been generated. -/
  generated : Nat
  taken : List String
  closed : List Route

namespace Ledger

/-- The ledger after an event. -/
def record (l : Ledger) : Event → Ledger
  | .header (.given name) => { l with taken := l.taken ++ [name] }
  | .header (.generated number) =>
    { l with generated := number + 1, taken := l.taken ++ [Package.generatedName number] }
  | .route route => { l with closed := l.closed ++ [route] }

def recordAll (l : Ledger) (es : List Event) : Ledger :=
  es.foldl record l

/-- The conflict that an event runs into. -/
def conflictAt? (l : Ledger) : Event → Option Conflict
  | .header (.given name) => if name ∈ l.taken then some (.duplicatePackage name) else none
  | .header (.generated _) => none
  | .route route => [RouteFlag.error404, .index].findSome? fun flag =>
    if route.has flag then (l.closed.find? (·.has flag)).map fun holder => .flagTaken route.path flag holder.path
    else none

/-- The first conflict that some events run into. -/
def conflict? (l : Ledger) : List Event → Option Conflict
  | [] => none
  | e :: es => (l.conflictAt? e).or ((l.record e).conflict? es)

/-- The number of a generated name is the first one that is free. -/
def NumbersAt (l : Ledger) : Event → Prop
  | .header (.generated number) => IsFirstFree l.taken l.generated number
  | _ => True

/-- The generated names have the numbers that a parse gives them. -/
def Numbers (l : Ledger) : List Event → Prop
  | [] => True
  | e :: es => l.NumbersAt e ∧ (l.record e).Numbers es

/-! ### One sequence of events after another -/

variable (l : Ledger) (es fs : List Event)

theorem recordAll_append : l.recordAll (es ++ fs) = (l.recordAll es).recordAll fs :=
  List.foldl_append

theorem numbers_append : l.Numbers (es ++ fs) ↔ l.Numbers es ∧ (l.recordAll es).Numbers fs := by
  induction es generalizing l with
  | nil => simp [Numbers, recordAll]
  | cons e es ih =>
    simp only [List.cons_append, Numbers, ih (l.record e), and_assoc]
    rfl

/-! ### When there is no conflict -/

theorem taken_recordAll : (l.recordAll es).taken = l.taken ++ es.filterMap Event.name? := by
  induction es generalizing l with
  | nil => simp [recordAll]
  | cons e es ih =>
    have step : (l.recordAll (e :: es)).taken = (l.record e).taken ++ es.filterMap Event.name? := ih (l.record e)
    rw [step]
    rcases e with (_ | _) | _ <;> simp [record, List.filterMap_cons, Event.name?, Header.name]

theorem closed_recordAll : (l.recordAll es).closed = l.closed ++ es.filterMap Event.route? := by
  induction es generalizing l with
  | nil => simp [recordAll]
  | cons e es ih =>
    have step : (l.recordAll (e :: es)).closed = (l.record e).closed ++ es.filterMap Event.route? := ih (l.record e)
    rw [step]
    rcases e with (_ | _) | _ <;> simp [record, List.filterMap_cons, Event.route?]

/-- No name is taken twice, and neither error404 nor index is carried twice. -/
def Consistent (l : Ledger) : Prop :=
  l.taken.Nodup ∧ ∀ flag ∈ [RouteFlag.error404, .index], l.closed.countP (·.has flag) ≤ 1

variable {l es}

private theorem nodup_append_name {names : List String} (h : names.Nodup) (name : String) :
    (names ++ [name]).Nodup ↔ name ∉ names := by
  rw [List.nodup_append]
  constructor
  · intro distinct hname
    exact distinct.2.2 name hname name (by simp) rfl
  · intro hname
    refine ⟨h, by simp, fun name' h' name'' h'' heq => ?_⟩
    obtain rfl : name'' = name := by simpa using h''
    exact hname (heq ▸ h')

private theorem countP_append_le_one_iff {routes : List Route} {flag : RouteFlag}
    (h : routes.countP (·.has flag) ≤ 1) (route : Route) :
    (routes ++ [route]).countP (·.has flag) ≤ 1 ↔ (route.has flag = true → routes.countP (·.has flag) = 0) := by
  rw [List.countP_append]
  by_cases hr : route.has flag = true
  · simp [hr]
  · simpa [hr] using h

private theorem conflictAt?_eq_none_iff {e : Event} (hl : l.Consistent) (hn : l.NumbersAt e) :
    l.conflictAt? e = none ↔ (l.record e).Consistent := by
  obtain ⟨names, flags⟩ := hl
  rcases e with (name | number) | route
  · have distinct := nodup_append_name names name
    simp only [conflictAt?, record, Consistent, distinct, ite_eq_right_iff, reduceCtorEq, imp_false]
    exact (and_iff_left flags).symm
  · -- a number is drawn so that its name is free
    have free : Package.generatedName number ∉ l.taken := hn.2.1
    have distinct := (nodup_append_name names _).2 free
    simp only [conflictAt?, record, Consistent, true_iff]
    exact ⟨distinct, flags⟩
  · simp only [conflictAt?, record, Consistent, List.findSome?_eq_none_iff]
    rw [and_iff_right names]
    refine forall₂_congr fun flag hflag => ?_
    rw [countP_append_le_one_iff (flags flag hflag) route]
    by_cases hr : route.has flag = true
    · simp [hr]
    · simp [hr]

private theorem consistent_of_record {e : Event} (h : (l.record e).Consistent) : l.Consistent := by
  obtain ⟨names, flags⟩ := h
  rcases e with (name | number) | route
  · exact ⟨(List.nodup_append.1 names).1, flags⟩
  · exact ⟨(List.nodup_append.1 names).1, flags⟩
  · refine ⟨names, fun flag hflag => ?_⟩
    have := flags flag hflag
    simp only [record, List.countP_append] at this
    omega

private theorem consistent_of_recordAll (h : (l.recordAll es).Consistent) : l.Consistent := by
  induction es generalizing l with
  | nil => exact h
  | cons e es ih => exact consistent_of_record (ih h)

/-- Events run into no conflict exactly when the names and flags that they lead to are consistent. -/
theorem conflict?_eq_none_iff (hl : l.Consistent) (hn : l.Numbers es) :
    l.conflict? es = none ↔ (l.recordAll es).Consistent := by
  induction es generalizing l with
  | nil => exact ⟨fun _ => hl, fun _ => rfl⟩
  | cons e es ih =>
    obtain ⟨hne, hnes⟩ := hn
    rw [conflict?, Option.or_eq_none_iff, conflictAt?_eq_none_iff hl hne]
    constructor
    · intro h
      exact (ih h.1 hnes).1 h.2
    · intro h
      -- what is recorded later cannot make up for a name or a flag that occurs twice
      have he : (l.record e).Consistent := consistent_of_recordAll h
      exact ⟨he, (ih he hnes).2 h⟩

end Ledger

end BundleConf
