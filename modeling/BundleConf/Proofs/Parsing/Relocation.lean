import BundleConf.Proofs.Parsing.Machine

/-!
# Where tokens stand does not matter

A parser copies the spans of tokens and never looks at them.  So a machine that is fed the same tokens from other places
does the same, up to the places in what it has stored and in what it reports: `Machine.run_relocate`.  What a machine
does can therefore be told from tokens that stand nowhere (`Machine.runTokens`).
-/

namespace BundleConf

variable (f : Span → Span)

/-! ### Moving spans -/

def Located.relocate {α : Type} (t : Located α) : Located α :=
  ⟨t.value, f t.span⟩

def RouteDraft.relocate (draft : RouteDraft) : RouteDraft :=
  ⟨draft.route, f draft.span⟩

def Site.relocate : Site → Site
  | top => top
  | uiEntry field entries => uiEntry field entries
  | rootRoute draft entries => rootRoute (draft.relocate f) entries
  | packageRoute package site draft entries => packageRoute package site.relocate (draft.relocate f) entries

def RoutesBlock.relocate : RoutesBlock → RoutesBlock
  | root => root
  | package openPackage site => package openPackage (site.relocate f)

def Listing.relocate : Listing → Listing
  | ui field => ui field
  | route block draft => route (block.relocate f) (draft.relocate f)

def State.relocate : State → State
  | top => top
  | middlewareName => middlewareName
  | middlewareEnd name => middlewareEnd name
  | includePath => includePath
  | includeEnd path => includeEnd (path.relocate f)
  | packageName site => packageName (site.relocate f)
  | packageOpen package site => packageOpen package (site.relocate f)
  | packageBody package site => packageBody package (site.relocate f)
  | statementValue package site field => statementValue package (site.relocate f) field
  | statementEnd package site field value => statementEnd package (site.relocate f) field value
  | routesOpen block => routesOpen (block.relocate f)
  | routesBody block => routesBody (block.relocate f)
  | routeColon block path => routeColon (block.relocate f) (path.relocate f)
  | routeTemplate block path => routeTemplate (block.relocate f) (path.relocate f)
  | routeRest block draft stage => routeRest (block.relocate f) (draft.relocate f) stage
  | routeOption block draft => routeOption (block.relocate f) (draft.relocate f)
  | layoutColon block draft stage => layoutColon (block.relocate f) (draft.relocate f) stage
  | layoutValue block draft stage => layoutValue (block.relocate f) (draft.relocate f) stage
  | uiOpen => uiOpen
  | uiBody => uiBody
  | listOpen field => listOpen field
  | listStart listing => listStart (listing.relocate f)
  | listEntry listing entries => listEntry (listing.relocate f) entries
  | listMore listing entries => listMore (listing.relocate f) entries

def Parser.relocate (p : Parser) : Parser :=
  ⟨p.app, p.state.relocate f⟩

def Reaction.relocate : Reaction → Reaction
  | refuse expected => refuse expected
  | take (.ok next) => take (.ok (next.relocate f))
  | take (.error cause) => take (.error (cause.relocate f))
  | load path => load (path.relocate f)
  | finish => finish

def Machine.relocate (m : Machine) : Machine :=
  ⟨m.generated, m.parser.relocate f⟩

def Halt.relocate : Halt → Halt
  | refused expected => refused expected
  | conflict cause => conflict (cause.relocate f)
  | load path => load (path.relocate f)
  | finished app => finished app

/-! ### Resuming -/

theorem Site.resume_relocate (site : Site) (name : String) :
    (site.relocate f).resume name = (site.resume name).relocate f := by
  cases site <;> rfl

theorem RoutesBlock.resume_relocate (block : RoutesBlock) : (block.relocate f).resume = block.resume.relocate f := by
  cases block <;> rfl

theorem Listing.site_relocate (listing : Listing) (entries : List String) :
    (listing.relocate f).site entries = (listing.site entries).relocate f := by
  rcases listing with _ | ⟨_ | _, _⟩ <;> rfl

/-! ### One reaction -/

namespace Parser

theorem goOn_relocate (p : Parser) (state : State) :
    (p.relocate f).goOn (state.relocate f) = (p.goOn state).relocate f := rfl

theorem atMark_relocate (p : Parser) (m : Mark) (state : State) (t : Token) :
    (p.relocate f).atMark m (state.relocate f) t = (p.atMark m state t).relocate f := by
  unfold atMark
  split
  · split
    · exact goOn_relocate f p state
    · rfl
  · rfl

theorem atValue_relocate (p : Parser) (state : String → State) (t : Token) :
    (p.relocate f).atValue (fun payload => (state payload).relocate f) t = (p.atValue state t).relocate f := by
  unfold atValue
  split
  · exact goOn_relocate f p _
  · rfl

theorem atTop_relocate (p : Parser) (t : Token) : (p.relocate f).atTop t = (p.atTop t).relocate f := by
  unfold atTop
  split <;> rfl

theorem atPackageBody_relocate (p : Parser) (package : OpenPackage) (site : Site) (t : Token) :
    (p.relocate f).atPackageBody package (site.relocate f) t = (p.atPackageBody package site t).relocate f := by
  unfold atPackageBody
  split
  case h_4 => rw [Site.resume_relocate]; rfl
  all_goals rfl

theorem atRoutesBody_relocate (p : Parser) (block : RoutesBlock) (span : Span) (t : Token) :
    (p.relocate f).atRoutesBody (block.relocate f) (f span) t = (p.atRoutesBody block span t).relocate f := by
  unfold atRoutesBody
  split
  case h_3 => rw [RoutesBlock.resume_relocate]; rfl
  all_goals rfl

theorem closeRoute_relocate (p : Parser) (block : RoutesBlock) (draft : RouteDraft) :
    Reaction.take ((p.relocate f).closeRoute (block.relocate f) (draft.relocate f)) =
      (Reaction.take (p.closeRoute block draft)).relocate f := by
  have routes : p.app.addRoute draft.route (block.relocate f) = p.app.addRoute draft.route block := by
    cases block <;> rfl
  unfold closeRoute
  simp only [relocate, RouteDraft.relocate, routes]
  cases p.app.flagConflict? draft.route <;> rfl

theorem atRouteRest_relocate (p : Parser) (block : RoutesBlock) (draft : RouteDraft) (stage : RouteStage) (t : Token) :
    (p.relocate f).atRouteRest (block.relocate f) (draft.relocate f) stage t =
      (p.atRouteRest block draft stage t).relocate f := by
  unfold atRouteRest
  split
  case h_2 => split <;> rfl
  case h_4 => exact closeRoute_relocate f p block draft
  all_goals rfl

theorem atRouteOption_relocate (p : Parser) (block : RoutesBlock) (draft : RouteDraft) (t : Token) :
    (p.relocate f).atRouteOption (block.relocate f) (draft.relocate f) t =
      (p.atRouteOption block draft t).relocate f := by
  unfold atRouteOption
  split <;> rfl

theorem atUiBody_relocate (p : Parser) (t : Token) : (p.relocate f).atUiBody t = (p.atUiBody t).relocate f := by
  unfold atUiBody
  split <;> rfl

theorem atEntry_relocate (p : Parser) (listing : Listing) (entries : List String) (t : Token) :
    (p.relocate f).atEntry (listing.relocate f) entries t = (p.atEntry listing entries t).relocate f := by
  unfold atEntry
  split
  case h_2 => rw [Listing.site_relocate]; rfl
  all_goals rfl

theorem closeList_relocate (p : Parser) (listing : Listing) (entries : List String) :
    (p.relocate f).closeList (listing.relocate f) entries = (p.closeList listing entries).relocate f := by
  cases listing <;> rfl

theorem atListMore_relocate (p : Parser) (listing : Listing) (entries : List String) (t : Token) :
    (p.relocate f).atListMore (listing.relocate f) entries t = (p.atListMore listing entries t).relocate f := by
  unfold atListMore
  split
  case h_2 => rw [closeList_relocate]; rfl
  all_goals rfl

theorem declare_relocate (p : Parser) (name : Located String) (site : Site) :
    Reaction.take ((p.relocate f).declare (name.relocate f) (site.relocate f)) =
      (Reaction.take (p.declare name site)).relocate f := by
  by_cases h : name.value ∈ p.app.packageNames
  · have h' : (name.relocate f).value ∈ (p.relocate f).app.packageNames := h
    rw [declare, declare, if_pos h, if_pos h']
    rfl
  · have h' : (name.relocate f).value ∉ (p.relocate f).app.packageNames := h
    rw [declare, declare, if_neg h, if_neg h']
    rfl

/-- A parser reacts to a token in another place as it does to the token. -/
theorem react_relocate (p : Parser) (t : Located Token) :
    (p.relocate f).react (t.relocate f) = (p.react t).relocate f := by
  obtain ⟨app, state⟩ := p
  obtain ⟨t, span⟩ := t
  cases state with
  | top => exact atTop_relocate f ⟨app, .top⟩ t
  | middlewareName => exact atValue_relocate f ⟨app, .middlewareName⟩ .middlewareEnd t
  | middlewareEnd name => exact atMark_relocate f ⟨_, .middlewareEnd name⟩ .semicolon .top t
  | includePath => exact atValue_relocate f ⟨app, .includePath⟩ (fun payload => .includeEnd ⟨payload, span⟩) t
  | includeEnd path =>
    by_cases h : t = .mark .semicolon
    · simp [react, relocate, State.relocate, Located.relocate, Reaction.relocate, h]
    · simp [react, relocate, State.relocate, Located.relocate, Reaction.relocate, need, h]
  | packageName site =>
    cases t with
    | value payload => exact declare_relocate f ⟨app, .packageName site⟩ ⟨payload, span⟩ site
    | _ => rfl
  | packageOpen package site => exact atMark_relocate f ⟨app, _⟩ .leftBrace (.packageBody package site) t
  | packageBody package site => exact atPackageBody_relocate f ⟨app, .packageBody package site⟩ package site t
  | statementValue package site field =>
    exact atValue_relocate f ⟨app, .statementValue package site field⟩ (.statementEnd package site field) t
  | statementEnd package site field value =>
    exact atMark_relocate f ⟨_, .statementEnd package site field value⟩ .semicolon (.packageBody package site) t
  | routesOpen block => exact atMark_relocate f ⟨app, .routesOpen block⟩ .leftBrace (.routesBody block) t
  | routesBody block => exact atRoutesBody_relocate f ⟨app, .routesBody block⟩ block span t
  | routeColon block path => exact atMark_relocate f ⟨app, .routeColon block path⟩ .colon (.routeTemplate block path) t
  | routeTemplate block path =>
    exact atValue_relocate f ⟨app, .routeTemplate block path⟩
      (fun payload => .routeRest block ⟨{ path := path.value, template := payload }, path.span⟩ .template) t
  | routeRest block draft stage =>
    exact atRouteRest_relocate f ⟨app, .routeRest block draft stage⟩ block draft stage t
  | routeOption block draft => exact atRouteOption_relocate f ⟨app, .routeOption block draft⟩ block draft t
  | layoutColon block draft stage =>
    exact atMark_relocate f ⟨app, .layoutColon block draft stage⟩ .colon (.layoutValue block draft stage) t
  | layoutValue block draft stage =>
    exact atValue_relocate f ⟨app, .layoutValue block draft stage⟩
      (fun payload => .routeRest block { draft with route := draft.route.withLayout payload } stage) t
  | uiOpen => exact atMark_relocate f ⟨app, .uiOpen⟩ .leftBrace .uiBody t
  | uiBody => exact atUiBody_relocate f ⟨app, .uiBody⟩ t
  | listOpen field => exact atMark_relocate f ⟨app, .listOpen field⟩ .leftBracket (.listStart (.ui field)) t
  | listStart listing =>
    have close := closeList_relocate f ⟨app, .listStart listing⟩ listing []
    have entry := atEntry_relocate f ⟨app, .listStart listing⟩ listing [] t
    simp only [relocate, State.relocate] at close entry
    by_cases h : t = .mark .rightBracket
    · simp [react, relocate, State.relocate, Located.relocate, Reaction.relocate, h, close]
    · simp [react, relocate, State.relocate, Located.relocate, h, entry]
  | listEntry listing entries => exact atEntry_relocate f ⟨app, .listEntry listing entries⟩ listing entries t
  | listMore listing entries => exact atListMore_relocate f ⟨app, .listMore listing entries⟩ listing entries t

end Parser

/-! ### Runs -/

namespace Machine

theorem named_relocate (m : Machine) (t : Token) : (m.relocate f).named t = (m.named t).relocate f := by
  obtain ⟨generated, app, state⟩ := m
  cases state with
  | packageName site => cases t <;> rfl
  | _ => rfl

theorem step_relocate (m : Machine) (t : Located Token) :
    (m.relocate f).step (t.relocate f) = ((m.step t).map (relocate f)).mapError (Halt.relocate f) := by
  have app : ((m.named t.value).relocate f).parser.app = (m.named t.value).parser.app := rfl
  unfold step
  rw [show (t.relocate f).value = t.value from rfl, named_relocate, app,
    show ((m.named t.value).relocate f).parser = (m.named t.value).parser.relocate f from rfl, Parser.react_relocate]
  rcases (m.named t.value).parser.react t with _ | ⟨_ | _⟩ | _ | _ <;> rfl

/-- Tokens in other places lead to the same machine and the same stop, up to the places. -/
theorem run_relocate (m : Machine) (ts : List (Located Token)) :
    (m.relocate f).run (ts.map (·.relocate f)) = ((m.run ts).map (relocate f)).mapError (Halt.relocate f) := by
  induction ts generalizing m with
  | nil => rfl
  | cons t ts ih =>
    rw [List.map_cons, run_cons, run_cons, step_relocate]
    cases m.step t with
    | error halt => rfl
    | ok m' => exact ih m'

/-- Two results of a step that differ in places only. -/
inductive SameStep : Except Halt Machine → Except Halt Machine → Prop
  | ok {m m' : Machine} (hm : m.relocate f = m'.relocate f) : SameStep (.ok m) (.ok m')
  | refused (expected : Expectation) : SameStep (.error (.refused expected)) (.error (.refused expected))
  | conflict {cause cause' : Located Conflict} (hcause : cause.relocate f = cause'.relocate f) :
    SameStep (.error (.conflict cause)) (.error (.conflict cause'))
  | load {path path' : Located String} (hpath : path.relocate f = path'.relocate f) :
    SameStep (.error (.load path)) (.error (.load path'))
  | finished (app : App) : SameStep (.error (.finished app)) (.error (.finished app))

section Same

variable {f} {m m' : Machine} {t t' : Located Token}

theorem generated_named_eq (hm : m.relocate f = m'.relocate f) (t : Token) :
    (m.named t).generated = (m'.named t).generated := by
  have named : (m.named t).relocate f = (m'.named t).relocate f := by
    rw [← named_relocate, hm, named_relocate]
  exact (Machine.mk.inj named).1

/-- Machines that differ in places only do the same at tokens that differ in places only. -/
theorem sameStep (hm : m.relocate f = m'.relocate f) (ht : t.relocate f = t'.relocate f) :
    SameStep f (m.step t) (m'.step t') := by
  have moved : ((m.step t).map (relocate f)).mapError (Halt.relocate f) =
      ((m'.step t').map (relocate f)).mapError (Halt.relocate f) := by
    rw [← step_relocate, hm, ht, step_relocate]
  generalize m.step t = result at moved ⊢
  generalize m'.step t' = result' at moved ⊢
  rcases result with halt | next <;> rcases result' with halt' | next'
  · have same : halt.relocate f = halt'.relocate f := Except.error.inj moved
    cases halt with
    | refused expected =>
      cases halt' with
      | refused expected' =>
        obtain rfl := Halt.refused.inj same
        exact .refused expected
      | conflict | load | finished => nomatch same
    | conflict cause =>
      cases halt' with
      | conflict cause' => exact .conflict (Halt.conflict.inj same)
      | refused | load | finished => nomatch same
    | load path =>
      cases halt' with
      | load path' => exact .load (Halt.load.inj same)
      | refused | conflict | finished => nomatch same
    | finished app =>
      cases halt' with
      | finished app' =>
        obtain rfl := Halt.finished.inj same
        exact .finished app
      | refused | conflict | load => nomatch same
  · nomatch moved
  · nomatch moved
  · exact .ok (Except.ok.inj moved)

end Same

end Machine

/-! ### Tokens without places -/

/-- The span that stands for no place. -/
def nowhere : Span := ⟨0, 0, 0⟩

/-- A token that stands nowhere. -/
def unplaced (t : Token) : Located Token :=
  ⟨t, nowhere⟩

namespace Machine

/-- The machine after some tokens that stand nowhere. -/
def runTokens (m : Machine) (ts : List Token) : Except Halt Machine :=
  m.run (ts.map unplaced)

theorem runTokens_append_of_ok {m m' : Machine} {ts : List Token} (h : m.runTokens ts = .ok m') (us : List Token) :
    m.runTokens (ts ++ us) = m'.runTokens us := by
  rw [runTokens, List.map_append]
  exact run_append_of_ok h _

theorem runTokens_append_of_error {m : Machine} {ts : List Token} {halt : Halt} (h : m.runTokens ts = .error halt)
    (us : List Token) : m.runTokens (ts ++ us) = .error halt := by
  rw [runTokens, List.map_append]
  exact run_append_of_error h _

/-- A machine that has stored no place. -/
def IsUnplaced (m : Machine) : Prop :=
  m.relocate (fun _ => nowhere) = m

theorem isUnplaced_of_top {m : Machine} (h : m.parser.state = .top) : m.IsUnplaced := by
  obtain ⟨generated, app, state⟩ := m
  obtain rfl : state = .top := h
  rfl

section Unplaced

variable {m : Machine} {ts : List (Located Token)} {values : List Token}

private theorem runTokens_eq (hm : m.IsUnplaced) (hts : ts.map Located.value = values) :
    m.runTokens values = ((m.run ts).map (relocate fun _ => nowhere)).mapError (Halt.relocate fun _ => nowhere) := by
  have tokens : values.map unplaced = ts.map (·.relocate fun _ => nowhere) := by
    rw [← hts, List.map_map]
    rfl
  have moved := run_relocate (fun _ => nowhere) m ts
  rw [hm] at moved
  rw [runTokens, tokens, moved]

/-- Between declarations no place is stored, so there the machine is the same wherever the tokens stand. -/
theorem run_of_runTokens (hm : m.IsUnplaced) (hts : ts.map Located.value = values) {m' : Machine}
    (h : m.runTokens values = .ok m') (htop : m'.parser.state = .top) : m.run ts = .ok m' := by
  rw [runTokens_eq hm hts] at h
  cases hr : m.run ts with
  | error halt =>
    rw [hr] at h
    nomatch h
  | ok m'' =>
    rw [hr] at h
    obtain rfl : m''.relocate (fun _ => nowhere) = m' := Except.ok.inj h
    obtain ⟨generated, app, state⟩ := m''
    -- no other state is moved to the one between declarations
    cases state <;> simp [relocate, Parser.relocate, State.relocate] at htop ⊢

theorem run_of_runTokens_conflict (hm : m.IsUnplaced) (hts : ts.map Located.value = values) {cause : Located Conflict}
    (h : m.runTokens values = .error (.conflict cause)) :
    ∃ span, m.run ts = .error (.conflict ⟨cause.value, span⟩) := by
  rw [runTokens_eq hm hts] at h
  cases hr : m.run ts with
  | ok m'' =>
    rw [hr] at h
    nomatch h
  | error halt =>
    rw [hr] at h
    have moved : halt.relocate (fun _ => nowhere) = .conflict cause := Except.error.inj h
    cases halt with
    | refused | load | finished => nomatch moved
    | conflict cause' =>
      obtain rfl := Halt.conflict.inj moved
      exact ⟨cause'.span, rfl⟩

theorem run_of_runTokens_finished (hm : m.IsUnplaced) (hts : ts.map Located.value = values) {app : App}
    (h : m.runTokens values = .error (.finished app)) : m.run ts = .error (.finished app) := by
  rw [runTokens_eq hm hts] at h
  cases hr : m.run ts with
  | ok m'' =>
    rw [hr] at h
    nomatch h
  | error halt =>
    rw [hr] at h
    have moved : halt.relocate (fun _ => nowhere) = .finished app := Except.error.inj h
    cases halt with
    | refused | load | conflict => nomatch moved
    | finished app' => rw [Halt.finished.inj moved]

end Unplaced

end Machine

end BundleConf
