import BundleConf.Proofs.Grammar.Demand

/-!
# What a parser expects where it refuses a token

The state of a parser alone decides what it says that it expects (`State.expectation`).  What a state expects can come
next: for every kind that is named there is a token of the kind, and a rest of the text after it, that meet the demand
of the state (`State.admits_expectation`).  So what has been read can always be completed (`State.exists_demands`).
Whether a token is refused depends only on its kind (`Machine.refused_of_kind`).
-/

namespace BundleConf

/-! ### What is named -/

/-- What an expectation names: a kind of token, or any of the words that mark a route. -/
inductive Alternative where
  | kind (kind : Kind)
  | routeOption
  deriving DecidableEq, Repr

namespace Alternative

def text : Alternative → String
  | kind k => k.text
  | routeOption => "route option"

/-- The kinds that the alternative stands for. -/
def kinds : Alternative → List Kind
  | kind k => [k]
  | routeOption => [.keyword (.flag .error404), .keyword (.flag .index), .keyword (.flag .isPrivate),
      .keyword (.flag .dialog)]

end Alternative

/-- The texts, with commas between them and a word before the last. -/
def enumerate : List String → String
  | [] => ""
  | [text] => text
  | [text, last] => text ++ " or " ++ last
  | text :: texts => text ++ ", " ++ enumerate texts

namespace Expectation

def alternatives : Expectation → List Alternative
  | kind k => [.kind k]
  | declaration => [.kind (.keyword .package), .kind (.keyword .routes), .kind (.keyword .ui),
      .kind (.keyword .middleware), .kind (.keyword .include)]
  | routeOption => [.routeOption, .kind (.keyword .layout)]
  | entry => [.kind .value, .kind (.keyword .package)]

/-- An expectation is worded by naming its alternatives. -/
theorem text_eq_enumerate (e : Expectation) : e.text = enumerate (e.alternatives.map Alternative.text) := by
  cases e with
  | kind k => rfl
  | declaration => decide +kernel
  | routeOption => decide +kernel
  | entry => decide +kernel

end Expectation

/-- What the parser expects in the state where it refuses a token. -/
def State.expectation : State → Expectation
  | .top => .declaration
  | .middlewareName | .includePath | .statementValue _ _ _ | .routeTemplate _ _ | .layoutValue _ _ _ => .kind .value
  | .middlewareEnd _ | .includeEnd _ | .statementEnd _ _ _ _ | .routeRest _ _ _ => .kind (.mark .semicolon)
  | .packageName _ | .packageOpen _ _ | .routesOpen _ | .uiOpen => .kind (.mark .leftBrace)
  | .packageBody _ _ | .routesBody _ | .uiBody => .kind (.mark .rightBrace)
  | .routeColon _ _ | .layoutColon _ _ _ => .kind (.mark .colon)
  | .routeOption _ _ => .routeOption
  | .listOpen _ => .kind (.mark .leftBracket)
  | .listStart _ | .listEntry _ _ => .entry
  | .listMore _ _ => .kind (.mark .rightBracket)

/-! ### Demands that can be met -/

/-- The demand can be met by tokens of which the first is of the kind. -/
def Admits (demand : List Token → Prop) (kind : Kind) : Prop :=
  ∃ u us, u.kind = kind ∧ demand (u :: us)

section Admits

variable {demand : List Token → Prop}

theorem Admits.exists {kind : Kind} (h : Admits demand kind) : ∃ ts, demand ts := by
  obtain ⟨u, us, -, hdemand⟩ := h
  exact ⟨u :: us, hdemand⟩

theorem admits_next (m : Mark) (h : ∃ ts, demand ts) : Admits (Next (.mark m) demand) (.mark m) := by
  obtain ⟨ts, hts⟩ := h
  exact ⟨.mark m, ts, rfl, ts, rfl, hts⟩

theorem admits_nextValue (h : ∃ ts, demand ts) : Admits (NextValue demand) .value := by
  obtain ⟨ts, hts⟩ := h
  exact ⟨.value "", ts, rfl, "", ts, rfl, hts⟩

/-- What a tree begins with can come next. -/
theorem admits_follows {α : Type} {tokens : α → List Token} {kind : Kind} (tree : α) (u : Token) (us : List Token)
    (htree : tokens tree = u :: us) (hkind : u.kind = kind) (h : ∃ ts, demand ts) :
    Admits (Follows tokens demand) kind := by
  obtain ⟨ts, hts⟩ := h
  exact ⟨u, us ++ ts, hkind, tree, ts, by rw [htree, List.cons_append], hts⟩

theorem exists_follows {α : Type} {tokens : α → List Token} (tree : α) (h : ∃ ts, demand ts) :
    ∃ ts, Follows tokens demand ts := by
  obtain ⟨ts, hts⟩ := h
  exact ⟨tokens tree ++ ts, tree, ts, rfl, hts⟩

end Admits

theorem exists_endsText : ∃ ts, EndsText ts :=
  ⟨[.finish], [], rfl⟩

theorem Site.exists_demands (site : Site) : ∃ ts, site.Demands ts := by
  induction site with
  | top => exact exists_endsText
  | uiEntry field entries => exact exists_follows EntriesTree.done (exists_follows UiTree.done exists_endsText)
  | rootRoute draft entries =>
    exact exists_follows EntriesTree.done
      (exists_follows ([] : List Clause) (exists_follows RoutesTree.done exists_endsText))
  | packageRoute package site draft entries ih =>
    exact exists_follows EntriesTree.done
      (exists_follows ([] : List Clause) (exists_follows RoutesTree.done (exists_follows BodyTree.done ih)))

theorem RoutesBlock.exists_demands (block : RoutesBlock) : ∃ ts, block.Demands ts := by
  cases block with
  | root => exact exists_endsText
  | package package site => exact exists_follows BodyTree.done site.exists_demands

theorem Listing.exists_demands (listing : Listing) : ∃ ts, listing.Demands ts := by
  cases listing with
  | ui field => exact exists_follows UiTree.done exists_endsText
  | route block draft =>
    exact exists_follows ([] : List Clause) (exists_follows RoutesTree.done block.exists_demands)

/-- A route can end after every part of it. -/
theorem RouteStage.admits_semicolon (block : RoutesBlock) (stage : RouteStage) :
    Admits (stage.Demands block) (.mark .semicolon) := by
  obtain ⟨ts, hts⟩ := block.exists_demands
  exact ⟨.mark .semicolon, _, rfl, RouteStage.demands_semicolon ⟨.done, ts, rfl, hts⟩⟩

theorem RouteStage.exists_demands (block : RoutesBlock) (stage : RouteStage) : ∃ ts, stage.Demands block ts :=
  (stage.admits_semicolon block).exists

/-! ### States -/

/-- A declaration can begin between declarations, by each of its words. -/
private theorem admits_declaration {a : Alternative} (ha : a ∈ Expectation.declaration.alternatives) {kind : Kind}
    (hkind : kind ∈ a.kinds) : Admits EndsText kind := by
  have ends : EndsText [.finish] := ⟨[], rfl⟩
  simp only [Expectation.alternatives, List.mem_cons, List.not_mem_nil, or_false] at ha
  rcases ha with rfl | rfl | rfl | rfl | rfl <;> obtain rfl := List.mem_singleton.1 hkind
  · exact ⟨.keyword .package, _, rfl, EndsText.package ⟨.generated 0, _, rfl, .done, _, rfl, ends⟩⟩
  · exact ⟨.keyword .routes, _, rfl, EndsText.routes ⟨_, rfl, .done, _, rfl, ends⟩⟩
  · exact ⟨.keyword .ui, _, rfl, EndsText.ui ⟨_, rfl, .done, _, rfl, ends⟩⟩
  · exact ⟨.keyword .middleware, _, rfl, EndsText.middleware ⟨"", _, rfl, _, rfl, ends⟩⟩
  · exact ⟨.keyword .include, _, rfl, EndsText.include ⟨"", _, rfl, _, rfl, ends⟩⟩

/-- After a comma a route can go on with each flag, or with a layout. -/
private theorem admits_routeOption (block : RoutesBlock) {a : Alternative}
    (ha : a ∈ Expectation.routeOption.alternatives) {kind : Kind} (hkind : kind ∈ a.kinds) :
    Admits (fun ts => RouteStage.options.Demands block (.mark .comma :: ts)) kind := by
  obtain ⟨ts, hts⟩ := RouteStage.options.exists_demands block
  simp only [Expectation.alternatives, List.mem_cons, List.not_mem_nil, or_false] at ha
  rcases ha with rfl | rfl
  · obtain ⟨flag, rfl⟩ : ∃ flag, kind = .keyword (.flag flag) := by
      simp only [Alternative.kinds, List.mem_cons, List.not_mem_nil, or_false] at hkind
      rcases hkind with rfl | rfl | rfl | rfl <;> exact ⟨_, rfl⟩
    exact ⟨.keyword (.flag flag), ts, rfl, Follows.clauses (.flag flag) hts⟩
  · obtain rfl := List.mem_singleton.1 hkind
    exact ⟨.keyword .layout, _, rfl, Follows.clauses (.layout true "") hts⟩

/-- An entry can be the first of a list, or come after a comma. -/
private theorem admits_entry (listing : Listing) {a : Alternative} (ha : a ∈ Expectation.entry.alternatives)
    {kind : Kind} (hkind : kind ∈ a.kinds) : Admits (Follows EntriesTree.tokens listing.Demands) kind ∧
      Admits (fun ts => Follows EntriesTree.furtherTokens listing.Demands (.mark .comma :: ts)) kind := by
  obtain ⟨ts, hts⟩ := listing.exists_demands
  simp only [Expectation.alternatives, List.mem_cons, List.not_mem_nil, or_false] at ha
  rcases ha with rfl | rfl <;> obtain rfl := List.mem_singleton.1 hkind
  · exact ⟨⟨.value "", _, rfl, .value "" .done, ts, rfl, hts⟩, ⟨.value "", _, rfl, .value "" .done, ts, rfl, hts⟩⟩
  · exact ⟨⟨.keyword .package, _, rfl, .package (.generated 0) .done .done, ts, rfl, hts⟩,
      ⟨.keyword .package, _, rfl, .package (.generated 0) .done .done, ts, rfl, hts⟩⟩

/-- Whatever a state expects can come next. -/
theorem State.admits_expectation (state : State) {a : Alternative} (ha : a ∈ state.expectation.alternatives)
    {kind : Kind} (hkind : kind ∈ a.kinds) : Admits state.Demands kind := by
  -- where a single kind is expected it is the kind
  have single {k : Kind} (hstate : state.expectation = .kind k) (h : Admits state.Demands k) :
      Admits state.Demands kind := by
    rw [hstate] at ha
    obtain rfl := List.mem_singleton.1 ha
    obtain rfl := List.mem_singleton.1 hkind
    exact h
  have ends := exists_endsText
  cases state with
  | top => exact admits_declaration ha hkind
  | middlewareName => exact single rfl (admits_nextValue (admits_next .semicolon ends).exists)
  | middlewareEnd name => exact single rfl (admits_next .semicolon ends)
  | includePath => exact single rfl (admits_nextValue (admits_next .semicolon ends).exists)
  | includeEnd path => exact single rfl (admits_next .semicolon ends)
  | packageName site =>
    have body : ∃ ts, Follows BodyTree.tokens site.Demands ts := exists_follows .done site.exists_demands
    exact single rfl (admits_follows (.generated 0) (.mark .leftBrace) [] rfl rfl body)
  | packageOpen package site =>
    exact single rfl (admits_next .leftBrace (exists_follows BodyTree.done site.exists_demands))
  | packageBody package site =>
    exact single rfl (admits_follows .done (.mark .rightBrace) [] rfl rfl site.exists_demands)
  | statementValue package site field =>
    have body : ∃ ts, Follows BodyTree.tokens site.Demands ts := exists_follows .done site.exists_demands
    exact single rfl (admits_nextValue (admits_next .semicolon body).exists)
  | statementEnd package site field value =>
    exact single rfl (admits_next .semicolon (exists_follows BodyTree.done site.exists_demands))
  | routesOpen block =>
    exact single rfl (admits_next .leftBrace (exists_follows RoutesTree.done block.exists_demands))
  | routesBody block =>
    exact single rfl (admits_follows .done (.mark .rightBrace) [] rfl rfl block.exists_demands)
  | routeColon block path =>
    have template := RouteStage.template.exists_demands block
    exact single rfl (admits_next .colon (admits_nextValue template).exists)
  | routeTemplate block path => exact single rfl (admits_nextValue (RouteStage.template.exists_demands block))
  | routeRest block draft stage => exact single rfl (stage.admits_semicolon block)
  | routeOption block draft => exact admits_routeOption block ha hkind
  | layoutColon block draft stage =>
    exact single rfl (admits_next .colon (admits_nextValue (stage.exists_demands block)).exists)
  | layoutValue block draft stage => exact single rfl (admits_nextValue (stage.exists_demands block))
  | uiOpen => exact single rfl (admits_next .leftBrace (exists_follows UiTree.done ends))
  | uiBody => exact single rfl (admits_follows .done (.mark .rightBrace) [] rfl rfl ends)
  | listOpen field =>
    have entries : ∃ ts, Follows EntriesTree.tokens (Listing.ui field).Demands ts :=
      exists_follows .done (Listing.ui field).exists_demands
    exact single rfl (admits_next .leftBracket entries)
  | listStart listing => exact (admits_entry listing ha hkind).1
  | listEntry listing entries => exact (admits_entry listing ha hkind).2
  | listMore listing entries =>
    exact single rfl (admits_follows .done (.mark .rightBracket) [] rfl rfl listing.exists_demands)

/-- So every state can be brought to an end of the text. -/
theorem State.exists_demands (state : State) : ∃ ts, state.Demands ts := by
  obtain ⟨a, kind, ha, hkind⟩ : ∃ a kind, a ∈ state.expectation.alternatives ∧ kind ∈ a.kinds := by
    cases state.expectation <;> exact ⟨_, _, List.mem_cons_self, List.mem_cons_self⟩
  exact (state.admits_expectation ha hkind).exists

/-! ### Refusals -/

/-- Tokens of one kind differ at most in the payload of a value or of a comment. -/
private theorem Token.cases_of_kind {t u : Token} (h : u.kind = t.kind) :
    u = t ∨ (∃ a b, t = .value a ∧ u = .value b) ∨ ∃ a b, t = .comment a ∧ u = .comment b := by
  cases t <;> cases u <;> simp_all [Token.kind]

namespace Parser

variable {p : Parser} {t u : Located Token} {expected : Expectation}

theorem expectation_of_refuse (h : p.react t = .refuse expected) : expected = p.state.expectation := by
  obtain ⟨app, state⟩ := p
  cases state <;>
    simp only [react, atTop, atValue, atMark, atPackageBody, atRoutesBody, atRouteRest, atRouteOption, atUiBody,
      atEntry, atListMore, need, needValue, goOn] at h <;>
    (repeat' split at h) <;>
    simp only [Reaction.refuse.injEq, reduceCtorEq] at h <;>
    exact h.symm

/-- What is refused is refused for its kind. -/
theorem refuse_of_kind (h : p.react t = .refuse expected) (hkind : u.value.kind = t.value.kind) :
    p.react u = .refuse expected := by
  obtain ⟨app, state⟩ := p
  obtain ⟨t, span⟩ := t
  obtain ⟨u, span'⟩ := u
  rcases Token.cases_of_kind hkind with heq | ⟨a, b, ha, hb⟩ | ⟨a, b, ha, hb⟩
  · -- the spans matter only where a value is kept, and there it is not refused
    obtain rfl : u = t := heq
    cases state
    case includePath => cases u <;> first | exact h | simp [react, atValue, goOn] at h
    case packageName => cases u <;> first | exact h | simp [react] at h
    case routesBody =>
      cases u with
      | value payload => simp [react, atRoutesBody, goOn] at h
      | mark m => cases m <;> exact h
      | _ => exact h
    all_goals exact h
  · obtain rfl : t = .value a := ha
    obtain rfl : u = .value b := hb
    cases state <;> first | exact h | simp [react, atValue, atRoutesBody, atEntry, goOn] at h
  · obtain rfl : t = .comment a := ha
    obtain rfl : u = .comment b := hb
    cases state <;> exact h

end Parser

namespace Machine

variable {m : Machine} {t u : Located Token} {expected : Expectation}

theorem expectation_of_refused (h : m.step t = .error (.refused expected)) :
    expected = m.parser.state.expectation := by
  have named : (m.named t.value).parser.state.expectation = m.parser.state.expectation := by
    unfold Machine.named
    split
    · rfl
    · -- a package that gets no name is expected to go on as one that has got one
      rename_i site hstate _
      rw [hstate]
      rfl
    · rfl
  rw [Parser.expectation_of_refuse (react_of_step_refused h), named]

theorem refused_of_kind (h : m.step t = .error (.refused expected)) (hkind : u.value.kind = t.value.kind) :
    m.step u = .error (.refused expected) := by
  have named : m.named u.value = m.named t.value := by
    obtain ⟨generated, app, state⟩ := m
    rcases Token.cases_of_kind hkind with heq | ⟨a, b, ha, hb⟩ | ⟨a, b, ha, hb⟩
    · rw [heq]
    · rw [ha, hb]
      cases state <;> rfl
    · rw [ha, hb]
      cases state <;> rfl
  rw [step, named, Parser.refuse_of_kind (react_of_step_refused h) hkind]

end Machine

end BundleConf
