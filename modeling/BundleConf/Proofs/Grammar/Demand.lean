import BundleConf.Proofs.Grammar.Tree
import BundleConf.Proofs.Parsing.Machine

/-!
# What the state of a parse demands

The state of a machine stands for the constructs that are open, and thus for what the rest of the text has to look like
if the whole is to derive from the grammar: `State.Demands`.  A machine takes a token only if the demand after it is
what is left of the demand before it (`Machine.demands_of_step`).  So a text that a machine has gone through to the end
derives from the grammar (`Machine.demands_of_finished`).
-/

namespace BundleConf

/-! ### Demands -/

/-- The first token is the given one, and the others are as demanded. -/
def Next (t : Token) (demand : List Token → Prop) (ts : List Token) : Prop :=
  ∃ us, ts = t :: us ∧ demand us

/-- The first token is a value, and the others are as demanded. -/
def NextValue (demand : List Token → Prop) (ts : List Token) : Prop :=
  ∃ payload us, ts = .value payload :: us ∧ demand us

/-- The first tokens are derived by some tree, and the others are as demanded. -/
def Follows {α : Type} (tokens : α → List Token) (demand : List Token → Prop) (ts : List Token) : Prop :=
  ∃ tree us, ts = tokens tree ++ us ∧ demand us

/-- The tokens are those of some items, and an end. -/
def EndsText (ts : List Token) : Prop :=
  ∃ items : List Item, ts = items.flatMap Item.tokens ++ [.finish]

/-- The end of a route: what may follow its list. -/
def clausesTokens (clauses : List Clause) : List Token :=
  clauses.flatMap Clause.tokens ++ [.mark .semicolon]

/-- What comes after a package that is declared at the site. -/
def Site.Demands : Site → List Token → Prop
  | .top => EndsText
  | .uiEntry _ _ => Follows EntriesTree.furtherTokens (Follows UiTree.tokens EndsText)
  | .rootRoute _ _ =>
    Follows EntriesTree.furtherTokens (Follows clausesTokens (Follows RoutesTree.tokens EndsText))
  | .packageRoute _ site _ _ =>
    Follows EntriesTree.furtherTokens
      (Follows clausesTokens (Follows RoutesTree.tokens (Follows BodyTree.tokens site.Demands)))

/-- What comes after a routes block. -/
def RoutesBlock.Demands : RoutesBlock → List Token → Prop
  | .root => EndsText
  | .package _ site => Follows BodyTree.tokens site.Demands

/-- What comes after a list. -/
def Listing.Demands : Listing → List Token → Prop
  | .ui _ => Follows UiTree.tokens EndsText
  | .route block _ => Follows clausesTokens (Follows RoutesTree.tokens block.Demands)

theorem Listing.demands_site (listing : Listing) (entries : List String) :
    (listing.site entries).Demands = Follows EntriesTree.furtherTokens listing.Demands := by
  rcases listing with _ | ⟨_ | _, _⟩ <;> rfl

/-- What comes after the given part of a route. -/
def RouteStage.Demands (block : RoutesBlock) : RouteStage → List Token → Prop
  | .template =>
    Follows (fun layout : Option String => layout.elim [] layoutTokens)
      (Follows ListTree.tokens (Follows clausesTokens (Follows RoutesTree.tokens block.Demands)))
  | .layout => Follows ListTree.tokens (Follows clausesTokens (Follows RoutesTree.tokens block.Demands))
  | .options => Follows clausesTokens (Follows RoutesTree.tokens block.Demands)

/-- What comes next in the state. -/
def State.Demands : State → List Token → Prop
  | .top => EndsText
  | .middlewareName => NextValue (Next (.mark .semicolon) EndsText)
  | .middlewareEnd _ => Next (.mark .semicolon) EndsText
  | .includePath => NextValue (Next (.mark .semicolon) EndsText)
  | .includeEnd _ => Next (.mark .semicolon) EndsText
  | .packageName site => Follows (fun header : Header => header.tokens.tail) (Follows BodyTree.tokens site.Demands)
  | .packageOpen _ site => Next (.mark .leftBrace) (Follows BodyTree.tokens site.Demands)
  | .packageBody _ site => Follows BodyTree.tokens site.Demands
  | .statementValue _ site _ => NextValue (Next (.mark .semicolon) (Follows BodyTree.tokens site.Demands))
  | .statementEnd _ site _ _ => Next (.mark .semicolon) (Follows BodyTree.tokens site.Demands)
  | .routesOpen block => Next (.mark .leftBrace) (Follows RoutesTree.tokens block.Demands)
  | .routesBody block => Follows RoutesTree.tokens block.Demands
  | .routeColon block _ => Next (.mark .colon) (NextValue (RouteStage.Demands block .template))
  | .routeTemplate block _ => NextValue (RouteStage.Demands block .template)
  | .routeRest block _ stage => stage.Demands block
  | .routeOption block _ => fun ts => RouteStage.Demands block .options (.mark .comma :: ts)
  | .layoutColon block _ stage => Next (.mark .colon) (NextValue (stage.Demands block))
  | .layoutValue block _ stage => NextValue (stage.Demands block)
  | .uiOpen => Next (.mark .leftBrace) (Follows UiTree.tokens EndsText)
  | .uiBody => Follows UiTree.tokens EndsText
  | .listOpen field => Next (.mark .leftBracket) (Follows EntriesTree.tokens (Listing.ui field).Demands)
  | .listStart listing => Follows EntriesTree.tokens listing.Demands
  | .listEntry listing _ => fun ts => Follows EntriesTree.furtherTokens listing.Demands (.mark .comma :: ts)
  | .listMore listing _ => Follows EntriesTree.furtherTokens listing.Demands

theorem Site.demands_resume (site : Site) (name : String) : (site.resume name).Demands = site.Demands := by
  cases site <;> rfl

theorem RoutesBlock.demands_resume (block : RoutesBlock) : block.resume.Demands = block.Demands := by
  cases block <;> rfl

/-! ### Demands in terms of what is read next -/

section Composition

variable {demand : List Token → Prop} {ts : List Token}

theorem EndsText.declaration (d : Declaration) (h : EndsText ts) : EndsText (d.tokens ++ ts) := by
  obtain ⟨items, rfl⟩ := h
  exact ⟨.declaration d :: items, by simp [Item.tokens]⟩

theorem EndsText.include (h : NextValue (Next (.mark .semicolon) EndsText) ts) :
    EndsText (.keyword .include :: ts) := by
  obtain ⟨requested, _, rfl, _, rfl, items, rfl⟩ := h
  exact ⟨.inclusion requested :: items, rfl⟩

theorem EndsText.middleware (h : NextValue (Next (.mark .semicolon) EndsText) ts) :
    EndsText (.keyword .middleware :: ts) := by
  obtain ⟨name, _, rfl, us, rfl, h⟩ := h
  exact h.declaration (.middleware name)

theorem EndsText.package
    (h : Follows (fun header : Header => header.tokens.tail) (Follows BodyTree.tokens EndsText) ts) :
    EndsText (.keyword .package :: ts) := by
  obtain ⟨header, _, rfl, body, us, rfl, h⟩ := h
  have htokens : (Declaration.package header body).tokens ++ us =
      .keyword .package :: (header.tokens.tail ++ (body.tokens ++ us)) := by
    cases header <;> simp [Declaration.tokens, Header.tokens]
  rw [← htokens]
  exact h.declaration _

theorem EndsText.routes (h : Next (.mark .leftBrace) (Follows RoutesTree.tokens EndsText) ts) :
    EndsText (.keyword .routes :: ts) := by
  obtain ⟨_, rfl, block, us, rfl, h⟩ := h
  exact h.declaration (.routes block)

theorem EndsText.ui (h : Next (.mark .leftBrace) (Follows UiTree.tokens EndsText) ts) :
    EndsText (.keyword .ui :: ts) := by
  obtain ⟨_, rfl, tree, us, rfl, h⟩ := h
  exact h.declaration (.ui tree)

theorem Follows.body_statement (field : PackageField)
    (h : NextValue (Next (.mark .semicolon) (Follows BodyTree.tokens demand)) ts) :
    Follows BodyTree.tokens demand (.keyword (.statement field) :: ts) := by
  obtain ⟨value, _, rfl, _, rfl, rest, us, rfl, h⟩ := h
  exact ⟨.statement field value rest, us, rfl, h⟩

theorem Follows.body_routes
    (h : Next (.mark .leftBrace) (Follows RoutesTree.tokens (Follows BodyTree.tokens demand)) ts) :
    Follows BodyTree.tokens demand (.keyword .routes :: ts) := by
  obtain ⟨_, rfl, block, _, rfl, rest, us, rfl, h⟩ := h
  exact ⟨.routes block rest, us, by simp [BodyTree.tokens], h⟩

theorem Follows.clauses (clause : Clause) (h : Follows clausesTokens demand ts) :
    Follows clausesTokens demand (clause.tokens ++ ts) := by
  obtain ⟨clauses, us, rfl, h⟩ := h
  exact ⟨clause :: clauses, us, by simp [clausesTokens], h⟩

theorem Follows.route (block : RoutesBlock)
    (h : Next (.mark .colon) (NextValue (RouteStage.Demands block .template)) ts) (path : String) :
    Follows RoutesTree.tokens block.Demands (.value path :: ts) := by
  obtain ⟨_, rfl, template, _, rfl, layout, _, rfl, list, _, rfl, clauses, _, rfl, rest, us, rfl, h⟩ := h
  exact ⟨.route path template layout list clauses rest, us, by simp [RoutesTree.tokens, clausesTokens], h⟩

theorem Follows.ui_list (field : UiField)
    (h : Next (.mark .leftBracket) (Follows EntriesTree.tokens (Follows UiTree.tokens demand)) ts) :
    Follows UiTree.tokens demand (.keyword (.list field) :: ts) := by
  obtain ⟨_, rfl, entries, _, rfl, rest, us, rfl, h⟩ := h
  exact ⟨.list field entries rest, us, by simp [UiTree.tokens], h⟩

end Composition

/-! ### Routes -/

section Route

variable {block : RoutesBlock} {stage : RouteStage} {ts : List Token}

/-- What may follow the list of a route may follow any part of it. -/
theorem RouteStage.demands_of_options (h : RouteStage.options.Demands block ts) : stage.Demands block ts := by
  cases stage with
  | template => exact ⟨none, ts, rfl, .absent, ts, rfl, h⟩
  | layout => exact ⟨.absent, ts, rfl, h⟩
  | options => exact h

theorem RouteStage.demands_layout (h : Next (.mark .colon) (NextValue (stage.afterLayout.Demands block)) ts) :
    stage.Demands block (.keyword .layout :: ts) := by
  obtain ⟨_, rfl, name, us, rfl, h⟩ := h
  cases stage with
  | template => exact ⟨some name, us, rfl, h⟩
  | layout => exact demands_of_options (Follows.clauses (.layout false name) h)
  | options => exact Follows.clauses (.layout false name) h

theorem RouteStage.demands_list (draft : RouteDraft) (hstage : stage ≠ .options)
    (h : Follows EntriesTree.tokens (Listing.route block draft).Demands ts) :
    stage.Demands block (.mark .leftBracket :: ts) := by
  obtain ⟨entries, us, rfl, h⟩ := h
  cases stage with
  | template => exact ⟨none, _, rfl, .present entries, us, rfl, h⟩
  | layout => exact ⟨.present entries, us, rfl, h⟩
  | options => exact absurd rfl hstage

theorem RouteStage.demands_semicolon (h : Follows RoutesTree.tokens block.Demands ts) :
    stage.Demands block (.mark .semicolon :: ts) :=
  demands_of_options ⟨[], ts, rfl, h⟩

end Route

/-! ### One token -/

namespace Parser

variable {p p' : Parser} {t : Token} {us : List Token}

private theorem demands_of_goOn {state : State} (h : p.goOn state = .take (.ok p')) (hd : p'.state.Demands us) :
    state.Demands us := by
  simp only [goOn, Reaction.take.injEq, Except.ok.injEq] at h
  rw [← h] at hd
  exact hd

private theorem demands_atMark {m : Mark} {state : State} (h : p.atMark m state t = .take (.ok p'))
    (hd : p'.state.Demands us) : Next (.mark m) state.Demands (t :: us) := by
  unfold atMark at h
  split at h
  · split at h
    · rename_i m' hm
      obtain rfl : m' = m := hm
      exact ⟨us, rfl, demands_of_goOn h hd⟩
    · simp [need] at h
  · simp [need] at h

private theorem demands_atValue {state : String → State} {demand : List Token → Prop}
    (hstate : ∀ payload, (state payload).Demands = demand) (h : p.atValue state t = .take (.ok p'))
    (hd : p'.state.Demands us) : NextValue demand (t :: us) := by
  unfold atValue at h
  split at h
  · rename_i payload
    exact ⟨payload, us, rfl, hstate payload ▸ demands_of_goOn h hd⟩
  · simp [needValue] at h

private theorem demands_atTop (h : p.atTop t = .take (.ok p')) (hd : p'.state.Demands us) : EndsText (t :: us) := by
  unfold atTop at h
  split at h
  case h_1 => exact EndsText.package (demands_of_goOn h hd)
  case h_2 => exact EndsText.routes (demands_of_goOn h hd)
  case h_3 => exact EndsText.ui (demands_of_goOn h hd)
  case h_4 => exact EndsText.middleware (demands_of_goOn h hd)
  case h_5 => exact EndsText.include (demands_of_goOn h hd)
  case h_6 =>
    have hd : EndsText us := demands_of_goOn h hd
    exact hd.declaration .stray
  all_goals simp at h

private theorem demands_atPackageBody {package : OpenPackage} {site : Site}
    (h : p.atPackageBody package site t = .take (.ok p')) (hd : p'.state.Demands us) :
    Follows BodyTree.tokens site.Demands (t :: us) := by
  unfold atPackageBody at h
  split at h
  case h_1 => exact Follows.body_statement _ (demands_of_goOn h hd)
  case h_2 => exact Follows.body_routes (demands_of_goOn h hd)
  case h_3 =>
    obtain ⟨rest, ts, rfl, hrest⟩ : Follows BodyTree.tokens site.Demands us := demands_of_goOn h hd
    exact ⟨.stray rest, ts, rfl, hrest⟩
  case h_4 =>
    have hd := demands_of_goOn h hd
    rw [Site.demands_resume] at hd
    exact ⟨.done, us, rfl, hd⟩
  case h_5 => simp [need] at h

private theorem demands_atRoutesBody {block : RoutesBlock} {span : Span}
    (h : p.atRoutesBody block span t = .take (.ok p')) (hd : p'.state.Demands us) :
    Follows RoutesTree.tokens block.Demands (t :: us) := by
  unfold atRoutesBody at h
  split at h
  case h_1 => exact Follows.route block (demands_of_goOn h hd) _
  case h_2 =>
    obtain ⟨rest, ts, rfl, hrest⟩ : Follows RoutesTree.tokens block.Demands us := demands_of_goOn h hd
    exact ⟨.stray rest, ts, rfl, hrest⟩
  case h_3 =>
    have hd := demands_of_goOn h hd
    rw [RoutesBlock.demands_resume] at hd
    exact ⟨.done, us, rfl, hd⟩
  case h_4 => simp [need] at h

private theorem demands_atRouteRest {block : RoutesBlock} {draft : RouteDraft} {stage : RouteStage}
    (h : p.atRouteRest block draft stage t = .take (.ok p')) (hd : p'.state.Demands us) :
    stage.Demands block (t :: us) := by
  unfold atRouteRest at h
  split at h
  case h_1 => exact RouteStage.demands_layout (demands_of_goOn h hd)
  case h_2 =>
    split at h
    · simp [need] at h
    · rename_i hstage
      exact RouteStage.demands_list draft hstage (demands_of_goOn h hd)
  case h_3 =>
    have hd : RouteStage.options.Demands block (.mark .comma :: us) := demands_of_goOn h hd
    exact RouteStage.demands_of_options hd
  case h_4 =>
    rw [closeRoute] at h
    split at h
    · simp at h
    · simp only [Reaction.take.injEq, Except.ok.injEq] at h
      rw [← h] at hd
      exact RouteStage.demands_semicolon hd
  case h_5 => simp [need] at h

private theorem demands_atRouteOption {block : RoutesBlock} {draft : RouteDraft}
    (h : p.atRouteOption block draft t = .take (.ok p')) (hd : p'.state.Demands us) :
    RouteStage.options.Demands block (.mark .comma :: t :: us) := by
  unfold atRouteOption at h
  split at h
  case h_1 f =>
    have hd : RouteStage.options.Demands block us := demands_of_goOn h hd
    exact Follows.clauses (.flag f) hd
  case h_2 =>
    obtain ⟨_, rfl, name, ts, rfl, hrest⟩ : Next (.mark .colon) (NextValue (RouteStage.options.Demands block)) us :=
      demands_of_goOn h hd
    exact Follows.clauses (.layout true name) hrest
  case h_3 => simp at h

private theorem demands_atUiBody (h : p.atUiBody t = .take (.ok p')) (hd : p'.state.Demands us) :
    Follows UiTree.tokens EndsText (t :: us) := by
  unfold atUiBody at h
  split at h
  case h_1 => exact Follows.ui_list _ (demands_of_goOn h hd)
  case h_2 =>
    obtain ⟨rest, ts, rfl, hrest⟩ : Follows UiTree.tokens EndsText us := demands_of_goOn h hd
    exact ⟨.stray rest, ts, rfl, hrest⟩
  case h_3 =>
    have hd : EndsText us := demands_of_goOn h hd
    exact ⟨.done, us, rfl, hd⟩
  case h_4 => simp [need] at h

private theorem demands_closeList (listing : Listing) (entries : List String) :
    (p.closeList listing entries).state.Demands = listing.Demands := by
  cases listing <;> rfl

/-- An entry can be the first of a list, or come after a comma. -/
private theorem demands_atEntry {listing : Listing} {entries : List String}
    (h : p.atEntry listing entries t = .take (.ok p')) (hd : p'.state.Demands us) :
    Follows EntriesTree.tokens listing.Demands (t :: us) ∧
      Follows EntriesTree.furtherTokens listing.Demands (.mark .comma :: t :: us) := by
  unfold atEntry at h
  split at h
  case h_1 name =>
    obtain ⟨rest, ts, rfl, hrest⟩ : Follows EntriesTree.furtherTokens listing.Demands us := demands_of_goOn h hd
    exact ⟨⟨.value name rest, ts, rfl, hrest⟩, ⟨.value name rest, ts, rfl, hrest⟩⟩
  case h_2 =>
    have hd := demands_of_goOn h hd
    rw [State.Demands, Listing.demands_site] at hd
    obtain ⟨header, _, rfl, body, _, rfl, rest, ts, rfl, hrest⟩ := hd
    refine ⟨⟨.package header body rest, ts, ?_, hrest⟩, ⟨.package header body rest, ts, ?_, hrest⟩⟩
    · cases header <;> simp [EntriesTree.tokens, Header.tokens]
    · cases header <;> simp [EntriesTree.furtherTokens, Header.tokens]
  case h_3 => simp at h

private theorem demands_atListMore {listing : Listing} {entries : List String}
    (h : p.atListMore listing entries t = .take (.ok p')) (hd : p'.state.Demands us) :
    Follows EntriesTree.furtherTokens listing.Demands (t :: us) := by
  unfold atListMore at h
  split at h
  case h_1 => exact demands_of_goOn h hd
  case h_2 =>
    simp only [Reaction.take.injEq, Except.ok.injEq] at h
    rw [← h, demands_closeList] at hd
    exact ⟨.done, us, rfl, hd⟩
  case h_3 => simp [need] at h

/-- A token that is taken is one that the state demands, if the next state's demand is met after it. -/
theorem demands_of_react {t : Located Token} (h : p.react t = .take (.ok p')) (hd : p'.state.Demands us) :
    p.state.Demands (t.value :: us) := by
  obtain ⟨app, state⟩ := p
  cases state with
  | top => exact demands_atTop h hd
  | middlewareName => exact demands_atValue (fun _ => rfl) h hd
  | middlewareEnd name => exact demands_atMark h hd
  | includePath => exact demands_atValue (fun _ => rfl) h hd
  | includeEnd path =>
    simp only [react] at h
    split at h <;> simp [need] at h
  | packageName site =>
    simp only [react] at h
    split at h
    · rename_i name hname
      rw [declare] at h
      split at h
      · simp at h
      · simp only [Reaction.take.injEq, Except.ok.injEq] at h
        rw [← h] at hd
        obtain ⟨_, rfl, hrest⟩ := hd
        rw [hname]
        exact ⟨.given name, _, rfl, hrest⟩
    · simp [need] at h
  | packageOpen package site => exact demands_atMark h hd
  | packageBody package site => exact demands_atPackageBody h hd
  | statementValue package site field => exact demands_atValue (fun _ => rfl) h hd
  | statementEnd package site field value => exact demands_atMark h hd
  | routesOpen block => exact demands_atMark h hd
  | routesBody block => exact demands_atRoutesBody h hd
  | routeColon block path => exact demands_atMark h hd
  | routeTemplate block path => exact demands_atValue (fun _ => rfl) h hd
  | routeRest block draft stage => exact demands_atRouteRest h hd
  | routeOption block draft => exact demands_atRouteOption h hd
  | layoutColon block draft stage => exact demands_atMark h hd
  | layoutValue block draft stage => exact demands_atValue (fun _ => rfl) h hd
  | uiOpen => exact demands_atMark h hd
  | uiBody => exact demands_atUiBody h hd
  | listOpen field => exact demands_atMark h hd
  | listStart listing =>
    simp only [react] at h
    split at h
    · rename_i ht
      simp only [Reaction.take.injEq, Except.ok.injEq] at h
      rw [← h, demands_closeList] at hd
      rw [ht]
      exact ⟨.done, us, rfl, hd⟩
    · exact (demands_atEntry h hd).1
  | listEntry listing entries => exact (demands_atEntry h hd).2
  | listMore listing entries => exact demands_atListMore h hd

end Parser

/-! ### Some tokens -/

namespace Machine

variable {m m' : Machine} {t : Located Token} {us : List Token}

theorem demands_of_step (h : m.step t = .ok m') (hd : m'.parser.state.Demands us) :
    m.parser.state.Demands (t.value :: us) := by
  obtain ⟨hreact, -⟩ := react_of_step_ok h
  have named := Parser.demands_of_react hreact hd
  unfold Machine.named at named
  split at named
  · exact named
  · -- the package has been given no name, which is told from the brace of its body
    rename_i site hstate hvalue
    obtain ⟨us', htokens, hrest⟩ := named
    rw [hstate]
    exact ⟨.generated 0, us', htokens, hrest⟩
  · exact named

theorem demands_of_run {ts : List (Located Token)} (h : m.run ts = .ok m') (hd : m'.parser.state.Demands us) :
    m.parser.state.Demands (ts.map Located.value ++ us) := by
  induction ts generalizing m with
  | nil =>
    obtain rfl : m = m' := by simpa using h
    exact hd
  | cons t ts ih =>
    cases hs : m.step t with
    | error halt => simp [run_cons_of_error hs] at h
    | ok m'' =>
      rw [run_cons_of_ok hs] at h
      exact demands_of_step hs (ih h)

/-- A text that a machine goes through to its end derives from the grammar. -/
theorem demands_of_finished {ts : List (Located Token)} {app : App} (h : m.run ts = .error (.finished app)) :
    ∃ us t rest, ts = us ++ t :: rest ∧ t.value = .finish ∧ (∀ u ∈ us, u.value ≠ .finish) ∧
      m.parser.state.Demands (us.map Located.value ++ [.finish]) := by
  obtain ⟨us, t, rest, m', rfl, hrun, hstep⟩ := exists_step_of_run_error h
  obtain ⟨hstate, ht, -⟩ := react_of_step_finished hstep
  have hend : m'.parser.state.Demands [.finish] := by
    rw [hstate]
    exact ⟨[], rfl⟩
  exact ⟨us, t, rest, rfl, ht, value_ne_finish_of_run hrun, demands_of_run hrun hend⟩

end Machine

end BundleConf
