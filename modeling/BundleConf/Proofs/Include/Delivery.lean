import BundleConf.Proofs.Include.Visiting

/-!
# Every token is delivered once

A run of a session that comes to its end has passed the tokens of every source that it has read: all but the end, once
each, and in their order, however the files include each other (`Session.tokens_passed_once`).  A parse that yields an
application is such a run.
-/

namespace BundleConf

namespace Session

variable {s₀ s s' : Session}

/-- At the end of a run every source that it has read has been lexed to its end, and its tokens have been passed. -/
private theorem exists_lex_of_isFinished {s₁ : Session} {passed : List (Located Token)} (hopen : s₀.Opens s₁)
    (hpasses : s₁.Passes passed s) (hfinished : s.isFinished = true) {number : Nat} {source : Source}
    (hnumber : s₀.sources.size ≤ number) (hsource : s.sources.get? number = some source) :
    ∃ us e, lex source.text = .ok (us ++ [e]) ∧ e.value = .finish ∧
      passed.filter (·.span.source = number) = us.map (·.inSource number) := by
  obtain ⟨accounts, -⟩ := hpasses.accounts hopen
  have hfiles : s.files = [] := List.isEmpty_iff.1 hfinished
  obtain ⟨e, he, hleaves⟩ := accounts.closed number source hnumber hsource (by simp [hfiles])
  exact hleaves.exists_lex he

/-- Whatever root file is opened in a session, and whatever files are included while its tokens are passed: when no file
is open any more, the tokens that have been passed are all of sources read since then, and those of each such source are
the tokens of its text without the end, once each and in order.  In particular every source that is read for a parsed
application has been lexed to its end. -/
theorem tokens_passed_once (s₀ : Session) :
    (∀ s₁ passed s, s₀.Opens s₁ → s₁.Passes passed s → s.isFinished = true →
      (∀ t ∈ passed, s₀.sources.size ≤ t.span.source ∧ t.span.source < s.sources.size) ∧
      ∀ number source, s₀.sources.size ≤ number → s.sources.get? number = some source →
        ∃ us e, lex source.text = .ok (us ++ [e]) ∧ e.value = .finish ∧
          passed.filter (·.span.source = number) = us.map (·.inSource number)) ∧
    ∀ parse files budget app s, s₀.Parses parse → (parse budget).run files = .ok (app, s) →
      ∀ number source, s₀.sources.size ≤ number → s.sources.get? number = some source →
        ∃ ts, lex source.text = .ok ts := by
  constructor
  · intro s₁ passed s hopen hpasses hfinished
    refine ⟨(hpasses.accounts hopen).1.known, fun number source hnumber hsource => ?_⟩
    exact exists_lex_of_isFinished hopen hpasses hfinished hnumber hsource
  · intro parse files budget app s hparse hresult number source hnumber hsource
    obtain ⟨p, hvisits, hfinish, -, -⟩ := hparse.exists_finished hresult
    obtain ⟨s₁, passed, hopen, hpasses, -⟩ := hvisits.exists_passes
    have hfiles : s.files = [] := (hpasses.accounts hopen).2.files_eq_nil hfinish
    have hfinished : s.isFinished = true := List.isEmpty_iff.2 hfiles
    obtain ⟨us, e, hlex, -⟩ := exists_lex_of_isFinished hopen hpasses hfinished hnumber hsource
    exact ⟨us ++ [e], hlex⟩

/-- Goes on to the end: a text is included where one is given, and otherwise a token is passed. -/
private def play (s : Session) (passed : List (Located Token)) :
    List (Option String) → Option (List (Located Token) × Session)
  | [] => if s.isFinished then some (passed, s) else none
  | move :: moves =>
    if s.isFinished then none
    else
      match move with
      | none => s.advance.toOption.bind fun next => next.play (passed ++ [s.current]) moves
      | some text =>
        (s.includeFile "x.conf" s.current.span (.ok text)).toOption.bind fun next => next.play passed moves

private theorem passes_of_play {s₁ : Session} {passed passed' : List (Located Token)} {moves : List (Option String)}
    (h : s₁.Passes passed s) (hplay : s.play passed moves = some (passed', s')) :
    s₁.Passes passed' s' ∧ s'.isFinished = true := by
  induction moves generalizing s passed with
  | nil =>
    obtain ⟨hfinished, rfl, rfl⟩ : s.isFinished = true ∧ passed = passed' ∧ s = s' := by
      simpa [play] using hplay
    exact ⟨h, hfinished⟩
  | cons move moves ih =>
    by_cases hfiles : s.files = []
    · cases move <;> simp [play, isFinished, hfiles] at hplay
    · have hopened : s.isFinished = false := by simpa [isFinished] using hfiles
      cases move with
      | none =>
        rw [play, hopened] at hplay
        obtain ⟨next, hnext, hplay⟩ := Option.bind_eq_some_iff.1 hplay
        exact ih (h.advance hfiles (Outcome.eq_ok_of_toOption hnext)) hplay
      | some text =>
        rw [play, hopened] at hplay
        obtain ⟨next, hnext, hplay⟩ := Option.bind_eq_some_iff.1 hplay
        exact ih (h.load hfiles (Outcome.eq_ok_of_toOption hnext)) hplay

private def nested : FileSystem := fun path =>
  if path = ⟨"./app.conf"⟩ then .ok (withBraces "include 'sub.conf'; ui ( )")
  else if path = ⟨"./sub.conf"⟩ then .ok "middleware 'm'; // end"
  else .error .notFound

/-- Files are included before the first token and before the last one; one has no token at all. -/
theorem tokens_passed_once_nested :
    (∃ s₁ passed s, (Session.new ⟨"."⟩).Opens s₁ ∧ s₁.Passes passed s ∧ s.isFinished = true ∧
      (passed.map fun t => (t.span.source, t.value)) =
        [(1, .comment "c"), (0, .keyword .ui), (3, .mark .semicolon), (0, .value "é")] ∧
      ∃ us e, lex "ui 'é'" = .ok (us ++ [e]) ∧ e.value = .finish ∧
        passed.filter (·.span.source = 0) = us.map (·.inSource 0)) ∧
    ∃ app s, ((Session.new ⟨"."⟩).parseFileWithin 1 ⟨"app.conf"⟩).run nested = .ok (app, s) ∧
      app.middlewares = ["m"] ∧ ∃ ts, lex "middleware 'm'; // end" = .ok ts := by
  obtain ⟨passed_once, lexed⟩ := tokens_passed_once (Session.new ⟨"."⟩)
  constructor
  · have hrun : (((Session.new ⟨"."⟩).openText ⟨"app.conf"⟩ "ui 'é'").toOption.bind fun s =>
          s.play [] [some "// c", some "", none, none, some ";", none, none]).map
        (fun x => (x.1.map fun t => (t.span.source, t.value), x.2.sources.get? 0)) =
      some ([(1, .comment "c"), (0, .keyword .ui), (3, .mark .semicolon), (0, .value "é")],
        some ⟨⟨"./app.conf"⟩, "ui 'é'"⟩) := by
      decide +kernel
    obtain ⟨⟨passed, s⟩, hplay, hview⟩ := Option.map_eq_some_iff.1 hrun
    obtain ⟨s₁, hopen, hplay⟩ := Option.bind_eq_some_iff.1 hplay
    obtain ⟨htokens, hsource⟩ := Prod.mk.inj hview
    have hopens : (Session.new ⟨"."⟩).Opens s₁ := .text (Outcome.eq_ok_of_toOption hopen)
    obtain ⟨hpasses, hfinished⟩ := passes_of_play .refl hplay
    obtain ⟨-, htext⟩ := passed_once s₁ passed s hopens hpasses hfinished
    exact ⟨s₁, passed, s, hopens, hpasses, hfinished, htokens, htext 0 _ (Nat.le_refl 0) hsource⟩
  · have hparsed : (((Session.new ⟨"."⟩).parseFileWithin 1 ⟨"app.conf"⟩).run nested).toOption.map
        (fun x => (x.1.middlewares, x.2.sources.get? 1)) =
      some (["m"], some ⟨⟨"./sub.conf"⟩, "middleware 'm'; // end"⟩) := by
      decide +kernel
    obtain ⟨⟨app, s⟩, hresult, hview⟩ := Option.map_eq_some_iff.1 hparsed
    obtain ⟨hmiddlewares, hsource⟩ := Prod.mk.inj hview
    have hresult := Outcome.eq_ok_of_toOption hresult
    have hlexed := lexed _ nested 1 app s (.file ⟨"app.conf"⟩) hresult 1 _ (Nat.zero_le 1) hsource
    exact ⟨app, s, hresult, hmiddlewares, hlexed⟩

end Session

end BundleConf
