import BundleConf.Proofs.Include.Trace
import BundleConf.Proofs.Parsing.Citing
import BundleConf.Proofs.Session.Accounts

/-!
# The states that a parse comes to

A parse opens its root file and then goes from token to token: its machine takes the current token, or a file is loaded
at the semicolon of an include.  The pairs of a session and a parser that it comes to in this way are the ones that it
visits (`Session.Visits`), and what holds of all of them is shown by induction.  A parse fails before it visits
anything, or its result is told from what happens at the last token that it visits (`Session.Parses.cases`).  On its
way the session passes the tokens of the files, and every value that the parser keeps for its errors is among those
that have been passed (`Session.Visits.exists_passes`).
-/

namespace BundleConf

/-- The parses that can be asked of a session, each with a budget of includes. -/
inductive Session.Parses (s : Session) : (Nat → Reading Parsed) → Prop
  | file (file : Path) : Parses s (s.parseFileWithin · file)
  | text (name : Path) (text : String) : Parses s (s.parseTextWithin · name text)

/-- The sessions and parsers that the parses of a session come to. -/
inductive Session.Visits (s₀ : Session) (files : FileSystem) : Session → Parser → Prop
  | start {name : Path} {text : String} {s : Session} (hopen : (s₀.openText name text).bind skipComments = .ok s) :
      Visits s₀ files s .start
  | take {s s' : Session} {p : Parser} {m : Machine} (hvisits : Visits s₀ files s p)
      (hstep : (s.machine p).step s.lookahead = .ok m) (hfiles : s.files ≠ [])
      (hproceed : { s with generated := m.generated }.proceed = .ok s') : Visits s₀ files s' m.parser
  | load {s s' : Session} {p : Parser} {path : Located String} (hvisits : Visits s₀ files s p)
      (hstep : (s.machine p).step s.lookahead = .error (.load path))
      (hload : s.loadFile path (files (s.includePath path.value)) = .ok s') :
      Visits s₀ files s' { p with state := .top }

/-- The results of a parse that comes to its last token. -/
inductive Session.Yields (files : FileSystem) (s : Session) (p : Parser) : Parsed → Prop
  | stop {stop : Stop} (hstop : StopsAt s p stop) : Yields files s p stop.outcome
  /-- The file of an include cannot be loaded. -/
  | unloaded {path : Located String} {failure : Failure}
      (hstep : (s.machine p).step s.lookahead = .error (.load path))
      (hload : s.loadFile path (files (s.includePath path.value)) = .error failure) : Yields files s p (.error failure)

namespace Session

variable {s₀ s : Session} {files : FileSystem} {p : Parser}

/-- Feeding leads along visited states to the token that it stops at. -/
theorem Visits.exists_stopsAt (h : s₀.Visits files s p) :
    ∃ s' p', s₀.Visits files s' p' ∧ StopsAt s' p' (feed s p) := by
  -- by induction on how much is left to read, one token after the other
  induction hn : s.unread using Nat.strongRecOn generalizing s p with
  | ind n ih =>
    rcases feed_cases s p with hstop | ⟨m, s', hstep, hfiles, hproceed, hfeed⟩
    · exact ⟨s, p, h, hstop⟩
    · let drawn : Session := { s with generated := m.generated }
      have hlt : s'.unread < drawn.unread := unread_proceed_lt hproceed hfiles
      obtain ⟨s'', p'', hvisits, hstop⟩ := ih _ (hn ▸ hlt) (h.take hstep hfiles hproceed) rfl
      exact ⟨s'', p'', hvisits, hfeed ▸ hstop⟩

/-- Comments are not seen by the parser. -/
theorem Visits.not_isComment (h : s₀.Visits files s p) : s.lookahead.value.isComment = false := by
  cases h with
  | start hopen =>
    obtain ⟨_, -, hskip⟩ := Outcome.exists_of_bind hopen
    exact not_isComment_of_skipComments hskip
  | take _ _ _ hproceed =>
    obtain ⟨_, -, hskip⟩ := exists_of_proceed hproceed
    exact not_isComment_of_skipComments hskip
  | load _ _ hload =>
    obtain ⟨_, -, hskip⟩ := Outcome.exists_of_bind hload
    exact not_isComment_of_skipComments hskip

private theorem Visits.exists_yields (h : s₀.Visits files s p) (budget : Nat) :
    ∃ s' p', s₀.Visits files s' p' ∧ Yields files s' p' ((feed s p).after files budget).outcome := by
  induction budget generalizing s p with
  | zero =>
    obtain ⟨s', p', hvisits, hstop⟩ := h.exists_stopsAt
    exact ⟨s', p', hvisits, .stop hstop⟩
  | succ budget ih =>
    obtain ⟨s', p', hvisits, hstop⟩ := h.exists_stopsAt
    cases hstop' : feed s p with
    | finished app t =>
      rw [hstop'] at hstop
      rw [Stop.after_finished]
      exact ⟨s', p', hvisits, .stop hstop⟩
    | failed failure =>
      rw [hstop'] at hstop
      rw [Stop.after_failed]
      exact ⟨s', p', hvisits, .stop hstop⟩
    | load path t q =>
      rw [hstop'] at hstop
      cases hstop with
      | load hstep =>
        rw [Stop.after, Stop.next]
        cases hload : s'.loadFile path (files (s'.includePath path.value)) with
        | error failure =>
          dsimp only
          rw [Stop.after_failed]
          exact ⟨s', p', hvisits, .unloaded hstep hload⟩
        | ok s'' => exact ih (hvisits.load hstep hload)

private theorem cases_startText (s₀ : Session) (files : FileSystem) (budget : Nat) (name : Path) (text : String) :
    (∃ failure, (s₀.openText name text).bind skipComments = .error failure ∧
      ((s₀.startText name text).after files budget).outcome = .error failure) ∨
    ∃ s p, s₀.Visits files s p ∧ Yields files s p ((s₀.startText name text).after files budget).outcome := by
  rw [startText]
  cases hopen : (s₀.openText name text).bind skipComments with
  | error failure =>
    refine .inl ⟨failure, rfl, ?_⟩
    dsimp only
    rw [Stop.after_failed]
    rfl
  | ok s => exact .inr (Visits.exists_yields (.start hopen) budget)

/-- A parse fails because its root file cannot be read, or starts with a stray character, or it visits a token at which
it comes to its result. -/
theorem Parses.cases {parse : Nat → Reading Parsed} (h : s₀.Parses parse) (files : FileSystem) (budget : Nat) :
    (∃ path cause, (parse budget).run files = .error ⟨.unreadable path cause, s₀⟩) ∨
    (∃ name text failure, (s₀.openText name text).bind skipComments = .error failure ∧
      (parse budget).run files = .error failure) ∨
    ∃ s p, s₀.Visits files s p ∧ Yields files s p ((parse budget).run files) := by
  cases h with
  | text name text =>
    rw [run_parseTextWithin]
    rcases cases_startText s₀ files budget name text with ⟨failure, hopen, hresult⟩ | hyields
    · exact .inr (.inl ⟨name, text, failure, hopen, hresult⟩)
    · exact .inr (.inr hyields)
  | file file =>
    rw [run_parseFileWithin, startFile]
    cases files (s₀.rootPath file) with
    | error cause =>
      refine .inl ⟨s₀.rootPath file, cause, ?_⟩
      dsimp only
      rw [Stop.after_failed]
      rfl
    | ok text =>
      rcases cases_startText s₀ files budget file text with ⟨failure, hopen, hresult⟩ | hyields
      · exact .inr (.inl ⟨file, text, failure, hopen, hresult⟩)
      · exact .inr (.inr hyields)

/-! ### What has been passed -/

/-- What a parse visits is come to by passing tokens and including files.  What holds of nothing and the machine that
starts holds of the tokens that have been passed and the machine that has read them, if it is kept by comments, by the
tokens that the machine takes and by including a file. -/
theorem Visits.exists_passes_of {P : List (Located Token) → Machine → Prop} (start : P [] (.start s₀.generated))
    (comment : ∀ {passed m} t, P passed m → t.value.isComment = true → P (passed ++ [t]) m)
    (take : ∀ {passed m m' t}, P passed m → m.step t = .ok m' → P (passed ++ [t]) m')
    (load : ∀ {passed m t path}, P passed m → m.step t = .error (.load path) →
      P passed ⟨m.generated, { m.parser with state := .top }⟩)
    (h : s₀.Visits files s p) : ∃ s₁ passed, s₀.Opens s₁ ∧ s₁.Passes passed s ∧ P passed (s.machine p) := by
  have comments {passed comments : List (Located Token)} {m : Machine} (hm : P passed m)
      (hcomments : ∀ t ∈ comments, t.value.isComment = true) : P (passed ++ comments) m := by
    induction comments generalizing passed with
    | nil => simpa using hm
    | cons t ts ih =>
      obtain ⟨ht, hts⟩ := List.forall_mem_cons.1 hcomments
      simpa using ih (comment t hm ht) hts
  induction h with
  | start hopen =>
    obtain ⟨s₁, htext, hskip⟩ := Outcome.exists_of_bind hopen
    obtain ⟨_, hpasses, hcomments⟩ := Passes.refl.skipComments hskip
    refine ⟨s₁, _, .text htext, hpasses, ?_⟩
    rw [machine, generated_of_skipComments hskip, generated_of_enter htext]
    exact comments start hcomments
  | @take s s' p m _ hstep hfiles hproceed ih =>
    obtain ⟨s₁, passed, hopens, hpasses, hm⟩ := ih
    obtain ⟨next, hnext, hskip⟩ := exists_of_proceed hproceed
    obtain ⟨_, hpasses', hcomments⟩ := ((hpasses.draw m.generated).advance hfiles hnext).skipComments hskip
    refine ⟨s₁, _, hopens, hpasses', ?_⟩
    rw [machine, generated_of_skipComments hskip, generated_of_advance hnext]
    rw [current_of_lookahead hfiles] at hstep
    exact comments (take hm hstep) hcomments
  | @load s s' p path _ hstep hload ih =>
    obtain ⟨s₁, passed, hopens, hpasses, hm⟩ := ih
    obtain ⟨next, hnext, hskip⟩ := Outcome.exists_of_bind hload
    have hlook : s.lookahead.value ≠ .finish := by simp [(Machine.react_of_step_load hstep).2]
    obtain ⟨_, hpasses', hcomments⟩ := (hpasses.load (files_ne_nil_of_lookahead hlook) hnext).skipComments hskip
    obtain ⟨-, text, -, henter⟩ := exists_of_includeFile hnext
    refine ⟨s₁, _, hopens, hpasses', ?_⟩
    rw [machine, generated_of_skipComments hskip, generated_of_enter henter]
    exact comments (load hm hstep) hcomments

/-- The values that the parser keeps have been passed. -/
theorem Visits.exists_passes (h : s₀.Visits files s p) :
    ∃ s₁ passed, s₀.Opens s₁ ∧ s₁.Passes passed s ∧ ∀ v ∈ p.state.cited, v.quoted ∈ passed := by
  refine Visits.exists_passes_of (P := fun passed m => ∀ v ∈ m.parser.state.cited, v.quoted ∈ passed) ?_ ?_ ?_ ?_ h
  · simp [Machine.start, Parser.start, State.cited]
  · intro passed m t hcited _ v hv
    simp [hcited v hv]
  · intro passed m m' t hcited hstep v hv
    -- what the machine keeps from now on is the token that has just been passed
    rcases Machine.cited_of_step hstep v hv with hv | hv
    · simp [hcited v hv]
    · simp [hv]
  · intro passed m t path _ _ v hv
    simp [State.cited] at hv

/-- Between declarations a parse may have read nothing, but elsewhere it has, so its root file is not empty. -/
theorem Visits.exists_root (h : s₀.Visits files s p) (hstate : p.state ≠ .top) :
    ∃ source, s.sources.get? s₀.sources.size = some source ∧ source.chars ≠ [] := by
  cases h with
  | start => simp [Parser.start] at hstate
  | load => simp at hstate
  | @take s _ _ m hvisits _ hfiles hproceed =>
    obtain ⟨s₁, passed, hopens, hpasses, -⟩ := hvisits.exists_passes
    obtain ⟨source, hsource, hchars⟩ := hpasses.exists_root hopens hfiles
    obtain ⟨next, hnext, hskip⟩ := exists_of_proceed hproceed
    obtain ⟨_, hpasses', -⟩ := ((Passes.refl.draw m.generated).advance hfiles hnext).skipComments hskip
    exact ⟨source, hpasses'.get?_sources hsource, hchars⟩

/-- A parse that yields an application visits the end of its root file between declarations. -/
theorem Parses.exists_finished {parse : Nat → Reading Parsed} (hparse : s₀.Parses parse) {budget : Nat} {app : App}
    (h : (parse budget).run files = .ok (app, s)) :
    ∃ p, s₀.Visits files s p ∧ s.lookahead.value = .finish ∧ p.state = .top ∧ p.app = app := by
  rcases hparse.cases files budget with ⟨_, _, herror⟩ | ⟨_, _, _, -, herror⟩ | ⟨t, p, hvisits, hyields⟩
  · simp [h] at herror
  · simp [h] at herror
  · rw [h] at hyields
    generalize hresult : (Except.ok (app, s) : Parsed) = result at hyields
    cases hyields with
    | unloaded => simp at hresult
    | stop hstop =>
      cases hstop with
      | finished hstep =>
        obtain ⟨rfl, rfl⟩ : app = _ ∧ s = _ := by simpa [Stop.outcome] using hresult
        obtain ⟨hstate, hfinish, rfl⟩ := Machine.react_of_step_finished hstep
        exact ⟨p, hvisits, hfinish, hstate, rfl⟩
      | _ => simp [Stop.outcome] at hresult

end Session

end BundleConf
