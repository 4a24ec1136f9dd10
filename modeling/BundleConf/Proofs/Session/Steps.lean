import BundleConf.Parse.Run

/-!
# Steps of a session

What a step of a session leads to if it succeeds: advancing reads a token of the innermost file and closes the files
that have come to their ends (`Session.cases_of_advance`), entering a text does so on top of the other files
(`Session.exists_of_enter`), and a file is entered when the innermost one has been suspended, unless too many are open
(`Session.exists_of_loadFile`).  What a session keeps from step to step is told from these cases.
-/

namespace BundleConf

theorem Outcome.exists_of_bind {α β : Type} {x : Outcome α} {f : α → Outcome β} {b : β} (h : x.bind f = .ok b) :
    ∃ a, x = .ok a ∧ f a = .ok b := by
  cases x with
  | error failure => simp [Except.bind] at h
  | ok a => exact ⟨a, rfl, h⟩

theorem Outcome.cases_of_bind_error {α β : Type} {x : Outcome α} {f : α → Outcome β} {failure : Failure}
    (h : x.bind f = .error failure) : x = .error failure ∨ ∃ a, x = .ok a ∧ f a = .error failure := by
  cases x with
  | error failure' =>
    obtain rfl : failure' = failure := by simpa [Except.bind] using h
    exact .inl rfl
  | ok a => exact .inr ⟨a, rfl, h⟩

theorem Outcome.eq_ok_of_toOption {α : Type} {x : Outcome α} {a : α} (h : x.toOption = some a) : x = .ok a := by
  cases x with
  | error failure => simp [Except.toOption] at h
  | ok b => simpa [Except.toOption] using h

namespace Session

variable {s s' : Session} {path : Path} {text : String} {found : Lookup} {failure : Failure}

/-- Advancing changes nothing if no file is open, and reads a token of the innermost file otherwise. -/
theorem cases_of_advance (h : s.advance = .ok s') :
    s.files = [] ∧ s' = s ∨ ∃ file files token stream, s.files = file :: files ∧
      file.stream.next = .ok (token, stream) ∧
      s' = { s with files := { file with stream } :: files, current := token }.settle := by
  rw [advance] at h
  split at h
  · rename_i hfiles
    cases h
    exact .inl ⟨hfiles, rfl⟩
  · rename_i file files hfiles
    split at h
    · simp at h
    · rename_i token stream hnext
      cases h
      exact .inr ⟨file, files, token, stream, hfiles, hnext, rfl⟩

/-- When comments have been passed over a reader does not see one. -/
theorem not_isComment_of_skipComments (h : s.skipComments = .ok s') : s'.lookahead.value.isComment = false := by
  fun_induction skipComments s with
  | case1 => simp at h
  | case2 _ _ _ _ ih => exact ih h
  | case3 s hcomment =>
    cases h
    rw [lookahead]
    split
    · rfl
    · rename_i hopen
      have hfiles : s'.files ≠ [] := by simpa [isFinished] using hopen
      simpa [hfiles] using hcomment

theorem exists_of_proceed (h : s.proceed = .ok s') : ∃ next, s.advance = .ok next ∧ next.skipComments = .ok s' :=
  Outcome.exists_of_bind h

/-- A text is entered by reading its first token. -/
theorem exists_of_enter (h : s.enter path text = .ok s') :
    ∃ token stream, (TokenStream.ofSource ⟨path, text⟩ s.sources.size).next = .ok (token, stream) ∧
      s' = { s with
        sources := s.sources.add ⟨path, text⟩
        files := ⟨s.directoryOf path, path, stream⟩ :: s.files
        current := token }.settle := by
  unfold enter at h
  dsimp only at h
  split at h
  · simp at h
  · rename_i token stream hnext
    cases h
    exact ⟨token, stream, hnext, rfl⟩

/-- The session with the innermost file suspended. -/
def suspend (s : Session) : Session :=
  { s with suspended := s.current :: s.suspended, current := noToken }

/-- Unless too many files are open a text is entered when the innermost file has been suspended. -/
theorem includeFile_of_text {requested : String} {span : Span} (hdepth : s.depth < maxDepth) (text : String) :
    s.includeFile requested span (.ok text) = s.suspend.enter (s.includePath requested) text := by
  rw [includeFile, if_neg (by simp [Lookup.isFile]), if_neg (Nat.not_le.2 hdepth)]
  rfl

/-- A file that is included is there, and it is entered when the file that includes it has been suspended. -/
theorem exists_of_includeFile {requested : String} {span : Span} (h : s.includeFile requested span found = .ok s') :
    s.depth < maxDepth ∧ ∃ text, found = .ok text ∧ s.suspend.enter (s.includePath requested) text = .ok s' := by
  unfold includeFile at h
  dsimp only at h
  split at h
  · simp at h
  · split at h
    · simp at h
    · rename_i hdepth
      split at h
      · simp at h
      · exact ⟨Nat.lt_of_not_le hdepth, _, rfl, h⟩

theorem exists_of_loadFile {requested : Located String} (h : s.loadFile requested found = .ok s') :
    s.depth < maxDepth ∧ ∃ text next, s.suspend.enter (s.includePath requested.value) text = .ok next ∧
      next.skipComments = .ok s' := by
  obtain ⟨next, hnext, hskip⟩ := Outcome.exists_of_bind h
  obtain ⟨hdepth, text, -, henter⟩ := exists_of_includeFile hnext
  exact ⟨hdepth, text, next, henter, hskip⟩

/-! ### What reading does not change -/

/-- No name is drawn by reading. -/
theorem generated_of_advance (h : s.advance = .ok s') : s'.generated = s.generated := by
  rcases cases_of_advance h with ⟨-, rfl⟩ | ⟨_, _, _, _, -, -, rfl⟩
  · rfl
  · rfl

theorem generated_of_skipComments (h : s.skipComments = .ok s') : s'.generated = s.generated := by
  fun_induction skipComments s with
  | case1 => simp at h
  | case2 s _ next hnext ih => exact (ih h).trans (generated_of_advance hnext)
  | case3 =>
    cases h
    rfl

theorem generated_of_enter (h : s.enter path text = .ok s') : s'.generated = s.generated := by
  obtain ⟨token, stream, -, rfl⟩ := exists_of_enter h
  rfl

/-! ### Failures -/

/-- Advancing fails where the next token of the innermost file fails. -/
theorem exists_of_advance_error (h : s.advance = .error failure) : ∃ file files stray, s.files = file :: files ∧
    file.stream.next = .error stray ∧ failure = ⟨.stray stray, s⟩ := by
  rw [advance] at h
  split at h
  · simp at h
  · rename_i file files hfiles
    split at h
    · rename_i stray hnext
      cases h
      exact ⟨file, files, stray, hfiles, hnext, rfl⟩
    · simp at h

/-- Passing over comments fails only at a stray character. -/
theorem exists_stray_of_skipComments (h : s.skipComments = .error failure) : ∃ e, failure.error = .stray e := by
  fun_induction skipComments s with
  | case1 s _ cause hcause =>
    obtain rfl : cause = failure := by simpa using h
    obtain ⟨_, _, e, -, -, rfl⟩ := exists_of_advance_error hcause
    exact ⟨e, rfl⟩
  | case2 s _ next _ ih => exact ih h
  | case3 => simp at h

theorem exists_stray_of_proceed (h : s.proceed = .error failure) : ∃ e, failure.error = .stray e := by
  rcases Outcome.cases_of_bind_error h with ha | ⟨next, -, hskip⟩
  · obtain ⟨_, _, e, -, -, rfl⟩ := exists_of_advance_error ha
    exact ⟨e, rfl⟩
  · exact exists_stray_of_skipComments hskip

/-- A text cannot be entered if it has no first token; its source is known from then on. -/
theorem exists_of_enter_error (h : s.enter path text = .error failure) :
    ∃ stray, (TokenStream.ofSource ⟨path, text⟩ s.sources.size).next = .error stray ∧
      failure = ⟨.stray stray, { s with sources := s.sources.add ⟨path, text⟩ }⟩ := by
  unfold enter at h
  dsimp only at h
  split at h
  · rename_i stray hnext
    cases h
    exact ⟨stray, hnext, rfl⟩
  · simp at h

/-- A file cannot be included if it is not there, if too many files are open, or if it cannot be read or entered. -/
theorem cases_of_includeFile_error {requested : String} {span : Span}
    (h : s.includeFile requested span found = .error failure) :
    failure = ⟨.missingInclude requested (s.includePath requested) s.issuer (s.location span), s⟩ ∨
    failure = ⟨.includeTooDeep requested (s.location span), s⟩ ∨
    (∃ cause, failure = ⟨.unreadable (s.includePath requested) cause, s⟩) ∨
    ∃ text, s.depth < maxDepth ∧ found = .ok text ∧
      s.suspend.enter (s.includePath requested) text = .error failure := by
  unfold includeFile at h
  dsimp only at h
  split at h
  · cases h
    exact .inl rfl
  · split at h
    · cases h
      exact .inr (.inl rfl)
    · rename_i hdepth
      split at h
      · cases h
        exact .inr (.inr (.inl ⟨_, rfl⟩))
      · exact .inr (.inr (.inr ⟨_, Nat.lt_of_not_le hdepth, rfl, h⟩))

end Session

end BundleConf
