import BundleConf.Proofs.Include.Trace

/-!
# Reading an included file

A parse that comes to an include takes the keyword and the path (`feed_path`) and asks for the file at the semicolon.
The file is then read on top of the others (`Session.loadFile_text`), and when it has come to its end the session is
back at the semicolon (`Session.Reads.cursor_of_included`).
-/

namespace BundleConf

namespace Session

variable {s t : Session} {file : OpenFile} {below : List OpenFile} {suspended : List (Located Token)}
  {ts : List (Located Token)} {failure : Option StrayCharacter}

/-- What is still to be read depends on nothing but where the session is in its files. -/
theorem Reads.of_cursor (h : t.Reads file below suspended ts failure) (hs : s.cursor = t.cursor) :
    s.Reads file below suspended ts failure := by
  obtain ⟨stream, token, ht, hrest⟩ := h
  exact ⟨stream, token, hs.trans ht, hrest⟩

theorem resumable_of_semicolon (h : t.current.value = .mark .semicolon) :
    Resumable t.files (t.current :: t.suspended) :=
  .inr ⟨t.current, t.suspended, rfl, by rw [h]; simp, by rw [h]; rfl⟩

/-- A text that can be lexed is entered, and its tokens are those that are read next. -/
theorem exists_enter_of_lexed (resumable : Resumable s.files s.suspended) (path : Path) {text : String}
    (hlex : (TokenStream.ofSource ⟨path, text⟩ s.sources.size).unread.2 = none) :
    ∃ s', (s.enter path text).bind Session.skipComments = .ok s' ∧ s'.root = s.root ∧ s'.generated = s.generated ∧
      s'.sources = s.sources.add ⟨path, text⟩ ∧
      s'.Reads ⟨s.directoryOf path, path, .ofSource ⟨path, text⟩ s.sources.size⟩ s.files s.suspended
        (meaningful (TokenStream.ofSource ⟨path, text⟩ s.sources.size).unread.1) none := by
  rcases enter_skipComments resumable path text rfl with
    ⟨s', hs', hroot, hgenerated, hsources, hreads⟩ | ⟨e, _, -, -, he⟩
  · rw [hlex] at hreads
    exact ⟨s', hs', hroot, hgenerated, hsources, hreads⟩
  · simp [hlex] at he

/-- The text of an include is read on top of the open files, from its first token on. -/
theorem loadFile_text {path : Located String} {text : String} {stream : TokenStream}
    (hdepth : t.depth < maxDepth) (hsemicolon : t.current.value = .mark .semicolon)
    (hstream : stream = .ofSource ⟨t.includePath path.value, text⟩ t.sources.size) (hlex : stream.unread.2 = none) :
    ∃ s' file, t.loadFile path (.ok text) = .ok s' ∧ s'.root = t.root ∧ s'.generated = t.generated ∧
      s'.sources = t.sources.add ⟨t.includePath path.value, text⟩ ∧
      file.directory = t.directoryOf (t.includePath path.value) ∧
      s'.Reads file t.files (t.current :: t.suspended) (meaningful stream.unread.1) none := by
  subst hstream
  have resumable : Resumable t.suspend.files t.suspend.suspended := resumable_of_semicolon hsemicolon
  obtain ⟨s', hs', hroot, hgenerated, hsources, hreads⟩ :=
    exists_enter_of_lexed resumable (t.includePath path.value) hlex
  dsimp only [suspend] at hroot hgenerated hsources hreads
  refine ⟨s', _, ?_, hroot, hgenerated, hsources, ?_, hreads⟩
  · rw [loadFile, includeFile_of_text hdepth]
    exact hs'
  · rw [directoryOf, directoryOf]

/-- At the end of an included file the session is back at the semicolon of the include. -/
theorem Reads.cursor_of_included {e : Located Token} (hfiles : t.files ≠ [])
    (hsemicolon : t.current.value = .mark .semicolon)
    (h : s.Reads file t.files (t.current :: t.suspended) [e] none) : s.cursor = t.cursor := by
  obtain ⟨-, hs⟩ := h.cursor_of_end (resumable_of_semicolon hsemicolon)
  rw [hs, cursor, resumed]
  exact hfiles

end Session

/-- A parse takes the keyword and the path of an include, and goes on behind them. -/
theorem feed_path {file : OpenFile} {below : List OpenFile} {suspended : List (Located Token)} {s : Session}
    {p : Parser} {a b t : Located Token} {ts : List (Located Token)} {failure : Option StrayCharacter}
    {requested : String}
    (resumable : Session.Resumable below suspended) (h : s.Reads file below suspended (a :: b :: t :: ts) failure)
    (hp : p.state = .top) (ha : a.value = .keyword .include) (hb : b.value = .value requested) :
    ∃ s', feed s p = feed s' { p with state := .includeEnd ⟨requested, b.span⟩ } ∧ Session.SameRecord s' s ∧
      s'.Reads file below suspended (t :: ts) failure := by
  have hreads : s.Reads file below suspended ([a, b] ++ t :: ts) failure := h
  have hrun := Machine.run_path (m := s.machine p) hp ha hb
  exact feed_run resumable hreads hrun

theorem feed_includeEnd {s : Session} {p : Parser} {path : Located String} (hp : p.state = .includeEnd path)
    (hfiles : s.files ≠ []) (hsemicolon : s.current.value = .mark .semicolon) : feed s p = .load path s p := by
  refine feed_load (t := s.current) (Session.current_of_lookahead hfiles) ?_
  exact Machine.step_includeEnd hp hsemicolon

end BundleConf
