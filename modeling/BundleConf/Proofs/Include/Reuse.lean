import BundleConf.Proofs.Include.Trace
import BundleConf.Proofs.Session.Renumbering

/-!
# Using a session again

A session can be used for one parse after the other, whatever the earlier ones have come to.  A parse closes what they
have left open before it reads anything, and of all that they have left behind it makes use of two things only: it
continues the numbers of the sources, and it continues the count of generated names.  So it yields what it would yield
in a new session in which as many names have been generated, up to the numbers of sources (`Session.parse_of_used`).
-/

namespace BundleConf

variable {old : SourceTable}

/-! ### Stops -/

/-- A stop of a parse, and the same one if the old sources have been read before. -/
inductive Stop.Follows (old : SourceTable) : Stop → Stop → Prop
  | finished (app : App) (s : Session) : Follows old (.finished app s) (.finished app (s.following old))
  | failed {failure failure' : Failure} (h : failure.Follows old failure') :
    Follows old (.failed failure) (.failed failure')
  | load (path : Located String) (s : Session) (p : Parser) :
    Follows old (.load path s p)
      (.load (path.relocate (Span.renumber old.size)) (s.following old) (p.relocate (Span.renumber old.size)))

/-- What comes after an operation of a session follows what comes after the other. -/
private theorem Stop.Follows.ofOutcome {x x' : Outcome Session} {next next' : Session → Stop}
    (h : Outcome.Follows old x x') (hnext : ∀ s, x = .ok s → Stop.Follows old (next s) (next' (s.following old))) :
    Stop.Follows old (.ofOutcome x next) (.ofOutcome x' next') := by
  cases h with
  | ok s => exact hnext s rfl
  | error h => exact .failed h

theorem feed_following (s : Session) (p : Parser) :
    Stop.Follows old (feed s p) (feed (s.following old) (p.relocate (Span.renumber old.size))) := by
  -- by induction on how much is left to read, one token after the other
  induction hn : s.unread using Nat.strongRecOn generalizing s p with
  | ind n ih =>
    have machine : (s.following old).machine (p.relocate (Span.renumber old.size)) =
        (s.machine p).relocate (Span.renumber old.size) := rfl
    have named : ((s.machine p).relocate (Span.renumber old.size)).named
        (s.lookahead.relocate (Span.renumber old.size)).value =
        ((s.machine p).named s.lookahead.value).relocate (Span.renumber old.size) :=
      (s.machine p).named_relocate (Span.renumber old.size) s.lookahead.value
    rw [feed_eq, feed_eq (s.following old), machine, s.lookahead_following, Machine.step_relocate]
    cases hstep : (s.machine p).step s.lookahead with
    | ok m =>
      have hfiles : s.files ≠ [] := Session.files_ne_nil_of_step (.inl ⟨m, hstep⟩)
      let drawn : Session := { s with generated := m.generated }
      refine .ofOutcome (Session.proceed_following old drawn) fun s' hproceed => ?_
      have hlt : s'.unread < drawn.unread := Session.unread_proceed_lt hproceed hfiles
      exact ih _ (hn ▸ hlt) s' m.parser rfl
    | error halt =>
      cases halt with
      | refused expected =>
        refine .failed ⟨?_, rfl, ?_⟩
        · exact congrArg _ (s.location_following old s.lookahead.span)
        · rw [named]
          rfl
      | conflict cause =>
        dsimp only [Except.map, Except.mapError, Halt.relocate]
        rw [named]
        refine .ofOutcome (Session.proceed_following old { s with generated := _ }) fun s' _ => ?_
        refine .failed ⟨?_, rfl, rfl⟩
        exact congrArg _ (s'.location_following old cause.span)
      | load path => exact .load path s p
      | finished app => exact .finished app s

namespace Stop.Follows

variable {stop stop' : Stop}

theorem next (h : Stop.Follows old stop stop') (files : FileSystem) :
    Stop.Follows old (stop.next files) (stop'.next files) := by
  cases h with
  | finished app s => exact .finished app s
  | failed h => exact .failed h
  | load path s p =>
    rw [Stop.next, Stop.next, show (path.relocate (Span.renumber old.size)).value = path.value from rfl,
      s.includePath_following]
    exact .ofOutcome (s.loadFile_following old path _) fun s' _ => feed_following s' { p with state := .top }

theorem after (h : Stop.Follows old stop stop') (files : FileSystem) (n : Nat) :
    Stop.Follows old (stop.after files n) (stop'.after files n) := by
  induction n generalizing stop stop' with
  | zero => exact h
  | succ n ih => exact ih (h.next files)

end Stop.Follows

/-! ### Results -/

/-- Of two parses one has the answer of the other, with greater numbers of sources, and the same message; its session
has read the old sources before, and generated the same names. -/
structure Parsed.Follows (old : SourceTable) (x x' : Parsed) : Prop where
  answer : x'.answer = x.answer.mapError (ParseError.renumber old.size)
  message : x'.answer.mapError (·.diagnostic.message) = x.answer.mapError (·.diagnostic.message)
  sources : x'.session.sources = old.append x.session.sources
  generated : x'.session.generated = x.session.generated

theorem Stop.Follows.outcome {stop stop' : Stop} (h : Stop.Follows old stop stop') :
    Parsed.Follows old stop.outcome stop'.outcome := by
  cases h with
  | finished app s => exact ⟨rfl, rfl, rfl, rfl⟩
  | @failed failure failure' h =>
    refine ⟨congrArg Except.error h.error, ?_, h.sources, h.generated⟩
    exact congrArg Except.error (h.error ▸ failure.error.message_renumber old.size)
  | load path s p =>
    have location : (s.following old).location (path.relocate (Span.renumber old.size)).span =
        (s.location path.span).renumber old.size := s.location_following old path.span
    rw [Stop.outcome, Stop.outcome, location]
    exact ⟨rfl, rfl, rfl, rfl⟩

namespace Session

/-- Drawing a name counts one more. -/
private theorem repeat_nextName (root : Path) (n : Nat) :
    n.repeat (fun s => s.nextName.2) (new root) = { new root with generated := n } := by
  induction n with
  | zero => rfl
  | succ n ih => rw [Nat.repeat, ih, nextName]

private theorem startText_following (used : Session) (name : Path) (text : String) :
    Stop.Follows used.sources ({ new used.root with generated := used.generated }.startText name text)
      (used.startText name text) := by
  rw [startText, startText]
  refine .ofOutcome ((openText_following used name text).bind fun s => s.skipComments_following _) fun s _ => ?_
  exact feed_following s .start

private theorem startFile_following (used : Session) (files : FileSystem) (file : Path) :
    Stop.Follows used.sources ({ new used.root with generated := used.generated }.startFile files file)
      (used.startFile files file) := by
  rw [startFile, startFile]
  have path : ({ new used.root with generated := used.generated } : Session).rootPath file = used.rootPath file := rfl
  rw [path]
  cases files (used.rootPath file) with
  | error cause => exact .failed ⟨rfl, used.sources.append_empty.symm, rfl⟩
  | ok text => exact startText_following used file text

/-- A parse in a session that has been used for whatever yields what it yields in a new one in which as many names have
been drawn, with numbers of sources that are greater by as many as have been read before. -/
theorem parse_of_used (used : Session) (files : FileSystem) (budget : Nat) :
    (∀ file, Parsed.Follows used.sources
      ((Session.parseFileWithin budget (used.generated.repeat (fun s => s.nextName.2) (new used.root)) file).run files)
      ((used.parseFileWithin budget file).run files)) ∧
    ∀ name text, Parsed.Follows used.sources
      ((Session.parseTextWithin budget (used.generated.repeat (fun s => s.nextName.2) (new used.root)) name text).run
        files)
      ((used.parseTextWithin budget name text).run files) := by
  rw [repeat_nextName]
  constructor
  · intro file
    rw [run_parseFileWithin, run_parseFileWithin]
    exact ((startFile_following used files file).after files budget).outcome
  · intro name text
    rw [run_parseTextWithin, run_parseTextWithin]
    exact ((startText_following used name text).after files budget).outcome

end Session

end BundleConf
