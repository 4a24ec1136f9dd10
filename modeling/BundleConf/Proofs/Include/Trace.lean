import BundleConf.Proofs.Parsing.Text
import BundleConf.Proofs.Session.Alignment

/-!
# The includes of a parse

A parse runs from one include to the next.  `Stop.next` executes the include that a parse has stopped at and feeds the
parser up to the next one, and `Stop.after` does so a number of times.  A parse with a budget is as many of these rounds
as the budget allows (`run_runParser`), so it comes to a result of its own exactly when one of the stops asks for no
file.

Within a round the session only advances (`Session.Advances`).  Before a round ends at an include, the session has stood
at the path of that include and gone on from there (`feed_load_advances`).
-/

namespace BundleConf

/-! ### Advancing -/

namespace Session

variable {s s' s'' : Session}

/-- The second session is one that the first leads to by advancing and by drawing names. -/
inductive Advances : Session → Session → Prop
  | refl (s : Session) : Advances s s
  | advance {s s' s'' : Session} (h : s.advance = .ok s') (rest : Advances s' s'') : Advances s s''
  | draw {s s'' : Session} (generated : Nat) (rest : Advances { s with generated } s'') : Advances s s''

private theorem root_of_enter {path : Path} {text : String} (h : s.enter path text = .ok s') : s'.root = s.root := by
  obtain ⟨t, stream, -, rfl⟩ := exists_of_enter h
  rfl

theorem record_of_advance (h : s.advance = .ok s') : s'.root = s.root ∧ s'.sources = s.sources := by
  rcases cases_of_advance h with ⟨-, rfl⟩ | ⟨file, files, t, stream, -, -, rfl⟩
  · exact ⟨rfl, rfl⟩
  · exact ⟨rfl, rfl⟩

namespace Advances

theorem trans (h : Advances s s') (h' : Advances s' s'') : Advances s s'' := by
  induction h with
  | refl => exact h'
  | advance ha _ ih => exact .advance ha (ih h')
  | draw generated _ ih => exact .draw generated (ih h')

theorem skipComments (h : s.skipComments = .ok s') : Advances s s' := by
  fun_induction Session.skipComments s with
  | case1 => simp at h
  | case2 s hcomment next hnext ih => exact .advance hnext (ih h)
  | case3 s hcomment =>
    cases h
    exact .refl _

/-- Going on to the next token is one step of advancing, and perhaps some more. -/
theorem proceed (h : s.proceed = .ok s') : ∃ next, s.advance = .ok next ∧ Advances next s' := by
  obtain ⟨next, hnext, hskip⟩ := exists_of_proceed h
  exact ⟨next, hnext, skipComments hskip⟩

theorem aligned (h : Advances s s') (hs : s.Aligned) : s'.Aligned := by
  induction h with
  | refl => exact hs
  | advance ha _ ih => exact ih (hs.advance ha)
  | draw generated _ ih => exact ih (hs.draw generated)

theorem record (h : Advances s s') : s'.root = s.root ∧ s'.sources = s.sources := by
  induction h with
  | refl => exact ⟨rfl, rfl⟩
  | advance ha _ ih =>
    obtain ⟨hroot, hsources⟩ := record_of_advance ha
    exact ⟨ih.1.trans hroot, ih.2.trans hsources⟩
  | draw generated _ ih => exact ih

end Advances

theorem root_of_loadFile {path : Located String} {found : Lookup} (h : s.loadFile path found = .ok s') :
    s'.root = s.root := by
  obtain ⟨-, text, next, henter, hskip⟩ := exists_of_loadFile h
  exact (Advances.skipComments hskip).record.1.trans (root_of_enter (s := s.suspend) henter)

theorem root_of_openText {name : Path} {text : String} (h : s.openText name text = .ok s') : s'.root = s.root :=
  root_of_enter (s := { s with files := [], suspended := [] }) h

end Session

open Session (Advances)

/-- A parse that asks for a file stands at the semicolon of the include.  If it has not been there from the start then
it has stood at the path before, and has gone on from the path to the semicolon. -/
theorem feed_load_advances {s s' : Session} {p p' : Parser} {path : Located String}
    (h : feed s p = .load path s' p') :
    s'.files ≠ [] ∧ s'.current.value = .mark .semicolon ∧ p'.state = .includeEnd path ∧
      (p.state = .includeEnd path ∧ s' = s ∨
        ∃ s₁, Advances s s₁ ∧ s₁.files ≠ [] ∧ s₁.current = ⟨.value path.value, path.span⟩ ∧ s₁.proceed = .ok s') := by
  -- by induction on how much is left to read: one token after the other, up to the semicolon
  induction hn : s.unread using Nat.strongRecOn generalizing s p with
  | ind n ih =>
    rcases feed_load_cases h with ⟨rfl, rfl, hstate, hlook⟩ | ⟨m, s'', hstep, hfiles, hproceed, hfeed⟩
    · have hfiles : s'.files ≠ [] := Session.files_ne_nil_of_lookahead (by rw [hlook]; simp)
      rw [Session.current_of_lookahead hfiles] at hlook
      exact ⟨hfiles, hlook, hstate, .inl ⟨hstate, rfl⟩⟩
    · let drawn : Session := { s with generated := m.generated }
      have hlt : s''.unread < drawn.unread := Session.unread_proceed_lt hproceed hfiles
      have hlt : s''.unread < n := hn ▸ hlt
      obtain ⟨hfiles', hvalue, hstate', hcases⟩ := ih _ hlt hfeed rfl
      refine ⟨hfiles', hvalue, hstate', .inr ?_⟩
      rcases hcases with ⟨hstate, rfl⟩ | ⟨s₁, hadvances, hopen, hcurrent, hproceed'⟩
      · have hpath := Machine.path_of_step hstep hstate
        rw [Session.current_of_lookahead hfiles] at hpath
        exact ⟨drawn, .draw m.generated (.refl _), hfiles, hpath, hproceed⟩
      · obtain ⟨next, hnext, hrest⟩ := Advances.proceed hproceed
        exact ⟨s₁, .draw m.generated (.advance hnext (hrest.trans hadvances)), hopen, hcurrent, hproceed'⟩

theorem advances_of_feed_load {s s' : Session} {p p' : Parser} {path : Located String}
    (h : feed s p = .load path s' p') : Advances s s' := by
  obtain ⟨-, -, -, ⟨-, rfl⟩ | ⟨s₁, hadvances, -, -, hproceed⟩⟩ := feed_load_advances h
  · exact .refl _
  · obtain ⟨next, hnext, hrest⟩ := Advances.proceed hproceed
    exact hadvances.trans (.advance hnext hrest)

/-! ### Rounds -/

namespace Stop

/-- Executes the include that a parse has stopped at, and goes on to the next stop. -/
def next (files : FileSystem) : Stop → Stop
  | load path s p =>
    match s.loadFile path (files (s.includePath path.value)) with
    | .error failure => .failed failure
    | .ok s => feed s { p with state := .top }
  | stop => stop

/-- The stop that a parse comes to when it has executed a number of includes. -/
def after (files : FileSystem) (stop : Stop) : Nat → Stop
  | 0 => stop
  | n + 1 => (stop.next files).after files n

/-- The result of a parse that must not include any more. -/
def outcome : Stop → Parsed
  | finished app s => .ok (app, s)
  | failed failure => .error failure
  | load path s _ => .error ⟨.tooManyIncludes (s.location path.span), s⟩

/-- The parse asks for a file. -/
def IsLoad : Stop → Prop
  | load _ _ _ => True
  | _ => False

variable {files : FileSystem} {stop : Stop}

theorem next_of_not_isLoad (h : ¬ stop.IsLoad) : stop.next files = stop := by
  cases stop with
  | load path s p => exact absurd trivial h
  | _ => rfl

theorem after_succ (n : Nat) : stop.after files (n + 1) = (stop.after files n).next files := by
  induction n generalizing stop with
  | zero => rfl
  | succ n ih => exact ih

theorem after_add (n m : Nat) : stop.after files (n + m) = (stop.after files n).after files m := by
  induction m with
  | zero => rfl
  | succ m ih => rw [← Nat.add_assoc, after_succ, ih, after_succ]

@[simp] theorem after_finished (app : App) (s : Session) (n : Nat) :
    (finished app s).after files n = finished app s := by
  induction n with
  | zero => rfl
  | succ n ih => exact ih

@[simp] theorem after_failed (failure : Failure) (n : Nat) : (failed failure).after files n = failed failure := by
  induction n with
  | zero => rfl
  | succ n ih => exact ih

/-- A parse that has come to a result stays there. -/
theorem after_of_not_isLoad {n m : Nat} (h : ¬ (stop.after files n).IsLoad) (hle : n ≤ m) :
    stop.after files m = stop.after files n := by
  induction hle with
  | refl => rfl
  | step _ ih => rw [after_succ, ih, next_of_not_isLoad h]

end Stop

/-- A parse with a budget makes as many rounds as the budget allows. -/
theorem run_runParser (files : FileSystem) (budget : Nat) (s : Session) (p : Parser) :
    (runParser budget s p).run files = ((feed s p).after files budget).outcome := by
  induction budget generalizing s p with
  | zero =>
    rw [runParser]
    cases feed s p <;> rfl
  | succ budget ih =>
    rw [runParser]
    cases hfeed : feed s p with
    | finished app s' => simp [Stop.outcome]
    | failed failure => simp [Stop.outcome]
    | load path s' p' =>
      rw [Stop.after, Stop.next]
      cases hload : s'.loadFile path (files (s'.includePath path.value)) with
      | error failure => simp [hload, Stop.outcome]
      | ok s'' => simp [hload, ih]

/-! ### Whole parses -/

namespace Session

/-- The first stop of a parse of a text. -/
def startText (s : Session) (name : Path) (text : String) : Stop :=
  match (s.openText name text).bind skipComments with
  | .error failure => .failed failure
  | .ok s => feed s .start

/-- The first stop of a parse of a file. -/
def startFile (s : Session) (files : FileSystem) (file : Path) : Stop :=
  match files (s.rootPath file) with
  | .error cause => .failed ⟨.unreadable (s.rootPath file) cause, s⟩
  | .ok text => s.startText file text

variable (s : Session) (files : FileSystem) (budget : Nat)

theorem run_parseTextWithin (name : Path) (text : String) :
    (s.parseTextWithin budget name text).run files = ((s.startText name text).after files budget).outcome := by
  rw [parseTextWithin_eq, startText]
  cases (s.openText name text).bind skipComments with
  | error failure => simp [Stop.outcome]
  | ok s' => exact run_runParser files budget s' .start

theorem run_parseFileWithin (file : Path) :
    (s.parseFileWithin budget file).run files = ((s.startFile files file).after files budget).outcome := by
  rw [parseFileWithin, startFile, Reading.run_look]
  cases files (s.rootPath file) with
  | error cause => simp [openRoot, Stop.outcome]
  | ok text => exact s.run_parseTextWithin files budget file text

end Session

namespace Parsed

/-- What the user of a parse is told: the application or the error. -/
def answer : Parsed → Except ParseError App
  | .ok (app, _) => .ok app
  | .error failure => .error failure.error

/-- The session as the parse leaves it. -/
def session : Parsed → Session
  | .ok (_, s) => s
  | .error failure => failure.session

end Parsed

/-! ### What holds at every include -/

/-- What holds when a parse asks for a file: the session stands at the semicolon of the include, and the path is one of
its sources'. -/
structure Asks (root : Path) (path : Located String) (s : Session) (p : Parser) : Prop where
  aligned : s.Aligned
  files : s.files ≠ []
  semicolon : s.current.value = .mark .semicolon
  state : p.state = .includeEnd path
  registered : path.span.source < s.sources.size
  root : s.root = root

/-- Every include that a parse stops at has been asked for. -/
def Stop.Asked (root : Path) : Stop → Prop
  | load path s p => Asks root path s p
  | _ => True

private theorem asked_feed {root : Path} {s : Session} {p : Parser} (hs : s.Aligned) (hroot : s.root = root)
    (hp : p.state = .top) : (feed s p).Asked root := by
  cases hfeed : feed s p with
  | load path s' p' =>
    obtain ⟨hfiles, hvalue, hstate, hcases⟩ := feed_load_advances hfeed
    have hadvances' : Advances s s' := advances_of_feed_load hfeed
    have aligned : s'.Aligned := hadvances'.aligned hs
    rcases hcases with ⟨htop, -⟩ | ⟨s₁, hadvances, hopen, hcurrent, -⟩
    · rw [hp] at htop
      simp at htop
    · have aligned₁ : s₁.Aligned := hadvances.aligned hs
      obtain ⟨file, below, hs₁⟩ := List.exists_cons_of_ne_nil hopen
      -- the path has been read as a token of a file that was open, so its source is registered
      have hnumber : path.span.source = file.stream.number := by
        have hstacked := aligned₁.stacked
        rw [hs₁, hcurrent] at hstacked
        exact hstacked.1
      refine ⟨aligned, hfiles, hvalue, hstate, ?_, hadvances'.record.1.trans hroot⟩
      rw [hnumber, hadvances'.record.2, ← hadvances.record.2]
      exact (aligned₁.registered file (by simp [hs₁])).number_lt
  | _ => trivial

private theorem asked_next {root : Path} {stop : Stop} (files : FileSystem) (h : stop.Asked root) :
    (stop.next files).Asked root := by
  cases stop with
  | load path s p =>
    rw [Stop.next]
    cases hload : s.loadFile path (files (s.includePath path.value)) with
    | error failure => trivial
    | ok s' => exact asked_feed (h.aligned.loadFile hload) ((Session.root_of_loadFile hload).trans h.root) rfl
  | _ => trivial

theorem asked_after {root : Path} {stop : Stop} (files : FileSystem) (h : stop.Asked root) (n : Nat) :
    (stop.after files n).Asked root := by
  induction n generalizing stop with
  | zero => exact h
  | succ n ih => exact ih (asked_next files h)

theorem asked_startText (s : Session) (name : Path) (text : String) : (s.startText name text).Asked s.root := by
  rw [Session.startText]
  cases hopen : s.openText name text with
  | error failure => trivial
  | ok s₁ =>
    rw [show (Except.ok s₁ : Outcome Session).bind Session.skipComments = s₁.skipComments from rfl]
    cases hskip : s₁.skipComments with
    | error failure => trivial
    | ok s₂ =>
      have aligned : s₁.Aligned := (Session.Aligned.openText hopen).1
      have hroot : s₂.root = s.root :=
        (Advances.skipComments hskip).record.1.trans (Session.root_of_openText hopen)
      exact asked_feed (aligned.skipComments hskip) hroot rfl

theorem asked_startFile (s : Session) (files : FileSystem) (file : Path) : (s.startFile files file).Asked s.root := by
  rw [Session.startFile]
  cases files (s.rootPath file) with
  | error cause => trivial
  | ok text => exact asked_startText s file text

end BundleConf
