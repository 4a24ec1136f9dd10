import BundleConf.Proofs.Parsing.Asking
import BundleConf.Proofs.Parsing.Feeding

/-!
# Parsing a text without includes

A parse of a text on its own is a run of its machine over the tokens of the text, comments apart.  It yields an
application exactly when the machine finishes with it, and if the text has no stray characters it fails with the
conflict that the machine runs into.  Where it fails because a token is not expected, the machine refuses that token
(`Session.exists_refused_of_parseTextWithin`).
-/

namespace BundleConf

namespace Session

variable {s : Session} {name : Path} {text : String} {stream : TokenStream}

theorem parseTextWithin_eq (s : Session) (budget : Nat) (name : Path) (text : String) :
    s.parseTextWithin budget name text =
      match (s.openText name text).bind skipComments with
      | .error failure => .done (.error failure)
      | .ok s => runParser budget s .start := by
  rw [parseTextWithin]
  cases s.openText name text <;> rfl

/-- Opening a text that stands alone leads to its first token, unless it has none. -/
theorem openText_skipComments (hstream : stream = .ofSource ⟨s.rootPath name, text⟩ s.sources.size) :
    (∃ s', (s.openText name text).bind skipComments = .ok s' ∧ s'.machine .start = .start s.generated ∧
      s'.root = s.root ∧ s'.sources = s.sources.add ⟨s.rootPath name, text⟩ ∧
      s'.Reads ⟨s.directoryOf (s.rootPath name), s.rootPath name, stream⟩ [] [] (meaningful stream.unread.1)
        stream.unread.2) ∨
    ∃ e s', (s.openText name text).bind skipComments = .error ⟨.stray e, s'⟩ ∧ meaningful stream.unread.1 = [] ∧
      stream.unread.2 = some e := by
  let closed : Session := { s with files := [], suspended := [] }
  have resumable : Resumable closed.files closed.suspended := .inl rfl
  rcases enter_skipComments resumable (s.rootPath name) text hstream with
    ⟨s', hs', hroot, hgenerated, hsources, hreads⟩ | h
  · have hmachine : s'.machine .start = .start s.generated := by
      rw [Session.machine, hgenerated]
      rfl
    exact .inl ⟨s', hs', hmachine, hroot, hsources, hreads⟩
  · exact .inr h

private theorem run_runParser_finished {p : Parser} {app : App} {s' : Session} (h : feed s p = .finished app s')
    (files : FileSystem) (budget : Nat) : (runParser budget s p).run files = .ok (app, s') := by
  rw [runParser, h]
  rfl

private theorem run_runParser_failed {p : Parser} {failure : Failure} (h : feed s p = .failed failure)
    (files : FileSystem) (budget : Nat) : (runParser budget s p).run files = .error failure := by
  rw [runParser, h]
  rfl

section Result

variable (files : FileSystem) (budget : Nat) (hstream : stream = .ofSource ⟨s.rootPath name, text⟩ s.sources.size)

include hstream

/-- If the machine finishes then the parse yields its application. -/
theorem run_parseTextWithin_finished {app : App}
    (hm : (Machine.start s.generated).run (meaningful stream.unread.1) = .error (.finished app)) :
    ∃ s', (s.parseTextWithin budget name text).run files = .ok (app, s') ∧ s'.root = s.root ∧
      s'.sources = s.sources.add ⟨s.rootPath name, text⟩ := by
  rw [parseTextWithin_eq]
  rcases openText_skipComments hstream with ⟨s', hs', hmachine, hroot, hsources, hreads⟩ | ⟨e, s', -, hnil, -⟩
  · obtain ⟨s'', hfeed, hroot', hsources'⟩ := feed_eq_finished hreads (hmachine ▸ hm)
    refine ⟨s'', ?_, hroot'.trans hroot, hsources'.trans hsources⟩
    rw [hs']
    exact run_runParser_finished hfeed files budget
  · rw [hnil] at hm
    simp at hm

/-- If the machine runs into a conflict, and the text has no stray characters, then the parse fails with it, at its
place. -/
theorem run_parseTextWithin_conflict {cause : Located Conflict}
    (hm : (Machine.start s.generated).run (meaningful stream.unread.1) = .error (.conflict cause))
    (hlex : stream.unread.2 = none) :
    ∃ location s', (s.parseTextWithin budget name text).run files = .error ⟨.conflict cause.value location, s'⟩ ∧
      location.span = cause.span := by
  rw [parseTextWithin_eq]
  rcases openText_skipComments hstream with ⟨s', hs', hmachine, hroot, hsources, hreads⟩ | ⟨e, s', -, hnil, -⟩
  · rw [hlex] at hreads
    obtain ⟨s'', hfeed⟩ := feed_eq_conflict (.inl rfl) hreads (hmachine ▸ hm)
    refine ⟨s''.location cause.span, s'', ?_, s''.span_location cause.span⟩
    rw [hs']
    exact run_runParser_failed hfeed files budget
  · rw [hnil] at hm
    simp at hm

/-- If the machine neither finishes nor asks for a file then the parse fails. -/
theorem run_parseTextWithin_failed
    (hfinished : ∀ app, (Machine.start s.generated).run (meaningful stream.unread.1) ≠ .error (.finished app))
    (hload : ∀ path, (Machine.start s.generated).run (meaningful stream.unread.1) ≠ .error (.load path)) :
    ∃ failure, (s.parseTextWithin budget name text).run files = .error failure := by
  rw [parseTextWithin_eq]
  rcases openText_skipComments hstream with ⟨s', hs', hmachine, -, -, hreads⟩ | ⟨e, s', hs', -⟩
  · obtain ⟨error, s'', hfeed⟩ :=
      feed_eq_failed (p := .start) hreads (by rwa [hmachine]) (by rwa [hmachine])
    refine ⟨⟨error, s''⟩, ?_⟩
    rw [hs']
    exact run_runParser_failed hfeed files budget
  · refine ⟨⟨.stray e, s'⟩, ?_⟩
    rw [hs']
    rfl

/-- If the parse fails because a token is not expected then the machine refuses it after the tokens before it. -/
theorem exists_refused_of_parseTextWithin {expected : Expectation} {found : Kind} {location : Location} {s' : Session}
    (hload : ∀ path, (Machine.start s.generated).run (meaningful stream.unread.1) ≠ .error (.load path))
    (h : (s.parseTextWithin budget name text).run files = .error ⟨.unexpected expected found location, s'⟩) :
    ∃ us t rest m, meaningful stream.unread.1 = us ++ t :: rest ∧ (Machine.start s.generated).run us = .ok m ∧
      m.step t = .error (.refused expected) ∧ found = t.value.kind ∧ location.span = t.span := by
  rw [parseTextWithin_eq] at h
  rcases openText_skipComments hstream with ⟨s₁, hs₁, hmachine, -, -, hreads⟩ | ⟨e, s₁, hs₁, -⟩
  · rw [hs₁] at h
    rw [← hmachine] at hload ⊢
    by_cases hfinished : ∃ app, (s₁.machine .start).run (meaningful stream.unread.1) = .error (.finished app)
    · obtain ⟨app, happ⟩ := hfinished
      obtain ⟨s₂, hfeed, -⟩ := feed_eq_finished hreads happ
      simp [run_runParser_finished hfeed files budget] at h
    · obtain ⟨error, s₂, hfeed⟩ := feed_eq_failed hreads (fun app happ => hfinished ⟨app, happ⟩) hload
      rw [Except.error.inj ((run_runParser_failed hfeed files budget).symm.trans h)] at hfeed
      exact exists_refused_of_feed hreads hfeed
  · rw [hs₁] at h
    cases h

end Result

end Session

/-- A text without includes is accepted exactly when the machine finishes. -/
theorem Session.run_parseTextWithin_eq_ok_iff {s : Session} {name : Path} {text : String} {stream : TokenStream}
    (files : FileSystem) (budget : Nat) (hstream : stream = .ofSource ⟨s.rootPath name, text⟩ s.sources.size)
    (noInclude : ∀ t ∈ meaningful stream.unread.1, t.value ≠ .keyword .include) (app : App) :
    (∃ s', (s.parseTextWithin budget name text).run files = .ok (app, s')) ↔
      (Machine.start s.generated).run (meaningful stream.unread.1) = .error (.finished app) := by
  constructor
  · rintro ⟨s', hs'⟩
    by_cases hfinished : ∃ app', (Machine.start s.generated).run (meaningful stream.unread.1) = .error (.finished app')
    · obtain ⟨app', happ'⟩ := hfinished
      obtain ⟨s'', hs'', -⟩ := run_parseTextWithin_finished files budget hstream happ'
      obtain ⟨rfl, -⟩ : app = app' ∧ s' = s'' := by simpa [hs'] using hs''
      exact happ'
    · obtain ⟨failure, hfailure⟩ := run_parseTextWithin_failed files budget hstream
        (fun app' h => hfinished ⟨app', h⟩) (Machine.run_ne_load noInclude)
      simp [hs'] at hfailure
  · intro h
    obtain ⟨s', hs', -⟩ := run_parseTextWithin_finished files budget hstream h
    exact ⟨s', hs'⟩

end BundleConf
