import BundleConf.Proofs.Session.Calls
import BundleConf.Proofs.Session.Renumbering

/-!
# Calls that fail

Whoever goes on with a session after a call that has failed wants to find it as it was.  A session that cannot advance
is left alone, and so is one that cannot find or read the file it is to include.  But if that file starts with a stray
character then this is noticed too late: the innermost file has been suspended by then, and an end has taken the place
of its current token (`Session.retry`).  To repeat the call is of no use in any case, because it fails as before.
-/

namespace BundleConf

/-- No sources make no difference. -/
theorem ParseError.renumber_zero (error : ParseError) : error.renumber 0 = error := by
  cases error <;> rfl

namespace Session

/-- The calls that go on with what is open. -/
def Call.GoesOn : Call → Prop
  | includeFile _ _ _ => True
  | advance => True
  | _ => False

variable {s : Session} {c : Call} {failure : Failure}

/-! ### One call -/

private theorem enter_of_error {path : Path} {text : String} {e : StrayCharacter}
    (hnext : (TokenStream.ofSource ⟨path, text⟩ s.sources.size).next = .error e) :
    s.enter path text = .error ⟨.stray e, { s with sources := s.sources.add ⟨path, text⟩ }⟩ := by
  rw [enter]
  dsimp only
  rw [hnext]

/-- A text that starts with a stray character is a source from then on, and another one when it is entered again. -/
private theorem enter_again {path : Path} {text : String} {t : Session}
    (h : s.enter path text = .error failure) (ht : t.sources = failure.session.sources) :
    (∃ e, failure.error = .stray e) ∧ failure.session = { s with sources := s.sources.add ⟨path, text⟩ } ∧
      ∃ failure', t.enter path text = .error failure' ∧ failure'.error = failure.error.renumber 1 := by
  obtain ⟨e, hnext, rfl⟩ := exists_of_enter_error h
  refine ⟨⟨e, rfl⟩, rfl, _, enter_of_error (e := e.renumber 1) ?_, rfl⟩
  have renumbered := (TokenStream.ofSource ⟨path, text⟩ s.sources.size).next_renumber 1
  rw [hnext] at renumbered
  rw [ht, SourceTable.size_add]
  exact renumbered

/-- A call that fails leaves the session alone, or has included a file that starts with a stray character. -/
private theorem cases_of_call_error (hc : c.GoesOn) (h : s.call c = .error failure) :
    (failure.session = s ∧ ¬ (c.IsInclude ∧ ∃ e, failure.error = .stray e)) ∨
    (c.IsInclude ∧ ∃ e, failure.error = .stray e) ∧
      ∃ source, failure.session = { s.suspend with sources := s.sources.add source } ∧
        ∃ failure', failure.session.call c = .error failure' ∧ failure'.error = failure.error.renumber 1 := by
  cases c with
  | openRoot | openText => exact hc.elim
  | advance =>
    obtain ⟨_, _, _, -, -, rfl⟩ := exists_of_advance_error h
    exact .inl ⟨rfl, fun hinclude => hinclude.1.elim⟩
  | includeFile requested span found =>
    rcases cases_of_includeFile_error h with rfl | rfl | ⟨cause, rfl⟩ | ⟨text, hdepth, rfl, henter⟩
    · exact .inl ⟨rfl, by simp⟩
    · exact .inl ⟨rfl, by simp⟩
    · exact .inl ⟨rfl, by simp⟩
    · -- the innermost file has been suspended, and the file is to be entered on top of it
      obtain ⟨hstray, hs, hagain⟩ := enter_again (t := failure.session.suspend) henter rfl
      refine .inr ⟨⟨trivial, hstray⟩, _, hs, ?_⟩
      have hdepth' : failure.session.depth < maxDepth := by
        rw [hs]
        exact hdepth
      have hpath : failure.session.includePath requested = s.includePath requested := by
        rw [hs]
        rfl
      rw [Session.call, includeFile_of_text hdepth', hpath]
      exact hagain

/-! ### What a failed call leaves -/

/-- After a call that has failed the open files are where they were, and sources can only have been added.  The session
stands where it stood, and is the same, unless a file has been included that starts with a stray character; then the
token that was current is suspended on top of the others, and an end is current.  The call fails again in the same way,
apart from the number of the source that has been read again. -/
theorem retry (hc : c.GoesOn) (h : s.call c = .error failure) :
    failure.session.files = s.files ∧ (∃ added, failure.session.sources = s.sources.append added) ∧
    (failure.session.cursor = s.cursor ↔ ¬ (c.IsInclude ∧ ∃ e, failure.error = .stray e)) ∧
    (failure.session.cursor = s.cursor → failure.session = s) ∧
    (failure.session.cursor ≠ s.cursor →
      failure.session.suspended = s.current :: s.suspended ∧ failure.session.current = noToken) ∧
    ∃ failure', failure.session.call c = .error failure' ∧
      failure'.error = failure.error.renumber (failure.session.sources.size - s.sources.size) := by
  rcases cases_of_call_error hc h with ⟨hs, hstray⟩ | ⟨hstray, source, hs, failure', hagain, herror⟩
  · refine ⟨by rw [hs], ⟨.empty, by rw [hs, s.sources.append_empty]⟩, by simp [hs, hstray], fun _ => hs,
      fun hne => absurd (by rw [hs]) hne, failure, by rw [hs, h], ?_⟩
    rw [hs, Nat.sub_self, failure.error.renumber_zero]
  · have hne : failure.session.cursor ≠ s.cursor := by
      intro hcursor
      have hlength := congrArg (fun x => x.2.1.length) hcursor
      simp [hs, cursor, suspend] at hlength
    have hsize : failure.session.sources.size = s.sources.size + 1 := by rw [hs, SourceTable.size_add]
    refine ⟨by rw [hs, suspend], ⟨SourceTable.empty.add source, ?_⟩, ?_, fun h => absurd h hne, ?_, failure', hagain,
      ?_⟩
    · rw [hs, ← SourceTable.add_append, s.sources.append_empty]
    · exact ⟨fun h => absurd h hne, fun h => absurd hstray h⟩
    · rw [hs]
      exact fun _ => ⟨rfl, rfl⟩
    · rw [herror, hsize, Nat.add_sub_cancel_left]

/-- A file has been included that is not at its end. -/
private def included : Session :=
  (new ⟨"."⟩).afterCalls
    [.openText ⟨"app.conf"⟩ "routes ;", .advance, .includeFile "child.conf" ⟨7, 8, 0⟩ (.ok "ui")]

private def includeMissing : Call :=
  .includeFile "no.conf" ⟨0, 2, 1⟩ (.error .notFound)

private def includeStray : Call :=
  .includeFile "bad.conf" ⟨0, 2, 1⟩ (.ok "@")

private theorem exists_failure {c : Call} (h : (s.call c).isOk = false) :
    ∃ failure, s.call c = .error failure ∧ failure.session = (s.call c).session := by
  cases hs : s.call c with
  | ok s' => simp [hs, Except.isOk, Except.toBool] at h
  | error failure => exact ⟨failure, rfl, rfl⟩

/-- The session is left alone by a file that is not there, and not by one that starts with a stray character. -/
theorem retry_of_missing :
    (∃ failure, included.call includeMissing = .error failure ∧ failure.session = included) ∧
    ∃ failure failure', included.call includeStray = .error failure ∧
      failure.session.suspended = included.current :: included.suspended ∧ failure.session.current = noToken ∧
      failure.session.call includeStray = .error failure' ∧ failure'.error = failure.error.renumber 1 := by
  constructor
  · obtain ⟨failure, hfailure, -⟩ := exists_failure (s := included) (c := includeMissing) (by decide +kernel)
    obtain ⟨-, -, hiff, hsame, -⟩ := retry (c := includeMissing) trivial hfailure
    have herror : ∀ e, failure.error ≠ .stray e := by
      obtain rfl := Except.error.inj hfailure
      simp
    exact ⟨failure, hfailure, hsame (hiff.2 fun hstray => hstray.2.elim herror)⟩
  · obtain ⟨failure, hfailure, hsession⟩ := exists_failure (s := included) (c := includeStray) (by decide +kernel)
    obtain ⟨-, -, -, -, hne, failure', hagain, herror⟩ := retry (c := includeStray) trivial hfailure
    have hcurrent : failure.session.current.value ≠ included.current.value := by
      rw [hsession]
      decide +kernel
    have hsize : failure.session.sources.size - included.sources.size = 1 := by
      rw [hsession]
      decide +kernel
    rw [hsize] at herror
    obtain ⟨hsuspended, htoken⟩ := hne fun hcursor => hcurrent (congrArg (fun x => x.2.2.value) hcursor)
    exact ⟨failure, failure', hfailure, hsuspended, htoken, hagain, herror⟩

/-- A file that starts with a stray character does not leave the session where it was; from there it goes on to a token
that it had come to before. -/
theorem not_retry :
    (¬ ∀ (calls : List Call) (c : Call) (failure : Failure), c.GoesOn →
      ((new ⟨"."⟩).afterCalls calls).call c = .error failure →
      failure.session.cursor = ((new ⟨"."⟩).afterCalls calls).cursor) ∧
    ¬ ∀ (calls : List Call) (c : Call) (failure : Failure), c.GoesOn →
      ((new ⟨"."⟩).afterCalls calls).call c = .error failure →
      (failure.session.afterCalls [.advance]).current =
        (((new ⟨"."⟩).afterCalls calls).afterCalls [.advance]).current := by
  obtain ⟨failure, hfailure, hsession⟩ := exists_failure (s := included) (c := includeStray) (by decide +kernel)
  constructor
  · intro h
    have hcursor : failure.session.cursor = included.cursor := h _ includeStray failure trivial hfailure
    have hcurrent := congrArg (fun x => x.2.2.value) hcursor
    rw [hsession] at hcurrent
    exact absurd hcurrent (by decide +kernel)
  · intro h
    have hnext : (failure.session.afterCalls [.advance]).current = (included.afterCalls [.advance]).current :=
      h _ includeStray failure trivial hfailure
    rw [hsession] at hnext
    exact absurd hnext (by decide +kernel)

end Session

end BundleConf
