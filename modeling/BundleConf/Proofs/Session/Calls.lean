import BundleConf.Proofs.Session.Passing

/-!
# Calls of a session

A session can be asked to open a root file, to include a file and to go on to the next token, in any order, and may be
used further after a call that fails (`Session.afterCalls`).  Whatever has been called before, not too many files are
open, and there are suspended tokens enough for the files below the innermost (`Session.Bounded`).  If no call has
failed then the session is at an end exactly when no file is open (`Session.Ended`), and if moreover files have been
included only from open files then each file below the innermost is suspended at a token of its own, which is no end
(`Session.Nested`).
-/

namespace BundleConf

/-- The session after an operation, be it that the operation has failed. -/
def Outcome.session : Outcome Session → Session
  | .ok s => s
  | .error failure => failure.session

theorem Outcome.eq_ok_of_isOk {x : Outcome Session} (h : x.isOk = true) : x = .ok x.session := by
  cases x with
  | error failure => simp [Except.isOk, Except.toBool] at h
  | ok s => rfl

namespace Session

/-- What a session can be asked for; to a call that reads a file it is told what there is at the file's path. -/
inductive Call where
  | openRoot (file : Path) (found : Lookup)
  | openText (name : Path) (text : String)
  | includeFile (requested : String) (span : Span) (found : Lookup)
  | advance

def Call.IsInclude : Call → Prop
  | includeFile _ _ _ => True
  | _ => False

instance : DecidablePred Call.IsInclude
  | .includeFile _ _ _ => isTrue trivial
  | .openRoot _ _ | .openText _ _ | .advance => isFalse id

def call (s : Session) : Call → Outcome Session
  | .openRoot file found => s.openRoot file found
  | .openText name text => s.openText name text
  | .includeFile requested span found => s.includeFile requested span found
  | .advance => s.advance

/-- The session after some calls, failed ones included. -/
def afterCalls (s : Session) (calls : List Call) : Session :=
  calls.foldl (fun s c => (s.call c).session) s

/-- None of the calls fails. -/
def Succeeds : Session → List Call → Prop
  | _, [] => True
  | s, c :: calls => (s.call c).isOk = true ∧ (s.call c).session.Succeeds calls

instance decidableSucceeds : (s : Session) → (calls : List Call) → Decidable (s.Succeeds calls)
  | _, [] => isTrue trivial
  | s, c :: calls =>
    have := (s.call c).session.decidableSucceeds calls
    inferInstanceAs (Decidable (_ ∧ _))

/-- Files are included only while a file is open. -/
def IncludesFromFiles : Session → List Call → Prop
  | _, [] => True
  | s, c :: calls => (c.IsInclude → s.files ≠ []) ∧ (s.call c).session.IncludesFromFiles calls

instance decidableIncludesFromFiles : (s : Session) → (calls : List Call) → Decidable (s.IncludesFromFiles calls)
  | _, [] => isTrue trivial
  | s, c :: calls =>
    have := (s.call c).session.decidableIncludesFromFiles calls
    inferInstanceAs (Decidable ((_ → _) ∧ _))

/-! ### Closing files -/

section SettleWith

variable {files : List OpenFile} {suspended : List (Located Token)} {current : Located Token}

private theorem length_settleWith_le (h : files.length ≤ suspended.length + 1) :
    (settleWith files suspended current).1.length ≤ (settleWith files suspended current).2.1.length + 1 := by
  fun_induction settleWith files suspended current with
  | case1 => exact Nat.zero_le _
  | case2 => exact h
  | case3 => exact Nat.zero_le _
  | case4 => exact Nat.le_succ_of_le (Nat.le_of_succ_le_succ h)
  | case5 _ _ _ _ _ _ _ ih => exact ih (Nat.le_of_succ_le_succ h)

/-- With tokens enough to resume at, files are closed until one is not at its end. -/
private theorem value_settleWith_ne_finish (h : files.length ≤ suspended.length + 1)
    (hopen : (settleWith files suspended current).1 ≠ []) :
    (settleWith files suspended current).2.2.value ≠ .finish := by
  fun_induction settleWith files suspended current with
  | case1 => simp at hopen
  | case2 => assumption
  | case3 => simp at hopen
  | case4 file files _ _ hne =>
    -- the file below would have no token to be resumed at
    obtain rfl : files = [] := List.eq_nil_of_length_eq_zero (by simpa using h)
    simp at hne
  | case5 _ _ _ _ _ _ _ ih => exact ih (Nat.le_of_succ_le_succ h) hopen

private theorem value_settleWith_eq_finish (hfiles : files ≠ [])
    (hclosed : (settleWith files suspended current).1 = []) :
    (settleWith files suspended current).2.2.value = .finish := by
  fun_induction settleWith files suspended current with
  | case1 => simp at hfiles
  | case2 => simp at hclosed
  | case3 _ _ _ _ hfinish => simpa using hfinish
  | case4 _ _ _ hfinish => simpa using hfinish
  | case5 _ _ _ _ hne _ _ ih => exact ih (by simpa using hne) hclosed

/-- Each file that is closed takes away the token at which the file below it is resumed. -/
private theorem nested_settleWith (h : suspended.length = files.length - 1)
    (hvalues : ∀ t ∈ suspended, t.value ≠ .finish) :
    (settleWith files suspended current).2.1.length = (settleWith files suspended current).1.length - 1 ∧
      ∀ t ∈ (settleWith files suspended current).2.1, t.value ≠ .finish := by
  fun_induction settleWith files suspended current with
  | case1 => exact ⟨h, hvalues⟩
  | case2 => exact ⟨h, hvalues⟩
  | case3 _ _ _ _ _ hnil =>
    rw [List.isEmpty_iff.1 hnil] at h
    exact ⟨h, hvalues⟩
  | case4 _ files =>
    obtain rfl : files = [] := List.eq_nil_of_length_eq_zero (by simpa using h.symm)
    exact ⟨rfl, hvalues⟩
  | case5 _ files _ _ _ _ suspended ih =>
    simp only [List.length_cons, Nat.add_sub_cancel] at h
    exact ih (by omega) fun t ht => hvalues t (List.mem_cons_of_mem _ ht)

end SettleWith

/-! ### After any calls -/

/-- Not too many files are open, and there is a suspended token for each of them but one. -/
structure Bounded (s : Session) : Prop where
  depth_le : s.depth ≤ maxDepth
  depth_le_suspended : s.depth ≤ s.suspended.length + 1

/-- The session is at an end exactly when no file is open. -/
def Ended (s : Session) : Prop :=
  s.isFinished = true ↔ s.current.value = .finish

variable {s s' : Session} {c : Call} {path : Path} {text : String}

theorem bounded_new (root : Path) : (new root).Bounded :=
  ⟨Nat.zero_le _, Nat.zero_le _⟩

theorem ended_new (root : Path) : (new root).Ended :=
  ⟨fun _ => rfl, fun _ => rfl⟩

theorem Bounded.settle (h : s.Bounded) : s.settle.Bounded := by
  have closed : s.settle.depth ≤ s.depth := (settleWith_isSuffix s.files s.suspended s.current).length_le
  exact ⟨Nat.le_trans closed h.depth_le, length_settleWith_le h.depth_le_suspended⟩

theorem Bounded.settled_settle (h : s.Bounded) : s.settle.Settled :=
  value_settleWith_ne_finish h.depth_le_suspended

/-- A file is closed only at an end. -/
theorem Bounded.ended_settle (h : s.Bounded) (hfiles : s.files ≠ []) : s.settle.Ended := by
  constructor
  · intro hfinished
    exact value_settleWith_eq_finish hfiles (List.isEmpty_iff.1 hfinished)
  · intro hfinish
    by_cases hopen : s.settle.files = []
    · exact List.isEmpty_iff.2 hopen
    · exact absurd hfinish (h.settled_settle hopen)

/-! ### One call -/

/-- A text that is entered is settled as soon as its first token has been read. -/
private theorem exists_settle_of_enter (hdepth : s.depth < maxDepth) (hsuspended : s.depth ≤ s.suspended.length)
    (h : s.enter path text = .ok s') : ∃ t : Session, t.Bounded ∧ t.files ≠ [] ∧ s' = t.settle := by
  obtain ⟨token, stream, -, rfl⟩ := exists_of_enter h
  let opened : Session :=
    { s with
      sources := s.sources.add ⟨path, text⟩
      files := ⟨s.directoryOf path, path, stream⟩ :: s.files
      current := token }
  have bounded : opened.Bounded := ⟨hdepth, Nat.succ_le_succ hsuspended⟩
  exact ⟨opened, bounded, by simp [opened], rfl⟩

private theorem exists_settle_of_openText {name : Path} (h : s.openText name text = .ok s') :
    ∃ t : Session, t.Bounded ∧ t.files ≠ [] ∧ s' = t.settle :=
  exists_settle_of_enter (s := { s with files := [], suspended := [] }) (Nat.zero_lt_succ _) (Nat.le_refl 0) h

/-- A call that succeeds ends with settling, unless there is nothing to advance in. -/
theorem Bounded.exists_settle_of_call (h : s.Bounded) (hs : s.call c = .ok s') :
    (s.files = [] ∧ s' = s) ∨ ∃ t : Session, t.Bounded ∧ t.files ≠ [] ∧ s' = t.settle := by
  cases c with
  | openRoot file found =>
    cases found with
    | error cause => simp [Session.call, openRoot] at hs
    | ok text => exact .inr (exists_settle_of_openText hs)
  | openText name text => exact .inr (exists_settle_of_openText hs)
  | includeFile requested span found =>
    obtain ⟨hdepth, text, -, henter⟩ := exists_of_includeFile hs
    exact .inr (exists_settle_of_enter (s := s.suspend) hdepth h.depth_le_suspended henter)
  | advance =>
    rcases cases_of_advance hs with hnil | ⟨file, files, token, stream, hfiles, -, rfl⟩
    · exact .inl hnil
    · have bounded : Bounded { s with files := { file with stream } :: files, current := token } := by
        constructor
        · simpa [depth, hfiles] using h.depth_le
        · simpa [depth, hfiles] using h.depth_le_suspended
      exact .inr ⟨_, bounded, by simp, rfl⟩

private theorem bounded_of_enter_error {failure : Failure} (hdepth : s.depth ≤ maxDepth)
    (hsuspended : s.depth ≤ s.suspended.length) (h : s.enter path text = .error failure) :
    failure.session.Bounded := by
  obtain ⟨_, -, rfl⟩ := exists_of_enter_error h
  exact ⟨hdepth, Nat.le_succ_of_le hsuspended⟩

private theorem bounded_of_openText_error {failure : Failure} {name : Path}
    (h : s.openText name text = .error failure) : failure.session.Bounded :=
  bounded_of_enter_error (s := { s with files := [], suspended := [] }) (Nat.zero_le _) (Nat.le_refl 0) h

private theorem Bounded.of_call_error {failure : Failure} (h : s.Bounded) (hs : s.call c = .error failure) :
    failure.session.Bounded := by
  cases c with
  | openRoot file found =>
    cases found with
    | error cause =>
      obtain rfl := Except.error.inj hs
      exact h
    | ok text => exact bounded_of_openText_error hs
  | openText name text => exact bounded_of_openText_error hs
  | includeFile requested span found =>
    rcases cases_of_includeFile_error hs with rfl | rfl | ⟨cause, rfl⟩ | ⟨text, -, -, henter⟩
    · exact h
    · exact h
    · exact h
    · exact bounded_of_enter_error (s := s.suspend) h.depth_le h.depth_le_suspended henter
  | advance =>
    obtain ⟨_, _, _, -, -, rfl⟩ := exists_of_advance_error hs
    exact h

/-- No call opens too many files, or leaves a file without a token to be resumed at. -/
theorem Bounded.call (h : s.Bounded) (c : Call) : (s.call c).session.Bounded := by
  cases hs : s.call c with
  | error failure => exact h.of_call_error hs
  | ok s' =>
    rcases h.exists_settle_of_call hs with ⟨-, rfl⟩ | ⟨t, ht, -, rfl⟩
    · exact h
    · exact ht.settle

/-- After a call that succeeds no end is current in an open file. -/
theorem Bounded.settled_of_call (h : s.Bounded) (hs : s.call c = .ok s') : s'.Settled := by
  rcases h.exists_settle_of_call hs with ⟨hnil, rfl⟩ | ⟨t, ht, -, rfl⟩
  · exact fun hopen => absurd hnil hopen
  · exact ht.settled_settle

theorem Bounded.ended_of_call (h : s.Bounded) (hended : s.Ended) (hs : s.call c = .ok s') : s'.Ended := by
  rcases h.exists_settle_of_call hs with ⟨-, rfl⟩ | ⟨t, ht, hfiles, rfl⟩
  · exact hended
  · exact ht.ended_settle hfiles

/-! ### Files that are included from open files -/

/-- Each file below the innermost is suspended at a token of its own, which is no end. -/
structure Nested (s : Session) : Prop where
  length : s.suspended.length = s.depth - 1
  suspended : ∀ t ∈ s.suspended, t.value ≠ .finish

theorem nested_new (root : Path) : (new root).Nested :=
  ⟨rfl, fun _ ht => absurd ht List.not_mem_nil⟩

theorem Nested.settle (h : s.Nested) : s.settle.Nested := by
  obtain ⟨hlength, hvalues⟩ := nested_settleWith h.length h.suspended
  exact ⟨hlength, hvalues⟩

theorem Nested.advance (h : s.Nested) (hs : s.advance = .ok s') : s'.Nested := by
  rcases cases_of_advance hs with ⟨-, rfl⟩ | ⟨file, files, token, stream, hfiles, -, rfl⟩
  · exact h
  · refine Nested.settle ⟨?_, h.suspended⟩
    simpa [depth, hfiles] using h.length

private theorem nested_of_enter (hlength : s.suspended.length = s.depth)
    (hvalues : ∀ t ∈ s.suspended, t.value ≠ .finish) (h : s.enter path text = .ok s') : s'.Nested := by
  obtain ⟨token, stream, -, rfl⟩ := exists_of_enter h
  exact Nested.settle ⟨hlength, hvalues⟩

theorem nested_of_openText {name : Path} (h : s.openText name text = .ok s') : s'.Nested :=
  nested_of_enter (s := { s with files := [], suspended := [] }) rfl (by simp) h

theorem Nested.includeFile (h : s.Nested) (hended : s.Ended) (hfiles : s.files ≠ []) {requested : String} {span : Span}
    {found : Lookup} (hs : s.includeFile requested span found = .ok s') : s'.Nested := by
  obtain ⟨-, text, -, henter⟩ := exists_of_includeFile hs
  have current : s.current.value ≠ .finish := fun hfinish =>
    hfiles (List.isEmpty_iff.1 (hended.2 hfinish))
  refine nested_of_enter (s := s.suspend) ?_ (List.forall_mem_cons.2 ⟨current, h.suspended⟩) henter
  have pos : 0 < s.depth := List.length_pos_iff.2 hfiles
  have length := h.length
  change s.suspended.length + 1 = s.depth
  omega

/-- What holds as long as no call fails and files are included only from open files. -/
structure Orderly (s : Session) : Prop where
  bounded : s.Bounded
  ended : s.Ended
  nested : s.Nested

theorem orderly_new (root : Path) : (new root).Orderly :=
  ⟨bounded_new root, ended_new root, nested_new root⟩

/-- Whatever has been called before, a text that is opened starts anew. -/
theorem orderly_of_openText {name : Path} (h : s.openText name text = .ok s') : s'.Orderly := by
  have nested : s'.Nested := nested_of_openText h
  obtain ⟨t, bounded, hfiles, rfl⟩ := exists_settle_of_openText h
  exact ⟨bounded.settle, bounded.ended_settle hfiles, nested⟩

theorem Orderly.call (h : s.Orderly) (hfiles : c.IsInclude → s.files ≠ []) (hs : s.call c = .ok s') : s'.Orderly := by
  have bounded := h.bounded.call c
  rw [hs] at bounded
  refine ⟨bounded, h.bounded.ended_of_call h.ended hs, ?_⟩
  cases c with
  | openRoot file found =>
    cases found with
    | error cause => simp [Session.call, openRoot] at hs
    | ok text => exact nested_of_openText hs
  | openText name text => exact nested_of_openText hs
  | includeFile requested span found => exact h.nested.includeFile h.ended (hfiles trivial) hs
  | advance => exact h.nested.advance hs

/-! ### Any number of calls -/

theorem Bounded.afterCalls (h : s.Bounded) (calls : List Call) : (s.afterCalls calls).Bounded := by
  induction calls generalizing s with
  | nil => exact h
  | cons c calls ih => exact ih (h.call c)

theorem Bounded.ended_afterCalls (h : s.Bounded) (hended : s.Ended) {calls : List Call} (hcalls : s.Succeeds calls) :
    (s.afterCalls calls).Ended := by
  induction calls generalizing s with
  | nil => exact hended
  | cons c calls ih => exact ih (h.call c) (h.ended_of_call hended (Outcome.eq_ok_of_isOk hcalls.1)) hcalls.2

theorem Orderly.afterCalls (h : s.Orderly) {calls : List Call} (hcalls : s.Succeeds calls)
    (hincludes : s.IncludesFromFiles calls) : (s.afterCalls calls).Orderly := by
  induction calls generalizing s with
  | nil => exact h
  | cons c calls ih => exact ih (h.call hincludes.1 (Outcome.eq_ok_of_isOk hcalls.1)) hcalls.2 hincludes.2

end Session

end BundleConf
