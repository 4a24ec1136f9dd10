import BundleConf.Proofs.Parsing.Relocation
import BundleConf.Proofs.Session.Reading
import BundleConf.Proofs.Session.Steps

/-!
# Sources that have been read before

A session numbers its sources from the first one that it has ever read, and shows the numbers in spans only.  So if some
sources have been read before the others, then all numbers are greater by as many, and apart from that a session does
what it does without them (`Session.following`): there is one lemma for each operation, up to including a file
(`Outcome.Follows.loadFile`).  An operation that fails gives the same error with other numbers.
-/

namespace BundleConf

/-! ### Numbers -/

/-- The same piece of the source whose number is greater by `k`. -/
def Span.renumber (k : Nat) (span : Span) : Span :=
  { span with source := span.source + k }

def Location.renumber (k : Nat) (l : Location) : Location :=
  { l with span := l.span.renumber k }

/-- The error at another location. -/
def ParseError.mapLocation (f : Location → Location) : ParseError → ParseError
  | stray cause => stray { cause with location := f cause.location }
  | unexpected expected found location => unexpected expected found (f location)
  | conflict cause location => conflict cause (f location)
  | missingInclude requested resolved issuer location => missingInclude requested resolved issuer (f location)
  | includeTooDeep requested location => includeTooDeep requested (f location)
  | unreadable path cause => unreadable path cause
  | tooManyIncludes location => tooManyIncludes (f location)

def ParseError.renumber (k : Nat) (error : ParseError) : ParseError :=
  error.mapLocation (Location.renumber k)

/-- A number does not show in a message. -/
theorem ParseError.message_renumber (k : Nat) (error : ParseError) :
    (error.renumber k).diagnostic.message = error.diagnostic.message := by
  cases error <;> rfl

def StrayCharacter.renumber (k : Nat) (e : StrayCharacter) : StrayCharacter :=
  { e with location := e.location.renumber k }

/-! ### Streams -/

/-- The stream of the same source under a number that is greater by `k`. -/
def TokenStream.renumber (k : Nat) (s : TokenStream) : TokenStream :=
  { s with number := s.number + k }

theorem TokenStream.next_renumber (k : Nat) (s : TokenStream) : (s.renumber k).next =
    (s.next.map fun x => (x.1.relocate (Span.renumber k), x.2.renumber k)).mapError (StrayCharacter.renumber k) := by
  rw [next, next]
  dsimp only
  rw [show (s.renumber k).skipSpaces = s.skipSpaces.renumber k from rfl,
    show (s.skipSpaces.renumber k).rest = s.skipSpaces.rest from rfl]
  split
  · rfl
  · split <;> rfl

/-! ### Sessions -/

def OpenFile.renumber (k : Nat) (file : OpenFile) : OpenFile :=
  { file with stream := file.stream.renumber k }

namespace SourceTable

def append (old t : SourceTable) : SourceTable :=
  ⟨old.sources ++ t.sources⟩

theorem append_empty (old : SourceTable) : old.append empty = old := by
  simp [append, empty]

theorem size_append (old t : SourceTable) : (old.append t).size = t.size + old.size := by
  simp [append, size, Nat.add_comm]

theorem add_append (old t : SourceTable) (source : Source) : (old.append t).add source = old.append (t.add source) := by
  simp [append, add]

theorem get?_append (old t : SourceTable) (number : Nat) : (old.append t).get? (number + old.size) = t.get? number := by
  simp [append, get?, size, Array.getElem?_append_right]

end SourceTable

namespace Session

/-- The session as it is if the old sources have been read before all others. -/
def following (old : SourceTable) (s : Session) : Session where
  root := s.root
  sources := old.append s.sources
  files := s.files.map (OpenFile.renumber old.size)
  suspended := s.suspended.map (Located.relocate (Span.renumber old.size))
  current := s.current.relocate (Span.renumber old.size)
  generated := s.generated

variable (old : SourceTable) (s : Session)

theorem files_following_eq_nil : (s.following old).files = [] ↔ s.files = [] :=
  List.map_eq_nil_iff

theorem location_following (span : Span) :
    (s.following old).location (span.renumber old.size) = (s.location span).renumber old.size := by
  have same : (s.following old).sources.get? (span.renumber old.size).source = s.sources.get? span.source :=
    old.get?_append s.sources span.source
  rw [location, location, same]
  cases s.sources.get? span.source <;> rfl

theorem lookahead_following : (s.following old).lookahead = s.lookahead.relocate (Span.renumber old.size) := by
  have same : (s.following old).isFinished = s.isFinished := List.isEmpty_map
  rw [lookahead, lookahead, same]
  cases s.isFinished <;> rfl

theorem issuer_following : (s.following old).issuer = s.issuer := by
  obtain ⟨_, _, _ | _, _, _, _⟩ := s <;> rfl

theorem includePath_following (requested : String) :
    (s.following old).includePath requested = s.includePath requested := by
  obtain ⟨_, _, _ | _, _, _, _⟩ := s <;> rfl

private theorem settleWith_renumber (k : Nat) (files : List OpenFile) (suspended : List (Located Token))
    (current : Located Token) :
    settleWith (files.map (OpenFile.renumber k)) (suspended.map (Located.relocate (Span.renumber k)))
      (current.relocate (Span.renumber k)) =
    ((settleWith files suspended current).1.map (OpenFile.renumber k),
      (settleWith files suspended current).2.1.map (Located.relocate (Span.renumber k)),
      (settleWith files suspended current).2.2.relocate (Span.renumber k)) := by
  induction files generalizing suspended current with
  | nil => rfl
  | cons file files ih =>
    have value : (current.relocate (Span.renumber k)).value = current.value := rfl
    by_cases h : current.value = .finish
    · cases files <;> cases suspended <;> simp_all [settleWith]
    · rw [List.map_cons, settleWith_of_ne (by rwa [value]), settleWith_of_ne h]
      rfl

private theorem eq_of_cursor {s s' : Session} (hcursor : s.cursor = s'.cursor) (hrecord : SameRecord s s') :
    s = s' := by
  obtain ⟨_, _, _, _, _, _⟩ := s
  obtain ⟨_, _, _, _, _, _⟩ := s'
  obtain ⟨rfl, rfl, rfl⟩ := hrecord
  obtain ⟨rfl, rfl, rfl⟩ : _ ∧ _ ∧ _ := by simpa [cursor] using hcursor
  rfl

theorem settle_following : (s.following old).settle = s.settle.following old :=
  eq_of_cursor (settleWith_renumber old.size s.files s.suspended s.current) ⟨rfl, rfl, rfl⟩

end Session

/-! ### Operations -/

/-- The failure is the same with other numbers, and of the sessions that are left one has read the old sources. -/
structure Failure.Follows (old : SourceTable) (failure failure' : Failure) : Prop where
  error : failure'.error = failure.error.renumber old.size
  sources : failure'.session.sources = old.append failure.session.sources
  generated : failure'.session.generated = failure.session.generated

/-- An operation of a session, and the same one if the old sources have been read before. -/
inductive Outcome.Follows (old : SourceTable) : Outcome Session → Outcome Session → Prop
  | ok (s : Session) : Follows old (.ok s) (.ok (s.following old))
  | error {failure failure' : Failure} (h : failure.Follows old failure') :
    Follows old (.error failure) (.error failure')

namespace Outcome.Follows

variable {old : SourceTable} {x x' : Outcome Session}

theorem eq_ok {s : Session} (h : Follows old (.ok s) x') : x' = .ok (s.following old) := by
  cases h
  rfl

theorem exists_error {failure : Failure} (h : Follows old (.error failure) x') :
    ∃ failure', x' = .error failure' ∧ failure.Follows old failure' := by
  cases h with
  | error h => exact ⟨_, rfl, h⟩

theorem bind {f f' : Session → Outcome Session} (h : Follows old x x')
    (hf : ∀ s, Follows old (f s) (f' (s.following old))) : Follows old (x.bind f) (x'.bind f') := by
  cases h with
  | ok s => exact hf s
  | error h => exact .error h

end Outcome.Follows

namespace Session

variable (old : SourceTable) (s : Session)

theorem advance_following : Outcome.Follows old s.advance (s.following old).advance := by
  cases hs : s.files with
  | nil =>
    rw [advance, advance, hs, (files_following_eq_nil old s).2 hs]
    exact .ok s
  | cons file files =>
    have hs' : (s.following old).files = file.renumber old.size :: files.map (OpenFile.renumber old.size) := by
      rw [following, hs, List.map_cons]
    have hnext' := file.stream.next_renumber old.size
    cases hnext : file.stream.next with
    | error e =>
      rw [hnext] at hnext'
      rw [advance_of_error hs hnext, advance_of_error hs' hnext']
      exact .error ⟨rfl, rfl, rfl⟩
    | ok next =>
      obtain ⟨t, stream⟩ := next
      rw [hnext] at hnext'
      let moved : Session := { s with files := { file with stream } :: files, current := t }
      have ha : s.advance = .ok moved.settle := by
        rw [advance, hs]
        dsimp only
        rw [hnext]
      have ha' : (s.following old).advance = .ok (moved.following old).settle := by
        rw [advance, hs']
        dsimp only
        rw [show (file.renumber old.size).stream.next = _ from hnext']
        rfl
      rw [ha, ha', settle_following]
      exact .ok _

theorem skipComments_following : Outcome.Follows old s.skipComments (s.following old).skipComments := by
  have still_open (s : Session) (hfiles : s.files ≠ []) : (s.following old).files ≠ [] :=
    fun hnil => hfiles ((files_following_eq_nil old s).1 hnil)
  fun_induction skipComments s with
  | case1 s hs failure ha =>
    have advanced := advance_following old s
    rw [ha] at advanced
    obtain ⟨failure', ha', h⟩ := advanced.exists_error
    rw [skipComments_of_error (s := s.following old) hs.1 (still_open s hs.2) ha']
    exact .error h
  | case2 s hs next ha ih =>
    have advanced := advance_following old s
    rw [ha] at advanced
    rw [skipComments_of_advance (s := s.following old) hs.1 (still_open s hs.2) advanced.eq_ok]
    exact ih
  | case3 s hs =>
    rw [skipComments, dif_neg fun hs' => hs ⟨hs'.1, fun hnil => hs'.2 ((files_following_eq_nil old s).2 hnil)⟩]
    exact .ok s

theorem proceed_following : Outcome.Follows old s.proceed (s.following old).proceed :=
  (advance_following old s).bind fun s => skipComments_following old s

/-- What is current before a text is entered does not matter. -/
theorem enter_following (current : Located Token) (path : Path) (text : String) :
    Outcome.Follows old (s.enter path text) ({ s.following old with current }.enter path text) := by
  have hstream : TokenStream.ofSource ⟨path, text⟩ (s.following old).sources.size =
      (TokenStream.ofSource ⟨path, text⟩ s.sources.size).renumber old.size := by
    rw [show (s.following old).sources.size = s.sources.size + old.size from old.size_append s.sources]
    rfl
  have hsources : (s.following old).sources.add ⟨path, text⟩ = old.append (s.sources.add ⟨path, text⟩) :=
    old.add_append s.sources ⟨path, text⟩
  rw [enter, enter]
  dsimp only
  rw [hstream, TokenStream.next_renumber, hsources]
  cases (TokenStream.ofSource ⟨path, text⟩ s.sources.size).next with
  | error e => exact .error ⟨rfl, rfl, rfl⟩
  | ok next =>
    obtain ⟨t, stream⟩ := next
    let entered : Session :=
      { s with
        sources := s.sources.add ⟨path, text⟩
        files := ⟨s.directoryOf path, path, stream⟩ :: s.files
        current := t }
    have settled : Outcome.Follows old (.ok entered.settle) (.ok (entered.following old).settle) := by
      rw [settle_following]
      exact .ok entered.settle
    exact settled

/-- A text that is opened closes whatever has been open before. -/
theorem openText_following (used : Session) (name : Path) (text : String) :
    Outcome.Follows used.sources ({ new used.root with generated := used.generated }.openText name text)
      (used.openText name text) := by
  have entered := enter_following used.sources { new used.root with generated := used.generated } used.current
    (used.rootPath name) text
  have closed : { ({ new used.root with generated := used.generated } : Session).following used.sources with
      current := used.current } = { used with files := [], suspended := [] } :=
    eq_of_cursor rfl ⟨rfl, used.sources.append_empty, rfl⟩
  rw [closed] at entered
  exact entered

theorem includeFile_following (requested : String) (span : Span) (found : Lookup) :
    Outcome.Follows old (s.includeFile requested span found)
      ((s.following old).includeFile requested (span.renumber old.size) found) := by
  have hdepth : (s.following old).depth = s.depth := List.length_map _
  unfold includeFile
  dsimp only
  rw [includePath_following, issuer_following, location_following, hdepth]
  split
  · exact .error ⟨rfl, rfl, rfl⟩
  · split
    · exact .error ⟨rfl, rfl, rfl⟩
    · cases found with
      | error cause => exact .error ⟨rfl, rfl, rfl⟩
      | ok text => exact enter_following old s.suspend noToken _ text

theorem loadFile_following (path : Located String) (found : Lookup) :
    Outcome.Follows old (s.loadFile path found)
      ((s.following old).loadFile (path.relocate (Span.renumber old.size)) found) :=
  (includeFile_following old s path.value path.span found).bind fun s => skipComments_following old s

end Session

end BundleConf
