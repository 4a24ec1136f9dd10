import BundleConf.Session.Progress
import BundleConf.Proofs.Lexing.Unread

/-!
# Reading a file to its end

A session that reads a file on top of other open files delivers, comments apart, the tokens of that file one after the
other: `Session.Reads` says which ones are still to come, and `Session.Reads.proceed` that going on delivers the next.
When the file has come to its end the session is back where it was before (`Session.Reads.cursor_of_end`).

Only the open files, the suspended tokens and the current token matter here, which is the session's `cursor`.  What it
has recorded apart from that is left alone (`Session.SameRecord`).
-/

namespace BundleConf

namespace Session

/-- Where the session is in its files. -/
def cursor (s : Session) : List OpenFile × List (Located Token) × Located Token :=
  (s.files, s.suspended, s.current)

/-- The sessions differ at most in where they are in their files. -/
structure SameRecord (s s' : Session) : Prop where
  root : s.root = s'.root
  sources : s.sources = s'.sources
  generated : s.generated = s'.generated

theorem SameRecord.refl (s : Session) : SameRecord s s :=
  ⟨rfl, rfl, rfl⟩

theorem SameRecord.trans {s s' s'' : Session} (h : SameRecord s s') (h' : SameRecord s' s'') : SameRecord s s'' :=
  ⟨h.root.trans h'.root, h.sources.trans h'.sources, h.generated.trans h'.generated⟩

theorem cursor_settle (s : Session) : s.settle.cursor = settleWith s.files s.suspended s.current := rfl

/-! ### Closing a file -/

theorem settleWith_of_ne {file : OpenFile} {files : List OpenFile} {suspended : List (Located Token)}
    {current : Located Token} (h : current.value ≠ .finish) :
    settleWith (file :: files) suspended current = (file :: files, suspended, current) := by
  rw [settleWith.eq_def]
  dsimp only
  rw [if_pos h]

/-- The files below are resumed at a token: there are none, or the token suspended last is no end and no comment. -/
def Resumable (below : List OpenFile) (suspended : List (Located Token)) : Prop :=
  below = [] ∨ ∃ t rest, suspended = t :: rest ∧ t.value ≠ .finish ∧ t.value.isComment = false

/-- Where a session is when the file on top has been closed at its end. -/
def resumed (below : List OpenFile) (suspended : List (Located Token)) (finish : Located Token) :
    List OpenFile × List (Located Token) × Located Token :=
  match below, suspended with
  | [], suspended => ([], suspended, finish)
  | below, [] => (below, [], finish)
  | below, t :: rest => (below, rest, t)

theorem settleWith_of_finish {file : OpenFile} {below : List OpenFile} {suspended : List (Located Token)}
    {current : Located Token} (resumable : Resumable below suspended) (h : current.value = .finish) :
    settleWith (file :: below) suspended current = resumed below suspended current := by
  rw [settleWith.eq_def]
  dsimp only
  rw [if_neg (by simp [h])]
  cases below with
  | nil => rfl
  | cons file' below =>
    rcases resumable with hnil | ⟨t, rest, rfl, ht, -⟩
    · simp at hnil
    · rw [if_neg (by simp)]
      exact settleWith_of_ne ht

/-- After closing a file no comment is current, unless no file is open. -/
theorem isComment_current_settleWith {file : OpenFile} {below : List OpenFile} {suspended : List (Located Token)}
    {current : Located Token} (resumable : Resumable below suspended) (h : current.value.isComment = false) :
    (settleWith (file :: below) suspended current).2.2.value.isComment = false := by
  by_cases hf : current.value = .finish
  · rw [settleWith_of_finish resumable hf]
    cases below with
    | nil => exact h
    | cons file' below =>
      rcases resumable with hnil | ⟨t, rest, rfl, -, ht⟩
      · simp at hnil
      · exact ht
  · rw [settleWith_of_ne hf]
    exact h

/-! ### Advancing -/

theorem advance_of_next {s : Session} {file : OpenFile} {below : List OpenFile} {t : Located Token}
    {stream : TokenStream} (hs : s.files = file :: below) (hnext : file.stream.next = .ok (t, stream)) :
    ∃ s', s.advance = .ok s' ∧ SameRecord s' s ∧
      s'.cursor = settleWith ({ file with stream } :: below) s.suspended t := by
  rw [advance, hs]
  dsimp only
  rw [hnext]
  exact ⟨_, rfl, ⟨rfl, rfl, rfl⟩, rfl⟩

theorem advance_of_error {s : Session} {file : OpenFile} {below : List OpenFile} {e : StrayCharacter}
    (hs : s.files = file :: below) (hnext : file.stream.next = .error e) : s.advance = .error ⟨.stray e, s⟩ := by
  rw [advance, hs]
  dsimp only
  rw [hnext]

theorem skipComments_of_not_isComment {s : Session} (h : s.current.value.isComment = false) :
    s.skipComments = .ok s := by
  rw [skipComments, dif_neg (by simp [h])]

theorem skipComments_of_advance {s s' : Session} (h : s.current.value.isComment = true) (hfiles : s.files ≠ [])
    (ha : s.advance = .ok s') : s.skipComments = s'.skipComments := by
  rw [skipComments, dif_pos ⟨h, hfiles⟩]
  split <;> simp_all

theorem skipComments_of_error {s : Session} {failure : Failure} (h : s.current.value.isComment = true)
    (hfiles : s.files ≠ []) (ha : s.advance = .error failure) : s.skipComments = .error failure := by
  rw [skipComments, dif_pos ⟨h, hfiles⟩]
  split <;> simp_all

/-! ### The tokens to come -/

/-- The token and those that a stream delivers after it; after an end there is none. -/
def upcoming (token : Located Token) (stream : TokenStream) : List (Located Token) × Option StrayCharacter :=
  if token.value = .finish then ([token], none) else (token :: stream.unread.1, stream.unread.2)

theorem unread_eq_upcoming {stream stream' : TokenStream} {t : Located Token} (h : stream.next = .ok (t, stream')) :
    stream.unread = upcoming t stream' := by
  rw [upcoming]
  split
  · rename_i ht
    exact TokenStream.unread_of_finish h ht
  · rename_i ht
    exact TokenStream.unread_of_next h ht

theorem meaningful_upcoming {token : Located Token} (h : token.value.isComment = false) (stream : TokenStream) :
    ∃ ts, meaningful (upcoming token stream).1 = token :: ts := by
  rw [upcoming]
  split <;> exact ⟨_, meaningful_cons h _⟩

/-- The session reads the file on top of the files below, and the tokens are those of the file that are not comments,
from the current one on; `failure` is the character that ends them, if it is not the end of the file. -/
def Reads (s : Session) (file : OpenFile) (below : List OpenFile) (suspended : List (Located Token))
    (ts : List (Located Token)) (failure : Option StrayCharacter) : Prop :=
  ∃ stream token, s.cursor = settleWith ({ file with stream } :: below) suspended token ∧
    token.value.isComment = false ∧ ts = meaningful (upcoming token stream).1 ∧ failure = (upcoming token stream).2

variable {file : OpenFile} {below : List OpenFile} {suspended : List (Located Token)}

theorem reads_of_not_isComment (resumable : Resumable below suspended) {s : Session} {stream : TokenStream}
    {token : Located Token} (hs : s.cursor = settleWith ({ file with stream } :: below) suspended token)
    (hc : token.value.isComment = false) :
    s.skipComments = .ok s ∧
      s.Reads file below suspended (meaningful (upcoming token stream).1) (upcoming token stream).2 := by
  have current : s.cursor.2.2.value.isComment = false := by
    rw [hs]
    exact isComment_current_settleWith resumable hc
  exact ⟨skipComments_of_not_isComment current, stream, token, hs, hc, rfl, rfl⟩

/-- Passing over comments leads to the next token of the file, or to the character that ends its tokens. -/
theorem reads_skipComments (resumable : Resumable below suspended) {s : Session} {stream : TokenStream}
    {token : Located Token} (hs : s.cursor = settleWith ({ file with stream } :: below) suspended token) :
    (∃ s', s.skipComments = .ok s' ∧ SameRecord s' s ∧
      s'.Reads file below suspended (meaningful (upcoming token stream).1) (upcoming token stream).2) ∨
    ∃ e s', s.skipComments = .error ⟨.stray e, s'⟩ ∧ meaningful (upcoming token stream).1 = [] ∧
      (upcoming token stream).2 = some e := by
  -- by induction on how much is left of the file: every comment takes some of it
  induction hn : stream.rest.length using Nat.strongRecOn generalizing s stream token with
  | ind n ih =>
    cases hc : token.value.isComment with
    | false =>
      obtain ⟨h, hreads⟩ := reads_of_not_isComment resumable hs hc
      exact .inl ⟨s, h, SameRecord.refl s, hreads⟩
    | true =>
      -- a comment is no end, so the file is still open
      have ht : token.value ≠ .finish := fun h => by simp [h, Token.isComment, Token.kind] at hc
      rw [settleWith_of_ne ht] at hs
      obtain ⟨hfiles, rfl, rfl⟩ : s.files = { file with stream } :: below ∧ s.suspended = suspended ∧
          s.current = token := by simpa [cursor] using hs
      have hne : s.files ≠ [] := by simp [hfiles]
      rw [show upcoming s.current stream = (s.current :: stream.unread.1, stream.unread.2) from if_neg ht,
        meaningful_cons_of_isComment hc]
      cases hnext : stream.next with
      | error e =>
        refine .inr ⟨e, s, skipComments_of_error hc hne (advance_of_error hfiles hnext), ?_⟩
        simp [TokenStream.unread_of_error hnext, meaningful]
      | ok next =>
        obtain ⟨t, stream'⟩ := next
        obtain ⟨s', ha, hrecord, hs'⟩ := advance_of_next hfiles hnext
        rw [skipComments_of_advance hc hne ha, unread_eq_upcoming hnext]
        by_cases hf : t.value = .finish
        · obtain ⟨h, hreads⟩ := reads_of_not_isComment resumable hs' (by rw [hf]; rfl)
          exact .inl ⟨s', h, hrecord, hreads⟩
        · rcases ih _ (hn ▸ TokenStream.length_rest_next_lt hnext hf) hs' rfl with ⟨s'', h, hr, hreads⟩ | h
          · exact .inl ⟨s'', h, hr.trans hrecord, hreads⟩
          · exact .inr h

namespace Reads

variable {s : Session} {t t' : Located Token} {ts : List (Located Token)} {failure : Option StrayCharacter}

/-- Either the file has come to its end and the files below are resumed, or the first token is current in it. -/
theorem cases_end (resumable : Resumable below suspended) (h : s.Reads file below suspended ts failure) :
    (∃ e, e.value = .finish ∧ ts = [e] ∧ failure = none ∧ s.cursor = resumed below suspended e) ∨
    ∃ stream, s.files = { file with stream } :: below ∧ s.suspended = suspended ∧ s.current.value ≠ .finish ∧
      ts = s.current :: meaningful stream.unread.1 ∧ failure = stream.unread.2 := by
  obtain ⟨stream, token, hs, hc, rfl, rfl⟩ := h
  by_cases ht : token.value = .finish
  · rw [settleWith_of_finish resumable ht] at hs
    rw [show upcoming token stream = ([token], none) from if_pos ht, meaningful_cons hc]
    exact .inl ⟨token, ht, rfl, rfl, hs⟩
  · rw [settleWith_of_ne ht] at hs
    obtain ⟨hfiles, hsuspended, rfl⟩ : s.files = { file with stream } :: below ∧ s.suspended = suspended ∧
        s.current = token := by simpa [cursor] using hs
    rw [show upcoming s.current stream = (s.current :: stream.unread.1, stream.unread.2) from if_neg ht,
      meaningful_cons hc]
    exact .inr ⟨stream, hfiles, hsuspended, ht, rfl, rfl⟩

/-- A token that is not the end is current in the file. -/
theorem current_eq (resumable : Resumable below suspended) (h : s.Reads file below suspended (t :: ts) failure)
    (ht : t.value ≠ .finish) :
    s.current = t ∧ s.suspended = suspended ∧ ∃ stream, s.files = { file with stream } :: below := by
  rcases h.cases_end resumable with ⟨e, he, hts, -⟩ | ⟨stream, hfiles, hsuspended, -, hts, -⟩
  · simp only [List.cons.injEq] at hts
    exact absurd (hts.1 ▸ he) ht
  · simp only [List.cons.injEq] at hts
    exact ⟨hts.1.symm, hsuspended, stream, hfiles⟩

/-- Going on from a token that is followed by another leads to that other token. -/
theorem proceed (resumable : Resumable below suspended) (h : s.Reads file below suspended (t :: t' :: ts) failure) :
    s.current = t ∧ s.files ≠ [] ∧ t.value ≠ .finish ∧ ∃ s', s.proceed = .ok s' ∧ SameRecord s' s ∧
      s'.Reads file below suspended (t' :: ts) failure := by
  rcases h.cases_end resumable with ⟨e, -, hts, -⟩ | ⟨stream, hfiles, rfl, ht, hts, rfl⟩
  · simp at hts
  · obtain ⟨rfl, tokens⟩ := List.cons.inj hts
    refine ⟨rfl, by simp [hfiles], ht, ?_⟩
    cases hnext : stream.next with
    | error e => simp [TokenStream.unread_of_error hnext, meaningful] at tokens
    | ok next =>
      obtain ⟨u, stream'⟩ := next
      obtain ⟨s', ha, hrecord, hs'⟩ := advance_of_next hfiles hnext
      rw [unread_eq_upcoming hnext] at tokens ⊢
      rw [Session.proceed, ha, tokens]
      rcases reads_skipComments resumable hs' with ⟨s'', h, hr, hreads⟩ | ⟨e, s'', -, hnil, -⟩
      · exact ⟨s'', h, hr.trans hrecord, hreads⟩
      · simp [hnil] at tokens

/-- Going on from the last token before a stray character fails. -/
theorem proceed_error (resumable : Resumable below suspended) {e : StrayCharacter}
    (h : s.Reads file below suspended [t] (some e)) :
    s.current = t ∧ s.files ≠ [] ∧ t.value ≠ .finish ∧ ∃ s', s.proceed = .error ⟨.stray e, s'⟩ := by
  rcases h.cases_end resumable with ⟨_, -, -, hf, -⟩ | ⟨stream, hfiles, rfl, ht, hts, hfailure⟩
  · simp at hf
  · obtain ⟨rfl, tokens⟩ := List.cons.inj hts
    refine ⟨rfl, by simp [hfiles], ht, ?_⟩
    cases hnext : stream.next with
    | error e' =>
      rw [TokenStream.unread_of_error hnext] at hfailure
      obtain rfl : e = e' := by simpa using hfailure
      rw [Session.proceed, advance_of_error hfiles hnext]
      exact ⟨s, rfl⟩
    | ok next =>
      obtain ⟨u, stream'⟩ := next
      obtain ⟨s', ha, hrecord, hs'⟩ := advance_of_next hfiles hnext
      rw [unread_eq_upcoming hnext] at tokens hfailure
      rw [Session.proceed, ha]
      rcases reads_skipComments resumable hs' with ⟨s'', h, hr, hreads⟩ | ⟨e', s'', h, -, he⟩
      · obtain ⟨stream'', u', -, hu, unread, -⟩ := hreads
        -- there would be a token that is no comment, but none is left
        obtain ⟨us, hus⟩ := meaningful_upcoming hu stream''
        rw [← tokens, hus] at unread
        simp at unread
      · obtain rfl : e = e' := by simpa [he] using hfailure
        exact ⟨s'', h⟩

/-- At the end of the file the session is back where the files below are resumed. -/
theorem cursor_of_end (resumable : Resumable below suspended) (h : s.Reads file below suspended [t] none) :
    t.value = .finish ∧ s.cursor = resumed below suspended t := by
  rcases h.cases_end resumable with ⟨e, he, hts, -, hs⟩ | ⟨stream, -, -, -, hts, hfailure⟩
  · obtain rfl : t = e := by simpa using hts
    exact ⟨he, hs⟩
  · obtain ⟨us, e, hus, he, -⟩ := stream.exists_unread_eq_concat hfailure.symm
    have tokens : meaningful stream.unread.1 = meaningful us ++ [e] := by
      rw [hus, meaningful_concat he]
    simp [tokens] at hts

end Reads

/-! ### Opening a file -/

/-- A text that is entered on top of other files is read from its first token on, or has none. -/
theorem enter_skipComments {s : Session} (resumable : Resumable s.files s.suspended) (path : Path) (text : String)
    {stream : TokenStream} (hstream : stream = TokenStream.ofSource ⟨path, text⟩ s.sources.size) :
    (∃ s', (s.enter path text).bind skipComments = .ok s' ∧ s'.root = s.root ∧ s'.generated = s.generated ∧
      s'.sources = s.sources.add ⟨path, text⟩ ∧
      s'.Reads ⟨s.directoryOf path, path, stream⟩ s.files s.suspended (meaningful stream.unread.1) stream.unread.2) ∨
    ∃ e s', (s.enter path text).bind skipComments = .error ⟨.stray e, s'⟩ ∧ meaningful stream.unread.1 = [] ∧
      stream.unread.2 = some e := by
  rw [enter, ← hstream]
  dsimp only
  cases hnext : stream.next with
  | error e => exact .inr ⟨e, _, rfl, by simp [TokenStream.unread_of_error hnext, meaningful]⟩
  | ok next =>
    obtain ⟨t, stream'⟩ := next
    rw [unread_eq_upcoming hnext]
    let entered : Session :=
      { s with
        sources := s.sources.add ⟨path, text⟩
        files := ⟨s.directoryOf path, path, stream'⟩ :: s.files
        current := t }
    let file : OpenFile := ⟨s.directoryOf path, path, stream⟩
    have hs : entered.settle.cursor = settleWith ({ file with stream := stream' } :: s.files) s.suspended t :=
      cursor_settle entered
    rcases reads_skipComments resumable hs with ⟨s', h, hr, hreads⟩ | ⟨e, s', h, hts⟩
    · exact .inl ⟨s', h, hr.root, hr.generated, hr.sources, hreads⟩
    · exact .inr ⟨e, s', h, hts⟩

end Session

end BundleConf
