import BundleConf.Proofs.Include.Loading
import BundleConf.Proofs.Session.Renumbering

/-!
# Sessions that differ in layout

Texts with the same tokens, comments apart, may differ in white space and in comments anywhere.  Two sessions that read
such texts in the same way are alike (`Session.Alike`): they have the same files open, stand at the same tokens, and
every file has the same tokens before it, wherever these stand in their lines.  Alike sessions go on to alike ones
(`Session.Alike.proceed`), also where the comments at the end of a file close it, and from an include they go on in
alike texts (`Session.Alike.loadFile`) or fail with the same error.
-/

namespace BundleConf

/-! ### Places -/

/-- The source of a span, without the place in it. -/
def Span.blur (span : Span) : Span :=
  ⟨0, 0, span.source⟩

/-- The file of a location, without the place in it. -/
def Location.blur (l : Location) : Location :=
  ⟨l.file, 0, 0, "", l.span.blur⟩

/-- The tokens that are not comments, without their places. -/
def essence (ts : List (Located Token)) : List (Located Token) :=
  (meaningful ts).map (·.relocate Span.blur)

/-! ### Texts -/

/-- The texts have the same tokens, comments apart. -/
def SameTokens (text text' : String) : Prop :=
  ∃ ts ts', lex text = .ok ts ∧ lex text' = .ok ts' ∧
    (meaningful ts).map Located.value = (meaningful ts').map Located.value

/-- There are texts with the same tokens, or there is no text for the same reason. -/
inductive Lookup.Alike : Lookup → Lookup → Prop
  | text {text text' : String} (h : SameTokens text text') : Alike (.ok text) (.ok text')
  | error (cause : ReadError) : Alike (.error cause) (.error cause)

theorem Lookup.Alike.isFile_eq {found found' : Lookup} (h : found.Alike found') : found.isFile = found'.isFile := by
  cases h <;> rfl

namespace TokenStream

private theorem source_of_mem_unread {s : TokenStream} {t : Located Token} (h : t ∈ s.unread.1) :
    t.span.source = s.number := by
  fun_induction unread s with
  | case1 => simp at h
  | case2 s u s' hn hu =>
    obtain rfl : t = u := by simpa using h
    exact (next_source hn).2.2
  | case3 s u s' hn hu ih =>
    obtain ⟨-, hnumber, hspan⟩ := next_source hn
    rcases List.mem_cons.1 h with rfl | h
    · exact hspan
    · exact (ih h).trans hnumber

/-- Of the tokens of a stream nothing is left but their values. -/
private theorem essence_unread (s : TokenStream) :
    essence s.unread.1 = ((meaningful s.unread.1).map Located.value).map fun t => ⟨t, ⟨0, 0, s.number⟩⟩ := by
  rw [essence, List.map_map]
  refine List.map_congr_left fun t ht => ?_
  have hspan := source_of_mem_unread (List.mem_filter.1 ht).1
  rw [Located.relocate, Span.blur, hspan]
  rfl

end TokenStream

/-- Streams of texts with the same tokens deliver the same. -/
theorem SameTokens.essence_eq {text text' : String} (h : SameTokens text text') (path : Path) (number : Nat) :
    (TokenStream.ofSource ⟨path, text⟩ number).unread.2 = none ∧
      (TokenStream.ofSource ⟨path, text'⟩ number).unread.2 = none ∧
      essence (TokenStream.ofSource ⟨path, text⟩ number).unread.1 =
        essence (TokenStream.ofSource ⟨path, text'⟩ number).unread.1 := by
  obtain ⟨ts, ts', hlex, hlex', hvalues⟩ := h
  obtain ⟨htokens, hend⟩ := TokenStream.unread_of_lex hlex path number
  obtain ⟨htokens', hend'⟩ := TokenStream.unread_of_lex hlex' path number
  refine ⟨hend, hend', ?_⟩
  rw [TokenStream.essence_unread, TokenStream.essence_unread, htokens, htokens', hvalues]
  rfl

theorem SourceTable.paths_add (t : SourceTable) (source : Source) :
    (t.add source).paths = t.paths ++ [source.path] := by
  simp [paths, add]

/-! ### Open files -/

/-- The files are the same apart from the layout of what is left of them. -/
structure OpenFile.Alike (file file' : OpenFile) : Prop where
  directory : file.directory = file'.directory
  path : file.path = file'.path
  essence : essence file.stream.unread.1 = essence file'.stream.unread.1
  lexed : file.stream.unread.2 = none
  lexed' : file'.stream.unread.2 = none

/-- Alike files wait at the same tokens, at which they can be resumed.  There may be more tokens than files. -/
inductive Waiting : List OpenFile → List (Located Token) → List OpenFile → List (Located Token) → Prop
  | nil (ts ts' : List (Located Token)) : Waiting [] ts [] ts'
  | cons {file file' : OpenFile} {files files' : List OpenFile} {t t' : Located Token} {ts ts' : List (Located Token)}
    (hfile : file.Alike file') (htoken : t.relocate Span.blur = t'.relocate Span.blur) (hfinish : t.value ≠ .finish)
    (hcomment : t.value.isComment = false) (rest : Waiting files ts files' ts') :
    Waiting (file :: files) (t :: ts) (file' :: files') (t' :: ts')

namespace Waiting

variable {files files' : List OpenFile} {ts ts' : List (Located Token)}

theorem length_eq (h : Waiting files ts files' ts') : files.length = files'.length := by
  induction h with
  | nil => rfl
  | cons _ _ _ _ _ ih => rw [List.length_cons, List.length_cons, ih]

theorem eq_nil_iff (h : Waiting files ts files' ts') : files = [] ↔ files' = [] := by
  cases h <;> simp

theorem resumable (h : Waiting files ts files' ts') : Session.Resumable files ts := by
  cases h with
  | nil => exact .inl rfl
  | cons _ _ hfinish hcomment => exact .inr ⟨_, _, rfl, hfinish, hcomment⟩

theorem resumable' (h : Waiting files ts files' ts') : Session.Resumable files' ts' := by
  cases h with
  | nil => exact .inl rfl
  | cons _ htoken hfinish hcomment =>
    have value := congrArg Located.value htoken
    exact .inr ⟨_, _, rfl, value ▸ hfinish, value ▸ hcomment⟩

end Waiting

namespace Session

/-! ### Sessions -/

/-- The sessions have read files of the same paths, and drawn as many names. -/
structure RecordAlike (s s' : Session) : Prop where
  root : s.root = s'.root
  paths : s.sources.paths = s'.sources.paths
  generated : s.generated = s'.generated

/-- The sessions are the same apart from the layout of what they read. -/
structure Alike (s s' : Session) : Prop where
  record : s.RecordAlike s'
  current : s.current.relocate Span.blur = s'.current.relocate Span.blur
  waiting : Waiting s.files (s.current :: s.suspended) s'.files (s'.current :: s'.suspended)

end Session

/-- The errors are the same apart from places, and as much has been read. -/
structure Failure.Alike (failure failure' : Failure) : Prop where
  error : failure.error.mapLocation Location.blur = failure'.error.mapLocation Location.blur
  record : failure.session.RecordAlike failure'.session

/-- The operations lead to alike sessions, or fail in the same way. -/
inductive Outcome.Alike : Outcome Session → Outcome Session → Prop
  | ok {s s' : Session} (h : s.Alike s') : Alike (.ok s) (.ok s')
  | error {failure failure' : Failure} (h : failure.Alike failure') : Alike (.error failure) (.error failure')

namespace Session

variable {s s' : Session}

theorem RecordAlike.size_eq (h : s.RecordAlike s') : s.sources.size = s'.sources.size := by
  have length := congrArg List.length h.paths
  simpa [SourceTable.paths, SourceTable.size] using length

/-- What they tell of a place differs in line and column. -/
theorem RecordAlike.location (h : s.RecordAlike s') {span span' : Span} (hspan : span.blur = span'.blur) :
    (s.location span).blur = (s'.location span').blur := by
  have hsource : span.source = span'.source := by simpa [Span.blur] using hspan
  have hpath : (s.sources.get? span.source).map Source.path = (s'.sources.get? span'.source).map Source.path := by
    have entry := congrArg (·[span.source]?) h.paths
    simpa [SourceTable.paths, SourceTable.get?, hsource] using entry
  rw [Session.location, Session.location]
  cases hget : s.sources.get? span.source with
  | none =>
    rw [hget] at hpath
    rw [Option.map_eq_none_iff.1 hpath.symm]
    dsimp only [Location.blur]
    rw [h.root, hspan]
  | some source =>
    rw [hget] at hpath
    obtain ⟨source', hget', hpath⟩ := Option.map_eq_some_iff.1 hpath.symm
    rw [hget']
    dsimp only [Location.blur, Source.location]
    rw [hpath, hspan]

theorem RecordAlike.of_sameRecord {s₁ s₁' : Session} (h : s.RecordAlike s') (hs : SameRecord s₁ s)
    (hs' : SameRecord s₁' s') : s₁.RecordAlike s₁' := by
  refine ⟨?_, ?_, ?_⟩
  · rw [hs.root, hs'.root, h.root]
  · rw [hs.sources, hs'.sources, h.paths]
  · rw [hs.generated, hs'.generated, h.generated]

theorem Alike.lookahead (h : s.Alike s') :
    s.lookahead.relocate Span.blur = s'.lookahead.relocate Span.blur := by
  by_cases hfiles : s.files = []
  · have hfiles' := h.waiting.eq_nil_iff.1 hfiles
    have hspan : s.current.span.blur = s'.current.span.blur := congrArg Located.span h.current
    simp [Session.lookahead, isFinished, hfiles, hfiles', Located.relocate, hspan]
  · have hfiles' : s'.files ≠ [] := fun hnil => hfiles (h.waiting.eq_nil_iff.2 hnil)
    rw [current_of_lookahead hfiles, current_of_lookahead hfiles', h.current]

theorem Alike.draw (h : s.Alike s') (generated : Nat) :
    { s with generated }.Alike { s' with generated } :=
  ⟨⟨h.record.root, h.record.paths, rfl⟩, h.current, h.waiting⟩

/-! ### Going on -/

section Reads

variable {file file' : OpenFile} {below below' : List OpenFile} {suspended suspended' : List (Located Token)}
  {ts ts' : List (Located Token)}

private theorem Reads.not_isComment {failure : Option StrayCharacter} (h : s.Reads file below suspended ts failure) :
    ∀ t ∈ ts, t.value.isComment = false := by
  obtain ⟨_, _, -, -, rfl, -⟩ := h
  intro t ht
  simpa using (List.mem_filter.1 ht).2

/-- Sessions that have closed a file are alike if those below it are. -/
private theorem Alike.of_resumed {e e' : Located Token} (record : s.RecordAlike s')
    (waiting : Waiting below suspended below' suspended') (he : e.relocate Span.blur = e'.relocate Span.blur)
    (hs : s.cursor = resumed below suspended e) (hs' : s'.cursor = resumed below' suspended' e') : s.Alike s' := by
  cases waiting with
  | nil =>
    obtain ⟨hfiles, -, hcurrent⟩ : s.files = [] ∧ s.suspended = suspended ∧ s.current = e := by
      simpa [cursor, resumed] using hs
    obtain ⟨hfiles', -, hcurrent'⟩ : s'.files = [] ∧ s'.suspended = suspended' ∧ s'.current = e' := by
      simpa [cursor, resumed] using hs'
    refine ⟨record, by rw [hcurrent, hcurrent', he], ?_⟩
    rw [hfiles, hfiles']
    exact .nil _ _
  | @cons file file' files files' t t' ts ts' hfile htoken hfinish hcomment rest =>
    obtain ⟨hfiles, hsuspended, hcurrent⟩ : s.files = file :: files ∧ s.suspended = ts ∧ s.current = t := by
      simpa [cursor, resumed] using hs
    obtain ⟨hfiles', hsuspended', hcurrent'⟩ : s'.files = file' :: files' ∧ s'.suspended = ts' ∧ s'.current = t' := by
      simpa [cursor, resumed] using hs'
    refine ⟨record, by rw [hcurrent, hcurrent', htoken], ?_⟩
    rw [hfiles, hfiles', hcurrent, hcurrent', hsuspended, hsuspended']
    exact .cons hfile htoken hfinish hcomment rest

/-- Sessions that read alike files on top of alike ones are alike. -/
theorem Alike.of_reads (record : s.RecordAlike s') (waiting : Waiting below suspended below' suspended')
    (hdirectory : file.directory = file'.directory) (hpath : file.path = file'.path)
    (h : s.Reads file below suspended ts none) (h' : s'.Reads file' below' suspended' ts' none)
    (hts : ts.map (·.relocate Span.blur) = ts'.map (·.relocate Span.blur)) : s.Alike s' := by
  have comments := h.not_isComment
  rcases h.cases_end waiting.resumable with
    ⟨e, he, rfl, -, hs⟩ | ⟨stream, hfiles, rfl, hfinish, rfl, hfailure⟩
  · -- the end is an end in both files
    rcases h'.cases_end waiting.resumable' with ⟨e', -, rfl, -, hs'⟩ | ⟨stream', -, -, hfinish', rfl, -⟩
    · exact .of_resumed record waiting (List.cons.inj hts).1 hs hs'
    · have value := congrArg Located.value (List.cons.inj hts).1
      exact absurd (value.symm.trans he) hfinish'
  · rcases h'.cases_end waiting.resumable' with ⟨e', he', rfl, -, -⟩ | ⟨stream', hfiles', rfl, -, rfl, hfailure'⟩
    · have value := congrArg Located.value (List.cons.inj hts).1
      exact absurd (value.trans he') hfinish
    · obtain ⟨hcurrent, htokens⟩ := List.cons.inj hts
      refine ⟨record, hcurrent, ?_⟩
      rw [hfiles, hfiles']
      exact .cons ⟨hdirectory, hpath, htokens, hfailure.symm, hfailure'.symm⟩ hcurrent hfinish
        (comments _ (List.mem_cons_self ..)) waiting

end Reads

/-- With an open file whose text can be lexed the session goes on to the next token of the file. -/
private theorem exists_proceed {file : OpenFile} {below : List OpenFile} (hfiles : s.files = file :: below)
    (resumable : Resumable below s.suspended) (hfinish : s.current.value ≠ .finish)
    (hcomment : s.current.value.isComment = false) (hlexed : file.stream.unread.2 = none) :
    ∃ s₁, s.proceed = .ok s₁ ∧ SameRecord s₁ s ∧
      s₁.Reads file below s.suspended (meaningful file.stream.unread.1) none := by
  have reads : s.Reads file below s.suspended (s.current :: meaningful file.stream.unread.1) none := by
    refine ⟨file.stream, s.current, ?_, hcomment, ?_, ?_⟩
    · rw [settleWith_of_ne hfinish, cursor, hfiles]
    · rw [upcoming, if_neg hfinish, meaningful_cons hcomment]
    · rw [upcoming, if_neg hfinish, hlexed]
  obtain ⟨us, e, hus, he, -⟩ := file.stream.exists_unread_eq_concat hlexed
  obtain ⟨t, ts, hts⟩ : ∃ t ts, meaningful file.stream.unread.1 = t :: ts := by
    refine List.exists_cons_of_ne_nil ?_
    rw [hus, meaningful_concat he]
    simp
  rw [hts] at reads ⊢
  obtain ⟨-, -, -, s₁, hproceed, hrecord, hreads⟩ := reads.proceed resumable
  exact ⟨s₁, hproceed, hrecord, hreads⟩

theorem Alike.proceed (h : s.Alike s') (hfiles : s.files ≠ []) :
    ∃ s₁ s₁', s.proceed = .ok s₁ ∧ s'.proceed = .ok s₁' ∧ s₁.Alike s₁' := by
  obtain ⟨file, below, hs⟩ := List.exists_cons_of_ne_nil hfiles
  obtain ⟨file', below', hs'⟩ := List.exists_cons_of_ne_nil fun hnil => hfiles (h.waiting.eq_nil_iff.2 hnil)
  have waiting := h.waiting
  rw [hs, hs'] at waiting
  cases waiting with
  | cons hfile htoken hfinish hcomment rest =>
    have value := congrArg Located.value htoken
    obtain ⟨s₁, hproceed, hrecord, hreads⟩ := exists_proceed hs rest.resumable hfinish hcomment hfile.lexed
    obtain ⟨s₁', hproceed', hrecord', hreads'⟩ :=
      exists_proceed hs' rest.resumable' (value ▸ hfinish) (value ▸ hcomment) hfile.lexed'
    have record := h.record.of_sameRecord hrecord hrecord'
    exact ⟨s₁, s₁', hproceed, hproceed', .of_reads record rest hfile.directory hfile.path hreads hreads' hfile.essence⟩

/-! ### Entering a text -/

/-- Texts with the same tokens are entered at the same token. -/
theorem RecordAlike.enter (record : s.RecordAlike s') (waiting : Waiting s.files s.suspended s'.files s'.suspended)
    (path : Path) {text text' : String} (htext : SameTokens text text') :
    ∃ s₁ s₁', (s.enter path text).bind Session.skipComments = .ok s₁ ∧
      (s'.enter path text').bind Session.skipComments = .ok s₁' ∧ s₁.Alike s₁' := by
  obtain ⟨hlexed, hlexed', hessence⟩ := htext.essence_eq path s.sources.size
  rw [record.size_eq] at hlexed'
  obtain ⟨s₁, hs₁, hroot, hgenerated, hsources, hreads⟩ := exists_enter_of_lexed waiting.resumable path hlexed
  obtain ⟨s₁', hs₁', hroot', hgenerated', hsources', hreads'⟩ := exists_enter_of_lexed waiting.resumable' path hlexed'
  have hdirectory : s.directoryOf path = s'.directoryOf path := by rw [directoryOf, directoryOf, record.root]
  have record₁ : s₁.RecordAlike s₁' := by
    refine ⟨by rw [hroot, hroot', record.root], ?_, by rw [hgenerated, hgenerated', record.generated]⟩
    rw [hsources, hsources', SourceTable.paths_add, SourceTable.paths_add, record.paths]
  refine ⟨s₁, s₁', hs₁, hs₁', .of_reads record₁ waiting ?_ ?_ hreads hreads' ?_⟩
  · exact hdirectory
  · rfl
  · rw [← record.size_eq]
    exact hessence

/-! ### Including a file -/

theorem Alike.issuer_eq (h : s.Alike s') : s.issuer = s'.issuer := by
  have waiting := h.waiting
  rw [Session.issuer, Session.issuer]
  generalize s.files = files at waiting ⊢
  generalize s'.files = files' at waiting ⊢
  cases waiting with
  | nil => exact h.record.root
  | cons hfile => exact hfile.path

theorem Alike.includePath_eq (h : s.Alike s') (requested : String) :
    s.includePath requested = s'.includePath requested := by
  have waiting := h.waiting
  rw [Session.includePath, Session.includePath]
  generalize s.files = files at waiting ⊢
  generalize s'.files = files' at waiting ⊢
  cases waiting with
  | nil => exact congrArg (·.resolve requested) h.record.root
  | cons hfile => exact congrArg (·.resolve requested) hfile.directory

/-- Alike sessions go on in the files that they include, or fail to include them in the same way. -/
theorem Alike.loadFile (h : s.Alike s') {path path' : Located String}
    (hpath : path.relocate Span.blur = path'.relocate Span.blur) {found found' : Lookup} (hfound : found.Alike found') :
    Outcome.Alike (s.loadFile path found) (s'.loadFile path' found') := by
  obtain ⟨requested, span⟩ := path
  obtain ⟨requested', span'⟩ := path'
  obtain ⟨rfl, hspan⟩ : requested = requested' ∧ span.blur = span'.blur := by simpa [Located.relocate] using hpath
  have hdepth : s.depth = s'.depth := h.waiting.length_eq
  have hlocation := h.record.location hspan
  unfold Session.loadFile includeFile
  dsimp only
  rw [h.includePath_eq, h.issuer_eq, hfound.isFile_eq, hdepth]
  split
  · refine .error ⟨?_, h.record⟩
    exact congrArg (ParseError.missingInclude _ _ _) hlocation
  · split
    · refine .error ⟨?_, h.record⟩
      exact congrArg (ParseError.includeTooDeep _) hlocation
    · cases hfound with
      | error cause => exact .error ⟨rfl, h.record⟩
      | text htext =>
        have record : s.suspend.RecordAlike s'.suspend := ⟨h.record.root, h.record.paths, h.record.generated⟩
        obtain ⟨s₁, s₁', hs₁, hs₁', halike⟩ := record.enter h.waiting (s'.includePath requested) htext
        rw [suspend] at hs₁ hs₁'
        dsimp only
        rw [hs₁, hs₁']
        exact .ok halike

end Session

end BundleConf
