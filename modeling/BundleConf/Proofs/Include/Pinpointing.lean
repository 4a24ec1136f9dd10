import BundleConf.Proofs.Include.Visiting
import BundleConf.Proofs.Lexing.Lexeme
import BundleConf.Proofs.Source.Positions
import BundleConf.Report.Render

/-!
# Where errors point to

Whatever parse fails with an error that has a location, the location is that of a lexeme in a source that the session
knows, and the lexeme is what the error is about (`ParseError.Blames`): the stray character, the token that was not
expected, or the quoted name or path in the message (`Session.Parses.location_real`).  An error is about a character at
which a stream fails, about the token that a reader sees, or about a value that has been passed; so it points to a token
that a source delivers, and the span of such a token marks its lexeme.

What a user is told names it in words of their own (`ParseError.Wording`): the character, the word or the mark that the
lexeme is, or else the kind of the token, and the name or the path that is written in the lexeme.
-/

namespace BundleConf

/-- The lexeme, with `back` after it, is what the error is about. -/
def ParseError.Blames (lexeme back : List Char) : ParseError → Prop
  | .stray cause => lexeme = [cause.character]
  | .unexpected _ found _ => ∃ t : Token, t.kind = found ∧ t.WrittenAs lexeme back
  | .conflict cause _ => (Token.value cause.culprit).WrittenAs lexeme back
  | .missingInclude requested _ _ _ => (Token.value requested).WrittenAs lexeme back
  | .includeTooDeep requested _ => (Token.value requested).WrittenAs lexeme back
  | .tooManyIncludes _ => ∃ payload, (Token.value payload).WrittenAs lexeme back
  | .unreadable _ _ => False

/-- What a user is told of an error about the lexeme. -/
inductive ParseError.Wording (lexeme : List Char) : ParseError → Diagnostic → Prop
  | stray {cause : StrayCharacter} : Wording lexeme (.stray cause) (.lexical cause.character cause.location)
  | keyword {expected : Expectation} {k : Keyword} {l : Location} :
      Wording lexeme (.unexpected expected (.keyword k) l)
        (.unexpected expected.text ("'" ++ String.ofList lexeme ++ "'") l)
  | mark {expected : Expectation} {m : Mark} {l : Location} :
      Wording lexeme (.unexpected expected (.mark m) l)
        (.unexpected expected.text ("'" ++ String.ofList lexeme ++ "'") l)
  | value {expected : Expectation} {l : Location} :
      Wording lexeme (.unexpected expected .value l) (.unexpected expected.text "quoted value" l)
  | finish {expected : Expectation} {l : Location} :
      Wording lexeme (.unexpected expected .finish l) (.unexpected expected.text "end of file" l)
  | conflict {cause : Conflict} {reason : String} {l : Location} (wording : cause.Wording reason) :
      Wording lexeme (.conflict cause l) (.structural reason l)
  | missingInclude {requested : String} {resolved issuer : Path} {l : Location} :
      Wording lexeme (.missingInclude requested resolved issuer l)
        (.missingInclude requested resolved issuer (some l))
  | includeTooDeep {requested : String} {l : Location} :
      Wording lexeme (.includeTooDeep requested l) (.structural
        ("includes nested deeper than 64 levels (is '" ++ requested ++ "' including itself?)") l)
  | tooManyIncludes {l : Location} :
      Wording lexeme (.tooManyIncludes l) (.structural "too many files included" l)

/-- A token that is not expected is told by its lexeme or by its kind. -/
theorem ParseError.wording_unexpected {t : Token} {lexeme back : List Char} (h : t.WrittenAs lexeme back)
    (hcomment : t.isComment = false) (expected : Expectation) (l : Location) :
    Wording lexeme (.unexpected expected t.kind l) (unexpected expected t.kind l).diagnostic := by
  cases t with
  | keyword k =>
    obtain rfl : lexeme = k.word.toList := h
    have htext : (Token.keyword k).kind.text = "'" ++ String.ofList k.word.toList ++ "'" := by
      rw [String.ofList_toList]
      exact k.text_eq
    rw [diagnostic, htext]
    exact .keyword
  | mark m =>
    obtain rfl : lexeme = [m.char] := h
    have htext : (Token.mark m).kind.text = "'" ++ String.ofList [m.char] ++ "'" := m.text_eq
    rw [diagnostic, htext]
    exact .mark
  | value payload => exact .value
  | comment payload => simp [Token.isComment, Token.kind] at hcomment
  | finish => exact .finish

/-- The location is that of a lexeme in a source that the session of the failure knows, and the error is about it.  The
lexeme is empty only at the end of the source `root`. -/
structure Failure.Pinpoints (failure : Failure) (root : Nat) (l : Location) (source : Source)
    (front lexeme back : List Char) : Prop where
  known : failure.session.sources.get? l.span.source = some source
  location : l = source.location l.span
  marks : l.span.Marks source front lexeme back
  blames : failure.error.Blames lexeme back
  wording : failure.error.Wording lexeme failure.error.diagnostic
  ending : lexeme = [] → (∃ expected, failure.error = .unexpected expected .finish l) ∧ l.span.source = root ∧
    back = [] ∧ source.chars ≠ []

/-- If the failure has a location it points to a lexeme. -/
def Failure.IsPinpointed (failure : Failure) (root : Nat) : Prop :=
  ∀ l, failure.error.diagnostic.location? = some l →
    ∃ source front lexeme back, failure.Pinpoints root l source front lexeme back

namespace Session

variable {s₀ s₁ s : Session} {root : Nat} {failure : Failure} {passed : List (Located Token)}

/-! ### What an error can be about -/

/-- The location of a token that its source delivers is that of its lexeme. -/
private theorem exists_marks_of_holds {t : Located Token} (h : s.sources.Holds t) :
    ∃ source front lexeme back, s.sources.get? t.span.source = some source ∧
      s.location t.span = source.location t.span ∧ t.span.Marks source front lexeme back ∧
      t.value.WrittenAs lexeme back := by
  obtain ⟨source, hsource, hmem⟩ := h
  obtain ⟨front, lexeme, back, hmarks, hwritten⟩ := TokenStream.marks_of_mem_unread hmem
  exact ⟨source, front, lexeme, back, hsource, by rw [location, hsource], hmarks, hwritten⟩

/-- An error about a character at which the stream of a source fails. -/
private theorem isPinpointed_stray {stream : TokenStream} {e : StrayCharacter} (hnext : stream.next = .error e)
    (hsource : s.sources.get? stream.number = some stream.source) :
    Failure.IsPinpointed ⟨.stray e, s⟩ root := by
  intro l hl
  obtain rfl : e.location = l := Option.some.inj hl
  obtain ⟨hlocation, hnumber, front, back, hmarks⟩ := TokenStream.marks_stray hnext
  exact ⟨stream.source, front, [e.character], back, by rw [hnumber]; exact hsource, hlocation, hmarks, rfl, .stray,
    by simp⟩

/-- An error about a value that a source delivers. -/
private theorem isPinpointed_of_value {error : ParseError} {v : Located String} (hholds : s.sources.Holds v.quoted)
    (hlocation : error.diagnostic.location? = some (s.location v.span))
    (hblames : ∀ lexeme back, (Token.value v.value).WrittenAs lexeme back → error.Blames lexeme back)
    (hwording : ∀ lexeme, error.Wording lexeme error.diagnostic) :
    Failure.IsPinpointed ⟨error, s⟩ root := by
  intro l hl
  obtain rfl : s.location v.span = l := Option.some.inj (hlocation.symm.trans hl)
  obtain ⟨source, front, lexeme, back, hsource, hplace, hmarks, hwritten⟩ := exists_marks_of_holds hholds
  have hplace : s.location v.span = source.location v.span := hplace
  rw [hplace]
  refine ⟨source, front, lexeme, back, hsource, rfl, hmarks, hblames lexeme back hwritten, hwording lexeme,
    fun hnil => ?_⟩
  simpa [Located.quoted] using hwritten.eq_nil_iff.1 hnil

/-! ### Failures of a session -/

private theorem isPinpointed_of_enter {path : Path} {text : String} (h : s.enter path text = .error failure) :
    failure.IsPinpointed root := by
  obtain ⟨e, hnext, rfl⟩ := exists_of_enter_error h
  exact isPinpointed_stray hnext (SourceTable.get?_add_size s.sources _)

private theorem Passes.isPinpointed_of_advance (hopens : s₀.Opens s₁) (h : s₁.Passes passed s)
    (ha : s.advance = .error failure) : failure.IsPinpointed root := by
  obtain ⟨file, files, e, hfiles, hnext, rfl⟩ := exists_of_advance_error ha
  exact isPinpointed_stray hnext ((h.accounts hopens).1.registered file (by simp [hfiles])).source

private theorem Passes.isPinpointed_of_skipComments (hopens : s₀.Opens s₁) (h : s₁.Passes passed s)
    (hs : s.skipComments = .error failure) : failure.IsPinpointed root := by
  obtain ⟨passed', s', hpasses, ha⟩ := h.advance_of_skipComments hs
  exact hpasses.isPinpointed_of_advance hopens ha

private theorem Passes.isPinpointed_of_proceed (hopens : s₀.Opens s₁) (h : s₁.Passes passed s) (hfiles : s.files ≠ [])
    (hs : s.proceed = .error failure) : failure.IsPinpointed root := by
  rcases Outcome.cases_of_bind_error hs with ha | ⟨next, hnext, hskip⟩
  · exact h.isPinpointed_of_advance hopens ha
  · exact (h.advance hfiles hnext).isPinpointed_of_skipComments hopens hskip

private theorem isPinpointed_of_openText {name : Path} {text : String}
    (h : (s.openText name text).bind skipComments = .error failure) : failure.IsPinpointed root := by
  rcases Outcome.cases_of_bind_error h with hopen | ⟨next, hnext, hskip⟩
  · exact isPinpointed_of_enter hopen
  · exact Passes.isPinpointed_of_skipComments (.text hnext) .refl hskip

/-- A file that cannot be loaded is pinpointed by its path. -/
private theorem Passes.isPinpointed_of_loadFile (hopens : s₀.Opens s₁) (h : s₁.Passes passed s) (hfiles : s.files ≠ [])
    {path : Located String} {found : Lookup} (hpath : s.sources.Holds path.quoted)
    (hload : s.loadFile path found = .error failure) : failure.IsPinpointed root := by
  rcases Outcome.cases_of_bind_error hload with hinclude | ⟨next, hnext, hskip⟩
  · rcases cases_of_includeFile_error hinclude with rfl | rfl | ⟨cause, rfl⟩ | ⟨text, -, -, henter⟩
    · exact isPinpointed_of_value hpath rfl (fun _ _ => id) fun _ => .missingInclude
    · exact isPinpointed_of_value hpath rfl (fun _ _ => id) fun _ => .includeTooDeep
    · intro l hl
      simp [ParseError.diagnostic, Diagnostic.location?] at hl
    · exact isPinpointed_of_enter henter
  · exact (h.load hfiles hnext).isPinpointed_of_skipComments hopens hskip

/-! ### Failures of a parse -/

section Visits

variable {files : FileSystem} {p : Parser}

private theorem Visits.holds_of_load (h : s₀.Visits files s p) {path : Located String}
    (hstep : (s.machine p).step s.lookahead = .error (.load path)) : s.sources.Holds path.quoted := by
  obtain ⟨s₁, passed, hopens, hpasses, hcited⟩ := h.exists_passes
  have hstate : p.state = .includeEnd path := (Machine.react_of_step_load hstep).1
  exact (hpasses.accounts hopens).1.holds_passed (hcited path (by simp [hstate, State.cited]))

private theorem Visits.holds_of_conflict (h : s₀.Visits files s p) {conflict : Located Conflict}
    (hstep : (s.machine p).step s.lookahead = .error (.conflict conflict)) :
    s.sources.Holds (⟨conflict.value.culprit, conflict.span⟩ : Located String).quoted := by
  obtain ⟨s₁, passed, hopens, hpasses, hcited⟩ := h.exists_passes
  obtain ⟨accounts, settled⟩ := hpasses.accounts hopens
  rcases Machine.culprit_of_step hstep with hkept | htoken
  · exact accounts.holds_passed (hcited _ hkept)
  · exact htoken ▸ (accounts.holds_lookahead settled).1

/-- A token that is not expected is pinpointed, and if it is the end then it is that of the root file. -/
private theorem Visits.isPinpointed_of_refused (h : s₀.Visits files s p) {expected : Expectation} (generated : Nat)
    (hstep : (s.machine p).step s.lookahead = .error (.refused expected)) :
    Failure.IsPinpointed ⟨.unexpected expected s.lookahead.value.kind (s.location s.lookahead.span),
      { s with generated }⟩ s₀.sources.size := by
  obtain ⟨s₁, passed, hopens, hpasses, -⟩ := h.exists_passes
  obtain ⟨accounts, settled⟩ := hpasses.accounts hopens
  obtain ⟨hholds, hroot⟩ := accounts.holds_lookahead settled
  intro l hl
  obtain rfl : s.location s.lookahead.span = l := Option.some.inj hl
  obtain ⟨source, front, lexeme, back, hsource, hplace, hmarks, hwritten⟩ := exists_marks_of_holds hholds
  rw [hplace]
  refine ⟨source, front, lexeme, back, hsource, rfl, hmarks, ⟨_, rfl, hwritten⟩,
    ParseError.wording_unexpected hwritten h.not_isComment expected _, fun hnil => ?_⟩
  have hfinish : s.lookahead.value = .finish := hwritten.eq_nil_iff.1 hnil
  -- between declarations the end is no error, so the root file is not empty
  have hstate : p.state ≠ .top := by
    intro htop
    rw [Machine.step_finish_of_top htop hfinish] at hstep
    simp at hstep
  obtain ⟨first, hfirst, hchars⟩ := h.exists_root hstate
  rw [hfinish] at hwritten
  rw [← hroot hfinish] at hfirst
  obtain rfl : source = first := Option.some.inj (hsource.symm.trans hfirst)
  exact ⟨⟨expected, by rw [hfinish]; rfl⟩, hroot hfinish, hwritten.2, hchars⟩

private theorem Yields.isPinpointed (hvisits : s₀.Visits files s p) (h : Yields files s p (.error failure)) :
    failure.IsPinpointed s₀.sources.size := by
  obtain ⟨s₁, passed, hopens, hpasses, -⟩ := hvisits.exists_passes
  generalize hresult : (Except.error failure : Parsed) = result at h
  cases h with
  | unloaded hstep hload =>
    obtain rfl := Except.error.inj hresult
    have hlook : s.lookahead.value ≠ .finish := by simp [(Machine.react_of_step_load hstep).2]
    exact hpasses.isPinpointed_of_loadFile hopens (files_ne_nil_of_lookahead hlook) (hvisits.holds_of_load hstep) hload
  | stop hstop =>
    cases hstop with
    | finished => simp [Stop.outcome] at hresult
    | @load path hstep =>
      obtain rfl := Except.error.inj hresult
      exact isPinpointed_of_value (hvisits.holds_of_load hstep) rfl (fun _ _ hwritten => ⟨path.value, hwritten⟩)
        fun _ => .tooManyIncludes
    | refused generated hstep =>
      obtain rfl := Except.error.inj hresult
      exact hvisits.isPinpointed_of_refused generated hstep
    | stray generated hopen hproceed =>
      obtain rfl := Except.error.inj hresult
      exact (hpasses.draw generated).isPinpointed_of_proceed hopens hopen hproceed
    | @conflict cause s' generated hstep hopen hproceed =>
      obtain rfl := Except.error.inj hresult
      obtain ⟨next, hnext, hskip⟩ := exists_of_proceed hproceed
      obtain ⟨_, hpasses', -⟩ := ((Passes.refl.draw generated).advance hopen hnext).skipComments hskip
      obtain ⟨source, hsource, hmem⟩ := hvisits.holds_of_conflict hstep
      have hholds : s'.sources.Holds _ := ⟨source, hpasses'.get?_sources hsource, hmem⟩
      exact isPinpointed_of_value hholds rfl (fun _ _ => id) fun _ => .conflict (Machine.wording_of_step hstep)

end Visits

theorem Parses.isPinpointed {parse : Nat → Reading Parsed} (hparse : s₀.Parses parse) (files : FileSystem)
    (budget : Nat) (h : (parse budget).run files = .error failure) : failure.IsPinpointed s₀.sources.size := by
  rcases hparse.cases files budget with ⟨path, cause, herror⟩ | ⟨name, text, failure', hopen, herror⟩ |
    ⟨s, p, hvisits, hyields⟩
  · obtain rfl := Except.error.inj (h.symm.trans herror)
    intro l hl
    simp [ParseError.diagnostic, Diagnostic.location?] at hl
  · obtain rfl := Except.error.inj (h.symm.trans herror)
    exact isPinpointed_of_openText hopen
  · rw [h] at hyields
    exact hyields.isPinpointed hvisits

/-! ### What is told to a reader -/

/-- A report marks the span itself, unless the source is empty. -/
theorem markedBytes_of_marks {span : Span} {source : Source} {front lexeme back : List Char}
    (h : span.Marks source front lexeme back) (hchars : source.chars ≠ []) (hback : lexeme = [] → back = []) :
    Report.markedBytes span source.byteLength = (span.start, span.stop) := by
  have hstart := h.start
  have hstop := h.stop
  have hlength : source.byteLength = span.stop + Text.byteLength back := by
    rw [Source.byteLength, ← h.text, Text.byteLength_append (front ++ lexeme), h.stop]
  have hpos : source.byteLength ≠ 0 := fun hzero => hchars (Text.byteLength_eq_zero.1 hzero)
  rw [Text.byteLength_append] at hstop
  rw [Report.markedBytes, Prod.mk.injEq]
  by_cases hlexeme : lexeme = []
  · -- an empty span at the end is not widened, since there is no byte after it
    obtain rfl := hback hlexeme
    rw [hlexeme, Text.byteLength_nil] at hstop
    rw [Text.byteLength_nil] at hlength
    omega
  · have hwide : Text.byteLength lexeme ≠ 0 := fun hzero => hlexeme (Text.byteLength_eq_zero.1 hzero)
    omega

/-- Whatever parse fails with a location: the span of the location marks a lexeme of a source that the session knows,
between characters; file, line and column are those of its start, as they are counted and as they are looked up; the
error is about the lexeme, which is empty only at the end of the root file and only if the end is what was not expected,
and the user is told what it is about; a report marks that span, and the location is computed without a failure. -/
theorem Parses.location_real {parse : Nat → Reading Parsed} (hparse : s₀.Parses parse) (files : FileSystem)
    (budget : Nat) {l : Location} (h : (parse budget).run files = .error failure)
    (hl : failure.error.diagnostic.location? = some l) :
    ∃ source front lexeme back,
      failure.session.sources.get? l.span.source = some source ∧ l.file = source.path ∧
      l.span.Marks source front lexeme back ∧ l.span.start ≤ l.span.stop ∧ l.span.stop ≤ source.byteLength ∧
      source.isBoundary l.span.start = true ∧ source.isBoundary l.span.stop = true ∧
      l.line = front.count '\n' + 1 ∧ l.column = (front.reverse.takeWhile (· ≠ '\n')).length + 1 ∧
      source.position? l.span.start = some ⟨l.line, l.column⟩ ∧ source.snippet? l.span.start = some l.snippet ∧
      failure.error.Blames lexeme back ∧ failure.error.Wording lexeme failure.error.diagnostic ∧
      (lexeme = [] ↔ ∃ expected, failure.error = .unexpected expected .finish l) ∧
      (lexeme = [] → l.span.source = s₀.sources.size ∧ l.span.start = source.byteLength) ∧
      Report.markedBytes l.span source.byteLength = (l.span.start, l.span.stop) ∧
      failure.session.location? l.span = some l := by
  obtain ⟨source, front, lexeme, back, known, hlocation, marks, blames, wording, ending⟩ :=
    hparse.isPinpointed files budget h l hl
  have hcomputed : source.location? l.span = some l := marks.location?.trans (congrArg some hlocation.symm)
  obtain ⟨hposition?, hsnippet?⟩ := Source.lookup_of_location? hcomputed
  have hposition : Position.mk l.line l.column = .after front := by
    rw [← marks.position, hlocation]
    rfl
  obtain ⟨hline, hcolumn⟩ := Position.mk.inj hposition
  have hchars : source.chars ≠ [] := by
    intro hempty
    have hnil : lexeme = [] := by
      have := marks.text
      simp only [hempty, List.append_eq_nil_iff] at this
      exact this.1.2
    exact (ending hnil).2.2.2 hempty
  refine ⟨source, front, lexeme, back, known, by rw [hlocation]; rfl, marks, marks.start_le_stop, marks.stop_le,
    marks.isBoundary_start, marks.isBoundary_stop, hline, hcolumn, hposition?, hsnippet?, blames, wording,
    ⟨fun hnil => (ending hnil).1, ?_⟩, ?_, markedBytes_of_marks marks hchars fun hnil => (ending hnil).2.2.1, ?_⟩
  · rintro ⟨expected, herror⟩
    rw [herror] at blames
    obtain ⟨t, hkind, hwritten⟩ := blames
    refine hwritten.eq_nil_iff.2 ?_
    cases t with
    | finish => rfl
    | _ => simp [Token.kind] at hkind
  · intro hnil
    obtain ⟨-, hroot, rfl, -⟩ := ending hnil
    refine ⟨hroot, ?_⟩
    rw [marks.start, Source.byteLength, ← marks.text, hnil, List.append_nil, List.append_nil]
  · rw [location?, known]
    exact hcomputed

/-- A file that is included declares a package twice, with characters of several bytes before the second one. -/
private def repeating : FileSystem := fun path =>
  if path = ⟨"./app.conf"⟩ then .ok "include 'é.conf';"
  else if path = ⟨"./é.conf"⟩ then .ok (withBraces "package 'ü' ( ) // ü\n ; package 'ü' ( )")
  else .error .notFound

/-- Where the package is declared again. -/
private def repetition : Location :=
  ⟨⟨"./é.conf"⟩, 2, 12, withBraces "; package 'ü' ( )", ⟨34, 38, 1⟩⟩

/-- The second declaration of a package is pointed to in the file where it stands. -/
theorem location_real_of_repeated : ∃ failure source front lexeme back,
    ((Session.new ⟨"."⟩).parseFileWithin 1 ⟨"app.conf"⟩).run repeating = .error failure ∧
    failure.error = .conflict (.duplicatePackage "ü") repetition ∧
    failure.session.sources.get? 1 = some source ∧ repetition.file = source.path ∧
    repetition.span.Marks source front lexeme back ∧ source.position? 34 = some ⟨2, 12⟩ ∧
    failure.error.Blames lexeme back ∧
    failure.error.diagnostic = .structural "package 'ü' is declared more than once" repetition ∧
    Report.markedBytes repetition.span source.byteLength = (34, 38) ∧
    failure.session.location? repetition.span = some repetition := by
  have hparsed : (match ((Session.new ⟨"."⟩).parseFileWithin 1 ⟨"app.conf"⟩).run repeating with
      | .error failure => some failure.error
      | .ok _ => none) = some (.conflict (.duplicatePackage "ü") repetition) := by
    decide +kernel
  split at hparsed
  · rename_i failure hrun
    have herror := Option.some.inj hparsed
    have hlocation : failure.error.diagnostic.location? = some repetition := by
      rw [herror]
      rfl
    obtain ⟨source, front, lexeme, back, hsource, hfile, hmarks, -, -, -, -, -, -, hposition, -, hblames, hwording, -,
      -, hmarked, hcomputed⟩ :=
      (Parses.file (s := Session.new ⟨"."⟩) ⟨"app.conf"⟩).location_real repeating 1 hrun hlocation
    have htold : failure.error.diagnostic = .structural "package 'ü' is declared more than once" repetition := by
      generalize failure.error.diagnostic = told at hwording
      rw [herror] at hwording
      cases hwording with
      | conflict hreason =>
        cases hreason
        rfl
    exact ⟨failure, source, front, lexeme, back, hrun, herror, hsource, hfile, hmarks, hposition, hblames, htold,
      hmarked, hcomputed⟩
  · simp at hparsed

end Session

end BundleConf
