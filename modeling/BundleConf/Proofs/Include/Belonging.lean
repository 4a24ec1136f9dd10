import BundleConf.Proofs.Include.Trace

/-!
# Which file an include belongs to

The path of an include is looked for from the file in which the semicolon of the include stands, because that is the
innermost open file by the time the semicolon has been read, and the error for a missing file names that file too.  This
is the file of the path itself, unless that one ends before the semicolon: then the semicolon is the one at which the
file below had been suspended, and the include is taken for one of the file below
(`Session.Starts.include_belongs_iff`).
-/

namespace BundleConf

/-- The first stops of the parses of a session. -/
inductive Session.Starts (s : Session) (files : FileSystem) : Stop → Prop
  | text (name : Path) (text : String) : Starts s files (s.startText name text)
  | file (file : Path) : Starts s files (s.startFile files file)

theorem Session.Starts.asked {s : Session} {files : FileSystem} {start : Stop} (h : s.Starts files start) :
    start.Asked s.root := by
  cases h with
  | text name text => exact asked_startText s name text
  | file file => exact asked_startFile s files file

/-- Where the files are that a source includes. -/
def Source.directory (root : Path) (source : Source) : Path :=
  source.path.parent?.getD root

/-! ### The files of an include -/

section Asks

variable {root : Path} {path : Located String} {t : Session} {p : Parser}

theorem Asks.exists_source (h : Asks root path t p) : ∃ source, t.sources.get? path.span.source = some source ∧
    (t.location path.span).file = source.path := by
  cases hs : t.sources.get? path.span.source with
  | none =>
    have := SourceTable.get?_eq_none_iff.1 hs
    have := h.registered
    omega
  | some source =>
    refine ⟨source, rfl, ?_⟩
    rw [Session.location, hs]
    rfl

/-- The semicolon of the include stands in the innermost open file. -/
theorem Asks.exists_issuer (h : Asks root path t p) : ∃ source, t.sources.get? t.current.span.source = some source ∧
    t.issuer = source.path ∧ t.includePath path.value = (source.directory root).resolve path.value := by
  obtain ⟨file, below, hfiles⟩ := List.exists_cons_of_ne_nil h.files
  have hstacked := h.aligned.stacked
  rw [hfiles] at hstacked
  have registered := h.aligned.registered file (by simp [hfiles])
  refine ⟨file.stream.source, ?_, ?_, ?_⟩
  · rw [hstacked.1]
    exact registered.source
  · rw [Session.issuer, hfiles, registered.path]
  · rw [Session.includePath, hfiles, Source.directory, registered.path]
    dsimp only
    rw [registered.directory, h.root]

end Asks

/-! ### Errors for missing files -/

def ParseError.IsMissingInclude : ParseError → Prop
  | missingInclude _ _ _ _ => True
  | _ => False

namespace Session

variable {s : Session} {failure : Failure}

private theorem not_missing_of_advance (h : s.advance = .error failure) : ¬ failure.error.IsMissingInclude := by
  rw [advance] at h
  split at h
  · simp at h
  · split at h
    · cases h
      exact id
    · simp at h

private theorem not_missing_of_skipComments (h : s.skipComments = .error failure) :
    ¬ failure.error.IsMissingInclude := by
  fun_induction skipComments s with
  | case1 s hcomment failure' hadvance =>
    cases h
    exact not_missing_of_advance hadvance
  | case2 s hcomment next hnext ih => exact ih h
  | case3 => simp at h

private theorem not_missing_of_proceed (h : s.proceed = .error failure) : ¬ failure.error.IsMissingInclude := by
  rw [proceed] at h
  cases ha : s.advance with
  | error failure' =>
    rw [ha] at h
    cases h
    exact not_missing_of_advance ha
  | ok next =>
    rw [ha] at h
    exact not_missing_of_skipComments h

private theorem not_missing_of_enter {path : Path} {text : String} (h : s.enter path text = .error failure) :
    ¬ failure.error.IsMissingInclude := by
  unfold enter at h
  dsimp only at h
  split at h
  · cases h
    exact id
  · simp at h

end Session

private theorem not_missing_of_feed {s : Session} {p : Parser} {failure : Failure} (h : feed s p = .failed failure) :
    ¬ failure.error.IsMissingInclude := by
  induction hn : s.unread using Nat.strongRecOn generalizing s p with
  | ind n ih =>
    rcases feed_failed_cases h with ⟨_, _, _, he⟩ | ⟨_, _, he⟩ | ⟨generated, hproceed⟩ |
      ⟨generated, p', s', hfiles, hproceed, hfeed⟩
    · rw [he]
      exact id
    · rw [he]
      exact id
    · exact Session.not_missing_of_proceed hproceed
    · let drawn : Session := { s with generated }
      have hlt : s'.unread < drawn.unread := Session.unread_proceed_lt hproceed hfiles
      exact ih _ (hn ▸ hlt) hfeed rfl

private theorem not_missing_of_startText {s : Session} {name : Path} {text : String} {failure : Failure}
    (h : s.startText name text = .failed failure) : ¬ failure.error.IsMissingInclude := by
  rw [Session.startText] at h
  cases hopen : s.openText name text with
  | error failure' =>
    rw [hopen] at h
    cases h
    exact Session.not_missing_of_enter hopen
  | ok s₁ =>
    rw [hopen, show (Except.ok s₁ : Outcome Session).bind Session.skipComments = s₁.skipComments from rfl] at h
    cases hskip : s₁.skipComments with
    | error failure' =>
      rw [hskip] at h
      cases h
      exact Session.not_missing_of_skipComments hskip
    | ok s₂ =>
      rw [hskip] at h
      exact not_missing_of_feed h

private theorem not_missing_of_start {s : Session} {files : FileSystem} {start : Stop} {failure : Failure}
    (h : s.Starts files start) (hstart : start = .failed failure) : ¬ failure.error.IsMissingInclude := by
  cases h with
  | text name text => exact not_missing_of_startText hstart
  | file file =>
    rw [Session.startFile] at hstart
    cases hfile : files (s.rootPath file) with
    | error cause =>
      rw [hfile] at hstart
      cases hstart
      exact id
    | ok text =>
      rw [hfile] at hstart
      exact not_missing_of_startText hstart

/-- A file is missing if it is not there when it is asked for. -/
private theorem failure_of_loadFile {t : Session} {path : Located String} {found : Lookup} {failure : Failure}
    (h : t.loadFile path found = .error failure) (hm : failure.error.IsMissingInclude) :
    failure = ⟨.missingInclude path.value (t.includePath path.value) t.issuer (t.location path.span), t⟩ := by
  rw [Session.loadFile] at h
  cases hi : t.includeFile path.value path.span found with
  | ok next =>
    rw [hi] at h
    exact absurd hm (Session.not_missing_of_skipComments h)
  | error failure' =>
    rw [hi] at h
    obtain rfl : failure' = failure := by simpa [Except.bind] using h
    unfold Session.includeFile at hi
    dsimp only at hi
    split at hi
    · cases hi
      rfl
    · split at hi
      · cases hi
        exact hm.elim
      · split at hi
        · cases hi
          exact hm.elim
        · exact absurd hm (Session.not_missing_of_enter hi)

/-- If a parse fails for a missing file then this is the file of an include that it has come to. -/
private theorem exists_load_of_missing {s : Session} {files : FileSystem} {start : Stop} (h : s.Starts files start)
    {n : Nat} {failure : Failure} (hstop : start.after files n = .failed failure)
    (hm : failure.error.IsMissingInclude) : ∃ m path t p, start.after files m = .load path t p ∧
      failure = ⟨.missingInclude path.value (t.includePath path.value) t.issuer (t.location path.span), t⟩ := by
  induction n with
  | zero =>
    obtain rfl : start = .failed failure := hstop
    exact absurd hm (not_missing_of_start h rfl)
  | succ n ih =>
    rw [Stop.after_succ] at hstop
    cases hn : start.after files n with
    | finished app t => simp [hn, Stop.next] at hstop
    | failed failure' =>
      rw [hn] at hstop
      exact ih (hn.trans hstop)
    | load path t p =>
      rw [hn, Stop.next] at hstop
      cases hload : t.loadFile path (files (t.includePath path.value)) with
      | error failure' =>
        rw [hload] at hstop
        obtain rfl : failure' = failure := by simpa using hstop
        -- the include that the parse stands at is the one that fails
        exact ⟨n, path, t, p, hn, failure_of_loadFile hload hm⟩
      | ok t' =>
        rw [hload] at hstop
        exact absurd hm (not_missing_of_feed hstop)

/-! ### Includes and their files -/

/-- At every include that a parse comes to, the path is one of some source `F`, and the semicolon one of some source
`G`.  The include is resolved from `G`, and `G` is the file that an error names as the one that includes.  This is
what the include says of itself exactly if `F` and `G` are the same file. -/
theorem Session.Starts.include_belongs_iff {s : Session} {files : FileSystem} {start : Stop} (h : s.Starts files start) :
    (∀ n path t p, start.after files n = .load path t p →
      ∃ F G, t.sources.get? path.span.source = some F ∧ t.sources.get? t.current.span.source = some G ∧
        t.current.value = .mark .semicolon ∧
        t.includePath path.value = (G.directory s.root).resolve path.value ∧ t.issuer = G.path ∧
        (t.location path.span).file = F.path ∧
        (t.includePath path.value = (F.directory s.root).resolve path.value ∧
            t.issuer = (t.location path.span).file ↔ G.path = F.path)) ∧
    ∀ n requested resolved issuer location t,
      (start.after files n).outcome = .error ⟨.missingInclude requested resolved issuer location, t⟩ →
      ∃ m path p, start.after files m = .load path t p ∧ requested = path.value ∧
        resolved = t.includePath path.value ∧ issuer = t.issuer ∧ location = t.location path.span := by
  constructor
  · intro n path t p hstop
    have asks : Asks s.root path t p := by
      have := asked_after files h.asked n
      rw [hstop] at this
      exact this
    obtain ⟨F, hF, hlocation⟩ := asks.exists_source
    obtain ⟨G, hG, hissuer, hpath⟩ := asks.exists_issuer
    refine ⟨F, G, hF, hG, asks.semicolon, hpath, hissuer, hlocation, ?_⟩
    rw [hpath, hissuer, hlocation]
    constructor
    · exact fun h => h.2
    · intro hsame
      exact ⟨by rw [Source.directory, Source.directory, hsame], hsame⟩
  · intro n requested resolved issuer location t houtcome
    cases hstop : start.after files n with
    | finished app t' => simp [hstop, Stop.outcome] at houtcome
    | load path t' p => simp [hstop, Stop.outcome] at houtcome
    | failed failure =>
      obtain rfl : failure = ⟨.missingInclude requested resolved issuer location, t⟩ := by
        simpa [hstop, Stop.outcome] using houtcome
      obtain ⟨m, path, t', p, hload, hfailure⟩ := exists_load_of_missing h hstop trivial
      simp only [Failure.mk.injEq, ParseError.missingInclude.injEq] at hfailure
      obtain ⟨⟨hrequested, hresolved, hissuer, hlocation⟩, rfl⟩ := hfailure
      exact ⟨m, path, p, hload, hrequested, hresolved, hissuer, hlocation⟩

/-- A file of another directory, whose last include has its semicolon in the file or does not. -/
private def nested (last : String) : FileSystem := fun path =>
  if path = ⟨"./app.conf"⟩ then .ok "include 'sub/x.conf';"
  else if path = ⟨"./sub/x.conf"⟩ then .ok last
  else if path = ⟨"./sub/y.conf"⟩ then .ok ""
  else .error .notFound

/-- What a stop asks for: the request, where it is looked for, and the files of the path and of the semicolon. -/
private def Stop.demand : Stop → Option (String × Path × Option Path × Option Path)
  | load path t _ => some (path.value, t.includePath path.value, (t.sources.get? path.span.source).map Source.path,
      (t.sources.get? t.current.span.source).map Source.path)
  | _ => none

private theorem Stop.exists_load {stop : Stop} {requested : String} {resolved : Path} {source source' : Option Path}
    (h : stop.demand = some (requested, resolved, source, source')) :
    ∃ path t p, stop = .load path t p ∧ path.value = requested ∧ t.includePath path.value = resolved ∧
      (t.sources.get? path.span.source).map Source.path = source ∧
      (t.sources.get? t.current.span.source).map Source.path = source' := by
  cases stop with
  | load path t p =>
    simp only [Stop.demand, Option.some.injEq, Prod.mk.injEq] at h
    exact ⟨path, t, p, rfl, h⟩
  | _ => simp [Stop.demand] at h

/-- An include that ends in its own file is looked for from there. -/
theorem include_belongs_of_semicolon :
    ∃ path t p, ((Session.new ⟨"."⟩).startFile (nested "include 'y.conf';") ⟨"app.conf"⟩).after
      (nested "include 'y.conf';") 1 = .load path t p ∧ path.value = "y.conf" ∧
      t.includePath path.value = ⟨"./sub/y.conf"⟩ ∧ t.issuer = (t.location path.span).file := by
  have hdemand : (((Session.new ⟨"."⟩).startFile (nested "include 'y.conf';") ⟨"app.conf"⟩).after
      (nested "include 'y.conf';") 1).demand =
      some ("y.conf", ⟨"./sub/y.conf"⟩, some ⟨"./sub/x.conf"⟩, some ⟨"./sub/x.conf"⟩) := by
    decide +kernel
  obtain ⟨path, t, p, hstop, hvalue, hresolved, hsource, hsource'⟩ := Stop.exists_load hdemand
  obtain ⟨F, G, hF, hG, -, -, -, -, hiff⟩ :=
    (Session.Starts.include_belongs_iff (.file ⟨"app.conf"⟩)).1 1 path t p hstop
  have hsame : G.path = F.path := by
    rw [hF] at hsource
    rw [hG] at hsource'
    exact Option.some.inj (hsource'.trans hsource.symm)
  exact ⟨path, t, p, hstop, hvalue, hresolved, (hiff.2 hsame).2⟩

/-- An include whose file ends before its semicolon is looked for from another file, which is also the one that an
error names. -/
theorem not_include_belongs :
    (¬ ∀ (s : Session) (files : FileSystem) (start : Stop), s.Starts files start →
      ∀ n path t p F, start.after files n = .load path t p → t.sources.get? path.span.source = some F →
        t.includePath path.value = (F.directory s.root).resolve path.value) ∧
    ¬ ∀ (s : Session) (files : FileSystem) (start : Stop), s.Starts files start →
      ∀ n requested resolved issuer location t,
        (start.after files n).outcome = .error ⟨.missingInclude requested resolved issuer location, t⟩ →
        issuer = location.file := by
  let files := nested "include 'y.conf'"
  let start := (Session.new ⟨"."⟩).startFile files ⟨"app.conf"⟩
  constructor
  · intro h
    have hdemand : (start.after files 1).demand =
        some ("y.conf", ⟨"./y.conf"⟩, some ⟨"./sub/x.conf"⟩, some ⟨"./app.conf"⟩) := by
      decide +kernel
    obtain ⟨path, t, p, hstop, hvalue, hresolved, hsource, -⟩ := Stop.exists_load hdemand
    obtain ⟨F, hF, hpath⟩ := Option.map_eq_some_iff.1 hsource
    have hbelongs := h _ files start (.file ⟨"app.conf"⟩) 1 path t p F hstop hF
    rw [hresolved, hvalue, Source.directory, hpath] at hbelongs
    exact absurd hbelongs (by decide +kernel)
  · intro h
    have herror : (match (start.after files 2).outcome with
        | .error ⟨.missingInclude _ _ issuer location, _⟩ => some (issuer, location.file)
        | _ => none) = some (⟨"./app.conf"⟩, ⟨"./sub/x.conf"⟩) := by
      decide +kernel
    split at herror
    · rename_i requested resolved issuer location t houtcome
      have hissuer := h _ files start (.file ⟨"app.conf"⟩) 2 requested resolved issuer location t houtcome
      simp only [Option.some.injEq, Prod.mk.injEq] at herror
      obtain ⟨rfl, hfile⟩ := herror
      rw [hfile] at hissuer
      exact absurd hissuer (by decide)
    · simp at herror

end BundleConf
