import BundleConf.Proofs.Include.Belonging
import BundleConf.Proofs.Include.Visiting
import BundleConf.Proofs.Path.Components
import BundleConf.Proofs.Session.Calls

/-!
# Which files are below the root

A parse loads its root file and then the files of the includes that it comes to, each from the directory of a file that
has been loaded before (`Session.StartsAt.cases_loaded`, `Session.StartsAt.exists_loaded_of_loads`).  The root file is
below the root directory of the session, but nothing keeps the others there: a request is followed part by part, and
`..` takes back whatever name comes last, be it one of the root's.  So all files are below the root exactly if every
request leads there from the directory where it is made, and this is so whenever no request takes back more names than
there are between the root and that directory (`Session.StartsAt.loaded_liesIn_iff`).
-/

namespace BundleConf

/-! ### What is loaded -/

theorem Outcome.session_bind {x : Outcome Session} {f : Session → Outcome Session} {sources : SourceTable}
    (hx : x.session.sources = sources) (hf : ∀ s, (f s).session.sources = s.sources) :
    (Outcome.session (x.bind f)).sources = sources := by
  cases x with
  | error failure => exact hx
  | ok s => exact (hf s).trans hx

namespace Session

variable (s : Session)

theorem sources_advance : s.advance.session.sources = s.sources := by
  rw [advance]
  split
  · rfl
  · split <;> rfl

theorem sources_skipComments : s.skipComments.session.sources = s.sources := by
  fun_induction skipComments s with
  | case1 s _ failure hadvance =>
    have := sources_advance s
    rwa [hadvance] at this
  | case2 s _ next hnext ih =>
    have := sources_advance s
    rw [hnext] at this
    exact ih.trans this
  | case3 => rfl

theorem sources_proceed : s.proceed.session.sources = s.sources :=
  Outcome.session_bind s.sources_advance sources_skipComments

theorem sources_enter (path : Path) (text : String) :
    (s.enter path text).session.sources = s.sources.add ⟨path, text⟩ := by
  rw [enter]
  dsimp only
  split <;> rfl

/-- A file that is asked for is loaded if there is a text at its path and not too many files are open. -/
theorem sources_loadFile (path : Located String) (found : Lookup) :
    (s.loadFile path found).session.sources = s.sources ∧ (s.depth < maxDepth → ∀ text, found ≠ .ok text) ∨
      ∃ text, s.depth < maxDepth ∧ found = .ok text ∧
        (s.loadFile path found).session.sources = s.sources.add ⟨s.includePath path.value, text⟩ := by
  by_cases hloaded : s.depth < maxDepth ∧ ∃ text, found = .ok text
  · obtain ⟨hdepth, text, rfl⟩ := hloaded
    refine .inr ⟨text, hdepth, rfl, Outcome.session_bind ?_ sources_skipComments⟩
    rw [includeFile_of_text hdepth]
    exact sources_enter s.suspend _ text
  · refine .inl ⟨Outcome.session_bind ?_ sources_skipComments, fun hdepth text htext => hloaded ⟨hdepth, text, htext⟩⟩
    cases hinclude : s.includeFile path.value path.span found with
    | ok s' =>
      obtain ⟨hdepth, text, htext, -⟩ := exists_of_includeFile hinclude
      exact absurd ⟨hdepth, text, htext⟩ hloaded
    | error failure =>
      rcases cases_of_includeFile_error hinclude with rfl | rfl | ⟨cause, rfl⟩ | ⟨text, hdepth, htext, -⟩
      · rfl
      · rfl
      · rfl
      · exact absurd ⟨hdepth, text, htext⟩ hloaded

end Session

/-- Feeding loads nothing. -/
theorem sources_feed (s : Session) (p : Parser) : (feed s p).outcome.session.sources = s.sources := by
  induction hn : s.unread using Nat.strongRecOn generalizing s p with
  | ind n ih =>
    rcases feed_cases s p with hstop | ⟨m, s', -, hfiles, hproceed, hfeed⟩
    · generalize feed s p = stop at hstop
      cases hstop with
      | finished => rfl
      | load => rfl
      | refused => rfl
      | stray generated _ hproceed =>
        have := Session.sources_proceed { s with generated }
        rwa [hproceed] at this
      | conflict generated _ _ hproceed =>
        have := Session.sources_proceed { s with generated }
        rwa [hproceed] at this
    · have same := Session.sources_proceed { s with generated := m.generated }
      rw [hproceed] at same
      let drawn : Session := { s with generated := m.generated }
      have hlt : s'.unread < drawn.unread := Session.unread_proceed_lt hproceed hfiles
      rw [hfeed]
      exact (ih _ (hn ▸ hlt) s' m.parser rfl).trans same

namespace Stop

/-- A file of the path is among the sources of the parse, which start with the number `first`. -/
def HasLoaded (first : Nat) (stop : Stop) (path : Path) : Prop :=
  ∃ number source, first ≤ number ∧ stop.outcome.session.sources.get? number = some source ∧ source.path = path

/-- The stop asks for a file, and gets its text: the one that is requested from the directory of the innermost open
file. -/
inductive Loads (files : FileSystem) : Stop → (directory : Path) → (requested text : String) → Prop
  | load {path : Located String} {t : Session} {p : Parser} {file : OpenFile} {below : List OpenFile} {text : String}
      (hfiles : t.files = file :: below) (hdepth : t.depth < maxDepth)
      (hfound : files (file.directory.resolve path.value) = .ok text) :
      Loads files (.load path t p) file.directory path.value text

private theorem sources_next_load (files : FileSystem) (path : Located String) (t : Session) (p : Parser) :
    ((load path t p).next files).outcome.session.sources =
      (t.loadFile path (files (t.includePath path.value))).session.sources := by
  rw [next]
  cases t.loadFile path (files (t.includePath path.value)) with
  | error failure => rfl
  | ok s => exact sources_feed s _

/-- The next stop has loaded the file that the stop gets. -/
theorem sources_next_of_loads {files : FileSystem} {stop : Stop} {directory : Path} {requested text : String}
    (h : stop.Loads files directory requested text) : (stop.next files).outcome.session.sources =
      stop.outcome.session.sources.add ⟨directory.resolve requested, text⟩ := by
  cases h with
  | @load path t p file below _ hfiles hdepth hfound =>
    have hpath : t.includePath path.value = file.directory.resolve path.value := by rw [Session.includePath, hfiles]
    rw [sources_next_load]
    rcases t.sources_loadFile path (files (t.includePath path.value)) with ⟨-, hnot⟩ | ⟨text', -, hfound', hadd⟩
    · exact absurd (hpath ▸ hfound) (hnot hdepth text)
    · rw [hpath] at hfound' hadd
      obtain rfl : text' = text := Except.ok.inj (hfound'.symm.trans hfound)
      rw [hpath]
      exact hadd

/-- If the stop gets no file then the next one has loaded nothing. -/
theorem sources_next_of_not_loads {files : FileSystem} {stop : Stop} {root : Path} (hasked : stop.Asked root)
    (h : ∀ directory requested text, ¬ stop.Loads files directory requested text) :
    (stop.next files).outcome.session.sources = stop.outcome.session.sources := by
  cases stop with
  | finished app s => rfl
  | failed failure => rfl
  | load path t p =>
    obtain ⟨file, below, hfiles⟩ := List.exists_cons_of_ne_nil hasked.files
    have hpath : t.includePath path.value = file.directory.resolve path.value := by rw [Session.includePath, hfiles]
    rw [sources_next_load]
    rcases t.sources_loadFile path (files (t.includePath path.value)) with ⟨hsame, -⟩ | ⟨text, hdepth, hfound, -⟩
    · exact hsame
    · exact absurd (.load hfiles hdepth (hpath ▸ hfound)) (h file.directory path.value text)

end Stop

namespace Session

variable {s₀ s : Session} {files : FileSystem} {file : Path} {start : Stop}

/-- The first stops of the parses whose root file has the given name. -/
inductive StartsAt (s : Session) (files : FileSystem) (file : Path) : Stop → Prop
  | text (text : String) : StartsAt s files file (s.startText file text)
  | file : StartsAt s files file (s.startFile files file)

theorem StartsAt.starts (h : s.StartsAt files file start) : s.Starts files start := by
  cases h with
  | text text => exact .text file text
  | file => exact .file file

/-- A parse starts with an error that loads nothing, or with its root file. -/
theorem StartsAt.exists_startText (h : s.StartsAt files file start) :
    (∃ failure, start = .failed failure ∧ failure.session.sources = s.sources) ∨
      ∃ text, start = s.startText file text := by
  cases h with
  | text text => exact .inr ⟨text, rfl⟩
  | file =>
    rw [startFile]
    cases files (s.rootPath file) with
    | error cause => exact .inl ⟨_, rfl, rfl⟩
    | ok text => exact .inr ⟨text, rfl⟩

theorem sources_startText (s : Session) (file : Path) (text : String) :
    (s.startText file text).outcome.session.sources = s.sources.add ⟨s.rootPath file, text⟩ := by
  have opened : (Outcome.session ((s.openText file text).bind skipComments)).sources =
      s.sources.add ⟨s.rootPath file, text⟩ :=
    Outcome.session_bind (sources_enter { s with files := [], suspended := [] } _ text) sources_skipComments
  rw [startText]
  cases hopen : (s.openText file text).bind skipComments with
  | error failure =>
    rw [hopen] at opened
    exact opened
  | ok s' =>
    rw [hopen] at opened
    exact (sources_feed s' .start).trans opened

/-- Every file that a parse has loaded is its root file, or one that an earlier stop has got. -/
theorem StartsAt.cases_loaded (h : s.StartsAt files file start) {n : Nat} {path : Path}
    (hloaded : (start.after files n).HasLoaded s.sources.size path) :
    path = s.rootPath file ∨ ∃ m < n, ∃ directory requested text,
      (start.after files m).Loads files directory requested text ∧ path = directory.resolve requested := by
  obtain ⟨number, source, hle, hsource, rfl⟩ := hloaded
  induction n with
  | zero =>
    rcases h.exists_startText with ⟨failure, rfl, hsources⟩ | ⟨text, rfl⟩
    · have none : s.sources.get? number = none := SourceTable.get?_eq_none_iff.2 hle
      have hsource : failure.session.sources.get? number = some source := hsource
      simp [hsources, none] at hsource
    · have hsource : (s.startText file text).outcome.session.sources.get? number = some source := hsource
      rw [sources_startText, SourceTable.get?_add] at hsource
      split at hsource
      · obtain rfl := Option.some.inj hsource
        exact .inl rfl
      · simp [SourceTable.get?_eq_none_iff.2 hle] at hsource
  | succ n ih =>
    have later {P : Nat → Prop} (hm : ∃ m < n, P m) : ∃ m < n + 1, P m := by
      obtain ⟨m, hlt, hP⟩ := hm
      exact ⟨m, Nat.lt_succ_of_lt hlt, hP⟩
    rw [Stop.after_succ] at hsource
    by_cases hloads : ∃ directory requested text, (start.after files n).Loads files directory requested text
    · obtain ⟨directory, requested, text, hloads⟩ := hloads
      rw [Stop.sources_next_of_loads hloads, SourceTable.get?_add] at hsource
      split at hsource
      · obtain rfl := Option.some.inj hsource
        exact .inr ⟨n, Nat.lt_succ_self n, directory, requested, text, hloads, rfl⟩
      · exact (ih hsource).imp_right later
    · have hnot : ∀ directory requested text, ¬ (start.after files n).Loads files directory requested text :=
        fun directory requested text h => hloads ⟨directory, requested, text, h⟩
      rw [Stop.sources_next_of_not_loads (asked_after files h.starts.asked n) hnot] at hsource
      exact (ih hsource).imp_right later

/-- No source is forgotten. -/
theorem StartsAt.size_sources_le (h : s.StartsAt files file start) (n : Nat) :
    s.sources.size ≤ (start.after files n).outcome.session.sources.size := by
  induction n with
  | zero =>
    rcases h.exists_startText with ⟨failure, rfl, hsources⟩ | ⟨text, rfl⟩
    · exact Nat.le_of_eq (congrArg SourceTable.size hsources.symm)
    · rw [Stop.after, sources_startText, SourceTable.size_add]
      exact Nat.le_succ _
  | succ n ih =>
    rw [Stop.after_succ]
    by_cases hloads : ∃ directory requested text, (start.after files n).Loads files directory requested text
    · obtain ⟨directory, requested, text, hloads⟩ := hloads
      rw [Stop.sources_next_of_loads hloads, SourceTable.size_add]
      exact Nat.le_succ_of_le ih
    · have hnot : ∀ directory requested text, ¬ (start.after files n).Loads files directory requested text :=
        fun directory requested text h => hloads ⟨directory, requested, text, h⟩
      rw [Stop.sources_next_of_not_loads (asked_after files h.starts.asked n) hnot]
      exact ih

/-! ### The files that ask -/

/-- What is fed from a visited token and asks for a file stands at a visited token. -/
private theorem visits_of_feed_load {t : Session} {p q : Parser} {path : Located String} (hvisits : s₀.Visits files s q)
    (hfeed : feed s q = .load path t p) :
    s₀.Visits files t p ∧ (t.machine p).step t.lookahead = .error (.load path) := by
  obtain ⟨t', p', hvisits', hstop⟩ := hvisits.exists_stopsAt
  rw [hfeed] at hstop
  cases hstop with
  | load hstep => exact ⟨hvisits', hstep⟩

/-- So does every stop that asks for a file. -/
private theorem StartsAt.visits_of_load (h : s.StartsAt files file start) {n : Nat} {path : Located String}
    {t : Session} {p : Parser} (hstop : start.after files n = .load path t p) :
    s.Visits files t p ∧ (t.machine p).step t.lookahead = .error (.load path) := by
  induction n generalizing path t p with
  | zero =>
    rcases h.exists_startText with ⟨failure, rfl, -⟩ | ⟨text, rfl⟩
    · simp [Stop.after] at hstop
    · rw [Stop.after, startText] at hstop
      cases hopen : (s.openText file text).bind skipComments with
      | error failure => simp [hopen] at hstop
      | ok s' =>
        rw [hopen] at hstop
        exact visits_of_feed_load (.start hopen) hstop
  | succ n ih =>
    rw [Stop.after_succ] at hstop
    cases hn : start.after files n with
    | finished app s' => simp [hn, Stop.next] at hstop
    | failed failure => simp [hn, Stop.next] at hstop
    | load path' t' p' =>
      obtain ⟨hvisits, hstep⟩ := ih hn
      rw [hn, Stop.next] at hstop
      cases hload : t'.loadFile path' (files (t'.includePath path'.value)) with
      | error failure => simp [hload] at hstop
      | ok s' =>
        rw [hload] at hstop
        exact visits_of_feed_load (hvisits.load hstep hload) hstop

/-- The directory from which a file is requested is that of a file that has been loaded before. -/
theorem StartsAt.exists_loaded_of_loads (h : s.StartsAt files file start) {n : Nat} {directory : Path}
    {requested text : String} (hloads : (start.after files n).Loads files directory requested text) :
    ∃ path, (start.after files n).HasLoaded s.sources.size path ∧ directory = path.parent?.getD s.root := by
  generalize hstop : start.after files n = stop at hloads
  cases hloads with
  | @load path t p top below _ hfiles _ _ =>
    obtain ⟨s₁, passed, hopens, hpasses, -⟩ := (h.visits_of_load hstop).1.exists_passes
    obtain ⟨accounts, -⟩ := hpasses.accounts hopens
    have hasked : Asks s.root path t p := by
      have := asked_after files h.starts.asked n
      rw [hstop] at this
      exact this
    have registered := accounts.registered top (by simp [hfiles])
    have later : s.sources.size ≤ top.stream.number := accounts.later top (by simp [hfiles])
    refine ⟨top.path, ⟨_, _, later, registered.source, registered.path⟩, ?_⟩
    rw [registered.directory, hasked.root]

/-- What a stop gets has been loaded at the next one. -/
theorem StartsAt.hasLoaded_of_loads (h : s.StartsAt files file start) {n : Nat} {directory : Path}
    {requested text : String} (hloads : (start.after files n).Loads files directory requested text) :
    (start.after files (n + 1)).HasLoaded s.sources.size (directory.resolve requested) := by
  refine ⟨_, ⟨directory.resolve requested, text⟩, h.size_sources_le n, ?_, rfl⟩
  rw [Stop.after_succ, Stop.sources_next_of_loads hloads]
  exact SourceTable.get?_add_size _ _

/-! ### Below the root -/

/-- If no request leaves the root then all files are below it, each with a name of its own. -/
private theorem StartsAt.exists_names_of_loaded (h : s.StartsAt files file start) {names : List (List Char)}
    (hroot : (s.rootPath file).components = s.root.components ++ names.map .name) (hnames : names ≠ [])
    (hstays : ∀ n directory requested text, (start.after files n).Loads files directory requested text →
      Path.staysBelow (directory.components.length - s.root.components.length) (Path.parts requested.toList) = true)
    {n : Nat} {path : Path} (hloaded : (start.after files n).HasLoaded s.sources.size path) :
    ∃ names : List (List Char), names ≠ [] ∧ path.components = s.root.components ++ names.map .name := by
  -- a file is requested from the directory of one that has been loaded before it
  induction n using Nat.strongRecOn generalizing path with
  | ind n ih =>
    rcases h.cases_loaded hloaded with rfl | ⟨m, hm, directory, requested, text, hloads, rfl⟩
    · exact ⟨names, hnames, hroot⟩
    · obtain ⟨issuer, hissuer, rfl⟩ := h.exists_loaded_of_loads hloads
      obtain ⟨above, habove, hcomponents⟩ := ih m hm hissuer
      rcases List.eq_nil_or_concat above with rfl | ⟨init, last, rfl⟩
      · exact absurd rfl habove
      · have hlast : issuer.components = (s.root.components ++ init.map .name) ++ [.name last] := by
          rw [hcomponents, List.concat_eq_append, List.map_append, ← List.append_assoc, List.map_singleton]
        obtain ⟨directory, hparent, hdirectory⟩ := Path.components_parent? hlast
        have hstay := hstays m _ requested text hloads
        rw [hparent, Option.getD_some] at hstay ⊢
        rw [hdirectory, List.length_append, List.length_map, Nat.add_sub_cancel_left] at hstay
        rw [Path.components_resolve, hdirectory]
        exact Path.follow_of_staysBelow _ hstay

/-- All files that a parse loads are below the root exactly if every request that is granted leads there, component by
component.  It does so whenever it takes back no more names than there are below the root, and ends with one. -/
theorem StartsAt.loaded_liesIn_iff (h : s.StartsAt files file start) (hrelative : file.isAbsolute = false)
    (hup : ['.', '.'] ∉ Path.parts file.text.toList) (hhere : s.root.text = "" → .here ∉ file.components) :
    ((∀ n path, (start.after files n).HasLoaded s.sources.size path → s.root.LiesIn path) ↔
      ∀ n directory requested text, (start.after files n).Loads files directory requested text →
        ∃ names : List (List Char), (Path.parts requested.toList).foldl Path.Component.follow directory.components =
          s.root.components ++ names.map .name) ∧
    ((∃ name, .name name ∈ file.components) →
      (∀ n directory requested text, (start.after files n).Loads files directory requested text →
        Path.staysBelow (directory.components.length - s.root.components.length)
          (Path.parts requested.toList) = true) →
      ∀ n path, (start.after files n).HasLoaded s.sources.size path → s.root.LiesIn path) := by
  obtain ⟨names, hroot, hname⟩ := Path.components_join_of_relative hrelative hup hhere
  refine ⟨⟨fun hall n directory requested text hloads => ?_, fun hall n path hloaded => ?_⟩, ?_⟩
  · obtain ⟨names', hnames'⟩ := hall (n + 1) _ (h.hasLoaded_of_loads hloads)
    exact ⟨names', by rw [← Path.components_resolve, hnames']⟩
  · rcases h.cases_loaded hloaded with rfl | ⟨m, -, directory, requested, text, hloads, rfl⟩
    · exact ⟨names, hroot⟩
    · obtain ⟨names', hnames'⟩ := hall m directory requested text hloads
      exact ⟨names', by rw [Path.components_resolve, hnames']⟩
  · rintro ⟨name, hmem⟩ hstays n path hloaded
    have hne : names ≠ [] := List.ne_nil_of_mem (hname name hmem)
    obtain ⟨names', -, hcomponents⟩ := h.exists_names_of_loaded hroot hne hstays hloaded
    exact ⟨names', hcomponents⟩

/-- A file that is included from a directory below the root, and includes one of the root in turn. -/
private def inside : FileSystem := fun path =>
  if path = ⟨"conf/app.conf"⟩ then .ok "include '/sub/./x.conf';"
  else if path = ⟨"conf/sub/x.conf"⟩ then .ok "include '..//y.conf';"
  else if path = ⟨"conf/y.conf"⟩ then .ok ""
  else .error .notFound

/-- What a stop asks for, and from which directory. -/
private def demanded : Stop → Option (Path × String)
  | .load path t _ => t.openFile?.map fun file => (file.directory, path.value)
  | _ => none

private theorem demanded_of_loads {stop : Stop} {directory : Path} {requested text : String}
    (h : stop.Loads files directory requested text) : demanded stop = some (directory, requested) := by
  cases h with
  | load hfiles => simp [demanded, openFile?, hfiles]

/-- Slashes and dots do not lead out, nor does `..` below the root. -/
theorem loaded_liesIn_of_inside :
    let start := (new ⟨"conf"⟩).startFile inside ⟨"app.conf"⟩
    (start.after inside 2).HasLoaded 0 ⟨"conf/y.conf"⟩ ∧
      ∀ n path, (start.after inside n).HasLoaded 0 path → (Path.mk "conf").LiesIn path := by
  intro start
  have loaded : ((start.after inside 2).outcome.session.sources.get? 2).map Source.path = some ⟨"conf/y.conf"⟩ := by
    decide +kernel
  obtain ⟨source, hsource, hpath⟩ := Option.map_eq_some_iff.1 loaded
  refine ⟨⟨2, source, Nat.zero_le _, hsource, hpath⟩, ?_⟩
  have hname : Path.Component.name "app.conf".toList ∈ (Path.mk "app.conf").components := by decide +kernel
  refine (StartsAt.loaded_liesIn_iff (s := new ⟨"conf"⟩) .file (by decide +kernel) (by decide +kernel)
    (by simp [new])).2 ⟨_, hname⟩ fun n directory requested text hloads => ?_
  have hdemanded := demanded_of_loads hloads
  match n with
  | 0 =>
    have : demanded (start.after inside 0) = some (⟨"conf"⟩, "/sub/./x.conf") := by decide +kernel
    obtain ⟨rfl, rfl⟩ := Prod.mk.inj (Option.some.inj (hdemanded.symm.trans this))
    decide +kernel
  | 1 =>
    have : demanded (start.after inside 1) = some (⟨"conf/sub"⟩, "..//y.conf") := by decide +kernel
    obtain ⟨rfl, rfl⟩ := Prod.mk.inj (Option.some.inj (hdemanded.symm.trans this))
    decide +kernel
  | n + 2 =>
    -- the parse has come to its result
    have hok : (start.after inside 2).outcome.isOk = true := by decide +kernel
    have hresult : ¬ (start.after inside 2).IsLoad := fun hload => by
      cases hstop : start.after inside 2 with
      | load path t p => simp [hstop, Stop.outcome, Except.isOk, Except.toBool] at hok
      | _ => simp [hstop, Stop.IsLoad] at hload
    rw [Stop.after_of_not_isLoad hresult (Nat.le_add_left 2 n)] at hloads
    generalize start.after inside 2 = stop at hloads hresult
    cases hloads
    exact absurd trivial hresult

private def outside : FileSystem := fun path =>
  if path = ⟨"conf/app.conf"⟩ then .ok "include '../x.conf';"
  else if path = ⟨"x.conf"⟩ then .ok ""
  else .error .notFound

/-- A request with more `..` than there are directories below the root leads out of it. -/
theorem not_loaded_liesIn : ¬ ∀ (s : Session) (files : FileSystem) (file : Path) (start : Stop),
    s.StartsAt files file start → file.isAbsolute = false → ['.', '.'] ∉ Path.parts file.text.toList →
      ∀ n path, (start.after files n).HasLoaded s.sources.size path → s.root.LiesIn path := by
  intro h
  have loaded : ((((new ⟨"conf"⟩).startFile outside ⟨"app.conf"⟩).after outside 1).outcome.session.sources.get? 1).map
      Source.path = some ⟨"x.conf"⟩ := by
    decide +kernel
  obtain ⟨source, hsource, hpath⟩ := Option.map_eq_some_iff.1 loaded
  obtain ⟨names, hcomponents⟩ := h (new ⟨"conf"⟩) outside ⟨"app.conf"⟩ _ .file (by decide +kernel) (by decide +kernel) 1
    ⟨"x.conf"⟩ ⟨1, source, Nat.zero_le _, hsource, hpath⟩
  have hroot : (new ⟨"conf"⟩).root.components = [.name "conf".toList] := by decide +kernel
  have hfile : (Path.mk "x.conf").components = [.name "x.conf".toList] := by decide +kernel
  rw [hroot, hfile] at hcomponents
  simp at hcomponents

end Session

end BundleConf
