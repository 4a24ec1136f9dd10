import BundleConf.Files.Tree
import BundleConf.Proofs.Include.Likeness

/-!
# Comments and layout do not matter

Two parses of files that have the same tokens, comments apart, go through alike sessions with the same parser, up to
places, and include the same files (`feed_alike`, `Stop.Alike.next`).  So they have the same result, up to places
(`Session.parseFileWithin_layout`).  This is so in two file trees with the same entries, if the texts of their files
have the same tokens (`FileTree.EntriesAlike.lookup`).
-/

namespace BundleConf

/-! ### File trees -/

/-- Files with alike contents, or directories. -/
inductive FileEntry.Alike : FileEntry → FileEntry → Prop
  | file {content content' : Lookup} (h : content.Alike content') : Alike (.file content) (.file content')
  | directory : Alike .directory .directory

namespace FileTree

/-- Entries under the same names, the files among them with alike contents. -/
inductive EntriesAlike : List (List (List Char) × FileEntry) → List (List (List Char) × FileEntry) → Prop
  | nil : EntriesAlike [] []
  | cons {entry entry' : FileEntry} {entries entries' : List (List (List Char) × FileEntry)} (names : List (List Char))
    (hentry : entry.Alike entry') (rest : EntriesAlike entries entries') :
    EntriesAlike ((names, entry) :: entries) ((names, entry') :: entries')

variable {t t' : FileTree}

private theorem EntriesAlike.any_eq {entries entries' : List (List (List Char) × FileEntry)}
    (h : EntriesAlike entries entries') (p : List (List Char) → Bool) :
    entries.any (fun entry => p entry.1) = entries'.any (fun entry => p entry.1) := by
  induction h with
  | nil => rfl
  | cons names _ _ ih => rw [List.any_cons, List.any_cons, ih]

private theorem EntriesAlike.find? {entries entries' : List (List (List Char) × FileEntry)}
    (h : EntriesAlike entries entries') (names : List (List Char)) :
    (entries.find? (·.1 == names) = none ∧ entries'.find? (·.1 == names) = none) ∨
    ∃ entry entry', entry.Alike entry' ∧ entries.find? (·.1 == names) = some (names, entry) ∧
      entries'.find? (·.1 == names) = some (names, entry') := by
  induction h with
  | nil => exact .inl ⟨rfl, rfl⟩
  | @cons entry entry' _ _ names' hentry _ ih =>
    by_cases hnames : names' = names
    · subst hnames
      exact .inr ⟨entry, entry', hentry, by simp, by simp⟩
    · rw [List.find?_cons_of_neg (by simpa using hnames), List.find?_cons_of_neg (by simpa using hnames)]
      exact ih

/-- Alike trees have alike entries everywhere. -/
private theorem EntriesAlike.find?_tree (h : EntriesAlike t.entries t'.entries) (names : List (List Char)) :
    (t.find? names = none ∧ t'.find? names = none) ∨
    ∃ entry entry', entry.Alike entry' ∧ t.find? names = some entry ∧ t'.find? names = some entry' := by
  rw [FileTree.find?, FileTree.find?]
  rcases h.find? names with ⟨hnone, hnone'⟩ | ⟨entry, entry', hentry, hsome, hsome'⟩
  · rw [hnone, hnone', h.any_eq fun entry => names.isPrefixOf entry]
    dsimp only
    split
    · exact .inr ⟨_, _, .directory, rfl, rfl⟩
    · exact .inl ⟨rfl, rfl⟩
  · rw [hsome, hsome']
    exact .inr ⟨entry, entry', hentry, rfl, rfl⟩

private theorem EntriesAlike.follow_eq (h : EntriesAlike t.entries t'.entries) : t.follow = t'.follow := by
  funext names part
  have isSome_eq : (t.find? (names ++ [part])).isSome = (t'.find? (names ++ [part])).isSome := by
    rcases h.find?_tree (names ++ [part]) with ⟨hnone, hnone'⟩ | ⟨_, _, -, hsome, hsome'⟩
    · rw [hnone, hnone']
    · rw [hsome, hsome']
      rfl
  rw [follow, follow]
  rcases h.find?_tree names with ⟨hnone, hnone'⟩ | ⟨_, _, hentry, hsome, hsome'⟩
  · rw [hnone, hnone']
  · rw [hsome, hsome']
    cases hentry with
    | file => rfl
    | directory =>
      dsimp only
      rw [isSome_eq]

/-- In alike trees every path leads to alike files. -/
theorem EntriesAlike.lookup (h : EntriesAlike t.entries t'.entries) (directory : List (List Char)) (path : Path) :
    (t.lookup directory path).Alike (t'.lookup directory path) := by
  rw [FileTree.lookup, FileTree.lookup, h.follow_eq]
  split
  · exact .error _
  · dsimp only
    split
    · exact .error _
    · rename_i names _
      rcases h.find?_tree names with ⟨hnone, hnone'⟩ | ⟨_, _, hentry, hsome, hsome'⟩
      · rw [hnone, hnone']
        exact .error _
      · rw [hsome, hsome']
        cases hentry with
        | file hcontent => exact hcontent
        | directory => exact .error _

end FileTree

/-! ### Stops -/

/-- The parses have stopped in the same way, with the same parser up to places. -/
inductive Stop.Alike : Stop → Stop → Prop
  | finished (app : App) {s s' : Session} (h : s.RecordAlike s') : Alike (.finished app s) (.finished app s')
  | failed {failure failure' : Failure} (h : failure.Alike failure') : Alike (.failed failure) (.failed failure')
  | load {path path' : Located String} {s s' : Session} {p p' : Parser}
    (hpath : path.relocate Span.blur = path'.relocate Span.blur) (hs : s.Alike s')
    (hp : p.relocate Span.blur = p'.relocate Span.blur) : Alike (.load path s p) (.load path' s' p')

theorem feed_alike {s s' : Session} (hs : s.Alike s') {p p' : Parser}
    (hp : p.relocate Span.blur = p'.relocate Span.blur) : Stop.Alike (feed s p) (feed s' p') := by
  -- by induction on how much is left to read in the first session, one token after the other
  induction hn : s.unread using Nat.strongRecOn generalizing s s' p p' with
  | ind n ih =>
    have hmachine : (s.machine p).relocate Span.blur = (s'.machine p').relocate Span.blur := by
      rw [Machine.relocate, Machine.relocate, show (s.machine p).parser = p from rfl,
        show (s'.machine p').parser = p' from rfl, hp]
      exact congrArg (Machine.mk · _) hs.record.generated
    have hlook := hs.lookahead
    obtain ⟨hvalue, hspan⟩ := Located.mk.inj hlook
    have hnamed := Machine.generated_named_eq hmachine s.lookahead.value
    have hstep := Machine.sameStep hmachine hlook
    have hopen := Session.files_ne_nil_of_step (s := s) (p := p)
    rw [feed_eq s, feed_eq s', ← hvalue, ← hnamed]
    generalize (s.machine p).step s.lookahead = result at hstep hopen ⊢
    generalize (s'.machine p').step s'.lookahead = result' at hstep ⊢
    cases hstep with
    | finished app => exact .finished app hs.record
    | load hpath => exact .load hpath hs hp
    | refused expected =>
      refine .failed ⟨?_, (hs.draw _).record⟩
      exact congrArg (ParseError.unexpected _ _) (hs.record.location hspan)
    | conflict hcause =>
      have hfiles : s.files ≠ [] := hopen (.inr ⟨_, rfl⟩)
      obtain ⟨s₁, s₁', hproceed, hproceed', halike⟩ :=
        (hs.draw ((s.machine p).named s.lookahead.value).generated).proceed hfiles
      obtain ⟨hconflict, hspan⟩ := Located.mk.inj hcause
      dsimp only
      rw [hproceed, hproceed']
      refine .failed ⟨?_, halike.record⟩
      rw [ParseError.mapLocation, ParseError.mapLocation, hconflict, halike.record.location hspan]
    | @ok m m' hm =>
      have hfiles : s.files ≠ [] := hopen (.inl ⟨m, rfl⟩)
      obtain ⟨hgenerated, hparser⟩ := Machine.mk.inj hm
      obtain ⟨s₁, s₁', hproceed, hproceed', halike⟩ := (hs.draw m.generated).proceed hfiles
      let drawn : Session := { s with generated := m.generated }
      have hlt : s₁.unread < drawn.unread := Session.unread_proceed_lt hproceed hfiles
      dsimp only
      rw [← hgenerated, hproceed, hproceed']
      exact ih _ (hn ▸ hlt) halike hparser rfl

namespace Stop.Alike

variable {stop stop' : Stop} {files files' : FileSystem}

theorem next (h : Stop.Alike stop stop') (hfiles : ∀ path, (files path).Alike (files' path)) :
    Stop.Alike (stop.next files) (stop'.next files') := by
  cases h with
  | finished app h => exact .finished app h
  | failed h => exact .failed h
  | @load path path' s s' p p' hpath hs hp =>
    have hvalue : path.value = path'.value := (Located.mk.inj hpath).1
    have hloaded := hs.loadFile hpath (hfiles (s.includePath path.value))
    rw [Stop.next, Stop.next, ← hvalue, ← hs.includePath_eq]
    generalize s.loadFile path _ = loaded at hloaded ⊢
    generalize s'.loadFile path' _ = loaded' at hloaded ⊢
    cases hloaded with
    | ok halike =>
      refine feed_alike halike ?_
      exact congrArg (Parser.mk · _) (Parser.mk.inj hp).1
    | error h => exact .failed h

theorem after (h : Stop.Alike stop stop') (hfiles : ∀ path, (files path).Alike (files' path)) (n : Nat) :
    Stop.Alike (stop.after files n) (stop'.after files' n) := by
  induction n generalizing stop stop' with
  | zero => exact h
  | succ n ih => exact ih (h.next hfiles)

end Stop.Alike

/-! ### Results -/

/-- The parses yield the same application, or the same error up to places, and load files of the same paths in the same
order; as many names have been generated. -/
structure Parsed.Alike (x x' : Parsed) : Prop where
  answer : x.answer.mapError (ParseError.mapLocation Location.blur) =
    x'.answer.mapError (ParseError.mapLocation Location.blur)
  paths : x.session.sources.paths = x'.session.sources.paths
  generated : x.session.generated = x'.session.generated

theorem Stop.Alike.outcome {stop stop' : Stop} (h : Stop.Alike stop stop') : stop.outcome.Alike stop'.outcome := by
  cases h with
  | finished app h => exact ⟨rfl, h.paths, h.generated⟩
  | failed h => exact ⟨congrArg Except.error h.error, h.record.paths, h.record.generated⟩
  | load hpath hs hp =>
    have location := hs.record.location (Located.mk.inj hpath).2
    refine ⟨?_, hs.record.paths, hs.record.generated⟩
    exact congrArg (fun l => Except.error (ParseError.tooManyIncludes l)) location

namespace Session

private theorem startFile_alike (s : Session) {files files' : FileSystem}
    (hfiles : ∀ path, (files path).Alike (files' path)) (file : Path) :
    Stop.Alike (s.startFile files file) (s.startFile files' file) := by
  have hfound := hfiles (s.rootPath file)
  rw [startFile, startFile]
  generalize files (s.rootPath file) = found at hfound ⊢
  generalize files' (s.rootPath file) = found' at hfound ⊢
  cases hfound with
  | error cause => exact .failed ⟨rfl, ⟨rfl, rfl, rfl⟩⟩
  | @text text text' htext =>
    let closed : Session := { s with files := [], suspended := [] }
    have record : closed.RecordAlike closed := ⟨rfl, rfl, rfl⟩
    obtain ⟨s₁, s₁', hs₁, hs₁', halike⟩ := record.enter (.nil _ _) (s.rootPath file) htext
    have hopen : (s.openText file text).bind skipComments = .ok s₁ := hs₁
    have hopen' : (s.openText file text').bind skipComments = .ok s₁' := hs₁'
    dsimp only
    rw [startText, startText, hopen, hopen']
    exact feed_alike halike rfl

/-- Parses of one file in file systems with the same files, up to comments and layout, have the same result, up to
places. -/
theorem parseFileWithin_layout (s : Session) {files files' : FileSystem}
    (hfiles : ∀ path, (files path).Alike (files' path)) (budget : Nat) (file : Path) :
    Parsed.Alike ((s.parseFileWithin budget file).run files) ((s.parseFileWithin budget file).run files') := by
  rw [run_parseFileWithin, run_parseFileWithin]
  exact ((s.startFile_alike hfiles file).after hfiles budget).outcome

/-- A file that includes another. -/
private def plain : FileTree :=
  ⟨[(["app.conf".toList], .file (.ok (withBraces "package () include 'sub.conf'; ui ()"))),
    (["sub.conf".toList], .file (.ok "middleware 'm';"))]⟩

/-- The same files, with comments before the first token, around the include and inside it, and before the ends. -/
private def commented : FileTree :=
  ⟨[(["app.conf".toList],
      .file (.ok (withBraces "// a\npackage // b\n( ) include // c\n'sub.conf' // d\n;// e\nui()// f"))),
    (["sub.conf".toList], .file (.ok "middleware\n'm' // g\n; // h"))]⟩

private theorem sameTokens_of_toOption {text text' : String}
    (h : (lex text).toOption.map (fun ts => (meaningful ts).map Located.value) =
      (lex text').toOption.map (fun ts => (meaningful ts).map Located.value))
    (hlexed : (lex text).toOption.isSome = true) : SameTokens text text' := by
  obtain ⟨ts, hts⟩ := Option.isSome_iff_exists.1 hlexed
  rw [hts] at h
  obtain ⟨ts', hts', hvalues⟩ := Option.map_eq_some_iff.1 h.symm
  cases hlex : lex text with
  | error e => simp [hlex, Except.toOption] at hts
  | ok us =>
    cases hlex' : lex text' with
    | error e => simp [hlex', Except.toOption] at hts'
    | ok us' =>
      obtain rfl : us = ts := by simpa [hlex, Except.toOption] using hts
      obtain rfl : us' = ts' := by simpa [hlex', Except.toOption] using hts'
      exact ⟨us, us', hlex, hlex', hvalues.symm⟩

/-- What is parsed from files without comments is parsed from the same files with comments. -/
theorem parseFileWithin_layout_comments : ∃ app s s',
    ((new ⟨"."⟩).parseFileWithin 1 ⟨"app.conf"⟩).run (plain.lookup []) = .ok (app, s) ∧
    ((new ⟨"."⟩).parseFileWithin 1 ⟨"app.conf"⟩).run (commented.lookup []) = .ok (app, s') ∧
    app.packageNames = ["anonymous-0"] ∧ app.middlewares = ["m"] ∧ s'.generated = s.generated ∧
    s'.sources.paths = [⟨"./app.conf"⟩, ⟨"./sub.conf"⟩] := by
  have trees : FileTree.EntriesAlike plain.entries commented.entries :=
    .cons _ (.file (.text (sameTokens_of_toOption (by decide +kernel) (by decide +kernel))))
      (.cons _ (.file (.text (sameTokens_of_toOption (by decide +kernel) (by decide +kernel)))) .nil)
  have halike := (new ⟨"."⟩).parseFileWithin_layout (fun path => trees.lookup [] path) 1 ⟨"app.conf"⟩
  have hparsed : (((new ⟨"."⟩).parseFileWithin 1 ⟨"app.conf"⟩).run (plain.lookup [])).toOption.map
      (fun x => (x.1.packageNames, x.1.middlewares, x.2.sources.paths)) =
    some (["anonymous-0"], ["m"], [⟨"./app.conf"⟩, ⟨"./sub.conf"⟩]) := by
    decide +kernel
  obtain ⟨⟨app, s⟩, hresult, hview⟩ := Option.map_eq_some_iff.1 hparsed
  obtain ⟨hnames, hmiddlewares, hpaths⟩ : _ ∧ _ ∧ _ := by simpa using hview
  have hresult := Outcome.eq_ok_of_toOption hresult
  rw [hresult] at halike
  obtain ⟨hanswer, hloaded, hgenerated⟩ := halike
  cases hcommented : ((new ⟨"."⟩).parseFileWithin 1 ⟨"app.conf"⟩).run (commented.lookup []) with
  | error failure =>
    rw [hcommented] at hanswer
    nomatch hanswer
  | ok result =>
    obtain ⟨app', s'⟩ := result
    rw [hcommented] at hanswer hloaded hgenerated
    obtain rfl : app = app' := Except.ok.inj hanswer
    exact ⟨app, s, s', hresult, rfl, hnames, hmiddlewares, hgenerated.symm, hloaded.symm.trans hpaths⟩

end Session

end BundleConf
