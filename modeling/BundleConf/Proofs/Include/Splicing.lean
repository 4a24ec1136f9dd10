import BundleConf.Proofs.Grammar.Effect
import BundleConf.Proofs.Grammar.Numbering
import BundleConf.Proofs.Include.Loading
import BundleConf.Proofs.Lexing.Printing

/-!
# Includes are spliced in place

If the files of a parse are made of complete declarations and includes then the parse does what it does with the flat
text, in which every include is replaced by the file that it includes.  `Flattens` says which tokens this text has and
which files are loaded for it.

A stretch of a file is `Followed` if the parse does with it, through all files that it loads, what the machine does with
its flat tokens.  Stretches that are followed can be put together (`Followed.append`); a declaration is followed, and so
is an include if the file is that it includes.
-/

namespace BundleConf

/-! ### Flat texts -/

/-- The tokens of the text are those of the items, comments apart. -/
def HasItems (text : String) (items : List Item) : Prop :=
  ∃ ts, lex text = .ok ts ∧ (meaningful ts).map Located.value = items.flatMap Item.tokens ++ [.finish]

theorem hasItems_of_unread {text : String} {items : List Item}
    (hend : (TokenStream.ofSource ⟨.input, text⟩ 0).unread.2 = none)
    (htokens : (meaningful (TokenStream.ofSource ⟨.input, text⟩ 0).unread.1).map Located.value =
      items.flatMap Item.tokens ++ [.finish]) : HasItems text items :=
  ⟨_, lex_eq_ok_iff.2 (Prod.ext rfl hend), htokens⟩

/-- The items of a file in the directory have the flat tokens, and the loaded files are included on the way; at most
`depth` more files are open then. -/
inductive Flattens (root : Path) (files : FileSystem) : Nat → Path → List Item → List Token → List Path → Prop
  | nil (depth : Nat) (directory : Path) : Flattens root files depth directory [] [] []
  | declaration {depth : Nat} {directory : Path} {items : List Item} {flat : List Token} {loaded : List Path}
      (d : Declaration) (rest : Flattens root files depth directory items flat loaded) :
      Flattens root files depth directory (.declaration d :: items) (d.tokens ++ flat) loaded
  | inclusion {depth : Nat} {directory path : Path} {requested text : String} {items included : List Item}
      {flat spliced : List Token} {loaded loaded' : List Path} (hpath : path = directory.resolve requested)
      (hfile : files path = .ok text) (hitems : HasItems text included)
      (file : Flattens root files depth (path.parent?.getD root) included spliced loaded)
      (rest : Flattens root files (depth + 1) directory items flat loaded') :
      Flattens root files (depth + 1) directory (.inclusion requested :: items) (spliced ++ .mark .semicolon :: flat)
        (path :: loaded ++ loaded')

theorem HasItems.isPrintable {text : String} {items : List Item} (h : HasItems text items) :
    ∀ t ∈ items.flatMap Item.tokens, t.IsPrintable ∧ t.isComment = false := by
  obtain ⟨ts, hlex, hts⟩ := h
  let stream := TokenStream.ofSource ⟨.input, text⟩ 0
  have hunread : stream.unread = (ts, none) := lex_eq_ok_iff.1 hlex
  obtain ⟨us, e, hus, he, hne⟩ := stream.exists_unread_eq_concat (by rw [hunread])
  obtain rfl : us ++ [e] = ts := by rw [← hus, hunread]
  have htokens : (meaningful us).map Located.value = items.flatMap Item.tokens := by
    rw [meaningful_concat he, List.map_append] at hts
    exact (List.append_inj' hts rfl).1
  intro t ht
  rw [← htokens] at ht
  obtain ⟨u, hu, rfl⟩ := List.mem_map.1 ht
  obtain ⟨hu, hcomment⟩ := List.mem_filter.1 hu
  have hcomment : u.value.isComment = false := by simpa using hcomment
  have hmem : u ∈ stream.unread.1 := by
    rw [hus]
    exact List.mem_append_left _ hu
  exact ⟨TokenStream.isPrintable_of_unread hmem (hne u hu) hcomment, hcomment⟩

theorem Flattens.isPrintable {root directory : Path} {files : FileSystem} {depth : Nat} {items : List Item}
    {flat : List Token} {loaded : List Path} (h : Flattens root files depth directory items flat loaded)
    (hitems : ∀ t ∈ items.flatMap Item.tokens, t.IsPrintable ∧ t.isComment = false) :
    ∀ t ∈ flat, t.IsPrintable ∧ t.isComment = false := by
  induction h with
  | nil => simp
  | declaration d _ ih =>
    rw [List.flatMap_cons, List.forall_mem_append] at hitems
    exact List.forall_mem_append.2 ⟨hitems.1, ih hitems.2⟩
  | inclusion _ _ htext _ _ ihfile ih =>
    rw [List.flatMap_cons, List.forall_mem_append] at hitems
    refine List.forall_mem_append.2 ⟨ihfile htext.isPrintable, List.forall_mem_cons.2 ⟨⟨trivial, rfl⟩, ?_⟩⟩
    exact ih hitems.2

/-! ### Following the flat tokens -/

/-- Between declarations a machine takes a declaration as a whole, or comes to a conflict. -/
theorem Machine.runTokens_declaration {m : Machine} (hm : m.parser.state = .top) (d : Declaration) :
    (∃ m', m.runTokens d.tokens = .ok m' ∧ m'.parser.state = .top) ∨
      ∃ cause, m.runTokens d.tokens = .error (.conflict cause) := by
  obtain ⟨generated, app, state⟩ := m
  obtain rfl : state = .top := hm
  let l : Ledger := ⟨generated, app.packageNames, app.allRoutes⟩
  obtain ⟨d', htokens, hnumbers⟩ := d.exists_numbers l
  obtain ⟨hok, herror⟩ := (d'.plays _ app 0).runTokens (d'.event_occurrences 0) ⟨rfl, fun _ _ => rfl⟩ hnumbers
  rw [← htokens]
  cases hc : l.conflict? d'.events with
  | none => exact .inl ⟨_, hok hc, rfl⟩
  | some c =>
    obtain ⟨span, hrun⟩ := herror c hc
    exact .inr ⟨_, hrun⟩

/-- The parse does with a stretch of its file what the machine does with the flat tokens: it loads the files and comes
to another place, or it fails with the same conflict. -/
def Followed (files : FileSystem) (s : Session) (p : Parser) (flat : List Token) (loaded : List Path)
    (there : Session → Parser → Prop) : Prop :=
  (∃ s' m, (s.machine p).runTokens flat = .ok m ∧ s'.machine m.parser = m ∧
    (feed s p).after files loaded.length = feed s' m.parser ∧ s'.sources.paths = s.sources.paths ++ loaded ∧
    there s' m.parser) ∨
  ∃ cause location s', (s.machine p).runTokens flat = .error (.conflict cause) ∧
    (feed s p).after files loaded.length = .failed ⟨.conflict cause.value location, s'⟩

namespace Followed

variable {files : FileSystem} {s s' : Session} {p p' : Parser} {flat flat' : List Token} {loaded loaded' : List Path}
  {there there' : Session → Parser → Prop}

theorem mono (h : Followed files s p flat loaded there) (hthere : ∀ s' p', there s' p' → there' s' p') :
    Followed files s p flat loaded there' := by
  rcases h with ⟨s', m, hrun, hmachine, hafter, hpaths, h⟩ | h
  · exact .inl ⟨s', m, hrun, hmachine, hafter, hpaths, hthere _ _ h⟩
  · exact .inr h

theorem append (h : Followed files s p flat loaded there)
    (h' : ∀ s' p', there s' p' → Followed files s' p' flat' loaded' there') :
    Followed files s p (flat ++ flat') (loaded ++ loaded') there' := by
  rcases h with ⟨s', m, hrun, hmachine, hafter, hpaths, hthere⟩ | ⟨cause, location, s', hrun, hafter⟩
  · rw [Followed, Machine.runTokens_append_of_ok hrun, List.length_append, Stop.after_add, hafter, ← List.append_assoc,
      ← hpaths, ← hmachine]
    exact h' s' m.parser hthere
  · refine .inr ⟨cause, location, s', Machine.runTokens_append_of_error hrun _, ?_⟩
    rw [List.length_append, Stop.after_add, hafter, Stop.after_failed]

/-- Loading a file comes before what is done with it. -/
theorem load {path : Path} (hnext : (feed s p).next files = feed s' p') (hmachine : s'.machine p' = s.machine p)
    (hpaths : s'.sources.paths = s.sources.paths ++ [path]) (h : Followed files s' p' flat loaded there) :
    Followed files s p flat (path :: loaded) there := by
  rw [Followed, List.length_cons, Stop.after, hnext, ← hmachine, List.append_cons, ← hpaths]
  exact h

end Followed

/-! ### Declarations and includes -/

/-- The session reads on in the file with the tokens, and the parser is between declarations. -/
structure Stands (root : Path) (file : OpenFile) (below : List OpenFile) (suspended : List (Located Token))
    (ts : List (Located Token)) (s : Session) (p : Parser) : Prop where
  reads : s.Reads file below suspended ts none
  top : p.state = .top
  root : s.root = root

namespace Stands

variable {root : Path} {files : FileSystem} {file : OpenFile} {below : List OpenFile}
  {suspended us ts : List (Located Token)} {t : Located Token} {s : Session} {p : Parser}

/-- A declaration is followed without loading anything. -/
theorem followed_declaration (resumable : Session.Resumable below suspended)
    (h : Stands root file below suspended (us ++ t :: ts) s p) (d : Declaration)
    (hus : us.map Located.value = d.tokens) :
    Followed files s p d.tokens [] (Stands root file below suspended (t :: ts)) := by
  have unplaced : (s.machine p).IsUnplaced := Machine.isUnplaced_of_top h.top
  rcases Machine.runTokens_declaration (m := s.machine p) h.top d with ⟨m, hrun, htop⟩ | ⟨cause, hrun⟩
  · have hus' : (s.machine p).run us = .ok m := Machine.run_of_runTokens unplaced hus hrun htop
    obtain ⟨s', hfeed, hrecord, hreads⟩ := feed_run resumable h.reads hus'
    refine .inl ⟨s', m, hrun, Session.machine_of_generated hrecord.generated, hfeed, ?_, hreads, htop,
      hrecord.root.trans h.root⟩
    rw [hrecord.sources, List.append_nil]
  · obtain ⟨span, hus'⟩ := Machine.run_of_runTokens_conflict unplaced hus hrun
    have hall : (s.machine p).run (us ++ t :: ts) = .error (.conflict ⟨cause.value, span⟩) :=
      Machine.run_append_of_error hus' _
    obtain ⟨s', hfeed⟩ := feed_eq_conflict resumable h.reads hall
    exact .inr ⟨cause, _, s', hrun, hfeed⟩

/-- An include leads to the first token of the included file, which is read on top of the file that includes it. -/
theorem exists_entered {directory path : Path} {requested text : String} {included : List Item} {a b c : Located Token}
    (resumable : Session.Resumable below suspended) (h : Stands root file below suspended (a :: b :: c :: ts) s p)
    (ha : a.value = .keyword .include) (hb : b.value = .value requested) (hc : c.value = .mark .semicolon)
    (hdirectory : file.directory = directory) (hdepth : below.length + 1 < maxDepth)
    (hpath : path = directory.resolve requested) (hfile : files path = .ok text) (hitems : HasItems text included) :
    ∃ (s₁ s₂ : Session) (g : OpenFile) (us : List (Located Token)) (e : Located Token),
      s₁.Reads file below suspended (c :: ts) none ∧ s₁.files.length = below.length + 1 ∧
      s₁.current.value = .mark .semicolon ∧ (feed s p).next files = feed s₂ p ∧ s₂.machine p = s.machine p ∧
      s₂.sources.paths = s.sources.paths ++ [path] ∧ us.map Located.value = included.flatMap Item.tokens ∧
      g.directory = path.parent?.getD root ∧ Stands root g s₁.files (s₁.current :: s₁.suspended) (us ++ [e]) s₂ p := by
  obtain ⟨s₁, hfeed, hrecord, hreads⟩ := feed_path resumable h.reads h.top ha hb
  obtain ⟨hcurrent, -, stream, hfiles⟩ := hreads.current_eq resumable (by rw [hc]; simp)
  have hsemicolon : s₁.current.value = .mark .semicolon := by rw [hcurrent, hc]
  have hlength : s₁.files.length = below.length + 1 := by rw [hfiles, List.length_cons]
  have hload : feed s p = .load ⟨requested, b.span⟩ s₁ { p with state := .includeEnd ⟨requested, b.span⟩ } := by
    rw [hfeed]
    exact feed_includeEnd rfl (by simp [hfiles]) hsemicolon
  have hresolved : s₁.includePath requested = path := by
    rw [Session.includePath, hfiles, hpath, ← hdirectory]
  obtain ⟨ts', hlex, htokens⟩ := hitems
  obtain ⟨hvalues, hend⟩ := TokenStream.unread_of_lex hlex (s₁.includePath requested) s₁.sources.size
  rw [htokens] at hvalues
  obtain ⟨us, es, hus, husvalues, hes⟩ := List.map_eq_append_iff.1 hvalues
  obtain ⟨e, rfl, -⟩ := List.map_eq_singleton_iff.1 hes
  have hdepth : s₁.depth < maxDepth := by rwa [Session.depth, hlength]
  obtain ⟨s₂, g, hloaded, hroot, hgenerated, hsources, hg, hreads₂⟩ :=
    @Session.loadFile_text s₁ ⟨requested, b.span⟩ text _ hdepth hsemicolon rfl hend
  have hroot₁ : s₁.root = root := hrecord.root.trans h.root
  have htop : p = { p with state := .top } := by rw [← h.top]
  rw [hus] at hreads₂
  refine ⟨s₁, s₂, g, us, e, hreads, hlength, hsemicolon, ?_, ?_, ?_, husvalues, ?_, hreads₂, h.top, ?_⟩
  · rw [hload, Stop.next, hresolved, hfile, hloaded]
    dsimp only
    rw [← htop]
  · rw [Session.machine, Session.machine, hgenerated, hrecord.generated]
  · rw [hsources, hresolved, hrecord.sources]
    simp [SourceTable.paths, SourceTable.add]
  · rw [hg, hresolved, Session.directoryOf, hroot₁]
  · rw [hroot, hroot₁]

end Stands

/-- Items are followed through all files that they include. -/
theorem Flattens.followed {root directory : Path} {files : FileSystem} {depth : Nat} {items : List Item}
    {flat : List Token} {loaded : List Path} (h : Flattens root files depth directory items flat loaded)
    {file : OpenFile} {below : List OpenFile} {suspended us ts : List (Located Token)} {t : Located Token} {s : Session}
    {p : Parser} (resumable : Session.Resumable below suspended)
    (stands : Stands root file below suspended (us ++ t :: ts) s p)
    (hus : us.map Located.value = items.flatMap Item.tokens) (hdirectory : file.directory = directory)
    (hdepth : below.length + 1 + depth ≤ maxDepth) :
    Followed files s p flat loaded (Stands root file below suspended (t :: ts)) := by
  induction h generalizing file below suspended us ts t s p with
  | nil =>
    obtain rfl : us = [] := List.map_eq_nil_iff.1 hus
    exact .inl ⟨s, s.machine p, rfl, rfl, rfl, (List.append_nil _).symm, stands⟩
  | declaration d _ ih =>
    obtain ⟨vs, us, rfl, hvs, hus⟩ := List.map_eq_append_iff.1 hus
    obtain ⟨u, rest, hrest⟩ := List.exists_cons_of_ne_nil (show us ++ t :: ts ≠ [] by simp)
    rw [List.append_assoc, hrest] at stands
    refine (stands.followed_declaration resumable d hvs).append fun s' p' stands' => ?_
    rw [← hrest] at stands'
    exact ih resumable stands' hus hdirectory hdepth
  | @inclusion depth directory path requested text items included flat spliced loaded loaded' hpath hfile hitems file' _
      ihfile ih =>
    obtain ⟨a, us, rfl, ha, hus⟩ := List.map_eq_cons_iff.1 hus
    obtain ⟨b, us, rfl, hb, hus⟩ := List.map_eq_cons_iff.1 hus
    obtain ⟨c, us, rfl, hc, hus⟩ := List.map_eq_cons_iff.1 hus
    obtain ⟨s₁, s₂, g, vs, e, hreads, hlength, hsemicolon, hnext, hmachine, hpaths, hvs, hg, stands₂⟩ :=
      stands.exists_entered resumable ha hb hc hdirectory (by omega) hpath hfile hitems
    have hopen : s₁.files ≠ [] := List.ne_nil_of_length_pos (by omega)
    have hspliced : Followed files s p spliced (path :: loaded)
        (Stands root file below suspended (c :: (us ++ t :: ts))) := by
      refine .load hnext hmachine hpaths ?_
      refine (ihfile (Session.resumable_of_semicolon hsemicolon) stands₂ hvs hg (by omega)).mono ?_
      -- at the end of the included file the semicolon is current again
      intro s₃ p₃ stands₃
      have hback : s₃.cursor = s₁.cursor := stands₃.reads.cursor_of_included hopen hsemicolon
      exact ⟨hreads.of_cursor hback, stands₃.top, stands₃.root⟩
    obtain ⟨u, rest, hrest⟩ := List.exists_cons_of_ne_nil (show us ++ t :: ts ≠ [] by simp)
    -- the semicolon stays in the flat text, as a declaration of its own
    change Followed files s p (spliced ++ ([.mark .semicolon] ++ flat)) (path :: loaded ++ ([] ++ loaded')) _
    refine hspliced.append fun s₃ p₃ stands₃ => ?_
    rw [hrest] at stands₃
    have stands₃ : Stands root file below suspended ([c] ++ u :: rest) s₃ p₃ := stands₃
    have hstray : [c].map Located.value = Declaration.stray.tokens := by rw [List.map_singleton, hc]; rfl
    refine (stands₃.followed_declaration resumable .stray hstray).append fun s₄ p₄ stands₄ => ?_
    rw [← hrest] at stands₄
    exact ih resumable stands₄ hus hdirectory hdepth

/-! ### Parsing the flat text -/

/-- The text of the flat tokens is parsed as the machine goes through them. -/
private theorem run_parseText_print {flat : List Token} (hflat : ∀ t ∈ flat, t.IsPrintable ∧ t.isComment = false)
    (files : FileSystem) :
    (∀ m, (Machine.start 0).runTokens flat = .ok m → m.parser.state = .top →
      ∃ s, (parseText (Token.print flat)).run files = .ok (m.parser.app, s)) ∧
    ∀ cause, (Machine.start 0).runTokens flat = .error (.conflict cause) →
      ∃ location s, (parseText (Token.print flat)).run files = .error ⟨.conflict cause.value location, s⟩ := by
  let here := Session.new ⟨"."⟩
  let stream := TokenStream.ofSource ⟨here.rootPath .input, Token.print flat⟩ 0
  have hstream : stream = .ofSource ⟨here.rootPath .input, Token.print flat⟩ here.sources.size := rfl
  obtain ⟨ts, hlex, hts⟩ := lex_print hflat
  obtain ⟨hvalues, hend⟩ := TokenStream.unread_of_lex hlex (here.rootPath .input) 0
  have htokens : (meaningful stream.unread.1).map Located.value = flat ++ [.finish] := hvalues.trans hts
  have unplaced : (Machine.start 0).IsUnplaced := Machine.isUnplaced_of_top rfl
  constructor
  · intro m hrun htop
    have hfinish : m.runTokens [.finish] = .error (.finished m.parser.app) :=
      Machine.run_cons_of_error (Machine.step_finish_of_top htop rfl) []
    have hall : (Machine.start 0).runTokens (flat ++ [.finish]) = .error (.finished m.parser.app) := by
      rw [Machine.runTokens_append_of_ok hrun, hfinish]
    obtain ⟨s, hs, -⟩ := Session.run_parseTextWithin_finished files maxIncludes hstream
      (Machine.run_of_runTokens_finished unplaced htokens hall)
    exact ⟨s, hs⟩
  · intro cause hrun
    have hall := Machine.runTokens_append_of_error hrun [.finish]
    obtain ⟨span, hconflict⟩ := Machine.run_of_runTokens_conflict unplaced htokens hall
    obtain ⟨location, s, hs, -⟩ := Session.run_parseTextWithin_conflict files maxIncludes hstream hconflict hend
    exact ⟨location, s, hs⟩

/-- A root file of declarations and includes is parsed like the text of its flat tokens, and the included files are
loaded in the order of the includes. -/
theorem run_parseFileWithin_flat {root file : Path} {files : FileSystem} {text : String} {items : List Item}
    {flat : List Token} {loaded : List Path} (hfile : files (root.join file) = .ok text) (hitems : HasItems text items)
    (hflat : Flattens root files (maxDepth - 1) ((root.join file).parent?.getD root) items flat loaded) {budget : Nat}
    (hbudget : loaded.length ≤ budget) (elsewhere : FileSystem) :
    (∃ app s s', ((Session.new root).parseFileWithin budget file).run files = .ok (app, s) ∧
      s.sources.paths = root.join file :: loaded ∧
      (parseText (Token.print flat)).run elsewhere = .ok (app, s')) ∨
    ∃ cause location location' s s',
      ((Session.new root).parseFileWithin budget file).run files = .error ⟨.conflict cause location, s⟩ ∧
      (parseText (Token.print flat)).run elsewhere = .error ⟨.conflict cause location', s'⟩ := by
  let fresh := Session.new root
  let stream := TokenStream.ofSource ⟨fresh.rootPath file, text⟩ 0
  have hstream : stream = .ofSource ⟨fresh.rootPath file, text⟩ fresh.sources.size := rfl
  have hfile : files (fresh.rootPath file) = .ok text := hfile
  obtain ⟨hfinished, hconflict⟩ := run_parseText_print (hflat.isPrintable hitems.isPrintable) elsewhere
  obtain ⟨ts, hlex, hts⟩ := hitems
  obtain ⟨hvalues, hend⟩ := TokenStream.unread_of_lex hlex (fresh.rootPath file) 0
  obtain ⟨us, es, hus, husvalues, hes⟩ := List.map_eq_append_iff.1 (hvalues.trans hts)
  obtain ⟨e, rfl, he⟩ := List.map_eq_singleton_iff.1 hes
  rcases Session.openText_skipComments hstream with
    ⟨s, hopen, hmachine, hroot, hsources, hreads⟩ | ⟨_, _, -, hnil, -⟩
  · rw [hend, hus] at hreads
    have hstart : fresh.startFile files file = feed s .start := by
      rw [Session.startFile, hfile]
      dsimp only
      rw [Session.startText, hopen]
    have hdirectory : fresh.directoryOf (fresh.rootPath file) = (root.join file).parent?.getD root := by
      unfold Session.directoryOf Session.rootPath
      rfl
    generalize hg : OpenFile.mk (fresh.directoryOf (fresh.rootPath file)) (fresh.rootPath file) stream = g at hreads
    have hdirectory : g.directory = (root.join file).parent?.getD root := by
      rw [← hdirectory, ← hg]
    have stands : Stands root g [] [] (us ++ [e]) s .start := ⟨hreads, rfl, hroot⟩
    have followed := hflat.followed (.inl rfl) stands husvalues hdirectory (by simp [maxDepth])
    rw [Session.run_parseFileWithin, hstart]
    rw [Followed, hmachine] at followed
    rcases followed with ⟨s', m, hrun, hm, hafter, hpaths, stands'⟩ | ⟨cause, location, s', hrun, hafter⟩
    · have hlook : s'.lookahead = e := stands'.reads.lookahead_eq (.inl rfl) (.inr rfl)
      have hstop : feed s' m.parser = .finished m.parser.app s' :=
        feed_finished hlook (hm.symm ▸ Machine.step_finish_of_top stands'.top he)
      obtain ⟨s'', hs''⟩ := hfinished m hrun stands'.top
      -- the parse is finished after the includes, and a larger budget does not matter
      refine .inl ⟨m.parser.app, s', s'', ?_, ?_, hs''⟩
      · rw [← Nat.add_sub_cancel' hbudget, Stop.after_add, hafter, hstop, Stop.after_finished]
        rfl
      · rw [hpaths, hsources]
        rfl
    · obtain ⟨location', s'', hs''⟩ := hconflict cause hrun
      refine .inr ⟨cause.value, location, location', s', s'', ?_, hs''⟩
      rw [← Nat.add_sub_cancel' hbudget, Stop.after_add, hafter, Stop.after_failed]
      rfl
  · rw [hus] at hnil
    simp at hnil

/-- A file that is included twice, and includes a file without tokens. -/
private def diamond : FileSystem := fun path =>
  if path = ⟨"./app.conf"⟩ then .ok "include 'sub/x.conf'; middleware 'last'; include 'sub/x.conf';"
  else if path = ⟨"./sub/x.conf"⟩ then .ok (withBraces "package ( ) include 'y.conf';")
  else if path = ⟨"./sub/y.conf"⟩ then .ok "//"
  else .error .notFound

private theorem hasItems_diamond : HasItems "//" [] ∧
    HasItems (withBraces "package ( ) include 'y.conf';")
      [.declaration (.package (.generated 0) .done), .inclusion "y.conf"] ∧
    HasItems "include 'sub/x.conf'; middleware 'last'; include 'sub/x.conf';"
      [.inclusion "sub/x.conf", .declaration (.middleware "last"), .inclusion "sub/x.conf"] := by
  refine ⟨hasItems_of_unread ?_ ?_, hasItems_of_unread ?_ ?_, hasItems_of_unread ?_ ?_⟩ <;> decide +kernel

private theorem flattens_diamond : Flattens ⟨"."⟩ diamond (maxDepth - 1) ⟨"."⟩
    [.inclusion "sub/x.conf", .declaration (.middleware "last"), .inclusion "sub/x.conf"]
    [.keyword .package, .mark .leftBrace, .mark .rightBrace, .mark .semicolon, .mark .semicolon, .keyword .middleware,
      .value "last", .mark .semicolon, .keyword .package, .mark .leftBrace, .mark .rightBrace, .mark .semicolon,
      .mark .semicolon]
    [⟨"./sub/x.conf"⟩, ⟨"./sub/y.conf"⟩, ⟨"./sub/x.conf"⟩, ⟨"./sub/y.conf"⟩] := by
  obtain ⟨hempty, hpackage, -⟩ := hasItems_diamond
  have hpath : (⟨"./sub/x.conf"⟩ : Path) = Path.resolve ⟨"."⟩ "sub/x.conf" := by decide +kernel
  have hpath' : (⟨"./sub/y.conf"⟩ : Path) = Path.resolve ⟨"./sub"⟩ "y.conf" := by decide +kernel
  have hdirectory : (⟨"./sub/x.conf"⟩ : Path).parent?.getD ⟨"."⟩ = ⟨"./sub"⟩ := by decide +kernel
  have hfile : Flattens ⟨"."⟩ diamond 62 ((⟨"./sub/x.conf"⟩ : Path).parent?.getD ⟨"."⟩)
      [.declaration (.package (.generated 0) .done), .inclusion "y.conf"]
      [.keyword .package, .mark .leftBrace, .mark .rightBrace, .mark .semicolon] [⟨"./sub/y.conf"⟩] := by
    rw [hdirectory]
    exact .declaration _ (.inclusion hpath' (by simp [diamond]) hempty (.nil 61 _) (.nil 62 _))
  exact .inclusion hpath (by simp [diamond]) hpackage hfile (.declaration (.middleware "last")
    (.inclusion hpath (by simp [diamond]) hpackage hfile (.nil 63 _)))

theorem run_parseFileWithin_diamond : ∃ app s s',
    ((Session.new ⟨"."⟩).parseFileWithin 4 ⟨"app.conf"⟩).run diamond = .ok (app, s) ∧
    s.sources.paths = [⟨"./app.conf"⟩, ⟨"./sub/x.conf"⟩, ⟨"./sub/y.conf"⟩, ⟨"./sub/x.conf"⟩, ⟨"./sub/y.conf"⟩] ∧
    (parseText (withBraces "package ( ) ; ; middleware 'last' ; package ( ) ; ; ")).run diamond = .ok (app, s') := by
  have hjoin : (⟨"."⟩ : Path).join ⟨"app.conf"⟩ = ⟨"./app.conf"⟩ := by decide +kernel
  have hdirectory : (⟨"./app.conf"⟩ : Path).parent?.getD ⟨"."⟩ = ⟨"."⟩ := by decide +kernel
  have hfile : diamond ((⟨"."⟩ : Path).join ⟨"app.conf"⟩) =
      .ok "include 'sub/x.conf'; middleware 'last'; include 'sub/x.conf';" := by
    simp [hjoin, diamond]
  have haccepted : (((Session.new ⟨"."⟩).parseFileWithin 4 ⟨"app.conf"⟩).run diamond).isOk = true := by
    decide +kernel
  have hprint : Token.print [.keyword .package, .mark .leftBrace, .mark .rightBrace, .mark .semicolon,
      .mark .semicolon, .keyword .middleware, .value "last", .mark .semicolon, .keyword .package, .mark .leftBrace,
      .mark .rightBrace, .mark .semicolon, .mark .semicolon] =
      withBraces "package ( ) ; ; middleware 'last' ; package ( ) ; ; " := by
    decide +kernel
  have hflat := flattens_diamond
  conv at hflat => arg 4; rw [← hdirectory, ← hjoin]
  rcases run_parseFileWithin_flat hfile hasItems_diamond.2.2 hflat (Nat.le_refl 4) diamond with
    ⟨app, s, s', hfile, hpaths, htext⟩ | ⟨cause, location, location', s, s', hfile, -⟩
  · rw [hjoin] at hpaths
    rw [hprint] at htext
    exact ⟨app, s, s', hfile, hpaths, htext⟩
  · simp [hfile, Except.isOk, Except.toBool] at haccepted

end BundleConf
