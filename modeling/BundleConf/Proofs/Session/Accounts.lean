import BundleConf.Proofs.Session.Passing

/-!
# An account of all tokens

A file that is included suspends the current token of another, and several files can be closed at once, but every token
is passed once, and in the order of its file: what has been passed of an open file and what it still delivers make up
its tokens, and of a file that has been closed everything but the end has been passed.  This is `Session.Accounts`, and
no step of a session breaks it (`Session.Passes.accounts`).  So every token that has been passed, or at which a file
stands, is real (`Session.Accounts.holds_passed`, `Session.Accounts.holds_opened`).
-/

namespace BundleConf.Session

/-! ### Closing files -/

/-- The open files that are left stand at the tokens where they stood, and those that are closed stood at their ends. -/
private theorem mem_zip_settleWith {files : List OpenFile} {suspended : List (Located Token)} {current : Located Token}
    (h : Stacked files (current :: suspended)) (x : OpenFile × Located Token) :
    (x ∈ (settleWith files suspended current).1.zip
        ((settleWith files suspended current).2.2 :: (settleWith files suspended current).2.1) →
      x ∈ files.zip (current :: suspended)) ∧
    (x ∈ files.zip (current :: suspended) →
      x ∈ (settleWith files suspended current).1.zip
          ((settleWith files suspended current).2.2 :: (settleWith files suspended current).2.1) ∨
        x.2.value = .finish) := by
  fun_induction settleWith files suspended current with
  | case1 => simp
  | case2 => exact ⟨id, .inl⟩
  | case3 file files suspended current hfinish hnil =>
    obtain rfl : files = [] := by simpa using hnil
    refine ⟨by simp, fun hx => .inr ?_⟩
    obtain rfl : x = (file, current) := by simpa using hx
    simpa using hfinish
  | case4 file files current _ hne =>
    -- a file below stands at no token, so there is none
    cases files with
    | nil => simp at hne
    | cons g files => exact h.2.2.elim
  | case5 file files current hfinish _ t suspended ih =>
    obtain ⟨hback, hforth⟩ := ih h.2.2
    rw [List.zip_cons_cons]
    refine ⟨fun hx => List.mem_cons_of_mem _ (hback hx), fun hx => ?_⟩
    rcases List.mem_cons.1 hx with rfl | hx
    · exact .inr (by simpa using hfinish)
    · exact hforth hx

/-- When all files are closed the end of the lowest one is current. -/
private theorem exists_mem_zip_of_settleWith_eq_nil {files : List OpenFile} {suspended : List (Located Token)}
    {current : Located Token} (h : Stacked files (current :: suspended)) (hfiles : files ≠ [])
    (hnil : (settleWith files suspended current).1 = []) :
    ∃ file, files.getLast? = some file ∧
      (file, (settleWith files suspended current).2.2) ∈ files.zip (current :: suspended) ∧
      (settleWith files suspended current).2.2.value = .finish := by
  fun_induction settleWith files suspended current with
  | case1 => simp at hfiles
  | case2 => simp at hnil
  | case3 file files suspended current hfinish hempty =>
    obtain rfl : files = [] := by simpa using hempty
    exact ⟨file, rfl, by simp, by simpa using hfinish⟩
  | case4 file files current _ hne =>
    cases files with
    | nil => simp at hne
    | cons g files => exact h.2.2.elim
  | case5 file files current hfinish hne t suspended ih =>
    have hbelow : files ≠ [] := by simpa using hne
    obtain ⟨last, hlast, hpair, hvalue⟩ := ih h.2.2 hbelow hnil
    obtain ⟨g, below, rfl⟩ := List.exists_cons_of_ne_nil hbelow
    exact ⟨last, by rwa [List.getLast?_cons_cons], List.mem_cons_of_mem _ hpair, hvalue⟩

/-! ### The account -/

/-- From the source of number `first` on, the tokens of every source are those that have been passed and those that are
still to come.  The open files stand at the tokens `ts`. -/
structure Accounts (first : Nat) (passed : List (Located Token)) (s : Session) (ts : List (Located Token)) : Prop where
  registered : ∀ file ∈ s.files, file.Registered s.root s.sources
  stacked : Stacked s.files ts
  reached : first ≤ s.sources.size
  later : ∀ file ∈ s.files, first ≤ file.stream.number
  /-- The lowest file is the first. -/
  bottom : ∀ file ∈ s.files.getLast?, file.stream.number = first
  /-- When no file is open the end of the first is current. -/
  ended : s.files = [] → ∀ t ∈ ts.head?, t.value = .finish ∧ t.span.source = first ∧ s.sources.Holds t
  known : ∀ t ∈ passed, first ≤ t.span.source ∧ t.span.source < s.sources.size
  opened : ∀ x ∈ s.files.zip ts, Leaves passed x.1.stream.source x.1.stream.number (upcoming x.2 x.1.stream)
  closed : ∀ number source, first ≤ number → s.sources.get? number = some source →
    (∀ file ∈ s.files, file.stream.number ≠ number) → ∃ e, e.value = .finish ∧ Leaves passed source number ([e], none)

namespace Accounts

variable {first : Nat} {passed : List (Located Token)} {s s' : Session}

theorem aligned (h : Accounts first passed s (s.current :: s.suspended)) : s.Aligned :=
  ⟨h.registered, h.stacked⟩

/-- The tokens at which files stand are real. -/
theorem holds_opened {ts : List (Located Token)} (h : Accounts first passed s ts) {x : OpenFile × Located Token}
    (hx : x ∈ s.files.zip ts) : s.sources.Holds x.2 := by
  have hmem : x.2 ∈ (upcoming x.2 x.1.stream).1 := by
    rw [upcoming]
    split <;> simp
  rw [SourceTable.Holds, h.stacked.source_of_mem_zip hx]
  exact ⟨_, (h.registered x.1 (List.of_mem_zip hx).1).source, (h.opened x hx).mem_unread (.inr hmem)⟩

/-- So is the token that a reader sees, and if it is an end it is that of the first file. -/
theorem holds_lookahead (h : Accounts first passed s (s.current :: s.suspended)) (hs : s.Settled) :
    s.sources.Holds s.lookahead ∧ (s.lookahead.value = .finish → s.lookahead.span.source = first) := by
  cases hfiles : s.files with
  | nil =>
    obtain ⟨hfinish, hfirst, hholds⟩ := h.ended hfiles s.current rfl
    have same : s.lookahead = s.current := by
      rw [lookahead, if_pos (by simp [isFinished, hfiles]), ← hfinish]
    rw [same]
    exact ⟨hholds, fun _ => hfirst⟩
  | cons file files =>
    have hopen : s.files ≠ [] := by simp [hfiles]
    rw [current_of_lookahead hopen]
    exact ⟨h.holds_opened (x := (file, s.current)) (by simp [hfiles]), fun hfinish => absurd hfinish (hs hopen)⟩

/-- The tokens that have been passed are real. -/
theorem holds_passed {ts : List (Located Token)} (h : Accounts first passed s ts) {t : Located Token}
    (ht : t ∈ passed) : s.sources.Holds t := by
  obtain ⟨hle, hlt⟩ := h.known t ht
  cases hsource : s.sources.get? t.span.source with
  | none =>
    have := SourceTable.get?_eq_none_iff.1 hsource
    omega
  | some source =>
    refine ⟨source, hsource, ?_⟩
    by_cases hopen : ∃ file ∈ s.files, file.stream.number = t.span.source
    · obtain ⟨file, hfile, hnumber⟩ := hopen
      obtain ⟨u, hpair⟩ := h.stacked.exists_mem_zip hfile
      have registered := (h.registered file hfile).source
      rw [hnumber, hsource] at registered
      obtain rfl := Option.some.inj registered
      exact hnumber ▸ (h.opened (file, u) hpair).mem_unread (.inl ⟨ht, hnumber.symm⟩)
    · obtain ⟨e, -, hleaves⟩ := h.closed _ source hle hsource fun file hfile heq => hopen ⟨file, hfile, heq⟩
      exact hleaves.mem_unread (.inl ⟨ht, rfl⟩)

/-- A file is closed when nothing but its end is left. -/
theorem settle (h : Accounts first passed s (s.current :: s.suspended)) :
    Accounts first passed s.settle (s.settle.current :: s.settle.suspended) := by
  have aligned := h.aligned.settle
  have pairs := mem_zip_settleWith h.stacked
  have suffix : s.settle.files <:+ s.files := settleWith_isSuffix s.files s.suspended s.current
  refine
    { registered := aligned.registered
      stacked := aligned.stacked
      reached := h.reached
      known := h.known
      later := fun file hfile => h.later file (suffix.subset hfile)
      opened := fun x hx => h.opened x ((pairs x).1 hx)
      bottom := ?bottom
      ended := ?ended
      closed := ?closed }
  case bottom =>
    intro file hfile
    obtain ⟨before, hbefore⟩ := suffix
    refine h.bottom file ?_
    rw [← hbefore, List.getLast?_append, hfile]
    rfl
  case ended =>
    intro hnil t ht
    obtain rfl : s.settle.current = t := by simpa using ht
    by_cases hfiles : s.files = []
    · -- nothing is open, so nothing is closed
      have same : s.settle.current = s.current := by simp [Session.settle, settleWith, hfiles]
      rw [same]
      exact h.ended hfiles s.current rfl
    · obtain ⟨file, hlast, hpair, hvalue⟩ := exists_mem_zip_of_settleWith_eq_nil h.stacked hfiles hnil
      exact ⟨hvalue, (h.stacked.source_of_mem_zip hpair).trans (h.bottom file hlast), h.holds_opened hpair⟩
  case closed =>
    intro number source hfirst hsource hclosed
    by_cases hopen : ∃ file ∈ s.files, file.stream.number = number
    · obtain ⟨file, hfile, rfl⟩ := hopen
      obtain ⟨t, hpair⟩ := h.stacked.exists_mem_zip hfile
      rcases (pairs (file, t)).2 hpair with hleft | hfinish
      · exact absurd rfl (hclosed file (List.of_mem_zip hleft).1)
      · have hleaves := h.opened (file, t) hpair
        rw [show upcoming t file.stream = ([t], none) from if_pos hfinish] at hleaves
        obtain rfl : file.stream.source = source :=
          Option.some.inj ((h.registered file hfile).source.symm.trans hsource)
        exact ⟨t, hfinish, hleaves⟩
    · exact h.closed number source hfirst hsource fun file hfile heq => hopen ⟨file, hfile, heq⟩

/-- The file on top has read its next token, and no file has been closed yet. -/
private theorem moved (h : Accounts first passed s (s.current :: s.suspended)) (hs : s.Settled) {file : OpenFile}
    {files : List OpenFile} {t : Located Token} {stream : TokenStream} (hfiles : s.files = file :: files)
    (hnext : file.stream.next = .ok (t, stream)) :
    Accounts first (passed ++ [s.current]) { s with files := { file with stream } :: files, current := t }
      (t :: s.suspended) := by
  have aligned := h.aligned.moved hfiles hnext
  obtain ⟨hsource, hnumber, -⟩ := TokenStream.next_source hnext
  obtain ⟨hcurrent, hbelow, -⟩ := hfiles ▸ h.stacked
  have top : file ∈ s.files := by simp [hfiles]
  refine
    { registered := aligned.registered
      stacked := aligned.stacked
      reached := h.reached
      ended := by simp
      later := ?later
      bottom := ?bottom
      known := ?known
      opened := ?opened
      closed := ?closed }
  case later =>
    intro g hg
    rcases List.mem_cons.1 hg with rfl | hg
    · exact hnumber ▸ h.later file top
    · exact h.later g (by simp [hfiles, hg])
  case bottom =>
    intro g hg
    have hlast := h.bottom
    rw [hfiles, List.getLast?_cons] at hlast
    rw [List.getLast?_cons] at hg
    cases hfiles' : files.getLast? with
    | none =>
      rw [hfiles'] at hlast hg
      obtain rfl : { file with stream } = g := by simpa using hg
      exact hnumber.trans (hlast file rfl)
    | some last =>
      rw [hfiles'] at hlast hg
      exact hlast g hg
  case known =>
    intro u hu
    rcases List.mem_append.1 hu with hu | hu
    · exact h.known u hu
    · obtain rfl : u = s.current := by simpa using hu
      rw [hcurrent]
      exact ⟨h.later file top, (h.registered file top).number_lt⟩
  case opened =>
    intro x hx
    rcases List.mem_cons.1 hx with rfl | hx
    · -- the current token is the next of its file, since it is not the end of it
      have hleaves := h.opened (file, s.current) (by simp [hfiles])
      rw [show upcoming s.current file.stream = (s.current :: file.stream.unread.1, file.stream.unread.2) from
        if_neg (hs (by simp [hfiles]))] at hleaves
      rw [hsource, hnumber, ← unread_eq_upcoming hnext]
      exact hleaves.pass hcurrent
    · have hlt : x.1.stream.number < file.stream.number := hbelow x.1 (List.of_mem_zip hx).1
      have hpair : x ∈ s.files.zip (s.current :: s.suspended) := hfiles ▸ List.mem_cons_of_mem _ hx
      exact (h.opened x hpair).concat (by omega)
  case closed =>
    intro number source hfirst hget hclosed
    have hother : file.stream.number ≠ number := hnumber ▸ hclosed { file with stream } (by simp)
    obtain ⟨e, he, hleaves⟩ := h.closed number source hfirst hget fun g hg => by
      rw [hfiles] at hg
      rcases List.mem_cons.1 hg with rfl | hg
      · exact hother
      · exact hclosed g (by simp [hg])
    exact ⟨e, he, hleaves.concat (hcurrent ▸ hother)⟩

/-- Advancing passes the current token. -/
theorem advance (h : Accounts first passed s (s.current :: s.suspended)) (hs : s.Settled) (hfiles : s.files ≠ [])
    (ha : s.advance = .ok s') : Accounts first (passed ++ [s.current]) s' (s'.current :: s'.suspended) := by
  rcases cases_of_advance ha with ⟨hnil, -⟩ | ⟨file, files, t, stream, hcons, hnext, rfl⟩
  · exact absurd hnil hfiles
  · exact (h.moved hs hcons hnext).settle

/-- A text has been entered, and no file has been closed yet; only the first is entered with no file below. -/
private theorem entered (h : Accounts first passed s s.suspended) (hroot : s.files = [] → s.sources.size = first)
    {path : Path} {text : String} {t : Located Token} {stream : TokenStream}
    (hnext : (TokenStream.ofSource ⟨path, text⟩ s.sources.size).next = .ok (t, stream)) :
    Accounts first passed
      { s with
        sources := s.sources.add ⟨path, text⟩
        files := ⟨s.directoryOf path, path, stream⟩ :: s.files
        current := t }
      (t :: s.suspended) := by
  have aligned := Aligned.entered h.registered h.stacked hnext
  obtain ⟨hsource, hnumber, -⟩ := TokenStream.next_source hnext
  have hnumber : stream.number = s.sources.size := hnumber
  have size : (s.sources.add ⟨path, text⟩).size = s.sources.size + 1 := SourceTable.size_add _ _
  refine
    { registered := aligned.registered
      stacked := aligned.stacked
      reached := size ▸ Nat.le_succ_of_le h.reached
      ended := by simp
      later := ?later
      bottom := ?bottom
      known := ?known
      opened := ?opened
      closed := ?closed }
  case later =>
    intro g hg
    rcases List.mem_cons.1 hg with rfl | hg
    · exact hnumber ▸ h.reached
    · exact h.later g hg
  case bottom =>
    intro g hg
    rw [List.getLast?_cons] at hg
    cases hlast : s.files.getLast? with
    | none =>
      rw [hlast] at hg
      obtain rfl : _ = g := Option.some.inj hg
      exact hnumber.trans (hroot (List.getLast?_eq_none_iff.1 hlast))
    | some last =>
      rw [hlast] at hg
      exact h.bottom g (hlast ▸ hg)
  case known =>
    intro u hu
    obtain ⟨hle, hlt⟩ := h.known u hu
    exact ⟨hle, size ▸ Nat.lt_succ_of_lt hlt⟩
  case opened =>
    intro x hx
    rcases List.mem_cons.1 hx with rfl | hx
    · -- no token of the new source has been passed
      have none_passed : passed.filter (·.span.source = stream.number) = [] := by
        rw [List.filter_eq_nil_iff]
        intro u hu
        have := (h.known u hu).2
        simp only [decide_eq_true_eq]
        omega
      rw [Leaves, none_passed, List.nil_append, hsource, hnumber, ← unread_eq_upcoming hnext]
      rfl
    · exact h.opened x hx
  case closed =>
    intro number source hle hget hclosed
    have hother : stream.number ≠ number := hclosed ⟨s.directoryOf path, path, stream⟩ (by simp)
    rw [SourceTable.get?_add, if_neg (by omega)] at hget
    exact h.closed number source hle hget fun g hg => hclosed g (by simp [hg])

/-- Entering a text passes no token. -/
private theorem enter (h : Accounts first passed s s.suspended) (hroot : s.files = [] → s.sources.size = first)
    {path : Path} {text : String} (hs : s.enter path text = .ok s') :
    Accounts first passed s' (s'.current :: s'.suspended) ∧ s'.Settled := by
  obtain ⟨t, stream, hnext, rfl⟩ := exists_of_enter hs
  exact ⟨(h.entered hroot hnext).settle, (Aligned.entered h.registered h.stacked hnext).settled_settle⟩

theorem load (h : Accounts first passed s (s.current :: s.suspended)) (hfiles : s.files ≠ []) {requested : String}
    {span : Span} {found : Lookup} (hs : s.includeFile requested span found = .ok s') :
    Accounts first passed s' (s'.current :: s'.suspended) ∧ s'.Settled := by
  obtain ⟨-, text, -, henter⟩ := exists_of_includeFile hs
  have suspended : Accounts first passed s.suspend s.suspend.suspended :=
    { h with ended := fun hnil => absurd hnil hfiles }
  exact suspended.enter (fun hnil => absurd hnil hfiles) henter

theorem openText {name : Path} {text : String} (hs : s.openText name text = .ok s') :
    Accounts s.sources.size [] s' (s'.current :: s'.suspended) ∧ s'.Settled := by
  let closed : Session := { s with files := [], suspended := [] }
  have nothing : Accounts s.sources.size [] closed closed.suspended :=
    { registered := by simp [closed]
      stacked := trivial
      reached := Nat.le_refl _
      later := by simp [closed]
      bottom := by simp [closed]
      ended := by simp [closed]
      known := by simp
      opened := by simp [closed]
      closed := fun number source hle hget => by
        have : closed.sources.get? number = none := SourceTable.get?_eq_none_iff.2 hle
        simp [this] at hget }
  exact nothing.enter (fun _ => rfl) hs

end Accounts

/-- Whatever has been passed since a root file was opened, every token of the sources read since then is accounted
for. -/
theorem Passes.accounts {s₀ s₁ s : Session} {passed : List (Located Token)} (hopen : s₀.Opens s₁)
    (h : s₁.Passes passed s) : Accounts s₀.sources.size passed s (s.current :: s.suspended) ∧ s.Settled := by
  induction h with
  | refl =>
    obtain ⟨name, text, htext⟩ := hopen.exists_openText
    exact Accounts.openText htext
  | advance _ hfiles hadvance ih =>
    exact ⟨ih.1.advance ih.2 hfiles hadvance, ih.1.aligned.settled_advance ih.2 hadvance⟩
  | load _ hfiles hinclude ih => exact ih.1.load hfiles hinclude
  | draw _ generated ih => exact ⟨{ ih.1 with }, ih.2⟩

end BundleConf.Session
