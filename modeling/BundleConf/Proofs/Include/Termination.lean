import BundleConf.Proofs.Include.Loading
import Mathlib.Data.DFinsupp.WellFounded
import Mathlib.Data.ENat.Basic

/-!
# Which parses end

No more than `maxDepth` files are open at once, so including a file again and again does not go on forever as long as
every file stays open while it includes another.  But a file is closed with its last token, and if this is the path of
an include then the include borrows its semicolon from a file below: by the time the include is executed the file is
closed, and the next one is opened in its place.

These are the only includes that can go on forever: a parse has a result of its own, whatever the number of files that
it may include, exactly if it comes to finitely many borrowed includes (`Session.hasResult_iff`).  What decreases from
one include to the next is the list of how much is unread of each open file, the outermost first, where a file that is
not open counts more than any other (`rank`).
-/

namespace BundleConf

/-! ### What is left of the open files -/

/-- The first files are left of the second ones when some are closed, and the one below them is read on. -/
inductive Remains : List OpenFile → List OpenFile → Prop
  | nil (files : List OpenFile) : Remains [] files
  | read {f f' : OpenFile} (below : List OpenFile) (number : f'.stream.number = f.stream.number)
      (rest : f'.stream.rest.length ≤ f.stream.rest.length) : Remains (f' :: below) (f :: below)
  | close {files files' : List OpenFile} (f : OpenFile) (h : Remains files' files) : Remains files' (f :: files)

namespace Remains

variable {files files' files'' : List OpenFile}

theorem refl (files : List OpenFile) : Remains files files := by
  cases files with
  | nil => exact .nil _
  | cons f below => exact .read below rfl (Nat.le_refl _)

theorem of_suffix (h : files' <:+ files) : Remains files' files := by
  induction files with
  | nil =>
    obtain rfl : files' = [] := List.suffix_nil.1 h
    exact .nil _
  | cons f files ih =>
    rcases List.suffix_cons_iff.1 h with rfl | h
    · exact refl _
    · exact .close f (ih h)

theorem trans (h' : Remains files'' files') (h : Remains files' files) : Remains files'' files := by
  induction h generalizing files'' with
  | nil =>
    cases h'
    exact .nil _
  | read below number rest =>
    cases h' with
    | nil => exact .nil _
    | read _ number' rest' => exact .read below (number'.trans number) (rest'.trans rest)
    | close _ h' => exact .close _ h'
  | close f _ ih => exact .close f (ih h')

/-- The file that is left on top is one of the files, read on. -/
theorem exists_eq_append {f' : OpenFile} {below : List OpenFile} (h : Remains (f' :: below) files) :
    ∃ front f, files = front ++ f :: below ∧ f'.stream.number = f.stream.number ∧
      f'.stream.rest.length ≤ f.stream.rest.length := by
  induction files with
  | nil => cases h
  | cons g files ih =>
    cases h with
    | read _ number rest => exact ⟨[], g, rfl, number, rest⟩
    | close _ h =>
      obtain ⟨front, f, rfl, hf⟩ := ih h
      exact ⟨g :: front, f, rfl, hf⟩

/-- If the file on top has kept its number then it is the same file, read on. -/
theorem of_number {f f' : OpenFile} {below below' : List OpenFile}
    (later : ∀ g ∈ below, g.stream.number < f.stream.number) (h : Remains (f' :: below') (f :: below))
    (number : f'.stream.number = f.stream.number) :
    below' = below ∧ f'.stream.rest.length ≤ f.stream.rest.length := by
  obtain ⟨front, g, hfiles, hnumber, hrest⟩ := h.exists_eq_append
  cases front with
  | nil =>
    obtain ⟨rfl, rfl⟩ := List.cons.inj hfiles
    exact ⟨rfl, hrest⟩
  | cons _ front =>
    obtain ⟨rfl, rfl⟩ := List.cons.inj hfiles
    have := later g (by simp)
    omega

end Remains

namespace Session

variable {s s' : Session}

/-- Advancing closes the file on top, or reads on in it. -/
theorem remains_of_advance {f : OpenFile} {below : List OpenFile} (hs : s.files = f :: below)
    (h : s.advance = .ok s') : Remains s'.files below ∨ ∃ f', s'.files = f' :: below ∧
      f'.stream.number = f.stream.number ∧ f'.stream.rest.length < f.stream.rest.length := by
  rcases cases_of_advance h with ⟨hnil, -⟩ | ⟨g, gs, t, stream, hfiles, hnext, rfl⟩
  · simp [hs] at hnil
  · obtain ⟨rfl, rfl⟩ := List.cons.inj (hs.symm.trans hfiles)
    obtain ⟨-, hnumber, -⟩ := TokenStream.next_source hnext
    by_cases ht : t.value = .finish
    · refine .inl (.of_suffix ?_)
      change (settleWith ({ f with stream } :: below) s.suspended t).1 <:+ below
      rw [settleWith.eq_def]
      dsimp only
      rw [if_neg (by simp [ht])]
      split
      · exact List.nil_suffix
      · split
        · exact List.suffix_rfl
        · exact settleWith_isSuffix _ _ _
    · refine .inr ⟨{ f with stream }, ?_, hnumber, TokenStream.length_rest_next_lt hnext ht⟩
      change (settleWith ({ f with stream } :: below) s.suspended t).1 = { f with stream } :: below
      rw [settleWith_of_ne ht]

theorem Advances.remains (h : Advances s s') : Remains s'.files s.files := by
  induction h with
  | refl => exact .refl _
  | @advance s next s' ha _ ih =>
    refine ih.trans ?_
    cases hfiles : s.files with
    | nil =>
      obtain rfl : s = next := by simpa [Session.advance, hfiles] using ha
      rw [hfiles]
      exact .nil _
    | cons f below =>
      rcases remains_of_advance hfiles ha with h | ⟨f', hf', hnumber, hrest⟩
      · exact .close f h
      · rw [hf']
        exact .read below hnumber (Nat.le_of_lt hrest)
  | draw generated _ ih => exact ih

/-- If going on leads to another token of the same file then less of that file is unread. -/
theorem length_rest_lt_of_proceed {f f' : OpenFile} {below below' : List OpenFile} (aligned : s.Aligned)
    (hs : s.files = f :: below) (hs' : s'.files = f' :: below') (h : s.proceed = .ok s')
    (same : s'.current.span.source = s.current.span.source) :
    below' = below ∧ f'.stream.rest.length < f.stream.rest.length := by
  obtain ⟨next, hnext, hrest⟩ := Advances.proceed h
  have number : f'.stream.number = f.stream.number := by
    have stacked := aligned.stacked
    have stacked' := (hrest.aligned (aligned.advance hnext)).stacked
    rw [hs] at stacked
    rw [hs'] at stacked'
    rw [← stacked'.1, ← stacked.1]
    exact same
  have later : ∀ g ∈ below, g.stream.number < f.stream.number := by
    have stacked := aligned.stacked
    rw [hs] at stacked
    exact stacked.2.1
  have remains := hrest.remains
  rw [hs'] at remains
  rcases remains_of_advance hs hnext with hclosed | ⟨g, hg, hnumber, hlt⟩
  · -- the file would have been closed, and those below it have other numbers
    obtain ⟨front, g, rfl, hg, -⟩ := (remains.trans hclosed).exists_eq_append
    have := later g (by simp)
    omega
  · rw [hg] at remains
    obtain ⟨rfl, hle⟩ := remains.of_number (by rwa [hnumber]) (number.trans hnumber.symm)
    exact ⟨rfl, Nat.lt_of_le_of_lt hle hlt⟩

end Session

/-! ### The rank of the open files -/

/-- How much is unread of an open file, counted from the outermost; of a file that is not open, more than of any
other. -/
def unreadAt (files : List OpenFile) (i : Nat) : ℕ∞ :=
  (files.reverse[i]?).elim ⊤ fun f => f.stream.rest.length

def rank (files : List OpenFile) : Lex (Fin maxDepth → ℕ∞) :=
  toLex fun i => unreadAt files i

private theorem unreadAt_append_of_lt {front below : List OpenFile} {i : Nat} (h : i < below.length) :
    unreadAt (front ++ below) i = unreadAt below i := by
  rw [unreadAt, unreadAt, List.reverse_append, List.getElem?_append_left (by simpa using h)]

private theorem unreadAt_append_length (front below : List OpenFile) :
    unreadAt (front ++ below) below.length = (front.getLast?).elim ⊤ fun f => (f.stream.rest.length : ℕ∞) := by
  rw [unreadAt, List.reverse_append, List.getElem?_append_right (by simp), List.length_reverse, Nat.sub_self,
    ← List.head?_eq_getElem?, List.head?_reverse]

/-- Closing some files and reading on in the one below them, or in a new one on top of all, is a step down. -/
theorem rank_lt {front below : List OpenFile} {f' : OpenFile} (hdepth : below.length < maxDepth)
    (hrest : ∀ f ∈ front.getLast?, f'.stream.rest.length < f.stream.rest.length) :
    rank (f' :: below) < rank (front ++ below) := by
  refine ⟨⟨below.length, hdepth⟩, fun j hj => ?_, ?_⟩
  · change unreadAt ([f'] ++ below) j = unreadAt (front ++ below) j
    rw [unreadAt_append_of_lt hj, unreadAt_append_of_lt hj]
  · change unreadAt ([f'] ++ below) below.length < unreadAt (front ++ below) below.length
    rw [unreadAt_append_length, unreadAt_append_length]
    cases hlast : front.getLast? with
    | none => exact ENat.natCast_lt_top _
    | some f => exact ENat.natCast_lt_natCast.2 (hrest f hlast)

/-! ### From one include to the next -/

namespace Session

variable {s s' : Session}

private theorem remains_of_enter {path : Path} {text : String} (h : s.enter path text = .ok s') :
    (∃ g, Remains s'.files (g :: s.files)) ∧ s'.sources.size = s.sources.size + 1 := by
  obtain ⟨t, stream, -, rfl⟩ := exists_of_enter h
  refine ⟨⟨⟨s.directoryOf path, path, stream⟩, .of_suffix ?_⟩, SourceTable.size_add _ _⟩
  exact settleWith_isSuffix (_ :: s.files) s.suspended t

/-- A file is only opened if not too many are open, and it is opened on top of them. -/
theorem remains_of_loadFile {path : Located String} {found : Lookup} (h : s.loadFile path found = .ok s') :
    (∃ g, Remains s'.files (g :: s.files)) ∧ s.files.length < maxDepth ∧ s'.sources.size = s.sources.size + 1 := by
  obtain ⟨hdepth, text, next, henter, hskip⟩ := exists_of_loadFile h
  obtain ⟨⟨g, hg⟩, hsize⟩ := remains_of_enter henter
  have advances : Advances next s' := .skipComments hskip
  refine ⟨⟨g, advances.remains.trans hg⟩, hdepth, ?_⟩
  rw [advances.record.2]
  exact hsize

end Session

namespace Stop

/-- The parse has come to an include whose semicolon is one of another file than its path. -/
def IsBorrowed : Stop → Prop
  | load path s _ => s.current.span.source ≠ path.span.source
  | _ => False

variable {files : FileSystem} {path path' : Located String} {t t' : Session} {p p' : Parser}

/-- What happens from one include to the next. -/
private theorem loadFile_of_next (h : (load path t p).next files = load path' t' p') :
    ∃ t₀, t.loadFile path (files (t.includePath path.value)) = .ok t₀ ∧
      feed t₀ { p with state := .top } = load path' t' p' := by
  rw [next] at h
  cases hload : t.loadFile path (files (t.includePath path.value)) with
  | error failure => simp [hload] at h
  | ok t₀ =>
    rw [hload] at h
    exact ⟨t₀, rfl, h⟩

/-- If the next include is not borrowed then the rank of the open files decreases up to it. -/
theorem rank_next_lt {root : Path} (asks : Asks root path t p)
    (h : (load path t p).next files = load path' t' p') (hborrowed : ¬ (load path' t' p').IsBorrowed) :
    rank t'.files < rank t.files := by
  obtain ⟨t₀, hload, hfeed⟩ := loadFile_of_next h
  obtain ⟨⟨g, hg⟩, hdepth, -⟩ := Session.remains_of_loadFile hload
  obtain ⟨hfiles', -, -, hcases⟩ := feed_load_advances hfeed
  rcases hcases with ⟨hstate, -⟩ | ⟨s₁, hadvances, hfiles₁, hcurrent, hproceed⟩
  · simp at hstate
  · obtain ⟨f, below, hs₁⟩ := List.exists_cons_of_ne_nil hfiles₁
    obtain ⟨f', below', ht'⟩ := List.exists_cons_of_ne_nil hfiles'
    have aligned : s₁.Aligned := hadvances.aligned (asks.aligned.loadFile hload)
    have same : t'.current.span.source = s₁.current.span.source := by
      rw [hcurrent]
      exact not_not.1 hborrowed
    obtain ⟨rfl, hlt⟩ := Session.length_rest_lt_of_proceed aligned hs₁ ht' hproceed same
    have remains : Remains (f :: below') (g :: t.files) := hs₁ ▸ hadvances.remains.trans hg
    obtain ⟨front, f₀, hfront, -, hle⟩ := remains.exists_eq_append
    rw [ht']
    cases front with
    | nil =>
      -- the new file is the one that includes next
      obtain ⟨-, rfl⟩ := List.cons.inj hfront
      exact @rank_lt [] _ _ hdepth (by simp)
    | cons _ front =>
      -- the new file has been closed, and an open one that is read on includes next
      have hfront : t.files = (front ++ [f₀]) ++ below' := by
        simpa using (List.cons.inj hfront).2
      have hbelow : below'.length < maxDepth := by
        simp only [hfront, List.length_append] at hdepth
        omega
      rw [hfront]
      refine rank_lt hbelow fun f₁ hf₁ => ?_
      obtain rfl : f₀ = f₁ := by simpa using hf₁
      omega

/-- If no more borrowed includes come then a parse comes to its end. -/
private theorem exists_not_isLoad {root : Path} {start : Stop} (hstart : start.Asked root) (n : Nat)
    (hborrowed : ∀ m, n ≤ m → ¬ (start.after files m).IsBorrowed) : ∃ m, ¬ (start.after files m).IsLoad := by
  by_contra hload
  have stops : ∀ m, ∃ path t p, start.after files m = load path t p := by
    intro m
    have := not_not.1 (not_exists.1 hload m)
    cases hstop : start.after files m with
    | load path t p => exact ⟨path, t, p, rfl⟩
    | _ => simp [hstop, IsLoad] at this
  -- no descent from the rank at the include `m`
  have descent : ∀ r : Lex (Fin maxDepth → ℕ∞), ∀ m path t p, n ≤ m → start.after files m = load path t p →
      rank t.files ≠ r := by
    intro r
    induction r using WellFoundedLT.induction with
    | ind r ih =>
      rintro m path t p hm hstop rfl
      obtain ⟨path', t', p', hstop'⟩ := stops (m + 1)
      have asks : (load path t p).Asked root := hstop ▸ asked_after files hstart m
      have hnext : (load path t p).next files = load path' t' p' := by
        rw [← hstop, ← after_succ, hstop']
      have hlt := rank_next_lt asks hnext (hstop' ▸ hborrowed (m + 1) (by omega))
      exact ih _ hlt (m + 1) path' t' p' (by omega) hstop' rfl
  obtain ⟨path, t, p, hstop⟩ := stops n
  exact descent _ n path t p (Nat.le_refl n) hstop rfl

theorem exists_not_isLoad_iff {root : Path} {start : Stop} (hstart : start.Asked root) :
    (∃ n, ¬ (start.after files n).IsLoad) ↔ ∃ n, ∀ m, n ≤ m → ¬ (start.after files m).IsBorrowed := by
  constructor
  · rintro ⟨n, hn⟩
    refine ⟨n, fun m hm => ?_⟩
    rw [after_of_not_isLoad hn hm]
    intro hborrowed
    cases hstop : start.after files n with
    | load path t p => exact hn (hstop ▸ trivial)
    | _ => simp [hstop, IsBorrowed] at hborrowed
  · rintro ⟨n, hn⟩
    exact exists_not_isLoad hstart n hn

/-- The outcomes of a parse with more and more includes become the same exactly if the parse stops including. -/
theorem exists_outcome_iff {start : Stop} :
    (∃ limit result, ∀ budget, limit ≤ budget → (start.after files budget).outcome = result) ↔
      ∃ n, ¬ (start.after files n).IsLoad := by
  constructor
  · rintro ⟨limit, result, hresult⟩
    by_contra hload
    have hloads := fun n => not_not.1 (not_exists.1 hload n)
    have same : (start.after files (limit + 1)).outcome = (start.after files limit).outcome :=
      (hresult _ (by omega)).trans (hresult _ (Nat.le_refl _)).symm
    have hlimit := hloads limit
    have hnext := hloads (limit + 1)
    cases hstop : start.after files limit with
    | load path t p =>
      cases hstop' : start.after files (limit + 1) with
      | load path' t' p' =>
        have hstep : (load path t p).next files = load path' t' p' := by
          rw [← hstop, ← after_succ, hstop']
        obtain ⟨t₀, hload, hfeed⟩ := loadFile_of_next hstep
        obtain ⟨-, -, hsize⟩ := Session.remains_of_loadFile hload
        have hsources : t'.sources = t₀.sources := (advances_of_feed_load hfeed).record.2
        rw [hstop, hstop'] at same
        -- the outcomes would be those of one session, but a source has been added in between
        obtain ⟨-, rfl⟩ : _ ∧ t' = t := by simpa [outcome] using same
        rw [hsources] at hsize
        omega
      | _ => simp [hstop', IsLoad] at hnext
    | _ => simp [hstop, IsLoad] at hlimit
  · rintro ⟨n, hn⟩
    exact ⟨n, (start.after files n).outcome, fun budget hle => by rw [after_of_not_isLoad hn hle]⟩

end Stop

/-! ### Parses with a result -/

/-- The parse has a result of its own: from some number on, it does not matter how many files it may include. -/
def HasResult (files : FileSystem) (parse : Nat → Reading Parsed) : Prop :=
  ∃ limit result, ∀ budget, limit ≤ budget → (parse budget).run files = result

/-- A parse has a result exactly if it comes to finitely many borrowed includes. -/
theorem Session.hasResult_iff (s : Session) (files : FileSystem) :
    (∀ file, HasResult files (s.parseFileWithin · file) ↔
      ∃ n, ∀ m, n ≤ m → ¬ ((s.startFile files file).after files m).IsBorrowed) ∧
    ∀ name text, HasResult files (s.parseTextWithin · name text) ↔
      ∃ n, ∀ m, n ≤ m → ¬ ((s.startText name text).after files m).IsBorrowed := by
  constructor
  · intro file
    simp only [HasResult, run_parseFileWithin]
    rw [Stop.exists_outcome_iff, Stop.exists_not_isLoad_iff (asked_startFile s files file)]
  · intro name text
    simp only [HasResult, run_parseTextWithin]
    rw [Stop.exists_outcome_iff, Stop.exists_not_isLoad_iff (asked_startText s name text)]

/-! ### A parse without a result -/

/-- A file that includes itself, but leaves the semicolon to the file that includes it. -/
private def recurring : FileSystem := fun path =>
  if path = ⟨"./app.conf"⟩ then .ok "include 'x.conf';"
  else if path = ⟨"./x.conf"⟩ then .ok "include 'x.conf'"
  else .error .notFound

/-- The parse is about to include the file, and nothing but the root is open. -/
private structure Recurs (path : Located String) (t : Session) : Prop where
  value : path.value = "x.conf"
  file : ∃ file, t.files = [file] ∧ file.directory = ⟨"."⟩

private theorem lex_recurring : ∃ ts, lex "include 'x.conf'" = .ok ts ∧
    (meaningful ts).map Located.value = [.keyword .include, .value "x.conf", .finish] := by
  let stream := TokenStream.ofSource ⟨.input, "include 'x.conf'"⟩ 0
  refine ⟨stream.unread.1, lex_eq_ok_iff.2 (Prod.ext rfl (by decide +kernel)), by decide +kernel⟩

private theorem recurs_next {root : Path} {path : Located String} {t : Session} {p : Parser} (asks : Asks root path t p)
    (h : Recurs path t) : ∃ path' t' p', (Stop.load path t p).next recurring = .load path' t' p' ∧ Recurs path' t' := by
  obtain ⟨file, hfiles, hdirectory⟩ := h.file
  obtain ⟨ts, hlex, hts⟩ := lex_recurring
  have hpath : t.includePath path.value = ⟨"./x.conf"⟩ := by
    rw [Session.includePath, hfiles, h.value]
    dsimp only
    rw [hdirectory]
    decide +kernel
  have hfound : recurring (t.includePath path.value) = .ok "include 'x.conf'" := by
    rw [hpath]
    decide +kernel
  obtain ⟨hvalues, hend⟩ := TokenStream.unread_of_lex hlex (t.includePath path.value) t.sources.size
  have hdepth : t.depth < maxDepth := by
    simp [Session.depth, hfiles, maxDepth]
  obtain ⟨s, g, hload, -, -, -, -, hreads⟩ := Session.loadFile_text hdepth asks.semicolon rfl hend
  rw [hts] at hvalues
  obtain ⟨a, us, hus, ha, hvalues⟩ := List.map_eq_cons_iff.1 hvalues
  obtain ⟨b, us, rfl, hb, hvalues⟩ := List.map_eq_cons_iff.1 hvalues
  obtain ⟨c, us, rfl, -, hvalues⟩ := List.map_eq_cons_iff.1 hvalues
  obtain rfl : us = [] := List.map_eq_nil_iff.1 hvalues
  rw [hus] at hreads
  obtain ⟨s', hfeed, -, hreads'⟩ :=
    feed_path (p := { p with state := .top }) (Session.resumable_of_semicolon asks.semicolon) hreads rfl ha hb
  -- the path is the last token, so the file is closed again and the semicolon below is current
  have hback : s'.cursor = t.cursor := hreads'.cursor_of_included asks.files asks.semicolon
  simp only [Session.cursor, Prod.mk.injEq] at hback
  obtain ⟨hfiles', -, hcurrent'⟩ := hback
  refine ⟨⟨"x.conf", b.span⟩, s', ⟨p.app, .includeEnd ⟨"x.conf", b.span⟩⟩, ?_, rfl, file, hfiles'.trans hfiles,
    hdirectory⟩
  rw [Stop.next, hfound, hload]
  dsimp only
  rw [hfeed]
  exact feed_includeEnd rfl (hfiles' ▸ asks.files) (hcurrent' ▸ asks.semicolon)

private theorem recurs_start : ∃ path t p,
    (Session.new ⟨"."⟩).startFile recurring ⟨"app.conf"⟩ = .load path t p ∧ Recurs path t := by
  have hstop : (match (Session.new ⟨"."⟩).startFile recurring ⟨"app.conf"⟩ with
      | .load path t _ => some (path.value, t.files.map OpenFile.directory)
      | _ => none) = some ("x.conf", [⟨"."⟩]) := by
    decide +kernel
  split at hstop
  · rename_i path t p hload
    simp only [Option.some.injEq, Prod.mk.injEq, List.map_eq_singleton_iff] at hstop
    obtain ⟨hvalue, file, hfiles, hdirectory⟩ := hstop
    exact ⟨path, t, p, hload, hvalue, file, hfiles, hdirectory⟩
  · simp at hstop

/-- A file may include itself without end, though no more than two files are ever open. -/
theorem not_hasResult_recurring : ¬ HasResult recurring ((Session.new ⟨"."⟩).parseFileWithin · ⟨"app.conf"⟩) := by
  let start := (Session.new ⟨"."⟩).startFile recurring ⟨"app.conf"⟩
  have hasked : start.Asked ⟨"."⟩ := asked_startFile (Session.new ⟨"."⟩) recurring ⟨"app.conf"⟩
  have recurs : ∀ n, ∃ path t p, start.after recurring n = .load path t p ∧ Recurs path t := by
    intro n
    induction n with
    | zero => exact recurs_start
    | succ n ih =>
      obtain ⟨path, t, p, hstop, hrecurs⟩ := ih
      have asks : (Stop.load path t p).Asked ⟨"."⟩ := hstop ▸ asked_after recurring hasked n
      obtain ⟨path', t', p', hnext, hrecurs'⟩ := recurs_next asks hrecurs
      exact ⟨path', t', p', by rw [Stop.after_succ, hstop, hnext], hrecurs'⟩
  simp only [HasResult, Session.run_parseFileWithin]
  rw [Stop.exists_outcome_iff]
  rintro ⟨n, hn⟩
  obtain ⟨path, t, p, hstop, -⟩ := recurs n
  exact hn (hstop ▸ trivial)

end BundleConf
