import BundleConf.Proofs.Lexing.Unread
import BundleConf.Proofs.Session.Steps

/-!
# Which token comes from which file

The current token of a session is one of its innermost open file, and each suspended token is one of the file that it
suspends; the sources of the open files are registered under their numbers, and a file that is opened later has a larger
number.  This is `Session.Aligned`.  It holds whenever a text has been opened, and it is kept by every step of reading:
by advancing (`Session.Aligned.advance`), by drawing names, and by including a file (`Session.Aligned.loadFile`).  In
an aligned session advancing also closes the files that are at their ends (`Session.Settled`).
-/

namespace BundleConf

/-! ### Open files -/

/-- The source of the file is registered, and its includes are looked for where it is. -/
structure OpenFile.Registered (root : Path) (sources : SourceTable) (file : OpenFile) : Prop where
  source : sources.get? file.stream.number = some file.stream.source
  path : file.stream.source.path = file.path
  directory : file.directory = file.path.parent?.getD root

/-- The files stand at the tokens, and come after the files below them. -/
def Stacked : List OpenFile → List (Located Token) → Prop
  | [], _ => True
  | _ :: _, [] => False
  | file :: files, t :: ts =>
    t.span.source = file.stream.number ∧ (∀ g ∈ files, g.stream.number < file.stream.number) ∧ Stacked files ts

theorem Stacked.tail {file : OpenFile} {files : List OpenFile} {ts : List (Located Token)}
    (h : Stacked (file :: files) ts) : ∃ t ts', ts = t :: ts' ∧ Stacked files ts' := by
  cases ts with
  | nil => exact h.elim
  | cons t ts => exact ⟨t, ts, rfl, h.2.2⟩

theorem OpenFile.Registered.number_lt {root : Path} {sources : SourceTable} {file : OpenFile}
    (h : file.Registered root sources) : file.stream.number < sources.size := by
  by_cases hlt : file.stream.number < sources.size
  · exact hlt
  · have none := SourceTable.get?_eq_none_iff.2 (Nat.le_of_not_lt hlt)
    simp [h.source] at none

/-- A source keeps its number when another is added. -/
theorem SourceTable.get?_add_of_eq_some {sources : SourceTable} {number : Nat} {source : Source}
    (h : sources.get? number = some source) (added : Source) : (sources.add added).get? number = some source := by
  have hne : number ≠ sources.size := by
    rintro rfl
    simp [SourceTable.get?_eq_none_iff.2 (Nat.le_refl sources.size)] at h
  rw [SourceTable.get?_add, if_neg hne]
  exact h

theorem OpenFile.Registered.add {root : Path} {sources : SourceTable} {file : OpenFile}
    (h : file.Registered root sources) (source : Source) : file.Registered root (sources.add source) :=
  ⟨SourceTable.get?_add_of_eq_some h.source source, h.path, h.directory⟩

theorem OpenFile.Registered.advance {root : Path} {sources : SourceTable} {file : OpenFile} {t : Located Token}
    {stream : TokenStream} (h : file.Registered root sources) (hnext : file.stream.next = .ok (t, stream)) :
    { file with stream }.Registered root sources := by
  obtain ⟨hsource, hnumber, -⟩ := TokenStream.next_source hnext
  refine ⟨?_, ?_, h.directory⟩
  · rw [hnumber, hsource]
    exact h.source
  · rw [hsource]
    exact h.path

namespace Session

/-! ### Closing files -/

/-- Closing files leaves some of those that were open before. -/
theorem settleWith_isSuffix (files : List OpenFile) (suspended : List (Located Token)) (current : Located Token) :
    (settleWith files suspended current).1 <:+ files := by
  fun_induction settleWith files suspended current with
  | case1 => exact List.suffix_rfl
  | case2 => exact List.suffix_rfl
  | case3 => exact List.nil_suffix
  | case4 => exact List.suffix_cons _ _
  | case5 _ _ _ _ _ _ _ ih => exact ih.trans (List.suffix_cons _ _)

private theorem stacked_settleWith {files : List OpenFile} {suspended : List (Located Token)} {current : Located Token}
    (h : Stacked files (current :: suspended)) :
    Stacked (settleWith files suspended current).1
      ((settleWith files suspended current).2.2 :: (settleWith files suspended current).2.1) := by
  fun_induction settleWith files suspended current with
  | case1 => trivial
  | case2 => exact h
  | case3 => trivial
  | case4 file files current _ hne =>
    -- a file below stands at no token, so there is none
    cases files with
    | nil => simp at hne
    | cons g files => exact h.2.2.elim
  | case5 _ _ _ _ _ _ _ ih => exact ih h.2.2

private theorem settled_settleWith {files : List OpenFile} {suspended : List (Located Token)} {current : Located Token}
    (h : Stacked files (current :: suspended)) (hopen : (settleWith files suspended current).1 ≠ []) :
    (settleWith files suspended current).2.2.value ≠ .finish := by
  fun_induction settleWith files suspended current with
  | case1 => simp at hopen
  | case2 => assumption
  | case3 => simp at hopen
  | case4 file files current _ hne =>
    cases files with
    | nil => simp at hne
    | cons g files => exact h.2.2.elim
  | case5 _ _ _ _ _ _ _ ih => exact ih h.2.2 hopen

/-! ### The invariant -/

/-- The open files stand at the current and the suspended tokens, and their sources are registered. -/
structure Aligned (s : Session) : Prop where
  registered : ∀ file ∈ s.files, file.Registered s.root s.sources
  stacked : Stacked s.files (s.current :: s.suspended)

/-- While a file is open its end is not current. -/
def Settled (s : Session) : Prop :=
  s.files ≠ [] → s.current.value ≠ .finish

/-- With a file open a reader sees the current token. -/
theorem current_of_lookahead {s : Session} (h : s.files ≠ []) : s.lookahead = s.current := by
  rw [lookahead, if_neg]
  simpa [isFinished] using h

/-- The end is seen only when no file is open. -/
theorem Settled.files_eq_nil {s : Session} (h : s.Settled) (hfinish : s.lookahead.value = .finish) : s.files = [] := by
  by_cases hfiles : s.files = []
  · exact hfiles
  · rw [current_of_lookahead hfiles] at hfinish
    exact absurd hfinish (h hfiles)

namespace Aligned

variable {s s' : Session} {file : OpenFile} {files : List OpenFile} {t : Located Token} {stream : TokenStream}

/-- What has been drawn does not matter. -/
theorem draw (h : s.Aligned) (generated : Nat) : { s with generated }.Aligned :=
  ⟨h.registered, h.stacked⟩

theorem settle (h : s.Aligned) : s.settle.Aligned := by
  refine ⟨fun file hfile => ?_, stacked_settleWith h.stacked⟩
  exact h.registered file ((settleWith_isSuffix s.files s.suspended s.current).subset hfile)

theorem settled_settle (h : s.Aligned) : s.settle.Settled :=
  settled_settleWith h.stacked

/-- The file on top has read its next token, and no file has been closed yet. -/
theorem moved (h : s.Aligned) (hfiles : s.files = file :: files) (hnext : file.stream.next = .ok (t, stream)) :
    { s with files := { file with stream } :: files, current := t }.Aligned := by
  obtain ⟨-, hnumber, hspan⟩ := TokenStream.next_source hnext
  have hstacked := h.stacked
  rw [hfiles] at hstacked
  -- the file keeps its number, so it stays where it is in the stack
  refine ⟨?_, ?_, ?_, hstacked.2.2⟩
  · intro g hg
    rcases List.mem_cons.1 hg with rfl | hg
    · exact (h.registered file (by simp [hfiles])).advance hnext
    · exact h.registered g (by simp [hfiles, hg])
  · rw [hspan, hnumber]
  · intro g hg
    rw [hnumber]
    exact hstacked.2.1 g hg

theorem advance (h : s.Aligned) (ha : s.advance = .ok s') : s'.Aligned := by
  rcases cases_of_advance ha with ⟨-, rfl⟩ | ⟨file, files, t, stream, hfiles, hnext, rfl⟩
  · exact h
  · exact (h.moved hfiles hnext).settle

theorem settled_advance (h : s.Aligned) (hs : s.Settled) (ha : s.advance = .ok s') : s'.Settled := by
  rcases cases_of_advance ha with ⟨-, rfl⟩ | ⟨file, files, t, stream, hfiles, hnext, rfl⟩
  · exact hs
  · exact (h.moved hfiles hnext).settled_settle

theorem skipComments (h : s.Aligned) (hs : s.skipComments = .ok s') : s'.Aligned := by
  fun_induction Session.skipComments s with
  | case1 => simp at hs
  | case2 s hcomment next hnext ih => exact ih (h.advance hnext) hs
  | case3 s hcomment =>
    cases hs
    exact h

/-- A text has been entered on top of files that stand at the suspended tokens, and no file has been closed yet. -/
theorem entered (registered : ∀ file ∈ s.files, file.Registered s.root s.sources)
    (stacked : Stacked s.files s.suspended) {path : Path} {text : String}
    (hnext : (TokenStream.ofSource ⟨path, text⟩ s.sources.size).next = .ok (t, stream)) :
    { s with
      sources := s.sources.add ⟨path, text⟩
      files := ⟨s.directoryOf path, path, stream⟩ :: s.files
      current := t }.Aligned := by
  obtain ⟨hsource, hnumber, hspan⟩ := TokenStream.next_source hnext
  refine ⟨?_, ?_, ?_, stacked⟩
  · intro g hg
    rcases List.mem_cons.1 hg with rfl | hg
    · refine ⟨?_, ?_, rfl⟩
      · rw [hnumber, hsource]
        exact SourceTable.get?_add_size s.sources ⟨path, text⟩
      · rw [hsource]
        rfl
    · exact (registered g hg).add _
  · rw [hspan, hnumber]
  · -- the new source has the number of those before it, and theirs are less
    intro g hg
    rw [hnumber]
    exact (registered g hg).number_lt

theorem enter (registered : ∀ file ∈ s.files, file.Registered s.root s.sources) (stacked : Stacked s.files s.suspended)
    {path : Path} {text : String} (hs : s.enter path text = .ok s') : s'.Aligned ∧ s'.Settled := by
  obtain ⟨t, stream, hnext, rfl⟩ := exists_of_enter hs
  have aligned := entered registered stacked hnext
  exact ⟨aligned.settle, aligned.settled_settle⟩

theorem openText {name : Path} {text : String} (hs : s.openText name text = .ok s') : s'.Aligned ∧ s'.Settled :=
  enter (s := { s with files := [], suspended := [] }) (fun _ h => absurd h (by simp)) trivial hs

theorem loadFile (h : s.Aligned) {path : Located String} {found : Lookup} (hs : s.loadFile path found = .ok s') :
    s'.Aligned := by
  obtain ⟨-, text, next, henter, hskip⟩ := exists_of_loadFile hs
  obtain ⟨entered, -⟩ := enter (s := s.suspend) h.registered h.stacked henter
  exact entered.skipComments hskip

end Aligned

end Session

end BundleConf
