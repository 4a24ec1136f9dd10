import BundleConf.Proofs.Session.Alignment
import BundleConf.Proofs.Session.Reading

/-!
# The tokens that a session passes

A session that has opened a root file goes on by advancing past its current token and by including files, in any order
(`Session.Passes`).  What it passes is told source by source: at any time the tokens of a source are those that have
been passed and the rest (`Leaves`), and a token is real if it is one of those that its source delivers
(`SourceTable.Holds`).
-/

namespace BundleConf

/-- Of the tokens of the source all have been passed but the rest, and in their order; the rest may end in a failure. -/
def Leaves (passed : List (Located Token)) (source : Source) (number : Nat)
    (rest : List (Located Token) × Option StrayCharacter) : Prop :=
  (TokenStream.ofSource source number).unread = (passed.filter (·.span.source = number) ++ rest.1, rest.2)

namespace Leaves

variable {passed : List (Located Token)} {source : Source} {number : Nat} {t : Located Token}
  {rest : List (Located Token) × Option StrayCharacter}

/-- Passing the next token of the source. -/
theorem pass (h : Leaves passed source number (t :: rest.1, rest.2)) (ht : t.span.source = number) :
    Leaves (passed ++ [t]) source number rest := by
  rw [Leaves, h, List.filter_append, List.filter_cons_of_pos (by simpa using ht), List.filter_nil, List.append_assoc,
    List.singleton_append]

/-- Passing a token of another source. -/
theorem concat (h : Leaves passed source number rest) (ht : t.span.source ≠ number) :
    Leaves (passed ++ [t]) source number rest := by
  rw [Leaves, h, List.filter_append, List.filter_cons_of_neg (by simpa using ht), List.filter_nil, List.append_nil]

/-- What has been passed of the source is among its tokens, and so is what is left. -/
theorem mem_unread (h : Leaves passed source number rest) (ht : t ∈ passed ∧ t.span.source = number ∨ t ∈ rest.1) :
    t ∈ (TokenStream.ofSource source number).unread.1 := by
  rw [h]
  simpa using ht

/-- When only the end is left the text has been lexed to its end, and its other tokens are those that were passed. -/
theorem exists_lex (h : Leaves passed source number ([t], none)) (ht : t.value = .finish) :
    ∃ us e, lex source.text = .ok (us ++ [e]) ∧ e.value = .finish ∧
      passed.filter (·.span.source = number) = us.map (·.inSource number) := by
  have hfailure : (TokenStream.ofSource source number).unread.2 = none := by rw [h]
  obtain ⟨ts, hlex, htokens⟩ := TokenStream.lex_of_unread hfailure
  rw [h] at htokens
  obtain ⟨us, es, rfl, hus, hes⟩ := List.append_eq_map_iff.1 htokens
  obtain ⟨e, rfl, rfl⟩ := List.map_eq_singleton_iff.1 hes
  exact ⟨us, e, hlex, ht, hus.symm⟩

end Leaves

/-- Every open file stands at a token. -/
theorem Stacked.exists_mem_zip {files : List OpenFile} {ts : List (Located Token)}
    (h : Stacked files ts) {file : OpenFile} (hfile : file ∈ files) : ∃ t, (file, t) ∈ files.zip ts := by
  induction files generalizing ts with
  | nil => simp at hfile
  | cons g files ih =>
    obtain ⟨t, ts, rfl, htail⟩ := h.tail
    rcases List.mem_cons.1 hfile with rfl | hfile
    · exact ⟨t, by simp⟩
    · obtain ⟨u, hu⟩ := ih htail hfile
      exact ⟨u, by simp [hu]⟩

theorem Stacked.source_of_mem_zip {files : List OpenFile} {ts : List (Located Token)} (h : Stacked files ts)
    {x : OpenFile × Located Token} (hx : x ∈ files.zip ts) : x.2.span.source = x.1.stream.number := by
  induction files generalizing ts with
  | nil => simp at hx
  | cons g files ih =>
    obtain ⟨t, ts, rfl, htail⟩ := h.tail
    rcases List.mem_cons.1 hx with rfl | hx
    · exact h.1
    · exact ih htail hx

/-- The token is one that its source delivers. -/
def SourceTable.Holds (sources : SourceTable) (t : Located Token) : Prop :=
  ∃ source, sources.get? t.span.source = some source ∧
    t ∈ (TokenStream.ofSource source t.span.source).unread.1

namespace Session

/-! ### Runs -/

/-- Ways to open a root file: from a text, or from what there is at its path. -/
inductive Opens (s : Session) : Session → Prop
  | text {name : Path} {text : String} {s' : Session} (hopen : s.openText name text = .ok s') : Opens s s'
  | root {file : Path} {found : Lookup} {s' : Session} (hopen : s.openRoot file found = .ok s') : Opens s s'

/-- With files open the session advances past the tokens, one after the other, and includes files in between; it may
draw names. -/
inductive Passes (s : Session) : List (Located Token) → Session → Prop
  | refl : Passes s [] s
  | advance {passed : List (Located Token)} {s₁ s₂ : Session} (hpasses : Passes s passed s₁) (hfiles : s₁.files ≠ [])
      (hadvance : s₁.advance = .ok s₂) : Passes s (passed ++ [s₁.current]) s₂
  | load {passed : List (Located Token)} {s₁ s₂ : Session} {requested : String} {span : Span} {found : Lookup}
      (hpasses : Passes s passed s₁) (hfiles : s₁.files ≠ [])
      (hinclude : s₁.includeFile requested span found = .ok s₂) : Passes s passed s₂
  | draw {passed : List (Located Token)} {s₁ : Session} (hpasses : Passes s passed s₁) (generated : Nat) :
      Passes s passed { s₁ with generated }

theorem Opens.exists_openText {s s' : Session} (h : s.Opens s') : ∃ name text, s.openText name text = .ok s' := by
  cases h with
  | text hopen => exact ⟨_, _, hopen⟩
  | @root file found _ hopen =>
    cases found with
    | error cause => simp [openRoot] at hopen
    | ok text => exact ⟨file, text, hopen⟩

/-- The sources that are known before a run are known after it. -/
theorem Passes.get?_sources {s₁ s : Session} {passed : List (Located Token)} (h : s₁.Passes passed s) {number : Nat}
    {source : Source} (hsource : s₁.sources.get? number = some source) : s.sources.get? number = some source := by
  induction h with
  | refl => exact hsource
  | advance _ _ hadvance ih =>
    rcases cases_of_advance hadvance with ⟨-, rfl⟩ | ⟨_, _, _, _, -, -, rfl⟩
    · exact ih
    · exact ih
  | load _ _ hinclude ih =>
    obtain ⟨-, text, -, henter⟩ := exists_of_includeFile hinclude
    obtain ⟨_, _, -, rfl⟩ := exists_of_enter henter
    exact SourceTable.get?_add_of_eq_some ih _
  | draw _ _ ih => exact ih

/-- A run that starts with no file open goes nowhere. -/
theorem Passes.files_eq_nil {s₁ s : Session} {passed : List (Located Token)} (h : s₁.Passes passed s)
    (hfiles : s₁.files = []) : s.files = [] := by
  induction h with
  | refl => exact hfiles
  | advance _ hopen _ ih => exact absurd ih hopen
  | load _ hopen _ ih => exact absurd ih hopen
  | draw _ _ ih => exact ih

/-- While files are open the first of them is not empty. -/
theorem Passes.exists_root {s₀ s₁ s : Session} {passed : List (Located Token)} (hopen : s₀.Opens s₁)
    (h : s₁.Passes passed s) (hfiles : s.files ≠ []) :
    ∃ source, s.sources.get? s₀.sources.size = some source ∧ source.chars ≠ [] := by
  obtain ⟨name, text, htext⟩ := hopen.exists_openText
  obtain ⟨t, stream, hnext, rfl⟩ := exists_of_enter htext
  refine ⟨_, h.get?_sources (SourceTable.get?_add_size s₀.sources _), fun hempty => hfiles (h.files_eq_nil ?_)⟩
  -- an empty file is closed as soon as it is opened
  have hfinish : t.value = .finish := by
    by_cases ht : t.value = .finish
    · exact ht
    · have hlt := TokenStream.length_rest_next_lt hnext ht
      exact absurd (Nat.lt_of_lt_of_eq hlt (congrArg List.length hempty)) (Nat.not_lt_zero _)
  exact congrArg Prod.fst (settleWith_of_finish (.inl rfl) hfinish)

/-- A session that passes over comments goes on with its run. -/
theorem Passes.skipComments {s₁ s s' : Session} {passed : List (Located Token)} (h : s₁.Passes passed s)
    (hs : s.skipComments = .ok s') :
    ∃ comments, s₁.Passes (passed ++ comments) s' ∧ ∀ t ∈ comments, t.value.isComment = true := by
  fun_induction Session.skipComments s generalizing passed with
  | case1 => simp at hs
  | case2 s hcomment next hnext ih =>
    obtain ⟨comments, hpasses, hcomments⟩ := ih (h.advance hcomment.2 hnext) hs
    refine ⟨s.current :: comments, by simpa using hpasses, List.forall_mem_cons.2 ⟨hcomment.1, hcomments⟩⟩
  | case3 s hcomment =>
    cases hs
    exact ⟨[], by simpa using h⟩

/-- If it cannot pass over all of them it fails at an advance of its run. -/
theorem Passes.advance_of_skipComments {s₁ s : Session} {passed : List (Located Token)} {failure : Failure}
    (h : s₁.Passes passed s) (hs : s.skipComments = .error failure) :
    ∃ passed' s', s₁.Passes passed' s' ∧ s'.advance = .error failure := by
  fun_induction Session.skipComments s generalizing passed with
  | case1 s _ cause hcause =>
    obtain rfl : cause = failure := by simpa using hs
    exact ⟨passed, s, h, hcause⟩
  | case2 s hcomment next hnext ih => exact ih (h.advance hcomment.2 hnext) hs
  | case3 => simp at hs

end Session

end BundleConf
