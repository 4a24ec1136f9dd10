import BundleConf.Session.Basic

/-!
# Progress of a session

Advancing a session with an open file brings the end of the open files closer: `unread_advance_lt`.  So comments can
be passed over one after the other, and a reader who only advances comes to an end.
-/

namespace BundleConf.Session

/-- What is left of some files: their unread characters, and one for the end of each. -/
def unreadOf : List OpenFile → Nat
  | [] => 0
  | file :: files => file.stream.rest.length + 1 + unreadOf files

/-- What is left of the open files. -/
def unread (s : Session) : Nat :=
  unreadOf s.files

private theorem unreadOf_tail_lt (file : OpenFile) (files : List OpenFile) :
    unreadOf files < unreadOf (file :: files) := by
  rw [unreadOf]
  omega

private theorem unreadOf_settleWith_le (files : List OpenFile) (suspended : List (Located Token))
    (current : Located Token) : unreadOf (settleWith files suspended current).1 ≤ unreadOf files := by
  fun_induction settleWith files suspended current with
  | case1 => exact Nat.le_refl _
  | case2 => exact Nat.le_refl _
  | case3 => exact Nat.zero_le _
  | case4 => exact Nat.le_of_lt (unreadOf_tail_lt _ _)
  | case5 _ _ _ _ _ _ _ ih => exact Nat.le_trans ih (Nat.le_of_lt (unreadOf_tail_lt _ _))

private theorem unreadOf_settleWith_lt {file : OpenFile} {files : List OpenFile} {suspended : List (Located Token)}
    {current : Located Token} (h : current.value = .finish) :
    unreadOf (settleWith (file :: files) suspended current).1 < unreadOf (file :: files) := by
  have tail := unreadOf_tail_lt file files
  rw [settleWith.eq_def]
  dsimp only
  rw [if_neg (by simp [h])]
  split
  · exact Nat.lt_of_le_of_lt (Nat.zero_le _) tail
  · split
    · exact tail
    · exact Nat.lt_of_le_of_lt (unreadOf_settleWith_le _ _ _) tail

theorem unread_settle_le (s : Session) : s.settle.unread ≤ s.unread :=
  unreadOf_settleWith_le s.files s.suspended s.current

/-- With a file open, advancing leaves less to read. -/
theorem unread_advance_lt {s s' : Session} (h : s.advance = .ok s') (hfiles : s.files ≠ []) : s'.unread < s.unread := by
  obtain ⟨file, files, hs⟩ := List.exists_cons_of_ne_nil hfiles
  rw [advance, hs] at h
  dsimp only at h
  split at h
  · simp at h
  · rename_i token stream hnext
    cases h
    have before : s.unread = file.stream.rest.length + 1 + unreadOf files := by
      rw [unread, hs, unreadOf]
    have opened : unreadOf ({ file with stream } :: files) = stream.rest.length + 1 + unreadOf files := rfl
    rw [before]
    by_cases ht : token.value = .finish
    · have hlt := @unreadOf_settleWith_lt { file with stream } files s.suspended token ht
      have hle := TokenStream.length_rest_next_le hnext
      rw [opened] at hlt
      refine Nat.lt_of_lt_of_le hlt ?_
      omega
    · have hlt := TokenStream.length_rest_next_lt hnext ht
      refine Nat.lt_of_le_of_lt (unread_settle_le _) ?_
      rw [unread, opened]
      omega

/-! ### Passing over comments -/

/-- Advances past any comments. -/
def skipComments (s : Session) : Outcome Session :=
  if _h : s.current.value.isComment = true ∧ s.files ≠ [] then
    match _ha : s.advance with
    | .error failure => .error failure
    | .ok s => s.skipComments
  else .ok s
termination_by s.unread
decreasing_by exact unread_advance_lt _ha _h.2

theorem unread_skipComments_le {s s' : Session} (h : s.skipComments = .ok s') : s'.unread ≤ s.unread := by
  fun_induction skipComments s with
  | case1 => simp at h
  | case2 s hs next hnext ih => exact Nat.le_trans (ih h) (Nat.le_of_lt (unread_advance_lt hnext hs.2))
  | case3 s hs =>
    cases h
    exact Nat.le_refl _

/-- Goes on to the next token that is not a comment. -/
def proceed (s : Session) : Outcome Session :=
  s.advance.bind skipComments

theorem unread_proceed_lt {s s' : Session} (h : s.proceed = .ok s') (hfiles : s.files ≠ []) :
    s'.unread < s.unread := by
  rw [proceed] at h
  cases ha : s.advance with
  | error failure => simp [ha, Except.bind] at h
  | ok next =>
    rw [ha] at h
    exact Nat.lt_of_le_of_lt (unread_skipComments_le h) (unread_advance_lt ha hfiles)

/-- The token that a reader sees: with no file open it is the end. -/
def lookahead (s : Session) : Located Token :=
  if s.isFinished then { s.current with value := .finish } else s.current

theorem files_ne_nil_of_lookahead {s : Session} (h : s.lookahead.value ≠ .finish) : s.files ≠ [] := by
  intro hs
  simp [lookahead, isFinished, hs] at h

end BundleConf.Session
