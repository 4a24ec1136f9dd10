import BundleConf.Proofs.Session.Calls
import BundleConf.Proofs.Session.Renumbering

/-!
# Back from an included file

A session that includes a file and reads on, including further files on the way, comes back to exactly where it was:
when no more files are open than before, the same files are open and have been read as far as before, the same tokens
are suspended and the same one is current (`Session.include_undone`).  Only the sources of the included files have come
to those of the session.  A file of `n` tokens that includes nothing is left after `n` steps.

In between the session stands above where it was (`Session.Above`): its files are those of before under the ones
opened since, and at each of these, as at the file that was left, a token is waiting that is no end.  So when a file
comes to its end the one below is resumed, and no further one is closed with it (`Session.settleWith_cons_of_finish`).
-/

namespace BundleConf.Session

variable {s t t' : Session} {loaded : Nat}

/-! ### One call more -/

private theorem afterCalls_cons {c : Call} (h : s.call c = .ok t) (calls : List Call) :
    s.afterCalls (c :: calls) = t.afterCalls calls := by
  rw [afterCalls, List.foldl_cons, h]
  rfl

private theorem succeeds_cons {c : Call} {calls : List Call} (h : s.call c = .ok t) (hcalls : t.Succeeds calls) :
    s.Succeeds (c :: calls) :=
  ⟨by rw [h]; rfl, by rw [h]; exact hcalls⟩

/-! ### Above a session -/

/-- A file at its end is closed alone if the file below is resumed at a token that is no end. -/
theorem settleWith_cons_of_finish {file : OpenFile} {files : List OpenFile} {current token : Located Token}
    {suspended : List (Located Token)} (hfiles : files ≠ []) (hcurrent : current.value = .finish)
    (htoken : token.value ≠ .finish) :
    settleWith (file :: files) (token :: suspended) current = (files, suspended, token) := by
  obtain ⟨below, files, rfl⟩ := List.exists_cons_of_ne_nil hfiles
  rw [settleWith, if_neg (by simp [hcurrent]), if_neg (by simp), settleWith_of_ne htoken]

/-- The second session has opened files on top of those of the first one, each at a token that is no end; it has loaded
so many, and has not touched anything else. -/
structure Above (s : Session) (loaded : Nat) (t : Session) : Prop where
  root : t.root = s.root
  generated : t.generated = s.generated
  sources : ∃ added : SourceTable, added.size = loaded ∧ t.sources = s.sources.append added
  stack : ∃ opened waiting, t.files = opened ++ s.files ∧
    t.current :: t.suspended = waiting ++ s.current :: s.suspended ∧ waiting.length = opened.length ∧
      ∀ u ∈ waiting, u.value ≠ .finish

namespace Above

theorem refl (s : Session) : s.Above 0 s :=
  ⟨rfl, rfl, ⟨.empty, rfl, (SourceTable.append_empty _).symm⟩, [], [], rfl, rfl, rfl, by simp⟩

/-- With as many files open as before the session is back where it was. -/
theorem eq_of_depth (h : s.Above loaded t) (hdepth : t.depth = s.depth) : t = { s with sources := t.sources } := by
  obtain ⟨opened, waiting, hfiles, hwaiting, hlength, -⟩ := h.stack
  have length : opened.length + s.files.length = s.files.length := by
    rw [← List.length_append, ← hfiles]
    exact hdepth
  obtain rfl : opened = [] := List.eq_nil_of_length_eq_zero (by omega)
  obtain rfl : waiting = [] := List.eq_nil_of_length_eq_zero hlength
  obtain ⟨hcurrent, hsuspended⟩ := List.cons.inj hwaiting
  obtain ⟨root, sources, files, suspended, current, generated⟩ := t
  obtain ⟨rfl, rfl, -, -⟩ := h
  obtain rfl : files = s.files := hfiles
  obtain rfl : suspended = s.suspended := hsuspended
  obtain rfl : current = s.current := hcurrent
  rfl

/-- Settling resumes at most the file below. -/
private theorem stack_settle {file : OpenFile} {opened : List OpenFile} {waiting : List (Located Token)}
    (hopen : s.files ≠ []) (hcurrent : s.current.value ≠ .finish) (hfiles : t.files = file :: (opened ++ s.files))
    (hsuspended : t.suspended = waiting ++ s.current :: s.suspended) (hlength : waiting.length = opened.length)
    (hvalues : ∀ u ∈ waiting, u.value ≠ .finish) :
    ∃ opened waiting, t.settle.files = opened ++ s.files ∧
      t.settle.current :: t.settle.suspended = waiting ++ s.current :: s.suspended ∧ waiting.length = opened.length ∧
        ∀ u ∈ waiting, u.value ≠ .finish := by
  have cursor : t.settle.cursor = settleWith (file :: (opened ++ s.files)) (waiting ++ s.current :: s.suspended)
      t.current := by
    rw [cursor_settle, hfiles, hsuspended]
  by_cases hfinish : t.current.value = .finish
  · have below : opened ++ s.files ≠ [] := by simp [hopen]
    obtain ⟨token, suspended, hnext, htoken⟩ : ∃ token suspended,
        waiting ++ s.current :: s.suspended = token :: suspended ∧ token.value ≠ .finish := by
      cases waiting with
      | nil => exact ⟨_, _, rfl, hcurrent⟩
      | cons u waiting => exact ⟨u, _, rfl, hvalues u List.mem_cons_self⟩
    rw [hnext, settleWith_cons_of_finish below hfinish htoken] at cursor
    obtain ⟨hf, hs, hc⟩ : t.settle.files = opened ++ s.files ∧ t.settle.suspended = suspended ∧
        t.settle.current = token := by simpa [Session.cursor] using cursor
    exact ⟨opened, waiting, hf, by rw [hs, hc, hnext], hlength, hvalues⟩
  · rw [settleWith_of_ne hfinish] at cursor
    obtain ⟨hf, hs, hc⟩ : t.settle.files = file :: (opened ++ s.files) ∧
        t.settle.suspended = waiting ++ s.current :: s.suspended ∧ t.settle.current = t.current := by
      simpa [Session.cursor] using cursor
    exact ⟨file :: opened, t.current :: waiting, hf, by rw [hs, hc, List.cons_append], by simp [hlength],
      List.forall_mem_cons.2 ⟨hfinish, hvalues⟩⟩

/-- Including a file leads further up, or straight back if the file is empty. -/
theorem includeFile (h : s.Above loaded t) (hopen : s.files ≠ []) (hcurrent : s.current.value ≠ .finish)
    {requested : String} {span : Span} {found : Lookup} (hinclude : t.includeFile requested span found = .ok t') :
    s.Above (loaded + 1) t' := by
  obtain ⟨-, text, -, henter⟩ := exists_of_includeFile hinclude
  obtain ⟨token, stream, -, rfl⟩ := exists_of_enter henter
  obtain ⟨added, hsize, hsources⟩ := h.sources
  obtain ⟨opened, waiting, hfiles, hwaiting, hlength, hvalues⟩ := h.stack
  refine ⟨h.root, h.generated, ⟨added.add ⟨t.includePath requested, text⟩, by rw [SourceTable.size_add, hsize], ?_⟩, ?_⟩
  · rw [← SourceTable.add_append, ← hsources]
    rfl
  · exact stack_settle hopen hcurrent (congrArg (List.cons _) hfiles) hwaiting hlength hvalues

/-- As long as a file is open on top, advancing leads on in it, or back to the file below. -/
theorem advance (h : s.Above loaded t) (hopen : s.files ≠ []) (hcurrent : s.current.value ≠ .finish)
    (hdepth : t.depth ≠ s.depth) (hadvance : t.advance = .ok t') : s.Above loaded t' := by
  obtain ⟨opened, waiting, hfiles, hwaiting, hlength, hvalues⟩ := h.stack
  cases opened with
  | nil => exact absurd (congrArg List.length hfiles) hdepth
  | cons file opened =>
    obtain ⟨token, waiting, rfl⟩ := List.exists_cons_of_length_eq_add_one hlength
    obtain ⟨rfl, hsuspended⟩ := List.cons.inj hwaiting
    rcases cases_of_advance hadvance with ⟨hnil, -⟩ | ⟨file', files, token, stream, hfiles', -, rfl⟩
    · simp [hfiles] at hnil
    · obtain ⟨rfl, rfl⟩ := List.cons.inj (hfiles'.symm.trans hfiles)
      exact ⟨h.root, h.generated, h.sources, stack_settle hopen hcurrent rfl hsuspended (by simpa using hlength)
        (List.forall_mem_cons.1 hvalues).2⟩

/-- The session stays above where it was until as many files are open as before. -/
theorem afterCalls (h : s.Above loaded t) (hopen : s.files ≠ []) (hcurrent : s.current.value ≠ .finish)
    {calls : List Call} (hcalls : ∀ c ∈ calls, c.IsInclude ∨ c = .advance) (hs : t.Succeeds calls)
    (hdepth : ∀ k < calls.length, (t.afterCalls (calls.take k)).depth ≠ s.depth) :
    s.Above (loaded + calls.countP fun c => c.IsInclude) (t.afterCalls calls) := by
  induction calls generalizing t loaded with
  | nil => exact h
  | cons c calls ih =>
    have hok : t.call c = .ok (t.call c).session := Outcome.eq_ok_of_isOk hs.1
    have hcalls' : ∀ c ∈ calls, c.IsInclude ∨ c = .advance := fun d hd => hcalls d (List.mem_cons_of_mem _ hd)
    have hdepth' : ∀ k < calls.length, ((t.call c).session.afterCalls (calls.take k)).depth ≠ s.depth :=
      fun k hk => hdepth (k + 1) (Nat.succ_lt_succ hk)
    cases c with
    | includeFile requested span found =>
      have next : s.Above (loaded + 1) (t.call (.includeFile requested span found)).session :=
        h.includeFile hopen hcurrent hok
      rw [List.countP_cons_of_pos (by rfl), Nat.add_comm (List.countP _ _), ← Nat.add_assoc]
      exact ih next hcalls' hs.2 hdepth'
    | advance =>
      have next : s.Above loaded (t.call .advance).session :=
        h.advance hopen hcurrent (hdepth 0 (Nat.succ_pos _)) hok
      rw [List.countP_cons_of_neg (by decide)]
      exact ih next hcalls' hs.2 hdepth'
    | openRoot | openText => simp [Call.IsInclude] at hcalls

end Above

/-! ### A file that includes nothing -/

section

variable {file : OpenFile} {below : List OpenFile} {suspended : List (Located Token)} {waiting token : Located Token}
  {ts : List (Located Token)}

/-- The file on top of others has come to its end and has been left, or there is a token after the current one. -/
private theorem cases_of_upcoming (hbelow : below ≠ []) (hwaiting : waiting.value ≠ .finish)
    (ht : t.cursor = settleWith (file :: below) (waiting :: suspended) token)
    (hts : upcoming token file.stream = (ts, none)) :
    ts = [token] ∧ t.files = below ∨ ∃ u us, ts = token :: u :: us ∧ file.stream.unread = (u :: us, none) ∧
      t.files = file :: below ∧ t.suspended = waiting :: suspended := by
  rw [upcoming] at hts
  split at hts
  · rename_i hfinish
    obtain ⟨rfl, -⟩ := Prod.mk.inj hts
    rw [settleWith_cons_of_finish hbelow hfinish hwaiting] at ht
    exact .inl ⟨rfl, congrArg Prod.fst ht⟩
  · rename_i hfinish
    obtain ⟨rfl, hnone⟩ := Prod.mk.inj hts
    rw [settleWith_of_ne hfinish] at ht
    obtain ⟨u, us, hus⟩ : ∃ u us, file.stream.unread.1 = u :: us := by
      obtain ⟨us, e, hus, -⟩ := file.stream.exists_unread_eq_concat hnone
      exact List.exists_cons_of_ne_nil (by simp [hus])
    exact .inr ⟨u, us, by rw [hus], Prod.ext hus hnone, congrArg Prod.fst ht, congrArg (·.2.1) ht⟩

/-- A file on top of others is left when as many tokens have been passed as it has. -/
private theorem depth_afterCalls_advance (hbelow : below ≠ []) (hwaiting : waiting.value ≠ .finish)
    (ht : t.cursor = settleWith (file :: below) (waiting :: suspended) token)
    (hts : upcoming token file.stream = (ts, none)) :
    ∀ k < ts.length, t.Succeeds (List.replicate k .advance) ∧
      ((t.afterCalls (List.replicate k .advance)).depth = below.length ↔ k + 1 = ts.length) := by
  intro k hk
  induction k generalizing t file token ts with
  | zero =>
    refine ⟨trivial, ?_⟩
    change t.files.length = below.length ↔ 0 + 1 = ts.length
    rcases cases_of_upcoming hbelow hwaiting ht hts with ⟨rfl, hfiles⟩ | ⟨u, us, rfl, -, hfiles, -⟩
    · simp [hfiles]
    · simp [hfiles]
  | succ k ih =>
    rcases cases_of_upcoming hbelow hwaiting ht hts with ⟨rfl, -⟩ | ⟨u, us, rfl, hunread, hfiles, hsuspended⟩
    · simp at hk
    · cases hnext : file.stream.next with
      | error e => simp [TokenStream.unread_of_error hnext] at hunread
      | ok next =>
        obtain ⟨v, stream⟩ := next
        obtain ⟨t', hadvance, -, ht'⟩ := advance_of_next hfiles hnext
        have hcall : t.call .advance = .ok t' := hadvance
        rw [hsuspended] at ht'
        rw [unread_eq_upcoming hnext] at hunread
        obtain ⟨hsucceeds, hdepth⟩ := ih ht' hunread (Nat.lt_of_succ_lt_succ hk)
        rw [List.replicate_succ, afterCalls_cons hcall]
        exact ⟨succeeds_cons hcall hsucceeds, by simpa using hdepth⟩

end

/-- A text that is lexed can be included, and stands at its first token then. -/
private theorem exists_includeFile_of_lex {text : String} {ts : List (Located Token)} (hlex : lex text = .ok ts)
    (hdepth : s.depth < maxDepth) (requested : String) (span : Span) :
    ∃ t file token, s.includeFile requested span (.ok text) = .ok t ∧
      t.cursor = settleWith (file :: s.files) (s.current :: s.suspended) token ∧
      upcoming token file.stream = (ts.map (·.inSource s.sources.size), none) := by
  let stream := TokenStream.ofSource ⟨s.includePath requested, text⟩ s.sources.size
  have unread : stream.unread = (ts.map (·.inSource s.sources.size), none) := by
    have same := TokenStream.sameText_ofSource .input (s.includePath requested) text 0 s.sources.size
    obtain ⟨htokens, hfailure⟩ := same.unread_eq
    rw [lex_eq_ok_iff.1 hlex] at htokens hfailure
    exact Prod.ext htokens (by simpa using hfailure)
  cases hnext : stream.next with
  | error e => simp [TokenStream.unread_of_error hnext] at unread
  | ok next =>
    obtain ⟨token, stream'⟩ := next
    rw [unread_eq_upcoming hnext] at unread
    have henter : s.includeFile requested span (.ok text) = .ok { s.suspend with
        sources := s.sources.add ⟨s.includePath requested, text⟩
        files := ⟨s.directoryOf (s.includePath requested), s.includePath requested, stream'⟩ :: s.files
        current := token }.settle := by
      rw [includeFile_of_text hdepth, enter]
      dsimp only
      rw [show s.suspend.sources = s.sources from rfl, hnext]
      rfl
    exact ⟨_, _, token, henter, rfl, unread⟩

/-! ### Back again -/

/-- The calls bring the session back to the depth that it had, and none but the last does so. -/
def Returns (s : Session) (calls : List Call) : Prop :=
  (s.afterCalls calls).depth = s.depth ∧ ∀ k < calls.length, 0 < k → (s.afterCalls (calls.take k)).depth ≠ s.depth

instance (calls : List Call) : Decidable (s.Returns calls) :=
  inferInstanceAs (Decidable (_ ∧ _))

/-- An include is undone exactly: when the session is back at its depth it is what it was before, with the sources of
the included files added.  A file that includes nothing itself takes a step for each of its tokens. -/
theorem include_undone (hopen : s.files ≠ []) (hcurrent : s.current.value ≠ .finish) :
    (∀ (c : Call) (calls : List Call), c.IsInclude → (∀ d ∈ calls, d.IsInclude ∨ d = .advance) →
      s.Succeeds (c :: calls) → s.Returns (c :: calls) →
      ∃ added : SourceTable, added.size = (c :: calls).countP (fun d => d.IsInclude) ∧
        s.afterCalls (c :: calls) = { s with sources := s.sources.append added }) ∧
    ∀ (requested : String) (span : Span) (text : String) (ts : List (Located Token)), lex text = .ok ts →
      s.depth < maxDepth → ∀ k < ts.length,
        s.Succeeds (.includeFile requested span (.ok text) :: List.replicate k .advance) ∧
        ((s.afterCalls (.includeFile requested span (.ok text) :: List.replicate k .advance)).depth = s.depth ↔
          k + 1 = ts.length) := by
  refine ⟨fun c calls hc hcalls hs hreturns => ?_, fun requested span text ts hlex hdepth k hk => ?_⟩
  · have hok : s.call c = .ok (s.call c).session := Outcome.eq_ok_of_isOk hs.1
    have hdepth : ∀ k < calls.length, ((s.call c).session.afterCalls (calls.take k)).depth ≠ s.depth :=
      fun k hk => hreturns.2 (k + 1) (Nat.succ_lt_succ hk) (Nat.succ_pos k)
    cases c with
    | includeFile requested span found =>
      have above : s.Above 1 (s.call (.includeFile requested span found)).session :=
        (Above.refl s).includeFile hopen hcurrent hok
      have back := above.afterCalls hopen hcurrent hcalls hs.2 hdepth
      obtain ⟨added, hsize, hsources⟩ := back.sources
      refine ⟨added, ?_, ?_⟩
      · rw [hsize, List.countP_cons_of_pos (by rfl), Nat.add_comm]
      · rw [← hsources]
        exact back.eq_of_depth hreturns.1
    | openRoot | openText | advance => exact hc.elim
  · obtain ⟨t, file, token, hinclude, ht, htokens⟩ := exists_includeFile_of_lex hlex hdepth requested span
    have hcall : s.call (.includeFile requested span (.ok text)) = .ok t := hinclude
    have hleft := depth_afterCalls_advance hopen hcurrent ht htokens k (by simpa using hk)
    rw [List.length_map] at hleft
    rw [afterCalls_cons hcall]
    exact ⟨succeeds_cons hcall hleft.1, hleft.2⟩

/-- Inside a file before whose last token another is included: an empty one at its first token, and one of a comment
only at its last. -/
theorem include_undone_nested :
    let s := (new ⟨"."⟩).afterCalls [.openText ⟨"app.conf"⟩ "routes ;", .advance]
    let calls : List Call := [.includeFile "a.conf" ⟨7, 8, 0⟩ (.ok "ui // é"), .includeFile "b.conf" ⟨0, 2, 1⟩ (.ok ""),
      .advance, .includeFile "c.conf" ⟨3, 8, 1⟩ (.ok "// x"), .advance, .advance]
    s.files ≠ [] ∧ s.current.value = .mark .semicolon ∧ s.Succeeds calls ∧ s.Returns calls ∧
      (∃ added : SourceTable, added.size = 3 ∧ s.afterCalls calls = { s with sources := s.sources.append added }) ∧
      (s.afterCalls [.includeFile "a.conf" ⟨7, 8, 0⟩ (.ok "ui // é"), .advance, .advance]).depth = s.depth := by
  intro s calls
  have depth : s.depth = 1 := by decide +kernel
  have hopen : s.files ≠ [] := fun hnil => by
    have : s.depth = 0 := congrArg List.length hnil
    omega
  have current : s.current.value = .mark .semicolon := by decide +kernel
  have succeeds : s.Succeeds calls := by decide +kernel
  have returns : s.Returns calls := by decide +kernel
  have hlength : (lex "ui // é").toOption.map List.length = some 3 := by decide +kernel
  obtain ⟨undone, leaves⟩ := include_undone hopen (by rw [current]; simp)
  refine ⟨hopen, current, succeeds, returns,
    undone _ _ (by exact trivial) (by simp [Call.IsInclude]) succeeds returns, ?_⟩
  cases hlex : lex "ui // é" with
  | error e => simp [hlex, Except.toOption] at hlength
  | ok ts =>
    have : ts.length = 3 := by simpa [hlex, Except.toOption] using hlength
    obtain ⟨-, hback⟩ := leaves "a.conf" ⟨7, 8, 0⟩ "ui // é" ts hlex (by rw [depth]; decide) 2 (by omega)
    exact hback.2 (by omega)

end BundleConf.Session
