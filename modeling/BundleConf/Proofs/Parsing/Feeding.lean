import BundleConf.Proofs.Parsing.Machine
import BundleConf.Proofs.Session.Reading
import BundleConf.Proofs.Session.Steps

/-!
# Feeding a machine

A parse of the tokens that a session reads does what its machine does with these tokens.  At every token it stops or
goes on to the next one (`feed_cases`).  As long as the machine runs, feeding goes on at the token after the ones it has
taken (`feed_run`), and where the machine stops the parse stops for the same reason.  For a session that reads a text on
its own, `feed_eq_finished` and `feed_eq_failed` tell from the machine how the parse ends, and `exists_refused_of_feed`
tells from a failed parse what the machine has refused.
-/

namespace BundleConf

/-- The machine of a parse, in a session and with a parser. -/
def Session.machine (s : Session) (p : Parser) : Machine :=
  ⟨s.generated, p⟩

theorem Session.machine_of_generated {s : Session} {m : Machine} (h : s.generated = m.generated) :
    s.machine m.parser = m := by
  rw [machine, h]

theorem nameUnnamed_eq (s : Session) (p : Parser) :
    nameUnnamed s p = ({ s with generated := ((s.machine p).named s.lookahead.value).generated },
      ((s.machine p).named s.lookahead.value).parser) := by
  obtain ⟨app, state⟩ := p
  unfold nameUnnamed Machine.named
  cases state with
  | packageName site => cases s.lookahead.value <;> rfl
  | _ => rfl

/-! ### Unfolding -/

section Unfolding

variable {s s' s'' : Session} {p p' p'' : Parser} {expected : Expectation} {path : Located String}
  {t : Located Token}

/-- What becomes of a token that the parser takes. -/
private def takeNext (s : Session) (next : Except (Located Conflict) Parser) : Stop :=
  match s.proceed with
  | .error failure => .failed failure
  | .ok s =>
    match next with
    | .error conflict => .failed ⟨.conflict conflict.value (s.location conflict.span), s⟩
    | .ok p => feed s p

private theorem feed_of_take_next {next : Except (Located Conflict) Parser} (hn : nameUnnamed s p = (s', p'))
    (look : s'.lookahead = t) (h : p'.react t = .take next) : feed s p = takeNext s' next := by
  subst look
  obtain ⟨rfl, rfl⟩ : (nameUnnamed s p).1 = s' ∧ (nameUnnamed s p).2 = p' := by simp [hn]
  rw [feed, takeNext]
  split
  case h_4 next' hnext' =>
    obtain rfl : next = next' := by simpa [h] using hnext'
    split
    · rename_i failure hp
      rw [hp]
    · rename_i s'' hp
      rw [hp]
      cases next <;> rfl
  all_goals simp_all

private theorem feed_of_finish (hn : nameUnnamed s p = (s', p')) (look : s'.lookahead = t)
    (h : p'.react t = .finish) : feed s p = .finished p'.app s' := by
  subst look
  obtain ⟨rfl, rfl⟩ : (nameUnnamed s p).1 = s' ∧ (nameUnnamed s p).2 = p' := by simp [hn]
  rw [feed]
  split <;> simp_all

private theorem feed_of_refuse (hn : nameUnnamed s p = (s', p')) (look : s'.lookahead = t)
    (h : p'.react t = .refuse expected) :
    feed s p = .failed ⟨.unexpected expected t.value.kind (s'.location t.span), s'⟩ := by
  subst look
  obtain ⟨rfl, rfl⟩ : (nameUnnamed s p).1 = s' ∧ (nameUnnamed s p).2 = p' := by simp [hn]
  rw [feed]
  split <;> simp_all

private theorem feed_of_load (hn : nameUnnamed s p = (s', p')) (look : s'.lookahead = t)
    (h : p'.react t = .load path) : feed s p = .load path s' p' := by
  subst look
  obtain ⟨rfl, rfl⟩ : (nameUnnamed s p).1 = s' ∧ (nameUnnamed s p).2 = p' := by simp [hn]
  rw [feed]
  split <;> simp_all

end Unfolding

/-! ### What becomes of a token -/

/-- A parse stops at the token it has come to. -/
inductive StopsAt (s : Session) (p : Parser) : Stop → Prop
  | finished {app : App} (hstep : (s.machine p).step s.lookahead = .error (.finished app)) :
      StopsAt s p (.finished app s)
  | load {path : Located String} (hstep : (s.machine p).step s.lookahead = .error (.load path)) :
      StopsAt s p (.load path s p)
  | refused {expected : Expectation} (generated : Nat)
      (hstep : (s.machine p).step s.lookahead = .error (.refused expected)) :
      StopsAt s p (.failed ⟨.unexpected expected s.lookahead.value.kind (s.location s.lookahead.span),
        { s with generated }⟩)
  /-- The tokens of the session end with a stray character. -/
  | stray {failure : Failure} (generated : Nat) (hopen : s.files ≠ [])
      (hproceed : { s with generated }.proceed = .error failure) : StopsAt s p (.failed failure)
  /-- A conflict comes to light at the token after it. -/
  | conflict {cause : Located Conflict} {s' : Session} (generated : Nat)
      (hstep : (s.machine p).step s.lookahead = .error (.conflict cause)) (hopen : s.files ≠ [])
      (hproceed : { s with generated }.proceed = .ok s') :
      StopsAt s p (.failed ⟨.conflict cause.value (s'.location cause.span), s'⟩)

/-- A parse stops at the token it has come to, or its machine takes the token and the parse goes on at the next one. -/
theorem feed_cases (s : Session) (p : Parser) : StopsAt s p (feed s p) ∨
    ∃ m s', (s.machine p).step s.lookahead = .ok m ∧ s.files ≠ [] ∧
      { s with generated := m.generated }.proceed = .ok s' ∧ feed s p = feed s' m.parser := by
  have hn := nameUnnamed_eq s p
  cases hreact : ((s.machine p).named s.lookahead.value).parser.react s.lookahead with
  | refuse expected =>
    have hstep : (s.machine p).step s.lookahead = .error (.refused expected) := by
      rw [Machine.step, hreact]
    rw [feed_of_refuse hn rfl hreact]
    exact .inl (.refused _ hstep)
  | finish =>
    have hstep : (s.machine p).step s.lookahead =
        .error (.finished ((s.machine p).named s.lookahead.value).parser.app) := by
      rw [Machine.step, hreact]
    obtain ⟨hstate, -⟩ := Machine.react_of_step_finished hstep
    have self := Machine.named_eq_self (m := s.machine p) (by rw [hstate]; simp) s.lookahead.value
    rw [feed_of_finish hn rfl hreact, self]
    rw [self] at hstep
    exact .inl (.finished hstep)
  | load path =>
    have hstep : (s.machine p).step s.lookahead = .error (.load path) := by
      rw [Machine.step, hreact]
    obtain ⟨hstate, -⟩ := Machine.react_of_step_load hstep
    rw [feed_of_load hn rfl hreact, Machine.named_eq_self (by rw [hstate]; simp)]
    exact .inl (.load hstep)
  | take next =>
    have hopen : s.files ≠ [] :=
      Session.files_ne_nil_of_lookahead fun hvalue => Parser.react_ne_take_of_finish hvalue _ hreact
    rw [feed_of_take_next hn rfl hreact, takeNext]
    split
    · rename_i failure hproceed
      exact .inl (.stray _ hopen hproceed)
    · rename_i s' hproceed
      cases next with
      | error cause =>
        have hstep : (s.machine p).step s.lookahead = .error (.conflict cause) := by
          rw [Machine.step, hreact]
        exact .inl (.conflict _ hstep hopen hproceed)
      | ok p' =>
        have hstep : (s.machine p).step s.lookahead =
            .ok ⟨((s.machine p).named s.lookahead.value).generated, p'⟩ := by
          rw [Machine.step, hreact]
        exact .inr ⟨_, s', hstep, hopen, hproceed, rfl⟩

/-- Before a parse asks for a file it has come to the semicolon of the include, one token after the other. -/
theorem feed_load_cases {s s' : Session} {p p' : Parser} {path : Located String} (h : feed s p = .load path s' p') :
    (s' = s ∧ p' = p ∧ p.state = .includeEnd path ∧ s.lookahead.value = .mark .semicolon) ∨
    ∃ m s'', (s.machine p).step s.lookahead = .ok m ∧ s.files ≠ [] ∧
      { s with generated := m.generated }.proceed = .ok s'' ∧ feed s'' m.parser = .load path s' p' := by
  rcases feed_cases s p with hstop | ⟨m, s'', hstep, hopen, hproceed, hfeed⟩
  · rw [h] at hstop
    cases hstop with
    | load hstep =>
      obtain ⟨hstate, hvalue⟩ := Machine.react_of_step_load hstep
      exact .inl ⟨rfl, rfl, hstate, hvalue⟩
  · exact .inr ⟨m, s'', hstep, hopen, hproceed, hfeed.symm.trans h⟩

/-- A parse fails at a token that is refused, at a conflict, or because the session cannot go on. -/
theorem feed_failed_cases {s : Session} {p : Parser} {failure : Failure} (h : feed s p = .failed failure) :
    (∃ expected found location, failure.error = .unexpected expected found location) ∨
    (∃ cause location, failure.error = .conflict cause location) ∨
    (∃ generated, { s with generated }.proceed = .error failure) ∨
    ∃ generated p' s', s.files ≠ [] ∧ { s with generated }.proceed = .ok s' ∧ feed s' p' = .failed failure := by
  rcases feed_cases s p with hstop | ⟨m, s', -, hopen, hproceed, hfeed⟩
  · rw [h] at hstop
    cases hstop with
    | refused => exact .inl ⟨_, _, _, rfl⟩
    | stray generated _ hproceed => exact .inr (.inr (.inl ⟨generated, hproceed⟩))
    | conflict => exact .inr (.inl ⟨_, _, rfl⟩)
  · exact .inr (.inr (.inr ⟨m.generated, m.parser, s', hopen, hproceed, hfeed.symm.trans h⟩))

/-! ### One token -/

section Step

variable {file : OpenFile} {below : List OpenFile} {suspended : List (Located Token)} {s : Session} {p : Parser}
  {t t' : Located Token} {ts : List (Located Token)} {failure : Option StrayCharacter}

/-- The first token that a session reads is the one that a parser sees, the end of an included file apart. -/
theorem Session.Reads.lookahead_eq (resumable : Session.Resumable below suspended)
    (h : s.Reads file below suspended (t :: ts) failure) (ht : t.value ≠ .finish ∨ below = []) : s.lookahead = t := by
  rcases h.cases_end resumable with ⟨e, he, hts, -, hs⟩ | ⟨stream, hfiles, -, -, hts, -⟩
  · obtain ⟨rfl, -⟩ := List.cons.inj hts
    rcases ht with ht | rfl
    · exact absurd he ht
    · obtain ⟨hfiles, -, hcurrent⟩ : s.files = [] ∧ s.suspended = suspended ∧ s.current = t := by
        simpa [Session.cursor, Session.resumed] using hs
      rw [Session.lookahead, if_pos (by simp [Session.isFinished, hfiles]), hcurrent, ← he]
  · obtain ⟨rfl, -⟩ := List.cons.inj hts
    rw [Session.lookahead, if_neg (by simp [Session.isFinished, hfiles])]

/-- Drawing names moves nothing in the files. -/
private theorem reads_drawn (h : s.Reads file below suspended ts failure) (number : Nat) :
    { s with generated := number }.Reads file below suspended ts failure := h

/-- A token that the machine takes is fed to the parser, and the next token of the file comes after it. -/
theorem feed_step (resumable : Session.Resumable below suspended)
    (h : s.Reads file below suspended (t :: t' :: ts) failure) {m : Machine} (hm : (s.machine p).step t = .ok m) :
    ∃ s', feed s p = feed s' m.parser ∧ Session.SameRecord s' { s with generated := m.generated } ∧
      s'.Reads file below suspended (t' :: ts) failure := by
  obtain ⟨-, -, ht, -⟩ := h.proceed resumable
  have look : s.lookahead = t := h.lookahead_eq resumable (.inl ht)
  have hn := nameUnnamed_eq s p
  rw [look] at hn
  obtain ⟨hreact, hgenerated⟩ := Machine.react_of_step_ok hm
  obtain ⟨-, -, -, s', hp, hrecord, hreads⟩ := (reads_drawn h m.generated).proceed resumable
  rw [hgenerated] at hp hrecord
  refine ⟨s', ?_, by rw [hgenerated]; exact hrecord, hreads⟩
  rw [feed_of_take_next hn look hreact, takeNext, hp]

theorem feed_refused (look : s.lookahead = t) {expected : Expectation}
    (hm : (s.machine p).step t = .error (.refused expected)) :
    ∃ location s', feed s p = .failed ⟨.unexpected expected t.value.kind location, s'⟩ := by
  have hn := nameUnnamed_eq s p
  rw [look] at hn
  have hreact := Machine.react_of_step_refused hm
  exact ⟨_, _, feed_of_refuse hn look hreact⟩

/-- A conflict comes to light at the token after it. -/
theorem feed_conflict (resumable : Session.Resumable below suspended)
    (h : s.Reads file below suspended (t :: t' :: ts) failure) {cause : Located Conflict}
    (hm : (s.machine p).step t = .error (.conflict cause)) :
    ∃ s', feed s p = .failed ⟨.conflict cause.value (s'.location cause.span), s'⟩ := by
  obtain ⟨-, -, ht, -⟩ := h.proceed resumable
  have look : s.lookahead = t := h.lookahead_eq resumable (.inl ht)
  have hn := nameUnnamed_eq s p
  rw [look] at hn
  have hreact := Machine.react_of_step_conflict hm
  obtain ⟨-, -, -, s', hp, -⟩ := (reads_drawn h ((s.machine p).named t.value).generated).proceed resumable
  refine ⟨s', ?_⟩
  rw [feed_of_take_next hn look hreact, takeNext, hp]

/-- A token that the machine takes, before a stray character. -/
theorem feed_stray (resumable : Session.Resumable below suspended) {e : StrayCharacter}
    (h : s.Reads file below suspended [t] (some e))
    (hm : (∃ m, (s.machine p).step t = .ok m) ∨ ∃ cause, (s.machine p).step t = .error (.conflict cause)) :
    ∃ s', feed s p = .failed ⟨.stray e, s'⟩ := by
  obtain ⟨-, -, ht, -⟩ := h.proceed_error resumable
  have look : s.lookahead = t := h.lookahead_eq resumable (.inl ht)
  have hn := nameUnnamed_eq s p
  rw [look] at hn
  obtain ⟨next, hreact⟩ : ∃ next, ((s.machine p).named t.value).parser.react t = .take next := by
    rcases hm with ⟨m, hm⟩ | ⟨cause, hm⟩
    · exact ⟨_, (Machine.react_of_step_ok hm).1⟩
    · exact ⟨_, Machine.react_of_step_conflict hm⟩
  obtain ⟨-, -, -, s', hp⟩ := (reads_drawn h ((s.machine p).named t.value).generated).proceed_error resumable
  refine ⟨s', ?_⟩
  rw [feed_of_take_next hn look hreact, takeNext, hp]

private theorem nameUnnamed_of_state {state : State} (h : p.state = state)
    (hstate : ∀ site, state ≠ .packageName site) : nameUnnamed s p = (s, p) := by
  rw [nameUnnamed_eq, Machine.named_eq_self (by rw [Session.machine, h]; exact hstate)]
  rfl

theorem feed_load (look : s.lookahead = t) {path : Located String}
    (hm : (s.machine p).step t = .error (.load path)) : feed s p = .load path s p := by
  obtain ⟨hstate, ht⟩ := Machine.react_of_step_load hm
  have hreact : p.react t = .load path := by
    rw [Parser.react, show p.state = .includeEnd path from hstate]
    simp [ht]
  exact feed_of_load (nameUnnamed_of_state hstate (by simp)) look hreact

theorem feed_finished (look : s.lookahead = t) {app : App} (hm : (s.machine p).step t = .error (.finished app)) :
    feed s p = .finished app s := by
  obtain ⟨hstate, ht, rfl⟩ := Machine.react_of_step_finished hm
  have hreact : p.react t = .finish := by
    rw [Parser.react, show p.state = .top from hstate, ht]
    rfl
  exact feed_of_finish (nameUnnamed_of_state hstate (by simp)) look hreact

/-- A token that is taken is no end, so a file is open. -/
theorem Session.files_ne_nil_of_step
    (hm : (∃ m, (s.machine p).step s.lookahead = .ok m) ∨
      ∃ cause, (s.machine p).step s.lookahead = .error (.conflict cause)) : s.files ≠ [] := by
  refine Session.files_ne_nil_of_lookahead fun hfinish => ?_
  rcases hm with ⟨m, hm⟩ | ⟨cause, hm⟩
  · exact Parser.react_ne_take_of_finish hfinish _ (Machine.react_of_step_ok hm).1
  · exact Parser.react_ne_take_of_finish hfinish _ (Machine.react_of_step_conflict hm)

/-- The stop that comes after an operation of a session. -/
def Stop.ofOutcome (x : Outcome Session) (next : Session → Stop) : Stop :=
  match x with
  | .error failure => .failed failure
  | .ok s => next s

/-- The machine of a parse decides what becomes of the token that the session has come to. -/
theorem feed_eq (s : Session) (p : Parser) : feed s p =
    match (s.machine p).step s.lookahead with
    | .error (.finished app) => .finished app s
    | .error (.load path) => .load path s p
    | .error (.refused expected) =>
      .failed ⟨.unexpected expected s.lookahead.value.kind (s.location s.lookahead.span),
        { s with generated := ((s.machine p).named s.lookahead.value).generated }⟩
    | .error (.conflict cause) =>
      .ofOutcome { s with generated := ((s.machine p).named s.lookahead.value).generated }.proceed fun s' =>
        .failed ⟨.conflict cause.value (s'.location cause.span), s'⟩
    | .ok m => .ofOutcome { s with generated := m.generated }.proceed fun s' => feed s' m.parser := by
  have hn := nameUnnamed_eq s p
  cases hstep : (s.machine p).step s.lookahead with
  | ok m =>
    obtain ⟨hreact, hgenerated⟩ := Machine.react_of_step_ok hstep
    rw [← hgenerated] at hn
    rw [feed_of_take_next hn rfl hreact, takeNext]
    rfl
  | error halt =>
    cases halt with
    | refused expected => exact feed_of_refuse hn rfl (Machine.react_of_step_refused hstep)
    | conflict cause =>
      rw [feed_of_take_next hn rfl (Machine.react_of_step_conflict hstep), takeNext]
      rfl
    | load path => exact feed_load rfl hstep
    | finished app => exact feed_finished rfl hstep

/-! ### Some tokens -/

/-- As long as the machine runs, the parse goes on behind the tokens that it has taken. -/
theorem feed_run (resumable : Session.Resumable below suspended) {us : List (Located Token)}
    (h : s.Reads file below suspended (us ++ t :: ts) failure) {m : Machine} (hm : (s.machine p).run us = .ok m) :
    ∃ s', feed s p = feed s' m.parser ∧ Session.SameRecord s' { s with generated := m.generated } ∧
      s'.Reads file below suspended (t :: ts) failure := by
  induction us generalizing s p with
  | nil =>
    obtain rfl : s.machine p = m := by simpa using hm
    exact ⟨s, rfl, .refl s, h⟩
  | cons u us ih =>
    obtain ⟨u', us', hus⟩ := List.exists_cons_of_ne_nil (show us ++ t :: ts ≠ [] by simp)
    cases hu : (s.machine p).step u with
    | error halt => simp [Machine.run_cons_of_error hu] at hm
    | ok m' =>
      rw [Machine.run_cons_of_ok hu] at hm
      rw [List.cons_append, hus] at h
      obtain ⟨s', hfeed, hrecord, hreads⟩ := feed_step resumable h hu
      rw [← hus] at hreads
      have hmachine : s'.machine m'.parser = m' := Session.machine_of_generated hrecord.generated
      obtain ⟨s'', hfeed', hrecord', hreads'⟩ := ih hreads (hmachine ▸ hm)
      refine ⟨s'', hfeed.trans hfeed', ⟨?_, ?_, hrecord'.generated⟩, hreads'⟩
      · exact hrecord'.root.trans hrecord.root
      · exact hrecord'.sources.trans hrecord.sources

end Step

/-! ### The whole text -/

section Text

variable {file : OpenFile} {below : List OpenFile} {suspended : List (Located Token)} {s : Session} {p : Parser}
  {ts : List (Located Token)} {failure : Option StrayCharacter}

/-- A session that reads a text comes to where its machine stops. -/
private theorem exists_feed_step (resumable : Session.Resumable below suspended) {halt : Halt}
    (h : s.Reads file below suspended ts failure) (hm : (s.machine p).run ts = .error halt) :
    ∃ us t rest m s', ts = us ++ t :: rest ∧ (s.machine p).run us = .ok m ∧ (s'.machine m.parser).step t = .error halt ∧
      feed s p = feed s' m.parser ∧ Session.SameRecord s' { s with generated := m.generated } ∧
      s'.Reads file below suspended (t :: rest) failure := by
  obtain ⟨us, t, rest, m, rfl, hrun, hstep⟩ := Machine.exists_step_of_run_error hm
  obtain ⟨s', hfeed, hrecord, hreads⟩ := feed_run resumable h hrun
  have hmachine : s'.machine m.parser = m := Session.machine_of_generated hrecord.generated
  exact ⟨us, t, rest, m, s', rfl, hrun, hmachine ▸ hstep, hfeed, hrecord, hreads⟩

/-- If the machine finishes then the parse yields its application. -/
theorem feed_eq_finished {app : App} (h : s.Reads file [] [] ts failure)
    (hm : (s.machine p).run ts = .error (.finished app)) :
    ∃ s', feed s p = .finished app s' ∧ s'.root = s.root ∧ s'.sources = s.sources := by
  obtain ⟨us, t, rest, m, s', rfl, -, hstep, hfeed, hrecord, hreads⟩ := exists_feed_step (.inl rfl) h hm
  refine ⟨s', ?_, hrecord.root, hrecord.sources⟩
  rw [hfeed, feed_finished (hreads.lookahead_eq (.inl rfl) (.inr rfl)) hstep]

/-- If the machine runs into a conflict then so does the parse, unless the text has a stray character after it. -/
theorem feed_eq_conflict (resumable : Session.Resumable below suspended) {cause : Located Conflict}
    (h : s.Reads file below suspended ts none) (hm : (s.machine p).run ts = .error (.conflict cause)) :
    ∃ s', feed s p = .failed ⟨.conflict cause.value (s'.location cause.span), s'⟩ := by
  obtain ⟨us, t, rest, m, s', rfl, -, hstep, hfeed, -, hreads⟩ := exists_feed_step resumable h hm
  rw [hfeed]
  cases rest with
  | nil =>
    -- a conflict is found at a token that is taken, and the last one is the end
    obtain ⟨ht, -⟩ := hreads.cursor_of_end resumable
    exact absurd (Machine.react_of_step_conflict hstep) (Parser.react_ne_take_of_finish ht _)
  | cons t' rest => exact feed_conflict resumable hreads hstep

/-- If the machine neither finishes nor asks for a file then the parse fails. -/
theorem feed_eq_failed (h : s.Reads file [] [] ts failure)
    (hfinished : ∀ app, (s.machine p).run ts ≠ .error (.finished app))
    (hload : ∀ path, (s.machine p).run ts ≠ .error (.load path)) : ∃ error s', feed s p = .failed ⟨error, s'⟩ := by
  cases hm : (s.machine p).run ts with
  | error halt =>
    obtain ⟨us, t, rest, m, s', rfl, -, hstep, hfeed, -, hreads⟩ := exists_feed_step (.inl rfl) h hm
    cases halt with
    | finished app => exact absurd hm (hfinished app)
    | load path => exact absurd hm (hload path)
    | refused expected =>
      rw [hfeed]
      obtain ⟨location, s'', hs''⟩ := feed_refused (hreads.lookahead_eq (.inl rfl) (.inr rfl)) hstep
      exact ⟨_, s'', hs''⟩
    | conflict cause =>
      cases failure with
      | none =>
        obtain ⟨s'', hs''⟩ := feed_eq_conflict (.inl rfl) h hm
        exact ⟨_, s'', hs''⟩
      | some e =>
        rw [hfeed]
        cases rest with
        | cons t' rest =>
          obtain ⟨s'', hs''⟩ := feed_conflict (.inl rfl) hreads hstep
          exact ⟨_, s'', hs''⟩
        | nil =>
          -- the stray character comes right after the token, so the conflict does not come to light
          obtain ⟨s'', hs''⟩ := feed_stray (.inl rfl) hreads (.inr ⟨cause, hstep⟩)
          exact ⟨_, s'', hs''⟩
  | ok m =>
    -- the machine has taken every token, so the last one is no end and a stray character comes after it
    have hne : ts ≠ [] := by
      rcases h.cases_end (.inl rfl) with ⟨e, -, rfl, -⟩ | ⟨stream, -, -, -, rfl, -⟩ <;> simp
    obtain ⟨us, t, rfl⟩ : ∃ us t, ts = us ++ [t] :=
      ⟨ts.dropLast, ts.getLast hne, (List.dropLast_concat_getLast hne).symm⟩
    have ht : t.value ≠ .finish := Machine.value_ne_finish_of_run hm t (by simp)
    cases hu : (s.machine p).run us with
    | error halt => simp [Machine.run_append_of_error hu] at hm
    | ok m' =>
      obtain ⟨s', hfeed, hrecord, hreads⟩ := feed_run (.inl rfl) h hu
      have hmachine : s'.machine m'.parser = m' := Session.machine_of_generated hrecord.generated
      rw [hfeed]
      cases failure with
      | none => exact absurd (hreads.cursor_of_end (.inl rfl)).1 ht
      | some e =>
        rw [Machine.run_append_of_ok hu] at hm
        cases hstep : m'.step t with
        | error halt => simp [Machine.run_cons_of_error hstep] at hm
        | ok m'' =>
          obtain ⟨s'', hs''⟩ := feed_stray (.inl rfl) hreads (.inl ⟨m'', hmachine ▸ hstep⟩)
          exact ⟨_, s'', hs''⟩

@[simp] theorem Session.span_location (s : Session) (span : Span) : (s.location span).span = span := by
  rw [Session.location]
  cases s.sources.get? span.source <;> rfl

/-- If the parse fails because a token is not expected then the machine has come to it and refuses it. -/
theorem exists_refused_of_feed {expected : Expectation} {found : Kind} {location : Location} {s' : Session}
    (h : s.Reads file [] [] ts failure) (hfeed : feed s p = .failed ⟨.unexpected expected found location, s'⟩) :
    ∃ us t rest m, ts = us ++ t :: rest ∧ (s.machine p).run us = .ok m ∧ m.step t = .error (.refused expected) ∧
      found = t.value.kind ∧ location.span = t.span := by
  induction ts generalizing s p with
  | nil =>
    rcases h.cases_end (.inl rfl) with ⟨e, -, hts, -⟩ | ⟨stream, -, -, -, hts, -⟩
    · simp at hts
    · simp at hts
  | cons t ts ih =>
    have look : s.lookahead = t := h.lookahead_eq (.inl rfl) (.inr rfl)
    rcases feed_cases s p with hstop | ⟨m, s'', hstep, -, hproceed, -⟩
    · rw [hfeed] at hstop
      cases hstop with
      | refused generated hstep =>
        rw [look] at hstep ⊢
        exact ⟨[], t, ts, s.machine p, rfl, rfl, hstep, rfl, s.span_location t.span⟩
      | stray generated _ hproceed =>
        obtain ⟨e, he⟩ := Session.exists_stray_of_proceed hproceed
        simp at he
    · rw [look] at hstep
      cases ts with
      | nil =>
        -- the last token of a text is its end, which is not taken, or a stray character comes next
        cases failure with
        | none =>
          obtain ⟨halt, hhalt⟩ := Machine.step_finish (m := s.machine p) (h.cursor_of_end (.inl rfl)).1
          simp [hstep] at hhalt
        | some e =>
          obtain ⟨-, -, -, s₁, herror⟩ := (reads_drawn h m.generated).proceed_error (.inl rfl)
          simp [hproceed] at herror
      | cons t' ts =>
        obtain ⟨s₁, hgo, hrecord, hreads⟩ := feed_step (.inl rfl) h hstep
        have hmachine : s₁.machine m.parser = m := Session.machine_of_generated hrecord.generated
        obtain ⟨us, u, rest, m', hts, hrun, hu, hfound, hspan⟩ := ih hreads (hgo.symm.trans hfeed)
        refine ⟨t :: us, u, rest, m', by rw [hts, List.cons_append], ?_, hu, hfound, hspan⟩
        rw [Machine.run_cons_of_ok hstep, ← hmachine, hrun]

end Text

end BundleConf
