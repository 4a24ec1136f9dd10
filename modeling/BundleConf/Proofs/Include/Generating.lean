import BundleConf.Proofs.Include.Trace
import BundleConf.Proofs.Parsing.Consistency
import BundleConf.Proofs.Session.Calls
import BundleConf.Proofs.Session.Drawing

/-!
# The names that parses generate

A machine generates a name when it turns out that a package is given none (`Machine.draws`).  The names that a parse
generates are those of its tokens, one after the other, up to the token at which it ends, be it that it fails there
(`ParseCall.draws`).  Nothing else in a parse touches the counter of the session, so the counter comes from its value
before the parse to its value after it by these draws alone (`ParseCall.drawnInTurn`), and so it does from parse to
parse.  If a parse succeeds then the application holds each of the names, right behind those that were declared before
it (`ParseCall.prefix_packageNames`).
-/

namespace BundleConf

/-! ### What reading does to the counter -/

namespace Session

theorem generated_advance (s : Session) : s.advance.session.generated = s.generated := by
  cases h : s.advance with
  | ok s' => exact generated_of_advance h
  | error failure =>
    obtain ⟨_, _, _, -, -, rfl⟩ := exists_of_advance_error h
    rfl

theorem generated_skipComments (s : Session) : s.skipComments.session.generated = s.generated := by
  fun_induction skipComments s with
  | case1 s _ failure h =>
    have := s.generated_advance
    rwa [h] at this
  | case2 s _ next h ih => exact ih.trans (generated_of_advance h)
  | case3 s => rfl

theorem generated_enter (s : Session) (path : Path) (text : String) :
    (s.enter path text).session.generated = s.generated := by
  cases h : s.enter path text with
  | ok s' => exact generated_of_enter h
  | error failure =>
    obtain ⟨_, -, rfl⟩ := exists_of_enter_error h
    rfl

theorem generated_openText (s : Session) (name : Path) (text : String) :
    (s.openText name text).session.generated = s.generated :=
  generated_enter { s with files := [], suspended := [] } (s.rootPath name) text

theorem generated_openRoot (s : Session) (file : Path) (found : Lookup) :
    (s.openRoot file found).session.generated = s.generated := by
  cases found with
  | error cause => rfl
  | ok text => exact s.generated_openText file text

theorem generated_includeFile (s : Session) (requested : String) (span : Span) (found : Lookup) :
    (s.includeFile requested span found).session.generated = s.generated := by
  have entered (text : String) : (s.suspend.enter (s.includePath requested) text).session.generated = s.generated :=
    s.suspend.generated_enter _ text
  cases h : s.includeFile requested span found with
  | ok s' =>
    obtain ⟨-, text, -, henter⟩ := exists_of_includeFile h
    exact henter ▸ entered text
  | error failure =>
    rcases cases_of_includeFile_error h with rfl | rfl | ⟨_, rfl⟩ | ⟨text, -, -, henter⟩
    · rfl
    · rfl
    · rfl
    · exact henter ▸ entered text

/-- Comments that are passed over behind an operation leave the counter as the operation leaves it. -/
theorem generated_bind_skipComments (x : Outcome Session) :
    (Outcome.session (x.bind skipComments)).generated = x.session.generated := by
  cases x with
  | error failure => rfl
  | ok s => exact s.generated_skipComments

theorem generated_proceed (s : Session) : s.proceed.session.generated = s.generated :=
  (generated_bind_skipComments s.advance).trans s.generated_advance

theorem generated_loadFile (s : Session) (path : Located String) (found : Lookup) :
    (s.loadFile path found).session.generated = s.generated :=
  (generated_bind_skipComments _).trans (s.generated_includeFile path.value path.span found)

end Session

/-! ### One token -/

namespace Machine

variable {m m' : Machine} {t : Located Token}

/-- The name that a machine generates when it is known which token comes next, if it generates one. -/
def draws (m : Machine) (next : Token) : List Draw :=
  match m.parser.state, next with
  | .packageName _, .value _ => []
  | .packageName _, _ =>
    [⟨freshNumber m.parser.app.packageNames m.generated, m.parser.app.packageNames⟩]
  | _, _ => []

/-- Unless a package is given no name there, nothing happens when a machine comes to a token. -/
theorem named_cases (m : Machine) (next : Token) :
    (m.draws next = [] ∧ m.named next = m) ∨
    ∃ site number, IsFirstFree m.parser.app.packageNames m.generated number ∧
      m.draws next = [⟨number, m.parser.app.packageNames⟩] ∧
      m.named next = ⟨number + 1, m.parser.openPackage (Package.generatedName number) site⟩ := by
  have fresh := isFirstFree_freshNumber m.parser.app.packageNames m.generated
  obtain ⟨generated, app, state⟩ := m
  cases state with
  | packageName site =>
    cases next with
    | value name => exact .inl ⟨rfl, rfl⟩
    | _ => exact .inr ⟨site, _, fresh, rfl, rfl⟩
  | _ => exact .inl ⟨rfl, rfl⟩

theorem draws_eq_nil {m : Machine} (h : ∀ site, m.parser.state ≠ .packageName site) (next : Token) :
    m.draws next = [] := by
  unfold draws
  split
  · rfl
  · rename_i site hs _
    exact absurd hs (h site)
  · rfl

theorem drawnInTurn_named (m : Machine) (next : Token) :
    DrawnInTurn m.generated (m.draws next) (m.named next).generated := by
  rcases m.named_cases next with ⟨hdraws, hnamed⟩ | ⟨site, number, hnumber, hdraws, hnamed⟩
  · rw [hdraws, hnamed]
    exact .nil _
  · rw [hdraws, hnamed]
    exact .cons hnumber (.nil _)

/-- A name that is generated is declared behind the others. -/
theorem packageNames_named (m : Machine) (next : Token) :
    (m.named next).parser.app.packageNames = m.parser.app.packageNames ++ (m.draws next).map Draw.name := by
  rcases m.named_cases next with ⟨hdraws, hnamed⟩ | ⟨site, number, -, hdraws, hnamed⟩
  · rw [hdraws, hnamed, List.map_nil, List.append_nil]
  · rw [hdraws, hnamed]
    simp [App.packageNames, Parser.openPackage, Draw.name]

/-- A machine that takes a token keeps the names of the packages, and the name that is generated there comes right
behind them. -/
private theorem prefix_of_step_ok (h : m.step t = .ok m') :
    m.parser.app.packageNames ++ (m.draws t.value).map Draw.name <+: m'.parser.app.packageNames :=
  packageNames_named m t.value ▸ (Parser.declares_of_react (react_of_step_ok h).1).prefix_packageNames

/-- The names of the packages are never taken back. -/
theorem prefix_of_step (h : m.step t = .ok m') : m.parser.app.packageNames <+: m'.parser.app.packageNames :=
  (List.prefix_append _ _).trans (prefix_of_step_ok h)

theorem prefix_of_mem_draws (h : m.step t = .ok m') {d : Draw} (hd : d ∈ m.draws t.value) :
    d.declared ++ [d.name] <+: m'.parser.app.packageNames := by
  have hprefix := prefix_of_step_ok h
  rcases m.named_cases t.value with ⟨hdraws, -⟩ | ⟨site, number, -, hdraws, -⟩
  · simp [hdraws] at hd
  · obtain rfl : d = ⟨number, m.parser.app.packageNames⟩ := by simpa [hdraws] using hd
    rwa [hdraws] at hprefix

end Machine

/-- A package that is given no name is declared under the fresh name of the session. -/
theorem nameUnnamed_of_unnamed {s : Session} {p : Parser} {site : Site} (hstate : p.state = .packageName site)
    (hvalue : ∀ name, s.lookahead.value ≠ .value name) : nameUnnamed s p =
      ((s.freshName p.app.packageNames).2, p.openPackage (s.freshName p.app.packageNames).1 site) := by
  unfold nameUnnamed
  split
  · rename_i hlook
    exact absurd hlook (hvalue _)
  · rename_i hs _
    obtain rfl := State.packageName.inj (hstate.symm.trans hs)
    rfl
  · rename_i hne _
    exact absurd hstate (hne site)

/-! ### One token after the other -/

/-- The session as it is where a parse has stopped. -/
def Stop.session : Stop → Session
  | finished _ s => s
  | failed failure => failure.session
  | load _ s _ => s

/-- The names that come to be generated behind an operation of a session: none if it fails. -/
def Draw.ofOutcome (x : Outcome Session) (draws : Session → List Draw) : List Draw :=
  match x with
  | .error _ => []
  | .ok s => draws s

/-- The names that are generated while the tokens of a session are fed to a parser. -/
def feedDraws (s : Session) (p : Parser) : List Draw :=
  let draws := (s.machine p).draws s.lookahead.value
  match _hstep : (s.machine p).step s.lookahead with
  | .error _ => draws
  | .ok m =>
    match _hproceed : { s with generated := m.generated }.proceed with
    | .error _ => draws
    | .ok s' => draws ++ feedDraws s' m.parser
termination_by s.unread
decreasing_by
  have hfiles : s.files ≠ [] := Session.files_ne_nil_of_step (.inl ⟨m, _hstep⟩)
  exact Session.unread_proceed_lt (s := { s with generated := m.generated }) _hproceed hfiles

/-- If an operation leaves the counter alone then only the names behind it are drawn. -/
private theorem drawnInTurn_ofOutcome {start : Nat} {x : Outcome Session} {draws : Session → List Draw}
    {next : Session → Stop} (hx : x.session.generated = start)
    (h : ∀ s, x = .ok s → DrawnInTurn s.generated (draws s) (next s).session.generated) :
    DrawnInTurn start (Draw.ofOutcome x draws) (Stop.ofOutcome x next).session.generated := by
  subst hx
  cases x with
  | error failure => exact .nil _
  | ok s => exact h s rfl

/-- A stop right behind an operation is in the session that the operation leads to. -/
private theorem session_ofOutcome (x : Outcome Session) {next : Session → Stop} (h : ∀ s, (next s).session = s) :
    (Stop.ofOutcome x next).session = x.session := by
  cases x with
  | error failure => rfl
  | ok s => exact h s

/-- The name that is generated at a token that is taken accounts for the counter behind the token. -/
private theorem drawnInTurn_taken {s : Session} {p : Parser} {m : Machine}
    (hstep : (s.machine p).step s.lookahead = .ok m) {x : Outcome Session}
    (hproceed : { s with generated := m.generated }.proceed = x) :
    DrawnInTurn s.generated ((s.machine p).draws s.lookahead.value) x.session.generated := by
  rw [← hproceed, Session.generated_proceed, (Machine.react_of_step_ok hstep).2]
  exact (s.machine p).drawnInTurn_named s.lookahead.value

theorem drawnInTurn_feed (s : Session) (p : Parser) :
    DrawnInTurn s.generated (feedDraws s p) (feed s p).session.generated := by
  fun_induction feedDraws s p with
  | case1 s p draws halt hstep =>
    have named : DrawnInTurn s.generated draws _ := (s.machine p).drawnInTurn_named s.lookahead.value
    rw [feed_eq, hstep]
    cases halt with
    | finished app =>
      rw [Machine.named_eq_self (by simp [(Machine.react_of_step_finished hstep).1])] at named
      exact named
    | load path =>
      rw [Machine.named_eq_self (by simp [(Machine.react_of_step_load hstep).1])] at named
      exact named
    | refused expected => exact named
    | conflict cause =>
      dsimp only
      rw [session_ofOutcome _ fun _ => rfl, Session.generated_proceed]
      exact named
  | case2 s p draws m hstep failure hproceed =>
    rw [feed_eq, hstep]
    dsimp only
    rw [hproceed]
    exact drawnInTurn_taken hstep hproceed
  | case3 s p draws m hstep s' hproceed ih =>
    rw [feed_eq, hstep]
    dsimp only
    rw [hproceed]
    exact (drawnInTurn_taken hstep hproceed).append ih

/-! ### Round after round -/

namespace Stop

variable {files : FileSystem} {stop : Stop}

/-- The names that are generated from a stop to the next one. -/
def nextDraws (files : FileSystem) : Stop → List Draw
  | load path s p =>
    Draw.ofOutcome (s.loadFile path (files (s.includePath path.value))) fun s => feedDraws s { p with state := .top }
  | _ => []

/-- The names that are generated from a stop on while a number of includes are executed. -/
def draws (files : FileSystem) (stop : Stop) : Nat → List Draw
  | 0 => []
  | n + 1 => stop.nextDraws files ++ (stop.next files).draws files n

theorem drawnInTurn_next (files : FileSystem) (stop : Stop) :
    DrawnInTurn stop.session.generated (stop.nextDraws files) (stop.next files).session.generated := by
  cases stop with
  | load path s p =>
    exact drawnInTurn_ofOutcome (s.generated_loadFile path _) fun s' _ => drawnInTurn_feed s' { p with state := .top }
  | finished app s => exact .nil _
  | failed failure => exact .nil _

theorem drawnInTurn_after (files : FileSystem) (stop : Stop) (n : Nat) :
    DrawnInTurn stop.session.generated (stop.draws files n) (stop.after files n).session.generated := by
  induction n generalizing stop with
  | zero => exact .nil _
  | succ n ih => exact (stop.drawnInTurn_next files).append (ih (stop.next files))

theorem session_outcome (stop : Stop) : stop.outcome.session = stop.session := by
  cases stop <;> rfl

end Stop

/-! ### Names that have been declared -/

namespace Stop

/-- Unless the parse has failed, its packages are declared under these names, and perhaps more of them behind. -/
def HasDeclared (names : List String) : Stop → Prop
  | finished app _ => names <+: app.packageNames
  | load _ _ p => names <+: p.app.packageNames
  | failed _ => True

variable {files : FileSystem} {stop : Stop} {names names' : List String}

theorem HasDeclared.shorten (h : stop.HasDeclared names) (hnames : names' <+: names) : stop.HasDeclared names' := by
  cases stop with
  | finished app s => exact hnames.trans h
  | load path s p => exact hnames.trans h
  | failed failure => trivial

private theorem hasDeclared_ofOutcome {x : Outcome Session} {next : Session → Stop}
    (h : ∀ s, x = .ok s → (next s).HasDeclared names) : (ofOutcome x next).HasDeclared names := by
  cases x with
  | error failure => trivial
  | ok s => exact h s rfl

/-- What is declared is declared from then on. -/
private theorem hasDeclared_feed (s : Session) (p : Parser) : (feed s p).HasDeclared p.app.packageNames := by
  induction hn : s.unread using Nat.strongRecOn generalizing s p with
  | ind n ih =>
    rw [feed_eq]
    cases hstep : (s.machine p).step s.lookahead with
    | ok m =>
      have hfiles : s.files ≠ [] := Session.files_ne_nil_of_step (.inl ⟨m, hstep⟩)
      let drawn : Session := { s with generated := m.generated }
      refine hasDeclared_ofOutcome fun s' hproceed => ?_
      have hlt : s'.unread < drawn.unread := Session.unread_proceed_lt hproceed hfiles
      exact (ih _ (hn ▸ hlt) s' m.parser rfl).shorten (Machine.prefix_of_step hstep)
    | error halt =>
      cases halt with
      | finished app =>
        obtain ⟨-, -, rfl⟩ := Machine.react_of_step_finished hstep
        exact List.prefix_rfl
      | load path => exact List.prefix_rfl
      | refused expected => trivial
      | conflict cause => exact hasDeclared_ofOutcome fun _ _ => trivial

/-- A name that is generated is declared right behind the names that were declared before. -/
private theorem hasDeclared_of_mem_feedDraws {s : Session} {p : Parser} {d : Draw} (hd : d ∈ feedDraws s p) :
    (feed s p).HasDeclared (d.declared ++ [d.name]) := by
  fun_induction feedDraws s p with
  | case1 s p draws halt hstep =>
    rw [feed_eq, hstep]
    cases halt with
    | finished app =>
      have none : draws = [] := Machine.draws_eq_nil (by simp [(Machine.react_of_step_finished hstep).1]) _
      simp [none] at hd
    | load path =>
      have none : draws = [] := Machine.draws_eq_nil (by simp [(Machine.react_of_step_load hstep).1]) _
      simp [none] at hd
    | refused expected => trivial
    | conflict cause => exact hasDeclared_ofOutcome fun _ _ => trivial
  | case2 s p draws m hstep failure hproceed =>
    rw [feed_eq, hstep]
    dsimp only
    rw [hproceed]
    trivial
  | case3 s p draws m hstep s' hproceed ih =>
    rw [feed_eq, hstep]
    dsimp only
    rw [hproceed]
    rcases List.mem_append.1 hd with hd | hd
    · exact (hasDeclared_feed s' m.parser).shorten (Machine.prefix_of_mem_draws hstep hd)
    · exact ih hd

theorem HasDeclared.next (h : stop.HasDeclared names) (files : FileSystem) : (stop.next files).HasDeclared names := by
  cases stop with
  | load path s p =>
    have declared (s' : Session) : (feed s' { p with state := .top }).HasDeclared p.app.packageNames :=
      hasDeclared_feed s' _
    exact hasDeclared_ofOutcome fun s' _ => (declared s').shorten h
  | finished app s => exact h
  | failed failure => trivial

theorem HasDeclared.after (h : stop.HasDeclared names) (files : FileSystem) (n : Nat) :
    (stop.after files n).HasDeclared names := by
  induction n generalizing stop with
  | zero => exact h
  | succ n ih => exact ih (h.next files)

private theorem hasDeclared_ofOutcome_of_mem {x : Outcome Session} {draws : Session → List Draw}
    {next : Session → Stop} {d : Draw} (hd : d ∈ Draw.ofOutcome x draws)
    (h : ∀ s, d ∈ draws s → (next s).HasDeclared names) : (ofOutcome x next).HasDeclared names := by
  cases x with
  | error failure => trivial
  | ok s => exact h s hd

private theorem hasDeclared_of_mem_nextDraws {d : Draw} (hd : d ∈ stop.nextDraws files) :
    (stop.next files).HasDeclared (d.declared ++ [d.name]) := by
  cases stop with
  | load path s p => exact hasDeclared_ofOutcome_of_mem hd fun s' => hasDeclared_of_mem_feedDraws
  | finished app s => simp [nextDraws] at hd
  | failed failure => trivial

private theorem hasDeclared_of_mem_draws {d : Draw} {n : Nat} (hd : d ∈ stop.draws files n) :
    (stop.after files n).HasDeclared (d.declared ++ [d.name]) := by
  induction n generalizing stop with
  | zero => simp [draws] at hd
  | succ n ih =>
    rcases List.mem_append.1 hd with hd | hd
    · exact (hasDeclared_of_mem_nextDraws hd).after files n
    · exact ih hd

end Stop

/-! ### Whole parses -/

/-- How a parse starts: with a root file, or with a text that stands for one. -/
inductive Opening where
  | file (file : Path)
  | text (name : Path) (text : String)

/-- A parse that a session is asked for, with what there is at the paths meanwhile and with a budget of includes. -/
structure ParseCall where
  opening : Opening
  files : FileSystem
  budget : Nat

namespace ParseCall

variable {c : ParseCall} {s : Session}

def run (s : Session) (c : ParseCall) : Parsed :=
  match c.opening with
  | .file file => (s.parseFileWithin c.budget file).run c.files
  | .text name text => (s.parseTextWithin c.budget name text).run c.files

/-- The session as it is before the first token of the parse. -/
def opened (s : Session) (c : ParseCall) : Outcome Session :=
  match c.opening with
  | .file file => s.openRoot file (c.files (s.rootPath file))
  | .text name text => s.openText name text

/-- The first stop of the parse. -/
def start (s : Session) (c : ParseCall) : Stop :=
  .ofOutcome ((c.opened s).bind Session.skipComments) (feed · .start)

/-- The names that the parse generates, whatever it comes to. -/
def draws (s : Session) (c : ParseCall) : List Draw :=
  Draw.ofOutcome ((c.opened s).bind Session.skipComments) (feedDraws · .start) ++ (c.start s).draws c.files c.budget

theorem run_eq (s : Session) (c : ParseCall) : c.run s = ((c.start s).after c.files c.budget).outcome := by
  obtain ⟨opening, files, budget⟩ := c
  cases opening with
  | file file =>
    have first : start s ⟨.file file, files, budget⟩ = s.startFile files file := by
      rw [start, opened, Session.startFile]
      dsimp only
      cases files (s.rootPath file) <;> rfl
    rw [first]
    exact s.run_parseFileWithin files budget file
  | text name text => exact s.run_parseTextWithin files budget name text

theorem generated_opened (s : Session) (c : ParseCall) : (c.opened s).session.generated = s.generated := by
  obtain ⟨opening, files, budget⟩ := c
  cases opening with
  | file file => exact s.generated_openRoot file _
  | text name text => exact s.generated_openText name text

/-- The counter of a session comes from its value before a parse to its value after it by the names that the parse
generates. -/
theorem drawnInTurn (s : Session) (c : ParseCall) :
    DrawnInTurn s.generated (c.draws s) (c.run s).session.generated := by
  have first : DrawnInTurn s.generated _ (c.start s).session.generated :=
    drawnInTurn_ofOutcome ((Session.generated_bind_skipComments _).trans (c.generated_opened s))
      fun s' _ => drawnInTurn_feed s' .start
  rw [run_eq, Stop.session_outcome]
  exact first.append ((c.start s).drawnInTurn_after c.files c.budget)

/-- An application holds the names that have been generated for it, each right behind the names that were declared
before. -/
theorem prefix_packageNames {app : App} {s' : Session} (h : c.run s = .ok (app, s')) {d : Draw}
    (hd : d ∈ c.draws s) : d.declared ++ [d.name] <+: app.packageNames := by
  have declared : ((c.start s).after c.files c.budget).HasDeclared (d.declared ++ [d.name]) := by
    rcases List.mem_append.1 hd with hd | hd
    · have first : (c.start s).HasDeclared (d.declared ++ [d.name]) :=
        Stop.hasDeclared_ofOutcome_of_mem hd fun s' => Stop.hasDeclared_of_mem_feedDraws
      exact first.after c.files c.budget
    · exact Stop.hasDeclared_of_mem_draws hd
  rw [run_eq] at h
  generalize (c.start s).after c.files c.budget = stop at declared h
  cases stop with
  | finished app' t =>
    obtain ⟨rfl, -⟩ : app' = app ∧ t = s' := by simpa [Stop.outcome] using h
    exact declared
  | load path t p => simp [Stop.outcome] at h
  | failed failure => simp [Stop.outcome] at h

end ParseCall

/-! ### One parse after the other -/

namespace Session

/-- The session after some parses, failed ones included. -/
def afterParses (s : Session) (calls : List ParseCall) : Session :=
  calls.foldl (fun s c => (c.run s).session) s

/-- The names that are generated by some parses, one after the other. -/
def drawnBy (s : Session) : List ParseCall → List Draw
  | [] => []
  | c :: calls => c.draws s ++ (c.run s).session.drawnBy calls

theorem drawnInTurn_drawnBy (s : Session) (calls : List ParseCall) :
    DrawnInTurn s.generated (s.drawnBy calls) (s.afterParses calls).generated := by
  induction calls generalizing s with
  | nil => exact .nil _
  | cons c calls ih => exact (c.drawnInTurn s).append (ih (c.run s).session)

/-- Generated names are fresh, the least that are, and never used again.

Drawing names from a session until one is not taken comes to an end after at most one draw more than there are names
taken, and yields the first free number; the counter goes on behind it, and nothing else changes.  The parser adds just
this name to those of its packages.  So from one parse to the next, failed ones included, the numbers of generated names
grow, and none of the names has been declared before in its parse. -/
theorem generated_names_fresh (s : Session) :
    (∀ taken : List String, ∃ number, IsFirstFree taken s.generated number ∧
      s.freshName taken = (Package.generatedName number, { s with generated := number + 1 }) ∧
      ∃ n ≤ taken.toFinset.card + 1, ∀ k drawn, s.Draws taken k drawn ↔ k = n ∧ drawn = s.freshName taken) ∧
    (∀ (p : Parser) (site : Site), p.state = .packageName site → (∀ name, s.lookahead.value ≠ .value name) →
      (nameUnnamed s p).1 = (s.freshName p.app.packageNames).2 ∧
      (nameUnnamed s p).2.app.packageNames = p.app.packageNames ++ [(s.freshName p.app.packageNames).1]) ∧
    (∀ calls : List ParseCall, DrawnInTurn s.generated (s.drawnBy calls) (s.afterParses calls).generated ∧
      ((s.drawnBy calls).map Draw.number).Pairwise (· < ·) ∧ ∀ d ∈ s.drawnBy calls, d.name ∉ d.declared) ∧
    ∀ (c : ParseCall) (app : App) (s' : Session), c.run s = .ok (app, s') →
      ∀ d ∈ c.draws s, d.declared ++ [d.name] <+: app.packageNames := by
  refine ⟨fun taken => ?_, fun p site hstate hvalue => ?_, fun calls => ?_, fun c app s' h d hd => ?_⟩
  · refine ⟨_, isFirstFree_freshNumber taken s.generated, freshName_eq s taken, _, ?_, fun k drawn => draws_iff⟩
    exact (draws_iff.2 ⟨rfl, rfl⟩).le_card
  · rw [nameUnnamed_of_unnamed hstate hvalue]
    exact ⟨rfl, by simp [App.packageNames, Parser.openPackage]⟩
  · have inTurn := s.drawnInTurn_drawnBy calls
    exact ⟨inTurn, inTurn.pairwise, fun d hd => inTurn.name_notMem hd⟩
  · exact ParseCall.prefix_packageNames h hd

/-- A text that ends in a list after a package that is given no name. -/
private def broken : ParseCall where
  opening := .text ⟨"a.conf"⟩ (withBraces "routes ( '/' : 'a' [package ( )] ")
  files _ := .error .notFound
  budget := 0

/-- A text that gives a name like the generated ones and one that only looks like them, and twice no name. -/
private def lookalikes : ParseCall where
  opening := .text ⟨"b.conf"⟩ <| withBraces "package 'anonymous-1' ( ) package 'anonymous-02' ( ) " ++
    withBraces "package ( ) package ( )"
  files _ := .error .notFound
  budget := 0

/-- A name is generated by a parse that fails, and two more by the next one in the same session. -/
theorem generated_names_fresh_after_failure :
    (broken.run (new ⟨"."⟩)).isOk = false ∧
    (new ⟨"."⟩).drawnBy [broken, lookalikes] =
      [⟨0, []⟩, ⟨2, ["anonymous-1", "anonymous-02"]⟩, ⟨3, ["anonymous-1", "anonymous-02", "anonymous-2"]⟩] ∧
    (((new ⟨"."⟩).drawnBy [broken, lookalikes]).map Draw.number).Pairwise (· < ·) ∧
    (∃ app s', lookalikes.run (broken.run (new ⟨"."⟩)).session = .ok (app, s') ∧
      ∀ d ∈ lookalikes.draws (broken.run (new ⟨"."⟩)).session, d.declared ++ [d.name] <+: app.packageNames) ∧
    (nameUnnamed (new ⟨"."⟩) ⟨{ packages := [{ name := "anonymous-0" }] }, .packageName .top⟩).2.app.packageNames =
      ["anonymous-0", "anonymous-1"] := by
  obtain ⟨-, added, drawn, -⟩ := generated_names_fresh (new ⟨"."⟩)
  obtain ⟨-, -, -, held⟩ := generated_names_fresh (broken.run (new ⟨"."⟩)).session
  refine ⟨by decide +kernel, by decide +kernel, (drawn _).2.1, ?_, ?_⟩
  · have hparsed : (lookalikes.run (broken.run (new ⟨"."⟩)).session).isOk = true := by decide +kernel
    cases hrun : lookalikes.run (broken.run (new ⟨"."⟩)).session with
    | error failure => simp [hrun, Except.isOk, Except.toBool] at hparsed
    | ok x => exact ⟨x.1, x.2, rfl, held lookalikes x.1 x.2 hrun⟩
  · rw [(added _ .top rfl fun name => by simp [lookahead, isFinished, new]).2]
    decide +kernel

end Session

end BundleConf
