import BundleConf.Parse.Run
import BundleConf.Proofs.Parsing.Naming

/-!
# Parsing a list of tokens

A session only decides which token comes next.  Everything else that a parse does is done by its machine: the parser,
with the number of names that have been generated.  `Machine.step` takes one token and `Machine.run` takes a list of
them; both stop where the parser takes no more (`Halt`).  Running is compatible with concatenation (`run_append`), and
the end of a text always stops a machine (`step_finish`).
-/

namespace BundleConf

/-- A parser together with the number of names that have been generated. -/
structure Machine where
  generated : Nat
  parser : Parser

/-- Why a machine takes no more tokens. -/
inductive Halt where
  /-- It refuses the token and expects another. -/
  | refused (expected : Expectation)
  | conflict (cause : Located Conflict)
  /-- It wants to go on with the file of a path. -/
  | load (path : Located String)
  | finished (app : App)

namespace Parser

variable {p : Parser} {t : Located Token}

theorem state_of_load {path : Located String} (h : p.react t = .load path) :
    p.state = .includeEnd path ∧ t.value = .mark .semicolon := by
  cases hs : p.state <;>
    simp only [react, hs, atTop, atValue, atMark, atPackageBody, atRoutesBody, atRouteRest, atRouteOption, atUiBody,
      atEntry, atListMore, need, needValue, goOn] at h <;>
    (repeat' split at h) <;> simp_all

theorem state_of_finish (h : p.react t = .finish) : p.state = .top ∧ t.value = .finish := by
  cases hs : p.state <;>
    simp only [react, hs, atTop, atValue, atMark, atPackageBody, atRoutesBody, atRouteRest, atRouteOption, atUiBody,
      atEntry, atListMore, need, needValue, goOn] at h <;>
    (repeat' split at h) <;> simp_all

end Parser

namespace Machine

/-- The machine that has read nothing, in a session that has generated some names before. -/
def start (generated : Nat) : Machine :=
  ⟨generated, .start⟩

/-- The machine once it is known which token comes next: a package that is given no name has got one. -/
def named (m : Machine) (next : Token) : Machine :=
  match m.parser.state, next with
  | .packageName _, .value _ => m
  | .packageName site, _ =>
    let number := freshNumber m.parser.app.packageNames m.generated
    ⟨number + 1, m.parser.openPackage (Package.generatedName number) site⟩
  | _, _ => m

def step (m : Machine) (t : Located Token) : Except Halt Machine :=
  match (m.named t.value).parser.react t with
  | .refuse expected => .error (.refused expected)
  | .take (.error cause) => .error (.conflict cause)
  | .take (.ok parser) => .ok ⟨(m.named t.value).generated, parser⟩
  | .load path => .error (.load path)
  | .finish => .error (.finished (m.named t.value).parser.app)

def run (m : Machine) (ts : List (Located Token)) : Except Halt Machine :=
  ts.foldlM step m

@[simp] theorem run_nil (m : Machine) : m.run [] = .ok m := rfl

theorem run_cons (m : Machine) (t : Located Token) (ts : List (Located Token)) :
    m.run (t :: ts) = (m.step t).bind fun m => m.run ts := rfl

theorem run_cons_of_ok {m m' : Machine} {t : Located Token} (h : m.step t = .ok m') (ts : List (Located Token)) :
    m.run (t :: ts) = m'.run ts := by
  rw [run_cons, h]
  rfl

theorem run_cons_of_error {m : Machine} {t : Located Token} {halt : Halt} (h : m.step t = .error halt)
    (ts : List (Located Token)) : m.run (t :: ts) = .error halt := by
  rw [run_cons, h]
  rfl

theorem run_append (m : Machine) (ts us : List (Located Token)) :
    m.run (ts ++ us) = (m.run ts).bind fun m => m.run us :=
  List.foldlM_append

theorem run_append_of_ok {m m' : Machine} {ts : List (Located Token)} (h : m.run ts = .ok m')
    (us : List (Located Token)) : m.run (ts ++ us) = m'.run us := by
  rw [run_append, h]
  rfl

theorem run_append_of_error {m : Machine} {ts : List (Located Token)} {halt : Halt} (h : m.run ts = .error halt)
    (us : List (Located Token)) : m.run (ts ++ us) = .error halt := by
  rw [run_append, h]
  rfl

/-! ### One step -/

theorem named_eq_self {m : Machine} (h : ∀ site, m.parser.state ≠ .packageName site) (next : Token) :
    m.named next = m := by
  unfold named
  split
  · rfl
  · rename_i site hs _
    exact absurd hs (h site)
  · rfl

/-- Only a machine that awaits a name draws one. -/
theorem named_eq_self_of_ne {m : Machine} {next : Token} {state : State}
    (h : (m.named next).parser.state = state) (hopen : ∀ package site, state ≠ .packageOpen package site) :
    m.named next = m := by
  unfold named at h ⊢
  split at h
  · rfl
  · exact absurd h.symm (hopen _ _)
  · rfl

/-- Where no name is awaited, a step is a reaction of the parser. -/
theorem step_of_react {m : Machine} {t : Located Token} {p : Parser} (h : ∀ site, m.parser.state ≠ .packageName site)
    (hp : m.parser.react t = .take (.ok p)) : m.step t = .ok ⟨m.generated, p⟩ := by
  rw [step, named_eq_self h, hp]

/-- The end of a text is never taken. -/
theorem step_finish {m : Machine} {t : Located Token} (ht : t.value = .finish) : ∃ halt, m.step t = .error halt := by
  rw [step]
  split
  · exact ⟨_, rfl⟩
  · exact ⟨_, rfl⟩
  · rename_i next h
    exact absurd h (Parser.react_ne_take_of_finish ht _)
  · exact ⟨_, rfl⟩
  · exact ⟨_, rfl⟩

/-- Between declarations the end of a text finishes a parse. -/
theorem step_finish_of_top {m : Machine} {t : Located Token} (hm : m.parser.state = .top) (ht : t.value = .finish) :
    m.step t = .error (.finished m.parser.app) := by
  rw [step, named_eq_self (by rw [hm]; simp), Parser.react, hm, ht]
  rfl

/-! ### What a step says about the reaction -/

section Inversion

variable {m m' : Machine} {t : Located Token}

theorem react_of_step_ok (h : m.step t = .ok m') :
    (m.named t.value).parser.react t = .take (.ok m'.parser) ∧ m'.generated = (m.named t.value).generated := by
  rw [step] at h
  split at h <;> simp_all
  rw [← h]
  exact ⟨rfl, rfl⟩

theorem react_of_step_refused {expected : Expectation} (h : m.step t = .error (.refused expected)) :
    (m.named t.value).parser.react t = .refuse expected := by
  rw [step] at h
  split at h <;> simp_all

theorem react_of_step_conflict {cause : Located Conflict} (h : m.step t = .error (.conflict cause)) :
    (m.named t.value).parser.react t = .take (.error cause) := by
  rw [step] at h
  split at h <;> simp_all

/-- A file is asked for at the semicolon after its path. -/
theorem react_of_step_load {path : Located String} (h : m.step t = .error (.load path)) :
    m.parser.state = .includeEnd path ∧ t.value = .mark .semicolon := by
  have hreact : (m.named t.value).parser.react t = .load path := by
    rw [step] at h
    split at h <;> simp_all
  obtain ⟨hstate, ht⟩ := Parser.state_of_load hreact
  have self : m.named t.value = m := named_eq_self_of_ne hstate (by simp)
  rw [self] at hstate
  exact ⟨hstate, ht⟩

/-- A parse is finished at the end of a text, between declarations. -/
theorem react_of_step_finished {app : App} (h : m.step t = .error (.finished app)) :
    m.parser.state = .top ∧ t.value = .finish ∧ app = m.parser.app := by
  obtain ⟨hreact, rfl⟩ : (m.named t.value).parser.react t = .finish ∧ (m.named t.value).parser.app = app := by
    rw [step] at h
    split at h <;> simp_all
  obtain ⟨hstate, ht⟩ := Parser.state_of_finish hreact
  have self : m.named t.value = m := named_eq_self_of_ne hstate (by simp)
  rw [self] at hstate ⊢
  exact ⟨hstate, ht, rfl⟩

end Inversion

/-! ### Where a run stops -/

/-- A run that stops does so at one of its tokens. -/
theorem exists_step_of_run_error {m : Machine} {ts : List (Located Token)} {halt : Halt} (h : m.run ts = .error halt) :
    ∃ us t rest m', ts = us ++ t :: rest ∧ m.run us = .ok m' ∧ m'.step t = .error halt := by
  induction ts generalizing m with
  | nil => simp at h
  | cons t ts ih =>
    cases hs : m.step t with
    | error halt' =>
      rw [run_cons_of_error hs] at h
      obtain rfl : halt' = halt := by simpa using h
      exact ⟨[], t, ts, m, rfl, rfl, hs⟩
    | ok m' =>
      rw [run_cons_of_ok hs] at h
      obtain ⟨us, u, rest, m'', rfl, hr, hu⟩ := ih h
      refine ⟨t :: us, u, rest, m'', rfl, ?_, hu⟩
      rw [run_cons_of_ok hs, hr]

/-- A run that does not stop takes no end. -/
theorem value_ne_finish_of_run {m m' : Machine} {ts : List (Located Token)} (h : m.run ts = .ok m') :
    ∀ t ∈ ts, t.value ≠ .finish := by
  intro t ht hfinish
  obtain ⟨us, rest, rfl⟩ := List.append_of_mem ht
  rw [run_append] at h
  cases hu : m.run us with
  | error halt => simp [hu, Except.bind] at h
  | ok m'' =>
    obtain ⟨halt, hs⟩ := step_finish (m := m'') hfinish
    rw [hu] at h
    simp [Except.bind, run_cons_of_error hs] at h

end Machine

end BundleConf
