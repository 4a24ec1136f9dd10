import BundleConf.Proofs.Parsing.Machine
import BundleConf.Proofs.Parsing.Transitions

/-!
# How a parser comes to ask for a file

A parser asks for a file at the semicolon of an include, after the keyword and the path (`Machine.run_path`,
`Machine.step_includeEnd`).  So a machine that is fed no such keyword never asks for a file (`Machine.run_ne_load`), and
the path that a parser asks for is the value that it has taken last (`Machine.path_of_step`).
-/

namespace BundleConf

/-- The parser has read the keyword of an include. -/
def State.AwaitsFile : State → Prop
  | .includePath => True
  | .includeEnd _ => True
  | _ => False

namespace Machine

variable {m m' : Machine} {ts : List (Located Token)}

private theorem not_awaitsFile_siteResume (site : Site) (name : String) : ¬ (site.resume name).AwaitsFile := by
  cases site <;> simp [Site.resume, State.AwaitsFile]

private theorem not_awaitsFile_blockResume (block : RoutesBlock) : ¬ block.resume.AwaitsFile := by
  cases block <;> simp [RoutesBlock.resume, State.AwaitsFile]

private theorem not_awaitsFile_closeList (p : Parser) (listing : Listing) (entries : List String) :
    ¬ (p.closeList listing entries).state.AwaitsFile := by
  cases listing <;> simp [Parser.closeList, State.AwaitsFile]

/-- A parser takes the keyword of an include between declarations and the path after the keyword; every other token that
it takes has nothing to do with includes. -/
private theorem cases_of_react {p p' : Parser} {t : Located Token} (h : p.react t = .take (.ok p')) :
    p.state = .top ∧ t.value = .keyword .include ∧ p' = ⟨p.app, .includePath⟩ ∨
    (p.state = .includePath ∧ ∃ payload, t.value = .value payload ∧ p' = ⟨p.app, .includeEnd ⟨payload, t.span⟩⟩) ∨
    ¬ p.state.AwaitsFile ∧ t.value ≠ .keyword .include ∧ ¬ p'.state.AwaitsFile := by
  obtain ⟨app, state⟩ := p
  obtain ⟨token, span⟩ := t
  cases Parser.takes_of_react h with
  | goes hgoes =>
    cases hgoes with
    | inclusion => exact .inl ⟨rfl, rfl, rfl⟩
    | includePath path => exact .inr (.inl ⟨rfl, path, rfl, rfl⟩)
    | packageClose => exact .inr (.inr ⟨id, by simp, not_awaitsFile_siteResume _ _⟩)
    | routesClose => exact .inr (.inr ⟨id, by simp, not_awaitsFile_blockResume _⟩)
    | _ => exact .inr (.inr ⟨id, by simp, id⟩)
  | noList => exact .inr (.inr ⟨id, by simp, not_awaitsFile_closeList _ _ _⟩)
  | list => exact .inr (.inr ⟨id, by simp, not_awaitsFile_closeList _ _ _⟩)
  | _ => exact .inr (.inr ⟨id, by simp, id⟩)

theorem cases_of_step {t : Located Token} (h : m.step t = .ok m') :
    m.parser.state = .top ∧ t.value = .keyword .include ∧ m' = ⟨m.generated, ⟨m.parser.app, .includePath⟩⟩ ∨
    (m.parser.state = .includePath ∧ ∃ payload, t.value = .value payload ∧
      m' = ⟨m.generated, ⟨m.parser.app, .includeEnd ⟨payload, t.span⟩⟩⟩) ∨
    ¬ m.parser.state.AwaitsFile ∧ t.value ≠ .keyword .include ∧ ¬ m'.parser.state.AwaitsFile := by
  obtain ⟨hreact, hgenerated⟩ := react_of_step_ok h
  obtain ⟨generated, parser⟩ := m'
  rcases cases_of_react hreact with ⟨htop, ht, rfl⟩ | ⟨hpath, payload, ht, rfl⟩ | ⟨hout, ht, hout'⟩
  · have self := named_eq_self_of_ne htop (by simp)
    rw [self] at htop hgenerated ⊢
    exact .inl ⟨htop, ht, by rw [← hgenerated]⟩
  · have self := named_eq_self_of_ne hpath (by simp)
    rw [self] at hpath hgenerated ⊢
    exact .inr (.inl ⟨hpath, payload, ht, by rw [← hgenerated]⟩)
  · refine .inr (.inr ⟨fun hawaits => hout ?_, ht, hout'⟩)
    -- a machine that awaits a file draws no name
    rwa [named_eq_self fun site hsite => by simp [hsite, State.AwaitsFile] at hawaits]

theorem awaitsFile_of_run (h : m.run ts = .ok m') (hawaits : m'.parser.state.AwaitsFile) :
    m.parser.state.AwaitsFile ∨ ∃ t ∈ ts, t.value = .keyword .include := by
  induction ts generalizing m with
  | nil =>
    obtain rfl : m = m' := by simpa using h
    exact .inl hawaits
  | cons t ts ih =>
    cases hs : m.step t with
    | error halt => simp [run_cons_of_error hs] at h
    | ok m'' =>
      rw [run_cons_of_ok hs] at h
      rcases ih h with hstate | ⟨u, hu, hinclude⟩
      · rcases cases_of_step hs with ⟨-, ht, -⟩ | ⟨hpath, -⟩ | ⟨-, -, hout⟩
        · exact .inr ⟨t, by simp, ht⟩
        · exact .inl (by rw [hpath]; trivial)
        · exact absurd hstate hout
      · exact .inr ⟨u, by simp [hu], hinclude⟩

/-- The path of an include is the value that the machine takes after the keyword. -/
theorem path_of_step {t : Located Token} {path : Located String} (h : m.step t = .ok m')
    (hstate : m'.parser.state = .includeEnd path) : t = ⟨.value path.value, path.span⟩ := by
  rcases cases_of_step h with ⟨-, -, rfl⟩ | ⟨-, payload, ht, rfl⟩ | ⟨-, -, hout⟩
  · simp at hstate
  · obtain rfl : ⟨payload, t.span⟩ = path := by simpa using hstate
    rw [← ht]
  · rw [hstate] at hout
    exact absurd trivial hout

/-- Between declarations a machine takes the keyword and the path of an include. -/
theorem run_path {a b : Located Token} {requested : String} (hm : m.parser.state = .top)
    (ha : a.value = .keyword .include) (hb : b.value = .value requested) :
    m.run [a, b] = .ok ⟨m.generated, { m.parser with state := .includeEnd ⟨requested, b.span⟩ }⟩ := by
  have hkeyword : m.parser.react a = .take (.ok { m.parser with state := .includePath }) := by
    rw [Parser.react, hm, ha]
    rfl
  have hpath : { m.parser with state := .includePath : Parser }.react b =
      .take (.ok { m.parser with state := .includeEnd ⟨requested, b.span⟩ }) := by
    rw [Parser.react, hb]
    rfl
  rw [run_cons_of_ok (step_of_react (by rw [hm]; simp) hkeyword), run_cons_of_ok (step_of_react (by simp) hpath),
    run_nil]

theorem step_includeEnd {t : Located Token} {path : Located String} (hm : m.parser.state = .includeEnd path)
    (ht : t.value = .mark .semicolon) : m.step t = .error (.load path) := by
  rw [step, named_eq_self (by rw [hm]; simp), Parser.react, hm]
  simp [ht]

/-- A machine that is fed no include asks for no file. -/
theorem run_ne_load {generated : Nat} (h : ∀ t ∈ ts, t.value ≠ .keyword .include) (path : Located String) :
    (start generated).run ts ≠ .error (.load path) := by
  intro hload
  obtain ⟨us, t, rest, m, rfl, hrun, hstep⟩ := exists_step_of_run_error hload
  obtain ⟨hstate, -⟩ := react_of_step_load hstep
  rcases awaitsFile_of_run hrun (by rw [hstate]; trivial) with hstart | ⟨u, hu, hinclude⟩
  · exact hstart
  · exact h u (by simp [hu]) hinclude

end Machine

end BundleConf
