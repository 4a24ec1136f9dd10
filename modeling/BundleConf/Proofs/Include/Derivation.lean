import BundleConf.Proofs.Grammar.Entry
import BundleConf.Proofs.Parsing.Consistency

/-!
# What a parse across files derives

The tokens that a parse passes come from the root file and from all files that it includes.  Without the comments, and
without the keyword and the path of every include, they derive from the grammar, and the parse yields what the
derivation means (`Session.Parses.exists_declarations`): a machine that reads what is left goes through the same states
between its declarations (`Machine.HasRead`).

So every package that is written as an entry of a list, in whatever file, is found under the name that the list keeps in
its place (`Session.Parses.exists_resolves`).
-/

namespace BundleConf

/-! ### Tokens without includes -/

/-- The tokens without the keyword and the path of every include. -/
def withoutIncludes : List (Located Token) → List (Located Token)
  | [] => []
  | [t] => if t.value = .keyword .include then [] else [t]
  | t :: u :: ts => if t.value = .keyword .include then withoutIncludes ts else t :: withoutIncludes (u :: ts)

/-- No keyword of an include comes last, so that what comes next does not depend on the tokens. -/
def EndsNoInclude (ts : List (Located Token)) : Prop :=
  ∀ us, withoutIncludes (ts ++ us) = withoutIncludes ts ++ withoutIncludes us

section Tokens

variable {ts : List (Located Token)} {t u : Located Token}

theorem withoutIncludes_cons (ht : t.value ≠ .keyword .include) (ts : List (Located Token)) :
    withoutIncludes (t :: ts) = t :: withoutIncludes ts := by
  cases ts <;> simp [withoutIncludes, ht]

theorem withoutIncludes_include (ht : t.value = .keyword .include) (u : Located Token) (ts : List (Located Token)) :
    withoutIncludes (t :: u :: ts) = withoutIncludes ts := by
  simp [withoutIncludes, ht]

theorem value_ne_include_of_mem_withoutIncludes (h : t ∈ withoutIncludes ts) : t.value ≠ .keyword .include := by
  fun_induction withoutIncludes ts with
  | case1 => simp at h
  | case2 => simp at h
  | case3 u hu =>
    obtain rfl : t = u := by simpa using h
    exact hu
  | case4 _ _ _ _ ih => exact ih h
  | case5 u v ts hu ih =>
    rcases List.mem_cons.1 h with rfl | h
    · exact hu
    · exact ih h

namespace EndsNoInclude

theorem nil : EndsNoInclude [] := fun _ => rfl

theorem concat (h : EndsNoInclude ts) (ht : t.value ≠ .keyword .include) :
    EndsNoInclude (ts ++ [t]) ∧ withoutIncludes (ts ++ [t]) = withoutIncludes ts ++ [t] := by
  have last : withoutIncludes (ts ++ [t]) = withoutIncludes ts ++ [t] := by
    rw [h, withoutIncludes_cons ht, withoutIncludes]
  refine ⟨fun us => ?_, last⟩
  rw [last, List.append_assoc, List.singleton_append, h, withoutIncludes_cons ht, List.append_assoc,
    List.singleton_append]

theorem inclusion (h : EndsNoInclude ts) (ht : t.value = .keyword .include) (u : Located Token) :
    EndsNoInclude (ts ++ [t, u]) ∧ withoutIncludes (ts ++ [t, u]) = withoutIncludes ts := by
  have last : withoutIncludes (ts ++ [t, u]) = withoutIncludes ts := by
    rw [h, withoutIncludes_include ht, withoutIncludes, List.append_nil]
  refine ⟨fun us => ?_, last⟩
  rw [last, List.append_assoc, List.cons_append, List.singleton_append, h, withoutIncludes_include ht]

end EndsNoInclude

end Tokens

/-! ### Machines that include files -/

namespace Machine

variable {generated : Nat} {read : List (Located Token)} {m m' : Machine} {t : Located Token}

/-- Where a machine is that has read the tokens, and has gone on between declarations wherever it was to include a file:
where it would be without the includes, apart from the one that it is reading. -/
inductive HasRead (generated : Nat) : List (Located Token) → Machine → Prop
  | outside {read : List (Located Token)} {m : Machine} (ends : EndsNoInclude read)
      (run : (start generated).run (withoutIncludes read) = .ok m) (out : ¬ m.parser.state.AwaitsFile) :
      HasRead generated read m
  | keyword {read : List (Located Token)} {number : Nat} {app : App} {t : Located Token} (ends : EndsNoInclude read)
      (run : (start generated).run (withoutIncludes read) = .ok ⟨number, ⟨app, .top⟩⟩)
      (keyword : t.value = .keyword .include) : HasRead generated (read ++ [t]) ⟨number, ⟨app, .includePath⟩⟩
  | path {read : List (Located Token)} {number : Nat} {app : App} {t u : Located Token} (ends : EndsNoInclude read)
      (run : (start generated).run (withoutIncludes read) = .ok ⟨number, ⟨app, .top⟩⟩)
      (keyword : t.value = .keyword .include) (path : Located String) :
      HasRead generated (read ++ [t, u]) ⟨number, ⟨app, .includeEnd path⟩⟩

theorem HasRead.start (generated : Nat) : HasRead generated [] (start generated) :=
  .outside .nil rfl id

theorem HasRead.step (h : HasRead generated read m) (hstep : m.step t = .ok m') :
    HasRead generated (read ++ [t]) m' := by
  have cases := cases_of_step hstep
  cases h with
  | outside ends run out =>
    rcases cases with ⟨htop, ht, rfl⟩ | ⟨hpath, -⟩ | ⟨-, ht, hout⟩
    · obtain ⟨number, app, state⟩ := m
      obtain rfl : state = .top := htop
      exact .keyword ends run ht
    · rw [hpath] at out
      exact absurd trivial out
    · obtain ⟨ends', last⟩ := ends.concat ht
      refine .outside ends' ?_ hout
      rw [last, run_append_of_ok run, run_cons_of_ok hstep, run_nil]
  | @keyword read number app k ends run keyword =>
    rcases cases with ⟨htop, -⟩ | ⟨-, payload, -, rfl⟩ | ⟨hout, -⟩
    · simp at htop
    · rw [List.append_assoc]
      exact .path ends run keyword _
    · exact absurd trivial hout
  | path =>
    rcases cases with ⟨htop, -⟩ | ⟨hpath, -⟩ | ⟨hout, -⟩
    · simp at htop
    · simp at hpath
    · exact absurd trivial hout

/-- When a file is loaded the machine goes on as if there had been no include. -/
theorem HasRead.load (h : HasRead generated read m) {path : Located String} (hstep : m.step t = .error (.load path)) :
    HasRead generated read ⟨m.generated, { m.parser with state := .top }⟩ := by
  obtain ⟨hstate, -⟩ := react_of_step_load hstep
  cases h with
  | outside ends run out =>
    rw [hstate] at out
    exact absurd trivial out
  | keyword => simp at hstate
  | path ends run keyword path =>
    obtain ⟨ends', last⟩ := ends.inclusion keyword _
    exact .outside ends' (last ▸ run) id

/-- Outside of includes a machine is where it would be without them. -/
theorem HasRead.run_withoutIncludes (h : HasRead generated read m) (out : ¬ m.parser.state.AwaitsFile) :
    (Machine.start generated).run (withoutIncludes read) = .ok m := by
  cases h with
  | outside _ run => exact run
  | keyword => exact absurd trivial out
  | path => exact absurd trivial out

/-- No comment is taken. -/
theorem isComment_of_step (h : m.step t = .ok m') : t.value.isComment = false := by
  have hreact := (react_of_step_ok h).1
  obtain ⟨token, span⟩ := t
  generalize m.named token = p at hreact
  obtain ⟨number, app, state⟩ := p
  obtain ⟨number', parser⟩ := m'
  cases Parser.takes_of_react hreact with
  | goes hgoes => cases hgoes <;> rfl
  | _ => rfl

end Machine

/-! ### Whole parses -/

namespace Session

variable {s₀ s : Session} {files : FileSystem}

theorem Visits.exists_hasRead {p : Parser} (h : s₀.Visits files s p) :
    ∃ s₁ passed, s₀.Opens s₁ ∧ s₁.Passes passed s ∧
      Machine.HasRead s₀.generated (meaningful passed) (s.machine p) := by
  refine Visits.exists_passes_of (P := fun passed m => Machine.HasRead s₀.generated (meaningful passed) m) ?_ ?_ ?_ ?_ h
  · exact .start s₀.generated
  · intro passed m t hm ht
    rwa [meaningful, List.filter_append, List.filter_cons_of_neg (by simpa using ht), List.filter_nil,
      List.append_nil]
  · intro passed m m' t hm hstep
    rw [meaningful, List.filter_append, List.filter_cons_of_pos (by simpa using Machine.isComment_of_step hstep),
      List.filter_nil]
    exact hm.step hstep
  · intro passed m t path hm hstep
    exact hm.load hstep

/-- What a parse has passed across all files, comments and includes apart, is what some declarations derive, and the
parse yields what they mean. -/
theorem Parses.exists_declarations {parse : Nat → Reading Parsed} (hparse : s₀.Parses parse) {budget : Nat} {app : App}
    (h : (parse budget).run files = .ok (app, s)) :
    ∃ s₁ passed ds, s₀.Opens s₁ ∧ s₁.Passes passed s ∧
      (withoutIncludes (meaningful passed)).map Located.value = ds.flatMap Declaration.tokens ∧
      (Ledger.fresh s₀.generated).Numbers (ds.flatMap Declaration.events) ∧ app = .declared ds := by
  obtain ⟨p, hvisits, hfinish, htop, rfl⟩ := hparse.exists_finished h
  obtain ⟨s₁, passed, hopens, hpasses, hread⟩ := hvisits.exists_hasRead
  have run := hread.run_withoutIncludes (m := s.machine p) (by simp [machine, htop, State.AwaitsFile])
  have finished : (s.machine p).step s.lookahead = .error (.finished p.app) :=
    Machine.step_finish_of_top (m := s.machine p) htop hfinish
  have hrun : (Machine.start s₀.generated).run (withoutIncludes (meaningful passed) ++ [s.lookahead]) =
      .error (.finished p.app) := by
    rw [Machine.run_append_of_ok run, Machine.run_cons_of_error finished]
  have plain : ∀ t ∈ withoutIncludes (meaningful passed), t.value ≠ .finish ∧ t.value ≠ .keyword .include :=
    fun t ht => ⟨Machine.value_ne_finish_of_run run t ht, value_ne_include_of_mem_withoutIncludes ht⟩
  obtain ⟨ds, htokens, hnumbers, -, happ⟩ := Machine.exists_declarations_of_finished plain hfinish hrun
  rw [List.map_append] at htokens
  exact ⟨s₁, passed, ds, hopens, hpasses, (List.append_inj' htokens rfl).1, hnumbers, happ⟩

/-- A package that is declared as an entry of a list, in whatever file and package, is what is found under the name that
the list keeps in its place; so only a package that was named in quotes can be missing. -/
theorem Parses.exists_resolves {parse : Nat → Reading Parsed} (hparse : s₀.Parses parse) {budget : Nat} {app : App}
    (h : (parse budget).run files = .ok (app, s)) :
    ∃ s₁ passed ds, s₀.Opens s₁ ∧ s₁.Passes passed s ∧
      (withoutIncludes (meaningful passed)).map Located.value = ds.flatMap Declaration.tokens ∧
      app = .declared ds ∧ app.Resolves ds := by
  obtain ⟨p, hvisits, -, -, happ⟩ := hparse.exists_finished h
  have consistent : app.IsConsistent := happ ▸ hvisits.isConsistent
  obtain ⟨s₁, passed, ds, hopens, hpasses, htokens, -, rfl⟩ := hparse.exists_declarations h
  exact ⟨s₁, passed, ds, hopens, hpasses, htokens, rfl, App.resolves_declared consistent.1⟩

/-- Packages as entries of lists, one in the list of another and one in an included file; two of the names look like
generated ones and are given before they could be generated. -/
private def inlining : FileSystem := fun path =>
  if path = ⟨"./app.conf"⟩ then
    .ok <| withBraces "package 'anonymous-0' ( ) include 'ui.conf'; routes ( '/' : 'home' " ++
      withBraces "['lost', package ( routes ( '/in' : 'inner' " ++
      withBraces "[package 'p' ( ), package ( file 'a'; )], index; ) )]; )"
  else if path = ⟨"./ui.conf"⟩ then .ok (withBraces "ui ( assets [package 'anonymous-2' ( ), 'lost'] )")
  else .error .notFound

theorem exists_resolves_nested : ∃ app s,
    ((Session.new ⟨"."⟩).parseFileWithin 1 ⟨"app.conf"⟩).run inlining = .ok (app, s) ∧
    app.allRoutes.map (fun r => (r.path, r.depends)) =
      [("/", ["lost", "anonymous-1"]), ("/in", ["p", "anonymous-3"])] ∧
    app.ui.assets = ["anonymous-2", "lost"] ∧
    app.package? "anonymous-3" = some { name := "anonymous-3", files := ["a"] } ∧
    app.violation? = some (.missingPackage "lost" "/") ∧
    ∃ s₁ passed ds, (Session.new ⟨"."⟩).Opens s₁ ∧ s₁.Passes passed s ∧
      (withoutIncludes (meaningful passed)).map Located.value = ds.flatMap Declaration.tokens ∧
      app = .declared ds ∧ app.Resolves ds := by
  have hparsed : (((Session.new ⟨"."⟩).parseFileWithin 1 ⟨"app.conf"⟩).run inlining).toOption.map (fun x =>
      (x.1.allRoutes.map fun r => (r.path, r.depends), x.1.ui.assets, x.1.package? "anonymous-3", x.1.violation?)) =
      some ([("/", ["lost", "anonymous-1"]), ("/in", ["p", "anonymous-3"])], ["anonymous-2", "lost"],
        some { name := "anonymous-3", files := ["a"] }, some (.missingPackage "lost" "/")) := by
    decide +kernel
  obtain ⟨⟨app, s⟩, hsome, hdeclared⟩ := Option.map_eq_some_iff.1 hparsed
  have hrun := Outcome.eq_ok_of_toOption hsome
  simp only [Prod.mk.injEq] at hdeclared
  obtain ⟨hroutes, hui, hpackage, hviolation⟩ := hdeclared
  exact ⟨app, s, hrun, hroutes, hui, hpackage, hviolation, (Parses.file ⟨"app.conf"⟩).exists_resolves hrun⟩

end Session

end BundleConf
