import BundleConf.Proofs.Include.Visiting
import BundleConf.Proofs.Session.Calls

/-!
# Open files and suspended tokens

Every file that is open, the innermost one apart, waits at a token.  Whatever is called there are enough tokens for the
files, so closing files never comes to a file that cannot be resumed; there are more tokens than that only if a call
has failed, or if a file has been included while none was open (`Session.nesting_of_calls`).  A parse includes files
only while one is open, and goes on only from calls that succeed.  So when it has yielded an application no file is open
and no token is left.
-/

namespace BundleConf.Session

variable {s₀ s₁ s s' : Session}

private theorem Orderly.draw (h : s.Orderly) (generated : Nat) : { s with generated }.Orderly :=
  ⟨⟨h.bounded.depth_le, h.bounded.depth_le_suspended⟩, h.ended, ⟨h.nested.length, h.nested.suspended⟩⟩

/-- What a session passes it passes in order. -/
theorem Passes.orderly {passed : List (Located Token)} (hopen : s₀.Opens s₁) (h : s₁.Passes passed s) :
    s.Orderly := by
  induction h with
  | refl =>
    obtain ⟨_, _, htext⟩ := hopen.exists_openText
    exact orderly_of_openText htext
  | advance _ _ hadvance ih => exact ih.call (c := .advance) (fun h => h.elim) hadvance
  | load _ hfiles hinclude ih => exact ih.call (c := .includeFile _ _ _) (fun _ => hfiles) hinclude
  | draw _ generated ih => exact ih.draw generated

/-- With no file open there is nothing to resume. -/
theorem Nested.suspended_eq_nil (h : s.Nested) (hfiles : s.files = []) : s.suspended = [] := by
  refine List.eq_nil_of_length_eq_zero ?_
  rw [h.length, depth, hfiles]
  rfl

/-- A parse that yields an application leaves no file open and no token suspended. -/
private theorem Parses.closed {parse : Nat → Reading Parsed} (hparse : s₀.Parses parse) {files : FileSystem}
    {budget : Nat} {app : App} (h : (parse budget).run files = .ok (app, s)) : s.depth = 0 ∧ s.suspended = [] := by
  obtain ⟨p, hvisits, hfinish, -, -⟩ := hparse.exists_finished h
  obtain ⟨s₁, passed, hopen, hpasses, -⟩ := hvisits.exists_passes
  have orderly : s.Orderly := hpasses.orderly hopen
  have hfiles : s.files = [] := by
    by_cases hopen : s.files = []
    · exact hopen
    · rw [current_of_lookahead hopen] at hfinish
      exact List.isEmpty_iff.1 (orderly.ended.2 hfinish)
  exact ⟨congrArg List.length hfiles, orderly.nested.suspended_eq_nil hfiles⟩

/-- How many files are open and how many tokens are suspended, after any calls and after a parse.  When a call settles
the session then no end is current in a file that is left open, for a file is resumed at a token. -/
theorem nesting_of_calls :
    (∀ (root : Path) (calls : List Call) (s : Session), (new root).afterCalls calls = s →
      s.depth ≤ maxDepth ∧ s.depth ≤ s.suspended.length + 1 ∧
      (∀ c s', s.call c = .ok s' → s'.files ≠ [] → s'.current.value ≠ .finish) ∧
      ((new root).Succeeds calls →
        (s.isFinished = true ↔ s.current.value = .finish) ∧
        ((new root).IncludesFromFiles calls →
          s.suspended.length = s.depth - 1 ∧ ∀ t ∈ s.suspended, t.value ≠ .finish))) ∧
    ∀ (s₀ : Session) (parse : Nat → Reading Parsed) (files : FileSystem) (budget : Nat) (app : App) (s : Session),
      s₀.Parses parse → (parse budget).run files = .ok (app, s) → s.depth = 0 ∧ s.suspended = [] := by
  refine ⟨?_, fun s₀ parse files budget app s hparse h => hparse.closed h⟩
  rintro root calls s rfl
  have bounded := (bounded_new root).afterCalls calls
  refine ⟨bounded.depth_le, bounded.depth_le_suspended, fun c s' hs => bounded.settled_of_call hs, fun hcalls => ?_⟩
  refine ⟨(bounded_new root).ended_afterCalls (ended_new root) hcalls, fun hincludes => ?_⟩
  have orderly := (orderly_new root).afterCalls hcalls hincludes
  exact ⟨orderly.nested.length, orderly.nested.suspended⟩

/-- Files are included before the first token and before the last one of a file that has been included itself. -/
private def nestedCalls : List Call :=
  [.openText ⟨"app.conf"⟩ "routes ;", .includeFile "ui.conf" ⟨0, 6, 0⟩ (.ok "ui ;"), .advance,
    .includeFile "end.conf" ⟨3, 4, 1⟩ (.ok (withBraces "("))]

/-- A file is included that cannot be entered. -/
private def strayCalls : List Call :=
  nestedCalls ++ [.includeFile "stray.conf" ⟨0, 1, 2⟩ (.ok "@")]

private def including : FileSystem := fun path =>
  if path = ⟨"./app.conf"⟩ then .ok "include 'end.conf'; include 'end.conf';"
  else if path = ⟨"./end.conf"⟩ then .ok "middleware 'm';"
  else .error .notFound

/-- With the include that fails there is one token more than there are files to be resumed. -/
theorem nesting_of_calls_stray :
    (∃ s, (new ⟨"."⟩).afterCalls nestedCalls = s ∧ s.depth = 3 ∧ s.suspended.length = s.depth - 1 ∧
      (∀ t ∈ s.suspended, t.value ≠ .finish) ∧ s.current.value ≠ .finish) ∧
    (∃ s, (new ⟨"."⟩).afterCalls strayCalls = s ∧ s.depth = 3 ∧ s.depth ≤ maxDepth ∧ s.suspended.length = 3 ∧
      s.current.value = .finish ∧ ∀ s', s.advance = .ok s' → s'.files ≠ [] → s'.current.value ≠ .finish) ∧
    ∃ app s, ((new ⟨"."⟩).parseFileWithin 2 ⟨"app.conf"⟩).run including = .ok (app, s) ∧
      app.middlewares = ["m", "m"] ∧ s.depth = 0 ∧ s.suspended = [] := by
  obtain ⟨nesting, closed⟩ := nesting_of_calls
  refine ⟨?_, ?_, ?_⟩
  · obtain ⟨-, -, -, hsucceeds⟩ := nesting ⟨"."⟩ nestedCalls _ rfl
    obtain ⟨hended, hincludes⟩ := hsucceeds (by decide +kernel)
    obtain ⟨hlength, hvalues⟩ := hincludes (by decide +kernel)
    have hopen : ((new ⟨"."⟩).afterCalls nestedCalls).isFinished ≠ true := by decide +kernel
    exact ⟨_, rfl, by decide +kernel, hlength, hvalues, fun hfinish => hopen (hended.2 hfinish)⟩
  · obtain ⟨hdepth, -, hsettled, -⟩ := nesting ⟨"."⟩ strayCalls _ rfl
    exact ⟨_, rfl, by decide +kernel, hdepth, by decide +kernel, by decide +kernel, hsettled .advance⟩
  · have hparsed : (((new ⟨"."⟩).parseFileWithin 2 ⟨"app.conf"⟩).run including).toOption.map
        (fun x => x.1.middlewares) = some ["m", "m"] := by
      decide +kernel
    obtain ⟨⟨app, s⟩, hresult, hmiddlewares⟩ := Option.map_eq_some_iff.1 hparsed
    have hresult := Outcome.eq_ok_of_toOption hresult
    obtain ⟨hdepth, hsuspended⟩ := closed _ _ including 2 app s (.file ⟨"app.conf"⟩) hresult
    exact ⟨app, s, hresult, hmiddlewares, hdepth, hsuspended⟩

end BundleConf.Session
