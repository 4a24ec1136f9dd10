import BundleConf.Proofs.Grammar.Viability
import BundleConf.Proofs.Parsing.Acceptance

/-!
# The first impossible token

When a parse fails because a token is not expected, the tokens before it can be completed to a text of the grammar, but
no text of the grammar goes on with a token of its kind; and it can go on with each kind that the error says is expected
(`parseText_unexpected`).  The first and the last part hold because the state of the machine demands what can be
met; the other one holds because the machine goes through every derivation, up to a conflict, without refusing a token.
-/

namespace BundleConf

/-- Items that have been read up to a token without an inclusion can be taken for declarations. -/
private theorem exists_declarations_of_prefix {items : List Item} {vs rest : List Token} {u : Token}
    (h : items.flatMap Item.tokens ++ [.finish] = vs ++ u :: rest) (hvs : .keyword .include ∉ vs)
    (hu : u ≠ .keyword .include) :
    ∃ (ds : List Declaration) (rest' : List Token), ds.flatMap Declaration.tokens ++ [.finish] = vs ++ u :: rest' := by
  induction items generalizing vs with
  | nil => exact ⟨[], rest, h⟩
  | cons item items ih =>
    rw [List.flatMap_cons, List.append_assoc] at h
    cases item with
    | inclusion requested =>
      -- the keyword of the inclusion would be among the tokens
      cases vs with
      | nil => exact absurd (List.cons.inj h).1.symm hu
      | cons v vs => exact absurd ((List.cons.inj h).1 ▸ List.mem_cons_self) hvs
    | declaration d =>
      rcases List.append_eq_append_iff.1 h with ⟨vs', rfl, hrest⟩ | ⟨ws, hd, hrest⟩
      · obtain ⟨ds, rest', hds⟩ := ih hrest fun hmem => hvs (List.mem_append_right _ hmem)
        exact ⟨d :: ds, rest', by rw [List.flatMap_cons, List.append_assoc, hds, List.append_assoc]; rfl⟩
      · cases ws with
        | nil =>
          have hnext : items.flatMap Item.tokens ++ [.finish] = [] ++ u :: rest := hrest.symm
          obtain ⟨ds, rest', hds⟩ := ih hnext (by simp)
          have hvs : d.tokens = vs := hd.trans (List.append_nil vs)
          exact ⟨d :: ds, rest', by rw [List.flatMap_cons, List.append_assoc, hds, hvs, List.nil_append]⟩
        | cons w ws =>
          obtain rfl : u = w := (List.cons.inj hrest).1
          have hvs : d.tokens = vs ++ u :: ws := hd
          exact ⟨[d], ws ++ [.finish], by simp [hvs]⟩

namespace Machine

variable {m : Machine} {us : List (Located Token)} {t : Located Token} {expected : Expectation}

/-- What has been read can be completed to a text of the grammar. -/
theorem exists_endsText_of_run (h : (start 0).run us = .ok m) : ∃ vs, EndsText (us.map Located.value ++ vs) := by
  obtain ⟨vs, hvs⟩ := m.parser.state.exists_demands
  exact ⟨vs, demands_of_run h hvs⟩

/-- It can go on with everything that is expected where a token is refused. -/
theorem exists_endsText_of_expected (h : (start 0).run us = .ok m) (hstep : m.step t = .error (.refused expected))
    {a : Alternative} (ha : a ∈ expected.alternatives) {kind : Kind} (hkind : kind ∈ a.kinds) :
    ∃ u vs, u.kind = kind ∧ EndsText (us.map Located.value ++ u :: vs) := by
  rw [expectation_of_refused hstep] at ha
  obtain ⟨u, vs, hu, hvs⟩ := m.parser.state.admits_expectation ha hkind
  exact ⟨u, vs, hu, demands_of_run h hvs⟩

/-- No text of the grammar goes on with a token of the kind that is refused. -/
theorem not_endsText_of_refused (hus : ∀ v ∈ us, v.value ≠ .keyword .include) (ht : t.value ≠ .keyword .include)
    (h : (start 0).run us = .ok m) (hstep : m.step t = .error (.refused expected)) {u : Token}
    (hu : u.kind = t.value.kind) (vs : List Token) : ¬ EndsText (us.map Located.value ++ u :: vs) := by
  rintro ⟨items, hitems⟩
  have hinclude : u ≠ .keyword .include := by
    rintro rfl
    cases hvalue : t.value <;> simp_all [Token.kind]
  have hprefix : .keyword .include ∉ us.map Located.value := by
    intro hmem
    obtain ⟨v, hv, hvalue⟩ := List.mem_map.1 hmem
    exact hus v hv hvalue
  obtain ⟨ds, rest, hds⟩ := exists_declarations_of_prefix hitems.symm hprefix hinclude
  obtain ⟨ds', hds', hn⟩ := exists_numbers_declarations (.fresh 0) ds
  let ts : List (Located Token) := us ++ ⟨u, t.span⟩ :: rest.map fun v => ⟨v, t.span⟩
  have hts : ts.map Located.value = ds'.flatMap Declaration.tokens ++ [.finish] := by
    rw [hds', hds]
    simp [ts, Function.comp_def]
  have hrefused : (start 0).run ts = .error (.refused expected) := by
    rw [run_append_of_ok h]
    exact run_cons_of_error (refused_of_kind hstep hu) _
  -- the declarations are gone through to the end, or up to a conflict
  obtain ⟨hok, herror⟩ := run_declarations hts hn
  cases hc : (Ledger.fresh 0).firstConflict? (Declaration.allOccurrences 0 ds') with
  | none => simp [hok hc] at hrefused
  | some found =>
    obtain ⟨t', -, hconflict⟩ := herror found.1 found.2 hc
    simp [hconflict] at hrefused

end Machine

/-- If a text without inclusions is not accepted because a token is not expected, then what comes before the token can
be completed to a text of the grammar, no text of the grammar goes on with a token of its kind, and for every kind that
is said to be expected there is one that goes on with a token of that kind. -/
theorem parseText_unexpected (files : FileSystem) {text : String}
    (noInclude : ∀ t ∈ (TokenStream.ofSource ⟨.input, text⟩ 0).unread.1, t.value ≠ .keyword .include)
    {expected : Expectation} {found : Kind} {location : Location} {s : Session}
    (h : (parseText text).run files = .error ⟨.unexpected expected found location, s⟩) :
    ∃ us t rest, meaningful (TokenStream.ofSource ⟨.input, text⟩ 0).unread.1 = us ++ t :: rest ∧
      location.span = t.span ∧ found = t.value.kind ∧
      (∃ vs, EndsText (us.map Located.value ++ vs)) ∧
      (∀ u vs, u.kind = t.value.kind → ¬ EndsText (us.map Located.value ++ u :: vs)) ∧
      expected.text = enumerate (expected.alternatives.map Alternative.text) ∧
      ∀ a ∈ expected.alternatives, ∀ kind ∈ a.kinds,
        ∃ u vs, u.kind = kind ∧ EndsText (us.map Located.value ++ u :: vs) := by
  have path : (TokenStream.ofSource ⟨(Session.new ⟨"."⟩).rootPath .input, text⟩ 0).unread.1 =
      (TokenStream.ofSource ⟨.input, text⟩ 0).unread.1 :=
    TokenStream.unread_ofSource _ _ text 0
  have noInclude' : ∀ t ∈ meaningful (TokenStream.ofSource ⟨.input, text⟩ 0).unread.1,
      t.value ≠ .keyword .include := fun t ht => noInclude t (List.mem_filter.1 ht).1
  obtain ⟨us, t, rest, m, htokens, hrun, hstep, hfound, hspan⟩ :=
    Session.exists_refused_of_parseTextWithin files maxIncludes rfl
      (by rw [show (Session.new ⟨"."⟩).sources.size = 0 from rfl, path]; exact Machine.run_ne_load noInclude') h
  rw [show (Session.new ⟨"."⟩).sources.size = 0 from rfl, path] at htokens
  have hus : ∀ v ∈ us, v.value ≠ .keyword .include := fun v hv => noInclude' v (by simp [htokens, hv])
  have ht : t.value ≠ .keyword .include := noInclude' t (by simp [htokens])
  exact ⟨us, t, rest, htokens, hspan, hfound, Machine.exists_endsText_of_run hrun,
    fun u vs hu => Machine.not_endsText_of_refused hus ht hrun hstep hu vs, expected.text_eq_enumerate,
    fun a ha kind hkind => Machine.exists_endsText_of_expected hrun hstep ha hkind⟩

private def unfinishedList : String :=
  withBraces "routes ( '/' : 'home' [package ( ), ; ] )"

/-- In a list a comma is followed by an entry. -/
theorem parseText_unexpected_after_comma : ∃ location s us t rest,
    (parseText unfinishedList).run (fun _ => .error .notFound) =
      .error ⟨.unexpected .entry (.mark .semicolon) location, s⟩ ∧
    meaningful (TokenStream.ofSource ⟨.input, unfinishedList⟩ 0).unread.1 = us ++ t :: rest ∧
    location.span = ⟨36, 37, 0⟩ ∧ t.span = ⟨36, 37, 0⟩ ∧ t.value.kind = .mark .semicolon ∧
    (∃ vs, EndsText (us.map Located.value ++ vs)) ∧
    (∀ u vs, u.kind = t.value.kind → ¬ EndsText (us.map Located.value ++ u :: vs)) ∧
    ∃ u vs, u.kind = .keyword .package ∧ EndsText (us.map Located.value ++ u :: vs) := by
  have hparsed : (match (parseText unfinishedList).run (fun _ => .error .notFound) with
      | .error ⟨.unexpected expected found location, _⟩ => some (expected, found, location.span)
      | _ => none) = some (.entry, .mark .semicolon, ⟨36, 37, 0⟩) := by
    decide +kernel
  split at hparsed
  · rename_i expected found location s hrun
    obtain ⟨rfl, rfl, hlocation⟩ : expected = .entry ∧ found = .mark .semicolon ∧ location.span = ⟨36, 37, 0⟩ := by
      simpa using hparsed
    obtain ⟨us, t, rest, htokens, hspan, hfound, hviable, himpossible, -, hexpected⟩ :=
      parseText_unexpected _ (by decide +kernel) hrun
    have hpackage := hexpected (.kind (.keyword .package)) (by decide) (.keyword .package) (by decide)
    exact ⟨location, s, us, t, rest, hrun, htokens, hlocation, hspan ▸ hlocation, hfound.symm, hviable, himpossible,
      hpackage⟩
  · simp at hparsed

end BundleConf
