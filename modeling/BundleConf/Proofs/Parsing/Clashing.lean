import BundleConf.Proofs.Parsing.Acceptance
import BundleConf.Proofs.Parsing.Citing

/-!
# Conflicts are reported, and the first one first

If declarations repeat a name or mark a second route then the parse fails, and the error is about the first clash, in
the order in which packages are declared and routes end (`parseText_clash`).  It is at the name that is repeated, or at
the path of the later route, and the user is told this name, or this path, the flag and the path of the route that
carries the flag already.
-/

namespace BundleConf

/-! ### Clashes -/

/-- The event clashes with the events before it: a given name is taken, or a route before carries a flag that is carried
by one route only.  Of the routes that carry the flag the one that ends first is told; of the flags error404 is. -/
inductive Event.Clashes (before : List Event) : Event → Conflict → Prop
  | name {name : String} (taken : name ∈ before.filterMap Event.name?) :
      Clashes before (.header (.given name)) (.duplicatePackage name)
  | error404 {route holder : Route} (marked : route.has .error404 = true)
      (first : (before.filterMap Event.route?).find? (·.has .error404) = some holder) :
      Clashes before (.route route) (.flagTaken route.path .error404 holder.path)
  | index {route holder : Route} (marked : route.has .index = true)
      (first : (before.filterMap Event.route?).find? (·.has .index) = some holder)
      (unclaimed : route.has .error404 = true → ∀ r ∈ before.filterMap Event.route?, r.has .error404 = false) :
      Clashes before (.route route) (.flagTaken route.path .index holder.path)

/-- What has happened before. -/
def Occurrence.earlier (os : List Occurrence) (o : Occurrence) : List Event :=
  (os.filter (·.moment < o.moment)).map Occurrence.event

/-- The occurrence clashes with what has happened before. -/
def Occurrence.Clashes (os : List Occurrence) (o : Occurrence) (c : Conflict) : Prop :=
  o.event.Clashes (o.earlier os) c

/-- The occurrence clashes, and none that happens before it does. -/
structure Occurrence.IsFirstClash (os : List Occurrence) (o : Occurrence) (c : Conflict) : Prop where
  mem : o ∈ os
  clashes : o.Clashes os c
  earliest : ∀ o' ∈ os, o'.moment < o.moment → ∀ c', ¬ o'.Clashes os c'

/-- The conflict of an event is its clash with those that are recorded. -/
theorem Ledger.conflictAt?_eq_some_iff {generated : Nat} {before : List Event} {e : Event} {c : Conflict} :
    ((fresh generated).recordAll before).conflictAt? e = some c ↔ e.Clashes before c := by
  have htaken : ((fresh generated).recordAll before).taken = before.filterMap Event.name? := by
    rw [taken_recordAll, fresh, List.nil_append]
  have hclosed : ((fresh generated).recordAll before).closed = before.filterMap Event.route? := by
    rw [closed_recordAll, fresh, List.nil_append]
  rcases e with (name | number) | route
  · rw [conflictAt?, htaken, Option.ite_none_right_eq_some]
    constructor
    · rintro ⟨taken, hc⟩
      obtain rfl := Option.some.inj hc
      exact .name taken
    · rintro ⟨taken⟩
      exact ⟨taken, rfl⟩
  · -- a generated name is never a repeated one
    constructor
    · intro h
      simp [conflictAt?] at h
    · intro h
      cases h
  · -- error404 is looked at before index
    have flags (f : RouteFlag → Option Conflict) :
        [RouteFlag.error404, .index].findSome? f = (f .error404).or (f .index) := by
      rw [List.findSome?_cons, List.findSome?_singleton]
      cases f .error404 <;> rfl
    rw [conflictAt?, hclosed, flags, Option.or_eq_some_iff]
    simp only [Option.ite_none_right_eq_some, Option.map_eq_some_iff]
    constructor
    · rintro (⟨marked, holder, first, rfl⟩ | ⟨hnone, marked, holder, first, rfl⟩)
      · exact .error404 marked first
      · refine .index marked first fun h r hr => ?_
        rw [if_pos h, Option.map_eq_none_iff, List.find?_eq_none] at hnone
        simpa using hnone r hr
    · rintro (_ | ⟨marked, first⟩ | ⟨marked, first, unclaimed⟩)
      · exact .inl ⟨marked, _, first, rfl⟩
      · refine .inr ⟨?_, marked, _, first, rfl⟩
        rw [ite_eq_right_iff, Option.map_eq_none_iff, List.find?_eq_none]
        intro h
        have := unclaimed h
        simpa using this

/-- What an event clashes with can be told. -/
theorem Event.Clashes.wording {before : List Event} {e : Event} {c : Conflict} (h : e.Clashes before c) :
    c.Wording c.message := by
  cases h with
  | name => exact .package
  | error404 => exact Conflict.wording_flagTaken _ _ (by simp [App.uniqueFlags])
  | index => exact Conflict.wording_flagTaken _ _ (by simp [App.uniqueFlags])

namespace Occurrence

variable {before after os : List Occurrence} {o : Occurrence}

theorem earlier_eq (h : (before ++ o :: after).Pairwise (·.moment < ·.moment)) :
    o.earlier (before ++ o :: after) = before.map Occurrence.event := by
  obtain ⟨-, hafter, hbefore⟩ := List.pairwise_append.1 h
  have hkept : before.filter (·.moment < o.moment) = before := by
    rw [List.filter_eq_self]
    intro u hu
    simpa using hbefore u hu o (by simp)
  have hdropped : (o :: after).filter (·.moment < o.moment) = [] := by
    rw [List.filter_eq_nil_iff]
    intro u hu
    obtain rfl | hu := List.mem_cons.1 hu
    · simp
    · have := (List.pairwise_cons.1 hafter).1 u hu
      simpa using Nat.le_of_lt this
  rw [earlier, List.filter_append, hkept, hdropped, List.append_nil]

theorem clashes_iff (generated : Nat) (h : (before ++ o :: after).Pairwise (·.moment < ·.moment)) {c : Conflict} :
    o.Clashes (before ++ o :: after) c ↔
      ((Ledger.fresh generated).recordAll (before.map Occurrence.event)).conflictAt? o.event = some c := by
  rw [Clashes, earlier_eq h, Ledger.conflictAt?_eq_some_iff]

/-- What the conflict is about stands where the occurrence says. -/
theorem Clashes.culprit {ts : List Token} {c : Conflict} (h : o.Clashes os c) (hstands : o.StandsIn ts) :
    ts[o.subject]? = some (.value c.culprit) := by
  obtain ⟨event, moment, subject⟩ := o
  cases h with
  | name =>
    obtain ⟨rfl, hname⟩ := hstands
    exact hname
  | error404 => exact hstands.2
  | index => exact hstands.2

end Occurrence

/-- Where an occurrence clashes with what has happened before, a ledger reports the first one that does. -/
theorem Ledger.exists_firstConflict {os : List Occurrence} (generated : Nat)
    (hos : os.Pairwise (·.moment < ·.moment)) (h : ∃ o ∈ os, ∃ c, o.Clashes os c) :
    ∃ o c, (fresh generated).firstConflict? os = some (o, c) ∧ o.IsFirstClash os c := by
  cases hfirst : (fresh generated).firstConflict? os with
  | none =>
    obtain ⟨o, ho, c, hc⟩ := h
    obtain ⟨before, after, rfl⟩ := List.append_of_mem ho
    have hnone := firstConflict?_eq_none_iff.1 hfirst before o after rfl
    simp [Occurrence.clashes_iff generated hos, hnone] at hc
  | some found =>
    obtain ⟨o, c⟩ := found
    obtain ⟨before, after, rfl, hbefore, hc⟩ := exists_of_firstConflict?_eq_some hfirst
    refine ⟨o, c, rfl, ⟨by simp, (Occurrence.clashes_iff generated hos).2 hc, fun o' ho' hlt c' hc' => ?_⟩⟩
    have hmem : o' ∈ before := by
      rcases List.mem_append.1 ho' with hmem | hmem
      · exact hmem
      · -- the others do not happen before
        have hafter := (List.pairwise_cons.1 (List.pairwise_append.1 hos).2.1).1
        obtain rfl | hmem := List.mem_cons.1 hmem
        · exact absurd hlt (Nat.lt_irrefl _)
        · exact absurd hlt (Nat.lt_asymm (hafter o' hmem))
    obtain ⟨earlier, between, rfl⟩ := List.append_of_mem hmem
    have hnone := firstConflict?_eq_none_iff.1 hbefore earlier o' between rfl
    rw [List.append_assoc, List.cons_append] at hos hc'
    simp [Occurrence.clashes_iff generated hos, hnone] at hc'

/-! ### The first clash of a text -/

/-- If the declarations of a text clash then the parse fails with the first clash, at the name that is repeated or at
the path of the later route, and tells it in a sentence with that name, or with that path, the flag and the path of the
route that carries it. -/
theorem parseText_clash (files : FileSystem) {text : String} {ts : List (Located Token)} {ds : List Declaration}
    (hlex : lex text = .ok ts)
    (hts : (meaningful ts).map Located.value = ds.flatMap Declaration.tokens ++ [.finish])
    (hn : Ledger.empty.Numbers (ds.flatMap Declaration.events))
    (hclash : ∃ o ∈ Declaration.allOccurrences 0 ds, ∃ c, o.Clashes (Declaration.allOccurrences 0 ds) c) :
    (∀ o ∈ Declaration.allOccurrences 0 ds, o.StandsIn ((meaningful ts).map Located.value)) ∧
      ∃ (o : Occurrence) (c : Conflict) (reason : String) (location : Location) (s : Session),
        o.IsFirstClash (Declaration.allOccurrences 0 ds) c ∧
        (meaningful ts)[o.subject]? = some ⟨.value c.culprit, location.span⟩ ∧
        (parseText text).run files = .error ⟨.conflict c location, s⟩ ∧
        c.Wording reason ∧ (ParseError.conflict c location).diagnostic = .structural reason location := by
  have harises : Arises ((meaningful ts).map Located.value) 0 _ (Declaration.allOccurrences 0 ds) :=
    Declaration.arises_all 0 ds (hts ▸ goesOn_append_self _ _)
  obtain ⟨o, c, hfirst, ho⟩ := Ledger.exists_firstConflict 0 harises.ordered hclash
  obtain ⟨t, ht, hrun⟩ := (Machine.run_declarations hts hn).2 o c hfirst
  have hvalue : t.value = .value c.culprit := by
    have := ho.clashes.culprit (harises.stand o ho.mem)
    rw [List.getElem?_map, ht] at this
    simpa using this
  let stream := TokenStream.ofSource ⟨(Session.new ⟨"."⟩).rootPath .input, text⟩ 0
  have hunread : stream.unread.1 = ts := by
    rw [TokenStream.unread_ofSource _ .input text 0, lex_eq_ok_iff.1 hlex]
  have hend : stream.unread.2 = none := (TokenStream.unread_of_lex hlex _ 0).2
  rw [← hunread] at hrun
  obtain ⟨location, s, hparse, hspan⟩ := Session.run_parseTextWithin_conflict files maxIncludes rfl hrun hend
  have htoken : (meaningful ts)[o.subject]? = some ⟨.value c.culprit, location.span⟩ := by rw [ht, hspan, ← hvalue]
  exact ⟨harises.stand, o, c, c.message, location, s, ho, htoken, hparse, ho.clashes.wording, rfl⟩

/-- A route in the list of another, which ends before that one, and a generated name that is repeated after both. -/
private def clashingText : String :=
  withBraces "routes ( '/' : 'a', index; " ++
    withBraces "'/b' : 'b' [package ( routes ( '/c' : 'c', index; ) )], index; ) " ++
    withBraces "package 'anonymous-0' ( )"

private def clashing : List Declaration :=
  let inner := RoutesTree.route "/c" "c" none .absent [.flag .index] .done
  let list := ListTree.present (.package (.generated 0) (.routes inner .done) .done)
  let outer := RoutesTree.route "/" "a" none .absent [.flag .index] (.route "/b" "b" none list [.flag .index] .done)
  [.routes outer, .package (.given "anonymous-0") .done]

/-- Three occurrences clash, and the inner route is the first of them: it is the one that is told. -/
theorem parseText_clash_inner_route : ∃ ts location s, ∃ o : Occurrence, lex clashingText = .ok ts ∧
    o.IsFirstClash (Declaration.allOccurrences 0 clashing) (.flagTaken "/c" .index "/") ∧
    (meaningful ts)[o.subject]? = some ⟨.value "/c", ⟨58, 62, 0⟩⟩ ∧ location.span = ⟨58, 62, 0⟩ ∧
    (parseText clashingText).run (fun _ => .error .notFound) =
      .error ⟨.conflict (.flagTaken "/c" .index "/") location, s⟩ ∧
    (ParseError.conflict (.flagTaken "/c" .index "/") location).diagnostic =
      .structural "route '/c' is marked index, but route '/' already is" location := by
  let stream := TokenStream.ofSource ⟨.input, clashingText⟩ 0
  obtain ⟨hnone, htokens⟩ : stream.unread.2 = none ∧
      (meaningful stream.unread.1).map Located.value = clashing.flatMap Declaration.tokens ++ [.finish] := by
    decide +kernel
  have hlex : lex clashingText = .ok stream.unread.1 := lex_eq_ok_iff.2 (Prod.ext rfl hnone)
  have hnumbers : Ledger.empty.Numbers (clashing.flatMap Declaration.events) :=
    ⟨trivial, ⟨Nat.le_refl 0, by decide, fun n _ hn => absurd hn (Nat.not_lt_zero n)⟩, trivial, trivial, trivial,
      trivial⟩
  have hclash : ∃ o ∈ Declaration.allOccurrences 0 clashing, ∃ c,
      o.Clashes (Declaration.allOccurrences 0 clashing) c :=
    ⟨⟨.header (.given "anonymous-0"), 30, 30⟩, List.mem_of_getElem? (i := 4) rfl, .duplicatePackage "anonymous-0",
      .name (by decide +kernel)⟩
  obtain ⟨-, o, c, reason, location, s, hfirst, htoken, hrun, hwording, htold⟩ :=
    parseText_clash (fun _ => .error .notFound) hlex htokens hnumbers hclash
  have hparsed : (match (parseText clashingText).run (fun _ => .error .notFound) with
      | .error ⟨.conflict c location, _⟩ => some (c, location.span)
      | _ => none) = some (.flagTaken "/c" .index "/", ⟨58, 62, 0⟩) := by
    decide +kernel
  simp only [hrun, Option.some.injEq, Prod.mk.injEq] at hparsed
  obtain ⟨rfl, hspan⟩ := hparsed
  cases hwording
  exact ⟨_, location, s, o, hlex, hfirst, hspan ▸ htoken, hspan, hrun, htold⟩

end BundleConf
