import BundleConf.Proofs.Grammar.Ledger

/-!
# Where events happen

A package is declared where its name stands, and a route ends at its semicolon, after everything that its list declares.
An error points to the name then, or to the path of the route.  The occurrences of a tree are its events with the
numbers of these tokens: they stand where they say, and come in the order in which they happen
(`Declaration.arises_all`).  `Ledger.firstConflict?` is the first of them that runs into a conflict.
-/

namespace BundleConf

/-- An event, and the numbers of its tokens in the text. -/
structure Occurrence where
  event : Event
  /-- The token at which it happens: the name of a package, or the semicolon that ends a route. -/
  moment : Nat
  /-- The token that it is about: the name of a package, or the path of a route. -/
  subject : Nat

/-! ### The occurrences of a tree

In each function the number is that of the first token of the tree. -/

mutual

def BodyTree.occurrences (i : Nat) : BodyTree → List Occurrence
  | .done => []
  | .stray rest => rest.occurrences (i + 1)
  | .statement _ _ rest => rest.occurrences (i + 3)
  | .routes block rest => block.occurrences (i + 2) ++ rest.occurrences (i + 2 + block.tokens.length)

def RoutesTree.occurrences (i : Nat) : RoutesTree → List Occurrence
  | .done => []
  | .stray rest => rest.occurrences (i + 1)
  | .route path template layout list clauses rest =>
    let afterLayout := i + 3 + (layout.elim [] layoutTokens).length
    let semicolon := afterLayout + list.tokens.length + (clauses.flatMap Clause.tokens).length
    list.occurrences afterLayout ++
      ⟨.route (assembleRoute path template layout list.names clauses), semicolon, i⟩ ::
        rest.occurrences (semicolon + 1)

def ListTree.occurrences (i : Nat) : ListTree → List Occurrence
  | .absent => []
  | .present entries => entries.occurrences (i + 1)

def EntriesTree.occurrences (i : Nat) : EntriesTree → List Occurrence
  | .done => []
  | .value _ rest => rest.furtherOccurrences (i + 1)
  | .package header body rest =>
    let afterHeader := i + header.tokens.length
    ⟨.header header, i + 1, i + 1⟩ :: body.occurrences afterHeader ++
      rest.furtherOccurrences (afterHeader + body.tokens.length)

def EntriesTree.furtherOccurrences (i : Nat) : EntriesTree → List Occurrence
  | .done => []
  | .value _ rest => rest.furtherOccurrences (i + 2)
  | .package header body rest =>
    let afterHeader := i + 1 + header.tokens.length
    ⟨.header header, i + 2, i + 2⟩ :: body.occurrences afterHeader ++
      rest.furtherOccurrences (afterHeader + body.tokens.length)

end

def UiTree.occurrences (i : Nat) : UiTree → List Occurrence
  | .done => []
  | .stray rest => rest.occurrences (i + 1)
  | .list _ entries rest => entries.occurrences (i + 2) ++ rest.occurrences (i + 2 + entries.tokens.length)

namespace Declaration

def occurrences (i : Nat) : Declaration → List Occurrence
  | package header body => ⟨.header header, i + 1, i + 1⟩ :: body.occurrences (i + header.tokens.length)
  | routes block => block.occurrences (i + 2)
  | ui tree => tree.occurrences (i + 2)
  | _ => []

/-- The occurrences of declarations that follow each other. -/
def allOccurrences (i : Nat) : List Declaration → List Occurrence
  | [] => []
  | d :: ds => d.occurrences i ++ allOccurrences (i + d.tokens.length) ds

end Declaration

/-! ### Their events -/

mutual

theorem BodyTree.event_occurrences (i : Nat) :
    ∀ tree : BodyTree, (tree.occurrences i).map Occurrence.event = tree.events
  | .done => rfl
  | .stray rest => rest.event_occurrences (i + 1)
  | .statement _ _ rest => rest.event_occurrences (i + 3)
  | .routes block rest => by
    rw [BodyTree.occurrences, List.map_append, block.event_occurrences, rest.event_occurrences, BodyTree.events]

theorem RoutesTree.event_occurrences (i : Nat) :
    ∀ tree : RoutesTree, (tree.occurrences i).map Occurrence.event = tree.events
  | .done => rfl
  | .stray rest => rest.event_occurrences (i + 1)
  | .route path template layout list clauses rest => by
    rw [RoutesTree.occurrences, List.map_append, List.map_cons, list.event_occurrences, rest.event_occurrences,
      RoutesTree.events]

theorem ListTree.event_occurrences (i : Nat) :
    ∀ tree : ListTree, (tree.occurrences i).map Occurrence.event = tree.events
  | .absent => rfl
  | .present entries => entries.event_occurrences (i + 1)

theorem EntriesTree.event_occurrences (i : Nat) :
    ∀ tree : EntriesTree, (tree.occurrences i).map Occurrence.event = tree.events
  | .done => rfl
  | .value _ rest => rest.event_furtherOccurrences (i + 1)
  | .package header body rest => by
    rw [EntriesTree.occurrences, List.map_append, List.map_cons, body.event_occurrences,
      rest.event_furtherOccurrences, EntriesTree.events]

theorem EntriesTree.event_furtherOccurrences (i : Nat) :
    ∀ tree : EntriesTree, (tree.furtherOccurrences i).map Occurrence.event = tree.events
  | .done => rfl
  | .value _ rest => rest.event_furtherOccurrences (i + 2)
  | .package header body rest => by
    rw [EntriesTree.furtherOccurrences, List.map_append, List.map_cons, body.event_occurrences,
      rest.event_furtherOccurrences, EntriesTree.events]

end

theorem UiTree.event_occurrences (i : Nat) (tree : UiTree) :
    (tree.occurrences i).map Occurrence.event = tree.events := by
  induction tree generalizing i with
  | done => rfl
  | stray rest ih => exact ih (i + 1)
  | list field entries rest ih => rw [occurrences, List.map_append, entries.event_occurrences, ih, events]

namespace Declaration

theorem event_occurrences (i : Nat) (d : Declaration) : (d.occurrences i).map Occurrence.event = d.events := by
  cases d with
  | package header body => rw [occurrences, List.map_cons, body.event_occurrences, events]
  | routes block => exact block.event_occurrences (i + 2)
  | ui tree => exact tree.event_occurrences (i + 2)
  | middleware name => rfl
  | stray => rfl

theorem event_allOccurrences (i : Nat) (ds : List Declaration) :
    (allOccurrences i ds).map Occurrence.event = ds.flatMap events := by
  induction ds generalizing i with
  | nil => rfl
  | cons d ds ih => rw [allOccurrences, List.map_append, event_occurrences, ih, List.flatMap_cons]

end Declaration

/-! ### Their tokens -/

/-- From the number on the tokens go on with these. -/
def GoesOn (ts : List Token) : Nat → List Token → Prop
  | _, [] => True
  | i, u :: us => ts[i]? = some u ∧ GoesOn ts (i + 1) us

theorem goesOn_append {ts us vs : List Token} {i : Nat} :
    GoesOn ts i (us ++ vs) ↔ GoesOn ts i us ∧ GoesOn ts (i + us.length) vs := by
  induction us generalizing i with
  | nil => simp [GoesOn]
  | cons u us ih => simp [GoesOn, ih, and_assoc, Nat.add_right_comm, Nat.add_assoc]

private theorem goesOn_length (before us after : List Token) :
    GoesOn (before ++ (us ++ after)) before.length us := by
  induction us generalizing before with
  | nil => trivial
  | cons u us ih =>
    have hus := ih (before ++ [u])
    rw [List.append_assoc, List.length_append] at hus
    exact ⟨by simp, hus⟩

theorem goesOn_append_self (us after : List Token) : GoesOn (us ++ after) 0 us :=
  goesOn_length [] us after

/-- The tokens of the occurrence are what they are said to be; a package that is given no name is declared at its
opening brace. -/
def Occurrence.StandsIn (ts : List Token) : Occurrence → Prop
  | ⟨.header (.given name), moment, subject⟩ => subject = moment ∧ ts[moment]? = some (.value name)
  | ⟨.header (.generated _), moment, subject⟩ => subject = moment ∧ ts[moment]? = some (.mark .leftBrace)
  | ⟨.route route, moment, subject⟩ => ts[moment]? = some (.mark .semicolon) ∧ ts[subject]? = some (.value route.path)

theorem Occurrence.StandsIn.exists_subject {ts : List Token} {o : Occurrence} (h : o.StandsIn ts) :
    ∃ t, ts[o.subject]? = some t := by
  obtain ⟨(_ | _) | _, moment, subject⟩ := o
  · obtain ⟨rfl, hname⟩ := h
    exact ⟨_, hname⟩
  · obtain ⟨rfl, hbrace⟩ := h
    exact ⟨_, hbrace⟩
  · exact ⟨_, h.2⟩

/-- The occurrences happen one after another at tokens of a stretch, up to the one with the second number. -/
structure Arises (ts : List Token) (i j : Nat) (os : List Occurrence) : Prop where
  ordered : os.Pairwise (·.moment < ·.moment)
  bounds : ∀ o ∈ os, i ≤ o.moment ∧ o.moment < j
  stand : ∀ o ∈ os, o.StandsIn ts

namespace Arises

variable {ts : List Token} {i i' j j' k : Nat} {o : Occurrence} {os us : List Occurrence}

theorem nil : Arises ts i j [] :=
  ⟨.nil, by simp, by simp⟩

theorem mono (h : Arises ts i j os) (hi : i' ≤ i) (hj : j ≤ j') : Arises ts i' j' os :=
  ⟨h.ordered, fun o ho => ⟨Nat.le_trans hi (h.bounds o ho).1, Nat.lt_of_lt_of_le (h.bounds o ho).2 hj⟩, h.stand⟩

theorem cons (h : o.StandsIn ts) (ho : i ≤ o.moment) (hos : Arises ts (o.moment + 1) j os) (hj : o.moment < j) :
    Arises ts i j (o :: os) where
  ordered := List.pairwise_cons.2 ⟨fun u hu => (hos.bounds u hu).1, hos.ordered⟩
  bounds := by
    refine List.forall_mem_cons.2 ⟨⟨ho, hj⟩, fun u hu => ?_⟩
    have := hos.bounds u hu
    omega
  stand := List.forall_mem_cons.2 ⟨h, hos.stand⟩

theorem append (h : Arises ts i j os) (h' : Arises ts j k us) (hij : i ≤ j) (hjk : j ≤ k) :
    Arises ts i k (os ++ us) where
  ordered := by
    refine List.pairwise_append.2 ⟨h.ordered, h'.ordered, fun o ho u hu => ?_⟩
    have := (h.bounds o ho).2
    have := (h'.bounds u hu).1
    omega
  bounds := by
    refine List.forall_mem_append.2 ⟨fun o ho => ?_, fun u hu => ?_⟩
    · have := h.bounds o ho
      omega
    · have := h'.bounds u hu
      omega
  stand := List.forall_mem_append.2 ⟨h.stand, h'.stand⟩

end Arises

private theorem path_assembleRoute (path template : String) (layout : Option String) (depends : List String)
    (clauses : List Clause) : (assembleRoute path template layout depends clauses).path = path := by
  have apply (r : Route) (clause : Clause) : (clause.apply r).path = r.path := by
    rcases clause with flag | _
    · exact r.path_mark flag
    · rfl
  have all (r : Route) : (clauses.foldl Clause.apply r).path = r.path := by
    induction clauses generalizing r with
    | nil => rfl
    | cons clause clauses ih => exact (ih _).trans (apply r clause)
  exact all _

section Trees

variable {ts : List Token}

/-- A package is declared at its header, before anything in its body. -/
private theorem arises_package {header : Header} {i j : Nat} {us : List Occurrence}
    (h : GoesOn ts i header.tokens) (hus : Arises ts (i + header.tokens.length) j us)
    (hj : i + header.tokens.length ≤ j) : Arises ts i j (⟨.header header, i + 1, i + 1⟩ :: us) := by
  cases header with
  | given name =>
    obtain ⟨-, hname, -⟩ := h
    exact .cons ⟨rfl, hname⟩ (Nat.le_succ i) (hus.mono (Nat.le_succ _) (Nat.le_refl j)) (Nat.le_of_succ_le hj)
  | generated number =>
    obtain ⟨-, hbrace, -⟩ := h
    exact .cons ⟨rfl, hbrace⟩ (Nat.le_succ i) hus hj

mutual

theorem BodyTree.arises (i : Nat) : ∀ tree : BodyTree, GoesOn ts i tree.tokens →
    Arises ts i (i + tree.tokens.length) (tree.occurrences i)
  | .done, _ => .nil
  | .stray rest, h => by
    have hrest := rest.arises (i + 1) h.2
    rw [BodyTree.tokens, List.length_cons]
    exact hrest.mono (by omega) (by omega)
  | .statement _ _ rest, h => by
    have hrest := rest.arises (i + 3) h.2.2.2
    rw [BodyTree.tokens]
    exact hrest.mono (by omega) (by simp; omega)
  | .routes block rest, h => by
    simp only [BodyTree.tokens, List.append_assoc, goesOn_append] at h
    obtain ⟨-, hblock, hrest⟩ := h
    have hblock := block.arises (i + 2) hblock
    have hrest := rest.arises (i + 2 + block.tokens.length) hrest
    exact (hblock.append hrest (by omega) (by omega)).mono (by omega) (by simp [BodyTree.tokens]; omega)

theorem RoutesTree.arises (i : Nat) : ∀ tree : RoutesTree, GoesOn ts i tree.tokens →
    Arises ts i (i + tree.tokens.length) (tree.occurrences i)
  | .done, _ => .nil
  | .stray rest, h => by
    have hrest := rest.arises (i + 1) h.2
    rw [RoutesTree.tokens, List.length_cons]
    exact hrest.mono (by omega) (by omega)
  | .route path template layout list clauses rest, h => by
    simp only [RoutesTree.tokens, List.append_assoc, goesOn_append] at h
    obtain ⟨⟨hpath, -⟩, -, hlist, -, hsemicolon, hrest⟩ := h
    have hlist := list.arises _ hlist
    have hrest := rest.arises _ hrest
    have hpath : ts[i]? = some (.value (assembleRoute path template layout list.names clauses).path) := by
      rwa [path_assembleRoute]
    have hroute := Arises.cons (o := ⟨.route _, _, i⟩) ⟨hsemicolon, hpath⟩ (Nat.le_add_right _ _) hrest
      (by dsimp only; omega)
    exact (hlist.append hroute (by omega) (by omega)).mono (by omega) (by simp [RoutesTree.tokens]; omega)

theorem ListTree.arises (i : Nat) : ∀ tree : ListTree, GoesOn ts i tree.tokens →
    Arises ts i (i + tree.tokens.length) (tree.occurrences i)
  | .absent, _ => .nil
  | .present entries, h => by
    have hentries := entries.arises (i + 1) h.2
    rw [ListTree.tokens, List.length_cons]
    exact hentries.mono (by omega) (by omega)

theorem EntriesTree.arises (i : Nat) : ∀ tree : EntriesTree, GoesOn ts i tree.tokens →
    Arises ts i (i + tree.tokens.length) (tree.occurrences i)
  | .done, _ => .nil
  | .value _ rest, h => by
    have hrest := rest.arises_further (i + 1) h.2
    rw [EntriesTree.tokens, List.length_cons]
    exact hrest.mono (by omega) (by omega)
  | .package header body rest, h => by
    simp only [EntriesTree.tokens, List.append_assoc, goesOn_append] at h
    obtain ⟨hheader, hbody, hrest⟩ := h
    have hbody := body.arises _ hbody
    have hrest := rest.arises_further _ hrest
    have all := arises_package hheader (hbody.append hrest (by omega) (by omega)) (by omega)
    exact all.mono (by omega) (by simp [EntriesTree.tokens]; omega)

theorem EntriesTree.arises_further (i : Nat) : ∀ tree : EntriesTree, GoesOn ts i tree.furtherTokens →
    Arises ts i (i + tree.furtherTokens.length) (tree.furtherOccurrences i)
  | .done, _ => .nil
  | .value _ rest, h => by
    have hrest := rest.arises_further (i + 2) h.2.2
    rw [EntriesTree.furtherTokens, List.length_cons, List.length_cons]
    exact hrest.mono (by omega) (by omega)
  | .package header body rest, h => by
    simp only [EntriesTree.furtherTokens, List.cons_append, List.append_assoc, GoesOn, goesOn_append] at h
    obtain ⟨-, hheader, hbody, hrest⟩ := h
    have hbody := body.arises _ hbody
    have hrest := rest.arises_further _ hrest
    have all := arises_package hheader (hbody.append hrest (by omega) (by omega)) (by omega)
    exact all.mono (by omega) (by simp [EntriesTree.furtherTokens]; omega)

end

theorem UiTree.arises (i : Nat) (tree : UiTree) (h : GoesOn ts i tree.tokens) :
    Arises ts i (i + tree.tokens.length) (tree.occurrences i) := by
  induction tree generalizing i with
  | done => exact .nil
  | stray rest ih =>
    have hrest := ih (i + 1) h.2
    rw [tokens, List.length_cons]
    exact hrest.mono (by omega) (by omega)
  | list field entries rest ih =>
    simp only [tokens, List.append_assoc, goesOn_append] at h
    obtain ⟨-, hentries, hrest⟩ := h
    have hentries := entries.arises (i + 2) hentries
    have hrest := ih (i + 2 + entries.tokens.length) hrest
    exact (hentries.append hrest (by omega) (by omega)).mono (by omega) (by simp [tokens]; omega)

namespace Declaration

theorem arises (i : Nat) (d : Declaration) (h : GoesOn ts i d.tokens) :
    Arises ts i (i + d.tokens.length) (d.occurrences i) := by
  cases d with
  | package header body =>
    simp only [tokens, goesOn_append] at h
    have hbody := body.arises _ h.2
    exact (arises_package h.1 hbody (by omega)).mono (by omega) (by simp [tokens]; omega)
  | routes block =>
    have hblock := block.arises (i + 2) h.2.2
    exact hblock.mono (by omega) (by simp [tokens]; omega)
  | ui tree =>
    have htree := tree.arises (i + 2) h.2.2
    exact htree.mono (by omega) (by simp [tokens]; omega)
  | middleware name => exact .nil
  | stray => exact .nil

/-- The occurrences of declarations happen one after another, at the tokens that they say. -/
theorem arises_all (i : Nat) (ds : List Declaration) (h : GoesOn ts i (ds.flatMap tokens)) :
    Arises ts i (i + (ds.flatMap tokens).length) (allOccurrences i ds) := by
  induction ds generalizing i with
  | nil => exact .nil
  | cons d ds ih =>
    rw [List.flatMap_cons, goesOn_append] at h
    have hds := ih _ h.2
    rw [Nat.add_assoc, ← List.length_append] at hds
    exact (d.arises i h.1).append hds (by omega) (by simp)

end Declaration

end Trees

/-! ### The first conflict -/

namespace Ledger

/-- The first occurrence that runs into a conflict, with the conflict. -/
def firstConflict? (l : Ledger) : List Occurrence → Option (Occurrence × Conflict)
  | [] => none
  | o :: os => ((l.conflictAt? o.event).map (o, ·)).or ((l.record o.event).firstConflict? os)

variable (l : Ledger) (os us : List Occurrence)

theorem map_snd_firstConflict? : (l.firstConflict? os).map Prod.snd = l.conflict? (os.map Occurrence.event) := by
  induction os generalizing l with
  | nil => rfl
  | cons o os ih =>
    rw [firstConflict?, List.map_cons, conflict?, ← ih (l.record o.event)]
    cases l.conflictAt? o.event <;> rfl

theorem firstConflict?_append : l.firstConflict? (os ++ us) =
    (l.firstConflict? os).or ((l.recordAll (os.map Occurrence.event)).firstConflict? us) := by
  induction os generalizing l with
  | nil => rfl
  | cons o os ih =>
    rw [List.cons_append, firstConflict?, firstConflict?, ih (l.record o.event), Option.or_assoc]
    rfl

variable {l os}

theorem firstConflict?_eq_none_iff :
    l.firstConflict? os = none ↔ ∀ before o after, os = before ++ o :: after →
      (l.recordAll (before.map Occurrence.event)).conflictAt? o.event = none := by
  induction os generalizing l with
  | nil => simp [firstConflict?]
  | cons u os ih =>
    rw [firstConflict?, Option.or_eq_none_iff, Option.map_eq_none_iff, ih]
    constructor
    · rintro ⟨hu, hos⟩ before o after hsplit
      cases before with
      | nil =>
        obtain ⟨rfl, -⟩ := List.cons.inj hsplit
        exact hu
      | cons v before =>
        obtain ⟨rfl, hrest⟩ := List.cons.inj hsplit
        exact hos before o after hrest
    · intro h
      exact ⟨h [] u os rfl, fun before o after hsplit => h (u :: before) o after (by rw [hsplit, List.cons_append])⟩

theorem exists_of_firstConflict?_eq_some {o : Occurrence} {c : Conflict} (h : l.firstConflict? os = some (o, c)) :
    ∃ before after, os = before ++ o :: after ∧ l.firstConflict? before = none ∧
      (l.recordAll (before.map Occurrence.event)).conflictAt? o.event = some c := by
  induction os generalizing l with
  | nil => nomatch h
  | cons u os ih =>
    rw [firstConflict?] at h
    cases hu : l.conflictAt? u.event with
    | some c' =>
      obtain ⟨rfl, rfl⟩ : u = o ∧ c' = c := by simpa [hu] using h
      exact ⟨[], os, rfl, rfl, hu⟩
    | none =>
      rw [hu] at h
      obtain ⟨before, after, rfl, hbefore, hc⟩ := ih h
      refine ⟨u :: before, after, rfl, ?_, hc⟩
      rw [firstConflict?, hu, hbefore]
      rfl

end Ledger

end BundleConf
