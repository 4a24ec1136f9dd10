import BundleConf.Proofs.Grammar.Ledger

/-!
# Numbering a derivation

The numbers of generated names are no part of the text: every tree can be given the numbers that a parse draws from a
ledger on, and derives the same tokens then.
-/

namespace BundleConf

/-- The header with the number that a parse draws. -/
private def Header.numbered (l : Ledger) : Header → Header
  | .given name => .given name
  | .generated _ => .generated (freshNumber l.taken l.generated)

private theorem tokens_numbered (l : Ledger) (header : Header) : (header.numbered l).tokens = header.tokens := by
  cases header <;> rfl

private theorem numbersAt_numbered (l : Ledger) (header : Header) : l.NumbersAt (.header (header.numbered l)) := by
  cases header with
  | given name => trivial
  | generated number => exact isFirstFree_freshNumber l.taken l.generated

mutual

theorem BodyTree.exists_numbers (l : Ledger) :
    ∀ tree : BodyTree, ∃ tree' : BodyTree, tree'.tokens = tree.tokens ∧ l.Numbers tree'.events
  | .done => ⟨.done, rfl, trivial⟩
  | .stray rest => by
    obtain ⟨rest', htokens, hnumbers⟩ := rest.exists_numbers l
    exact ⟨.stray rest', by simp [BodyTree.tokens, htokens], hnumbers⟩
  | .statement field value rest => by
    obtain ⟨rest', htokens, hnumbers⟩ := rest.exists_numbers l
    exact ⟨.statement field value rest', by simp [BodyTree.tokens, htokens], hnumbers⟩
  | .routes block rest => by
    -- the numbers of the rest depend on those of the block
    obtain ⟨block', hblock, hnumbers⟩ := block.exists_numbers l
    obtain ⟨rest', hrest, hnumbers'⟩ := rest.exists_numbers (l.recordAll block'.events)
    refine ⟨.routes block' rest', by simp [BodyTree.tokens, hblock, hrest], ?_⟩
    exact (Ledger.numbers_append ..).2 ⟨hnumbers, hnumbers'⟩

theorem RoutesTree.exists_numbers (l : Ledger) :
    ∀ tree : RoutesTree, ∃ tree' : RoutesTree, tree'.tokens = tree.tokens ∧ l.Numbers tree'.events
  | .done => ⟨.done, rfl, trivial⟩
  | .stray rest => by
    obtain ⟨rest', htokens, hnumbers⟩ := rest.exists_numbers l
    exact ⟨.stray rest', by simp [RoutesTree.tokens, htokens], hnumbers⟩
  | .route path template layout list clauses rest => by
    obtain ⟨list', hlist, hnumbers⟩ := list.exists_numbers l
    let event := Event.route (assembleRoute path template layout list'.names clauses)
    obtain ⟨rest', hrest, hnumbers'⟩ := rest.exists_numbers ((l.recordAll list'.events).record event)
    refine ⟨.route path template layout list' clauses rest', by simp [RoutesTree.tokens, hlist, hrest], ?_⟩
    exact (Ledger.numbers_append ..).2 ⟨hnumbers, trivial, hnumbers'⟩

theorem ListTree.exists_numbers (l : Ledger) :
    ∀ tree : ListTree, ∃ tree' : ListTree, tree'.tokens = tree.tokens ∧ l.Numbers tree'.events
  | .absent => ⟨.absent, rfl, trivial⟩
  | .present entries => by
    obtain ⟨entries', htokens, -, hnumbers⟩ := entries.exists_numbers l
    exact ⟨.present entries', by simp [ListTree.tokens, htokens], hnumbers⟩

theorem EntriesTree.exists_numbers (l : Ledger) :
    ∀ tree : EntriesTree, ∃ tree' : EntriesTree, tree'.tokens = tree.tokens ∧ tree'.furtherTokens = tree.furtherTokens ∧
      l.Numbers tree'.events
  | .done => ⟨.done, rfl, rfl, trivial⟩
  | .value name rest => by
    obtain ⟨rest', -, hfurther, hnumbers⟩ := rest.exists_numbers l
    exact ⟨.value name rest', by simp [EntriesTree.tokens, hfurther], by simp [EntriesTree.furtherTokens, hfurther],
      hnumbers⟩
  | .package header body rest => by
    obtain ⟨body', hbody, hnumbers⟩ := body.exists_numbers (l.record (.header (header.numbered l)))
    obtain ⟨rest', -, hfurther, hnumbers'⟩ :=
      rest.exists_numbers ((l.record (.header (header.numbered l))).recordAll body'.events)
    refine ⟨.package (header.numbered l) body' rest', ?_, ?_, numbersAt_numbered l header, ?_⟩
    · simp [EntriesTree.tokens, tokens_numbered, hbody, hfurther]
    · simp [EntriesTree.furtherTokens, tokens_numbered, hbody, hfurther]
    · exact (Ledger.numbers_append ..).2 ⟨hnumbers, hnumbers'⟩

end

theorem UiTree.exists_numbers (l : Ledger) (tree : UiTree) :
    ∃ tree' : UiTree, tree'.tokens = tree.tokens ∧ l.Numbers tree'.events := by
  induction tree generalizing l with
  | done => exact ⟨.done, rfl, trivial⟩
  | stray rest ih =>
    obtain ⟨rest', htokens, hnumbers⟩ := ih l
    exact ⟨.stray rest', by simp [UiTree.tokens, htokens], hnumbers⟩
  | list field entries rest ih =>
    obtain ⟨entries', hentries, -, hnumbers⟩ := entries.exists_numbers l
    obtain ⟨rest', hrest, hnumbers'⟩ := ih (l.recordAll entries'.events)
    refine ⟨.list field entries' rest', by simp [UiTree.tokens, hentries, hrest], ?_⟩
    exact (Ledger.numbers_append ..).2 ⟨hnumbers, hnumbers'⟩

theorem Declaration.exists_numbers (l : Ledger) (d : Declaration) :
    ∃ d' : Declaration, d'.tokens = d.tokens ∧ l.Numbers d'.events := by
  cases d with
  | package header body =>
    obtain ⟨body', hbody, hnumbers⟩ := body.exists_numbers (l.record (.header (header.numbered l)))
    refine ⟨.package (header.numbered l) body', ?_, numbersAt_numbered l header, hnumbers⟩
    simp [tokens, tokens_numbered, hbody]
  | routes block =>
    obtain ⟨block', hblock, hnumbers⟩ := block.exists_numbers l
    exact ⟨.routes block', by simp [tokens, hblock], hnumbers⟩
  | ui tree =>
    obtain ⟨tree', htree, hnumbers⟩ := tree.exists_numbers l
    exact ⟨.ui tree', by simp [tokens, htree], hnumbers⟩
  | middleware name => exact ⟨.middleware name, rfl, trivial⟩
  | stray => exact ⟨.stray, rfl, trivial⟩

/-- Declarations derive the same tokens with the numbers that a parse draws. -/
theorem exists_numbers_declarations (l : Ledger) (ds : List Declaration) :
    ∃ ds' : List Declaration, ds'.flatMap Declaration.tokens = ds.flatMap Declaration.tokens ∧
      l.Numbers (ds'.flatMap Declaration.events) := by
  induction ds generalizing l with
  | nil => exact ⟨[], rfl, trivial⟩
  | cons d ds ih =>
    obtain ⟨d', hd, hnumbers⟩ := d.exists_numbers l
    obtain ⟨ds', hds, hnumbers'⟩ := ih (l.recordAll d'.events)
    refine ⟨d' :: ds', by simp [hd, hds], ?_⟩
    rw [List.flatMap_cons]
    exact (Ledger.numbers_append ..).2 ⟨hnumbers, hnumbers'⟩

end BundleConf
