import GrammarEvolution.Proofs.Grammar.Productive
import GrammarEvolution.Proofs.Growth

/-!
No length of a symbol exceeds the number of non-terminals.

Lengths are settled at different moments and are not minimal, so the bound does not come from
shallow derivations. But the first length of a symbol is made of symbols that had one before, so it
is no larger than the number of symbols that have one by then; afterwards it only sinks, while that
number only grows. `Counted` is the invariant.

* `Counted.settle`: settling keeps lengths counted.
* `counted_of_ofGrammar`: so they are in the table of a grammar.
* `lengths_bounded`: the bounds, in whatever order productions are declared, and that a request for
  trees with as many levels to go is never refused for want of depth.
-/

namespace GrammarEvolution

namespace DepthTable

variable {V : Type} {g : Grammar V} {d : DepthTable} {s : SymbolId} {k n : Nat}

/-! ### Symbols that have a length -/

/-- The declared non-terminals that have a length so far. -/
def known (g : Grammar V) (d : DepthTable) : Finset SymbolId :=
  g.nonTerminals.toFinset.filter fun s => (d.symbolLength g s).isSome

theorem mem_known_iff : s ∈ known g d ↔ s ∈ g.nonTerminals ∧ ∃ l, d.symbolLength g s = some l := by
  rw [known, Finset.mem_filter, List.mem_toFinset, Option.isSome_iff_exists]

theorem card_known_le (g : Grammar V) (d : DepthTable) : (known g d).card ≤ g.nonTerminals.length :=
  (Finset.card_filter_le _ _).trans (List.toFinset_card_le _)

theorem known_subset_settle (d : DepthTable) (q : ProductionId) :
    known g d ⊆ known g (settle g d q) := by
  intro s hs
  obtain ⟨declared, l, hl⟩ := mem_known_iff.mp hs
  obtain ⟨l', hl', -⟩ := (extends_settle d q).symbolLength hl
  exact mem_known_iff.mpr ⟨declared, l', hl'⟩

/-- A right-hand side is at most one longer than its non-terminals. -/
theorem lengthOf_le {rhs : List SymbolId} (h : d.lengthOf g rhs = some k)
    (bound : ∀ s l, d.symbolLength g s = some l → l ≤ n) : k ≤ n + 1 := by
  obtain ⟨below, found, last⟩ := Option.bind_eq_some_iff.mp h
  cases last
  refine Nat.succ_le_succ ((List.foldl_max_le_iff below 0 n).mpr ⟨Nat.zero_le n, ?_⟩)
  intro l hl
  obtain ⟨s, -, length⟩ := (List.mapM_eq_some_iff.mp found).exists_of_mem_right hl
  exact bound s l length

/-! ### The invariant -/

/-- The lengths of symbols are no larger than the number of symbols that have one, and those of
productions at most one larger. -/
structure Counted (g : Grammar V) (d : DepthTable) : Prop where
  symbol : ∀ s l, d.symbolLength g s = some l → l ≤ (known g d).card
  production : ∀ p k, d.productionLength p = some k → k ≤ (known g d).card + 1

/-- A symbol that gets its first length is one more that has one. -/
theorem card_known_lt (closed : g.Closed) (rewriting : g.Rewriting) {q : ProductionId} {l : Nat}
    (first : d.symbolLength g s = none) (hl : (settle g d q).symbolLength g s = some l) :
    (known g d).card < (known g (settle g d q)).card := by
  obtain ⟨p, owned, -⟩ := (symbolLength_eq_some_iff.mp hl).1
  obtain ⟨production, found, owner⟩ := Grammar.mem_productionsOf_iff.mp owned
  have kind : g.isNonTerminal s = true :=
    owner ▸ (rewriting production (Array.mem_of_getElem? found)).1
  have declared : s ∈ g.nonTerminals := by
    by_contra undeclared
    rw [(closed.productionsOf_eq_nil_iff kind).mpr undeclared] at owned
    cases owned
  refine Finset.card_lt_card ((Finset.ssubset_iff_of_subset (known_subset_settle d q)).mpr
    ⟨s, mem_known_iff.mpr ⟨declared, l, hl⟩, fun before => ?_⟩)
  obtain ⟨-, l', hl'⟩ := mem_known_iff.mp before
  rw [first] at hl'
  cases hl'

/-- **Settling keeps lengths counted.** A symbol that had a length has none that is larger; one that
gets its first is counted from now on. -/
theorem Counted.settle (closed : g.Closed) (rewriting : g.Rewriting) (h : Counted g d)
    (q : ProductionId) : Counted g (settle g d q) := by
  have more := Finset.card_le_card (known_subset_settle (g := g) d q)
  have made : ∀ p k, (DepthTable.settle g d q).productionLength p = some k →
      k ≤ (known g d).card + 1 := by
    intro p k hk
    rw [productionLength_settle] at hk
    split at hk
    · exact lengthOf_le hk h.symbol
    · exact h.production p k hk
  refine ⟨fun s l hl => ?_, fun p k hk => (made p k hk).trans (Nat.succ_le_succ more)⟩
  cases before : d.symbolLength g s with
  | some l₀ =>
      obtain ⟨l', hl', sunk⟩ := (extends_settle d q).symbolLength before
      obtain rfl := Option.some.inj (hl.symm.trans hl')
      exact sunk.trans ((h.symbol s l₀ before).trans more)
  | none =>
      obtain ⟨p, -, hk⟩ := (symbolLength_eq_some_iff.mp hl).1
      exact (made p l hk).trans (card_known_lt closed rewriting before hl)

theorem counted_blank (g : Grammar V) : Counted g (blank g) := by
  have unsettled : ∀ p k, (blank g).productionLength p ≠ some k := by
    intro p k
    rw [productionLength_blank]
    exact nofun
  refine ⟨fun s l hl => ?_, fun p k hk => absurd hk (unsettled p k)⟩
  obtain ⟨p, -, hk⟩ := (symbolLength_eq_some_iff.mp hl).1
  exact absurd hk (unsettled p l)

theorem counted_of_ofGrammar (closed : g.Closed) (rewriting : g.Rewriting)
    (h : ofGrammar g = .ok d) : Counted g d := by
  rw [(ofGrammar_eq_ok h).2]
  exact resolved_preserves (fun _ q counted => counted.settle closed rewriting q) (counted_blank g)

/-! ### The bounds -/

/-- Every declared non-terminal has a length, no larger than the number of them, and every
production has one, at most one larger than that number. -/
structure Bounded (g : Grammar V) (d : DepthTable) : Prop where
  symbol : ∀ s ∈ g.nonTerminals, ∃ l, d.symbolLength g s = some l ∧ l ≤ g.nonTerminals.length
  production : ∀ p < g.productions.size, ∃ k, d.productionLength p = some k ∧
    k ≤ g.nonTerminals.length + 1

theorem bounded_of_ofGrammar (closed : g.Closed) (rewriting : g.Rewriting)
    (h : ofGrammar g = .ok d) : Bounded g d := by
  have counted := counted_of_ofGrammar closed rewriting h
  constructor
  · intro s declared
    obtain ⟨l, hl⟩ :=
      (exists_symbolLength_iff_declared closed h (closed.isNonTerminal s declared)).mpr declared
    exact ⟨l, hl, (counted.symbol s l hl).trans (card_known_le g d)⟩
  · intro p hp
    obtain ⟨k, hk⟩ := settled_of_ofGrammar h hp
    exact ⟨k, hk, (counted.production p k hk).trans (Nat.succ_le_succ (card_known_le g d))⟩

/-- **Bounds for all lengths.** No declared non-terminal has a length above the number of them, and
no production one above that number and one more. The same holds of the same productions in any
other order. So a request for trees is never refused for want of depth where there are as many
levels to go as non-terminals, whatever it starts from. -/
theorem lengths_bounded {σ : Type} [RandomSource σ] (built : g.Built) (h : ofGrammar g = .ok d) :
    Bounded g d ∧
    (∀ productions : Array Production, productions.Perm g.productions →
      ∃ d', ofGrammar { g with productions } = .ok d' ∧ Bounded { g with productions } d') ∧
    ∀ (i : Initializer V) (maxDepth currentDepth populationSize : Nat) (root : Option SymbolId)
      (source : σ), Initializer.ofGrammar g maxDepth = .ok i →
      g.nonTerminals.length ≤ maxDepth - currentDepth →
      ∀ required available, (i.generate currentDepth populationSize root).answer source ≠
        .error (.depthUnsatisfiable required available) := by
  have closed := built.closed
  have rewriting := built.rewriting
  have bounded := bounded_of_ofGrammar closed rewriting h
  refine ⟨bounded, ?_, ?_⟩
  · intro productions same
    have closed' := closed.reordered same
    have rewriting' := rewriting.reordered same
    have productive := (exists_ofGrammar_iff closed rewriting).mp ⟨d, h⟩
    obtain ⟨d', h'⟩ := (exists_ofGrammar_iff closed' rewriting').mpr fun s declared =>
      (Grammar.productive_reordered same).mpr (productive s declared)
    exact ⟨d', h', bounded_of_ofGrammar closed' rewriting' h'⟩
  · intro i maxDepth currentDepth populationSize root source made enough required available failed
    obtain ⟨d', table, rfl⟩ := Initializer.ofGrammar_eq_ok made
    obtain rfl := Except.ok.inj (h.symm.trans table)
    rcases Initializer.refuses_or_fits closed h (root.getD g.start) (maxDepth - currentDepth) with
      ⟨e, refused⟩ | ⟨kind, fits⟩
    · have answer : (Initializer.generate ⟨g, d, maxDepth⟩ currentDepth populationSize root).answer
          source = .error e :=
        Initializer.answer_generate_of_refuses source closed h refused
      obtain rfl := Except.error.inj (failed.symm.trans answer)
      cases refused with
      | tooShallow declared length short =>
          obtain ⟨l, hl, bound⟩ := bounded.symbol _ declared
          obtain rfl := Option.some.inj (length.symm.trans hl)
          omega
    · obtain ⟨trees, ok, -⟩ := Initializer.generate_always (i := ⟨g, d, maxDepth⟩) currentDepth
        populationSize (sound_of_ofGrammar h) kind fits source
      cases ok.symm.trans failed

/-- Three non-terminals, of which `S` has a length of 3, and one of 2 when the productions stand the
other way round. With three levels to go there is no lack of depth, with two there is. -/
theorem lengths_bounded_layers :
    let d : DepthTable := ⟨#[some 1, some 2, some 3, some 1]⟩
    let productions : Array Production := #[⟨1, [3]⟩, ⟨0, [1]⟩, ⟨1, [2]⟩, ⟨2, [3]⟩]
    let i : Initializer Nat := ⟨.layers, d, 4⟩
    let source : WordStream := ⟨#[], #[], 0, 0, ⟨0⟩⟩
    Grammar.layers.Built ∧ ofGrammar .layers = .ok d ∧ Bounded .layers d ∧
      d.symbolLength .layers 0 = some Grammar.layers.nonTerminals.length ∧
      productions.Perm Grammar.layers.productions ∧
      (∃ d', ofGrammar { Grammar.layers with productions } = .ok d' ∧
        Bounded { Grammar.layers with productions } d' ∧
        d'.symbolLength { Grammar.layers with productions } 0 = some 2) ∧
      (∀ required available, (i.generate 1 4 none).answer source ≠
        .error (.depthUnsatisfiable required available)) ∧
      (i.generate 2 4 none).answer source = .error (.depthUnsatisfiable 3 2) := by
  intro d productions i source
  have table : ofGrammar .layers = .ok d := by cbv
  have made : Initializer.ofGrammar .layers 4 = .ok i := by cbv
  have same : productions.Perm Grammar.layers.productions := by
    rw [Array.perm_iff_toList_perm]
    decide
  obtain ⟨bounded, reordered, enough⟩ :=
    lengths_bounded (σ := WordStream) Grammar.layers_built table
  obtain ⟨d', table', bounded'⟩ := reordered productions same
  have lower : ofGrammar { Grammar.layers with productions } =
      .ok ⟨#[some 1, some 2, some 2, some 1]⟩ := by cbv
  obtain rfl := Except.ok.inj (table'.symm.trans lower)
  exact ⟨Grammar.layers_built, table, bounded, by decide, same, ⟨_, table', bounded', by decide⟩,
    enough i 4 1 4 none source made (by decide), by decide +kernel⟩

end DepthTable

end GrammarEvolution
