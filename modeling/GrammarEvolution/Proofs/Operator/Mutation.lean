import GrammarEvolution.Operator.Mutation
import GrammarEvolution.Proofs.Growth
import GrammarEvolution.Proofs.Operator.Replacement

/-!
What mutation grows anew.

A symbol that may stand at a node is on the right-hand side of a production, so a non-terminal among
such symbols is declared and has a length, and where it fits by that length it grows without fail.

* `mutateAt_always`: one node is mutated when some symbol that may stand there fits.
* `mutate_always`: mutation of a well-formed tree never fails, and answers nothing only where no
  symbol fits at any node.
* `mutate_outcome`: the offspring of a derivation.
-/

namespace GrammarEvolution

open Sampling Growth

namespace Mutation

variable {V : Type} {g : Grammar V} {d : DepthTable} {maxDepth : Nat} {t : Tree} {n : Nat}
  {s : SymbolId}

/-- A non-terminal that may stand somewhere has a length, so it grows where that length fits. -/
theorem fits_of_mayStand (closed : g.Closed) (table : DepthTable.ofGrammar g = .ok d)
    (legal : g.MayStand t n s) {depth : Nat} (fits : d.fits g s depth = true) :
    Fits g d s depth := by
  intro kind
  obtain ⟨m, i, hi, production⟩ := legal
  obtain ⟨p, -, spelled⟩ := Grammar.hasProduction_iff.mp production
  have here : s ∈ g.rhs p := by
    rw [spelled]
    exact List.mem_set (Grammar.lt_length_childSymbols hi) s
  have declared := closed.mem_nonTerminals_of_mem_rhs here kind
  obtain ⟨l, hl⟩ := (DepthTable.exists_symbolLength_iff_declared closed table kind).mpr declared
  rw [DepthTable.fits, hl] at fits
  exact ⟨l, hl, by simpa using fits⟩

/-- What may be made of a node: a derivation that the depth left below it affords, of a symbol that
may stand there. -/
structure Regrown (g : Grammar V) (d : DepthTable) (maxDepth : Nat) (t : Tree) (n : Nat)
    (p : List Nat) (r : Rose SymbolId) : Prop where
  position : n ∈ t.nonRootNodes g.isNonTerminal
  stands : t.StandsAt n p
  legal : g.MayStand t n r.label
  affords : Affords g d (maxDepth - t.depth n) r

theorem Regrown.grown {p : List Nat} {r : Rose SymbolId} (h : Regrown g d maxDepth t n p r) :
    Grown g (maxDepth - t.depth n) r.label r :=
  h.affords.grown

/-- No symbol that may stand at a node fits there. -/
def Barren (g : Grammar V) (d : DepthTable) (maxDepth : Nat) (t : Tree) (n : Nat) : Prop :=
  ∀ s, g.MayStand t n s → d.fits g s (maxDepth - t.depth n) = false

variable {σ : Type} [RandomSource σ]

/-- A node is mutated unless it is barren. -/
theorem mutateAt_always (closed : g.Closed) (table : DepthTable.ofGrammar g = .ok d)
    (ht : t.WellFormed) (maxDepth : Nat) (position : n ∈ t.nonRootNodes g.isNonTerminal) :
    (mutateAt g d maxDepth t n : Sampling σ _).Always fun found =>
      (∀ o, found = some o →
        ∃ p r, Regrown g d maxDepth t n p r ∧ o = .ofShape (t.shape.replaceAt r p)) ∧
      (found = none → Barren g d maxDepth t n) := by
  obtain ⟨⟨p, hn⟩, notRoot, -⟩ := Grammar.mem_nonRootNodes_iff.mp position
  obtain ⟨legal, ok, mem_legal⟩ := Grammar.mem_replacementSymbols_iff (g := g) ht hn notRoot
  unfold mutateAt
  refine always_lift_bind ok ((Pool.always_firstDrawn_of
    (P := fun o => ∃ p r, Regrown g d maxDepth t n p r ∧ o = .ofShape (t.shape.replaceAt r p))
    (Q := fun s => d.fits g s (maxDepth - t.depth n) = false) fun s hs => ?_).mono ?_)
  · have mayStand := (mem_legal s).mp hs
    by_cases fits : d.fits g s (maxDepth - t.depth n) = true
    · rw [if_neg (by simp [fits])]
      have enough := fits_of_mayStand closed table mayStand fits
      refine (grow_affords (DepthTable.sound_of_ofGrammar table) enough).bind ?_
      rintro r ⟨rfl, affords⟩
      have replaced := ht.replace_eq hn notRoot (Tree.ofShape r)
      rw [Tree.shape_ofShape] at replaced
      refine always_lift_bind replaced (always_pure ⟨fun o h => ?_, nofun⟩)
      obtain rfl := Option.some.inj h
      exact ⟨p, r, ⟨position, hn, mayStand, affords⟩, rfl⟩
    · rw [if_pos (by simpa using fits)]
      exact always_pure ⟨nofun, fun _ => eq_false_of_ne_true fits⟩
  · intro found searched
    refine ⟨searched.1, ?_⟩
    intro none s mayStand
    exact searched.2 none s ((mem_legal s).mpr mayStand)

/-- **Mutation of a well-formed tree does not fail.** It grows one node anew, and gives up only
where every node is barren. -/
theorem mutate_always (closed : g.Closed) (table : DepthTable.ofGrammar g = .ok d)
    (ht : t.WellFormed) (maxDepth : Nat) :
    (mutate g d maxDepth t : Sampling σ _).Always fun offspring =>
      (∃ n p r, Regrown g d maxDepth t n p r ∧
        offspring = [.ofShape (t.shape.replaceAt r p)]) ∨
      offspring = [] ∧ ∀ n ∈ t.nonRootNodes g.isNonTerminal, Barren g d maxDepth t n := by
  unfold mutate
  refine (Pool.always_firstDrawn fun n position =>
    mutateAt_always closed table ht maxDepth position).bind fun found searched => ?_
  cases found with
  | some o =>
      obtain ⟨n, -, made, -⟩ := searched.1 o rfl
      obtain ⟨p, r, regrown, rfl⟩ := made o rfl
      exact always_pure (.inl ⟨n, p, r, regrown, rfl⟩)
  | none =>
      exact always_pure (.inr ⟨rfl, fun n position => (searched.2 rfl n position).2 rfl⟩)

/-! ### Offspring of derivations -/

omit [RandomSource σ] in
/-- Where the depth is used up already, what is grown is a leaf and reaches no further down than
what it replaces. -/
theorem Regrown.depth_le {p : List Nat} {r : Rose SymbolId} (h : Regrown g d maxDepth t n p r)
    (ht : t.WellFormed) : t.depth n + r.height ≤ max t.height maxDepth := by
  have height := h.grown.height
  have inside := Rose.add_height_le h.stands.subtreeAt_shape
  rw [← ht.depth_eq h.stands, Tree.height_shape] at inside
  omega

omit [RandomSource σ] in
theorem Regrown.offspring {p : List Nat} {r : Rose SymbolId} (h : Regrown g d maxDepth t n p r)
    (ht : t.WellFormed) (valid : g.check t = .ok ()) :
    g.Offspring maxDepth t n p r (.ofShape (t.shape.replaceAt r p)) :=
  Grammar.offspring_of_mayStand maxDepth ht valid h.stands
    (Grammar.mem_nonRootNodes_iff.mp h.position).2.1 h.grown.valid h.legal (h.depth_le ht)

/-- **What mutation makes of a derivation**: nothing, or the parent with a new derivation in place
of a subtree. The symbol on top may stand there, the new part fits the depth that was left, and the
whole is a derivation again, with the old root and no higher than the parent or the bound. -/
theorem mutate_outcome (built : g.Built) (table : DepthTable.ofGrammar g = .ok d)
    (ht : t.WellFormed) (valid : g.check t = .ok ()) (maxDepth : Nat) (s : σ) :
    ∃ offspring, (mutate g d maxDepth t).answer s = .ok offspring ∧
      (offspring = [] ∨ ∃ n p r o, offspring = [o] ∧ g.isNonTerminal (t.symbol n) = true ∧
        g.MayStand t n r.label ∧ g.checkShape r = .ok () ∧ r.height ≤ maxDepth - t.depth n ∧
        g.Offspring maxDepth t n p r o) := by
  obtain ⟨offspring, ok, made⟩ := mutate_always built.closed table ht maxDepth s
  refine ⟨offspring, ok, ?_⟩
  rcases made with ⟨n, p, r, regrown, rfl⟩ | ⟨rfl, -⟩
  · have kind := (Grammar.mem_nonRootNodes_iff.mp regrown.position).2.2
    exact .inr ⟨n, p, r, _, rfl, kind, regrown.legal, regrown.grown.valid, regrown.grown.height,
      regrown.offspring ht valid⟩
  · exact .inl rfl

/-- A derivation two levels high, mutated within three. A pair fits below its root, so there is an
offspring. -/
theorem mutate_pairs :
    let t := Tree.ofShape (.node 0 [.node 0 [.node 1 []], .node 0 [.node 1 []]])
    let d : DepthTable := ⟨#[some 2, some 1]⟩
    let source : WordStream := ⟨#[], #[], 0, 0, ⟨0⟩⟩
    (DepthTable.ofGrammar Grammar.pairs = .ok d ∧ Grammar.pairs.check t = .ok ()) ∧
    ∃ n p r o, (mutate .pairs d 3 t).answer source = .ok [o] ∧
      Grammar.pairs.isNonTerminal (t.symbol n) = true ∧
      Grammar.pairs.MayStand t n r.label ∧ Grammar.pairs.checkShape r = .ok () ∧
      r.height ≤ 3 - t.depth n ∧ Grammar.pairs.Offspring 3 t n p r o := by
  intro t d source
  have table : DepthTable.ofGrammar Grammar.pairs = .ok d := by cbv
  have ht : t.WellFormed := Tree.wellFormed_ofShape _
  have valid : Grammar.pairs.check t = .ok () := by decide +kernel
  have position : 1 ∈ t.nonRootNodes Grammar.pairs.isNonTerminal := by decide +kernel
  obtain ⟨⟨p, stands⟩, notRoot, -⟩ := Grammar.mem_nonRootNodes_iff.mp position
  have fits : d.fits .pairs (t.symbol 1) (3 - t.depth 1) = true := by decide +kernel
  obtain ⟨offspring, ok, made⟩ := mutate_outcome Grammar.pairs_built table ht valid 3 source
  refine ⟨⟨table, valid⟩, ?_⟩
  rcases made with rfl | ⟨n, p, r, o, rfl, kind, legal, grown, height, made⟩
  · obtain ⟨_, ok', found⟩ := mutate_always Grammar.pairs_built.closed table ht 3 source
    cases ok.symm.trans ok'
    rcases found with ⟨_, _, _, _, none⟩ | ⟨-, barren⟩
    · cases none
    · have unfit := barren 1 position _ (Grammar.mayStand_symbol ht valid stands notRoot)
      rw [fits] at unfit
      cases unfit
  · exact ⟨n, p, r, o, ok, kind, legal, grown, height, made⟩

end Mutation

end GrammarEvolution
