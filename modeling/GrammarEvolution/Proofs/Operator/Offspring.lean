import GrammarEvolution.Proofs.Grammar.Declaring
import GrammarEvolution.Proofs.Operator.Crossover
import GrammarEvolution.Proofs.Operator.Mutation

/-!
When operators have offspring.

An operator tries positions and what may be put there in random order, and takes the first that will
do. The order decides what it takes, but not whether it finds anything: nothing is left out, and
nothing that is tried fails.

* `exchangeable_iff`: two nodes may be exchanged, in terms of what crossover looks up.
* `fits_iff_of_mayStand`: a symbol that may stand somewhere fits a depth when it is a terminal or
  its length is within the depth.
* `cross_eq_nil_iff`, `mutate_eq_nil_iff`: which parents are left without offspring.
-/

namespace GrammarEvolution

open Sampling

variable {V σ : Type} {g : Grammar V} {t t₁ t₂ : Tree} {n a b : Nat} {s : SymbolId} {maxDepth : Nat}

namespace Grammar

theorem mayStand_iff_position (h : t.WellFormed) : g.MayStand t n s ↔
    ∃ m i, t.position n = .ok (m, i) ∧
      g.hasProduction (t.symbol m) ((t.childSymbols m).set i s) = true := by
  simp only [MayStand, h.position_eq_ok_iff]

/-- Operators work at the nodes that the root reaches through another. -/
theorem mem_nonRootNodes_iff_mem_preorder {keep : SymbolId → Bool} : n ∈ t.nonRootNodes keep ↔
    n ∈ t.preorder ∧ n ≠ t.root ∧ keep (t.symbol n) = true := by
  simp [Tree.nonRootNodes]

/-- There, a symbol may stand when it is among the replacements. -/
theorem mayStand_iff_mem_replacementSymbols (h : t.WellFormed) (hn : n ∈ t.preorder)
    (notRoot : n ≠ t.root) :
    g.MayStand t n s ↔ ∃ legal, g.replacementSymbols t n = .ok legal ∧ s ∈ legal := by
  obtain ⟨p, stands⟩ := Tree.mem_preorder_iff_standsAt.mp hn
  obtain ⟨legal, ok, mem_legal⟩ := mem_replacementSymbols_iff (g := g) h stands notRoot
  simp [ok, mem_legal]

end Grammar

/-! ### Crossover -/

namespace Crossover

/-- Two nodes may be exchanged when the second holds a replacement for the first, both subtrees keep
within the depth where they come to stand, and the first is a replacement for the second or holds
the same symbol. -/
theorem exchangeable_iff (ht : t₁.WellFormed) (hu : t₂.WellFormed) :
    Exchangeable g maxDepth t₁ t₂ a b ↔
      (a ∈ t₁.preorder ∧ a ≠ t₁.root ∧ g.isNonTerminal (t₁.symbol a) = true) ∧
      (b ∈ t₂.preorder ∧ b ≠ t₂.root) ∧
      (∃ legal, g.replacementSymbols t₁ a = .ok legal ∧ t₂.symbol b ∈ legal) ∧
      t₁.depth a + t₂.heightAt b ≤ maxDepth ∧ t₂.depth b + t₁.heightAt a ≤ maxDepth ∧
      (t₁.symbol a = t₂.symbol b ∨ ∃ m i, t₂.position b = .ok (m, i) ∧
        g.hasProduction (t₂.symbol m) ((t₂.childSymbols m).set i (t₁.symbol a)) = true) := by
  constructor
  · rintro ⟨left, right, legal, depthLeft, depthRight, back⟩
    have atA := Grammar.mem_nonRootNodes_iff_mem_preorder.mp left
    have atB := Grammar.mem_nonRootNodes_iff_mem_preorder.mp right
    rw [Grammar.mayStand_iff_mem_replacementSymbols ht atA.1 atA.2.1] at legal
    rw [Grammar.mayStand_iff_position hu] at back
    exact ⟨atA, ⟨atB.1, atB.2.1⟩, legal, depthLeft, depthRight, back⟩
  · rintro ⟨atA, atB, legal, depthLeft, depthRight, back⟩
    rw [← Grammar.mayStand_iff_mem_replacementSymbols ht atA.1 atA.2.1] at legal
    rw [← Grammar.mayStand_iff_position hu] at back
    exact ⟨Grammar.mem_nonRootNodes_iff_mem_preorder.mpr atA,
      Grammar.mem_nonRootNodes_iff_mem_preorder.mpr ⟨atB.1, atB.2, rfl⟩,
      legal, depthLeft, depthRight, back⟩

/-- **Which parents crossover leaves without offspring.** It never fails on well-formed parents,
whether they are derivations or not, and whatever the source does, it answers nothing exactly when
no two nodes may be exchanged. -/
theorem cross_eq_nil_iff [RandomSource σ] (g : Grammar V) (maxDepth : Nat) (ht : t₁.WellFormed)
    (hu : t₂.WellFormed) (s : σ) :
    ∃ offspring, (cross g maxDepth t₁ t₂).answer s = .ok offspring ∧
      (offspring = [] ↔ ¬ ∃ a b,
        (a ∈ t₁.preorder ∧ a ≠ t₁.root ∧ g.isNonTerminal (t₁.symbol a) = true) ∧
        (b ∈ t₂.preorder ∧ b ≠ t₂.root) ∧
        (∃ legal, g.replacementSymbols t₁ a = .ok legal ∧ t₂.symbol b ∈ legal) ∧
        t₁.depth a + t₂.heightAt b ≤ maxDepth ∧ t₂.depth b + t₁.heightAt a ≤ maxDepth ∧
        (t₁.symbol a = t₂.symbol b ∨ ∃ m i, t₂.position b = .ok (m, i) ∧
          g.hasProduction (t₂.symbol m) ((t₂.childSymbols m).set i (t₁.symbol a)) = true)) := by
  obtain ⟨offspring, ok, made⟩ := cross_always g maxDepth ht hu s
  refine ⟨offspring, ok, ?_⟩
  simp only [← exchangeable_iff ht hu]
  rcases made with ⟨a, b, p, q, exchangeable, -, -, rfl⟩ | ⟨rfl, none⟩
  · simpa [exchanged] using ⟨a, b, exchangeable⟩
  · simpa using none

/-- A parent that is no derivation: a pair below a terminal. Node 1 of either parent holds the same
symbol, so the two change places within two levels; one level is too few for any exchange. -/
theorem cross_misplaced :
    let t₁ := Tree.ofShape (.node 0 [.node 0 [.node 1 []], .node 0 [.node 1 []]])
    let t₂ := Tree.ofShape (.node 1 [.node 0 [.node 1 []]])
    let source : WordStream := ⟨#[], #[], 0, 0, ⟨0⟩⟩
    (t₁.WellFormed ∧ t₂.WellFormed ∧
      Grammar.pairs.check t₂ = .error (.structural (.terminalWithChildren "one"))) ∧
    (∃ offspring, (cross .pairs 2 t₁ t₂).answer source = .ok offspring ∧ offspring ≠ []) ∧
    (cross .pairs 1 t₁ t₂).answer source = .ok [] := by
  intro t₁ t₂ source
  have ht : t₁.WellFormed := Tree.wellFormed_ofShape _
  have hu : t₂.WellFormed := Tree.wellFormed_ofShape _
  refine ⟨⟨ht, hu, by decide +kernel⟩, ?_, ?_⟩
  · obtain ⟨offspring, ok, empty⟩ := cross_eq_nil_iff .pairs 2 ht hu source
    refine ⟨offspring, ok, fun none => empty.mp none ⟨1, 1, ?_⟩⟩
    have legal : Grammar.pairs.replacementSymbols t₁ 1 = .ok [0] := by decide +kernel
    exact ⟨by decide +kernel, by decide +kernel, ⟨[0], legal, by decide +kernel⟩,
      by decide +kernel, by decide +kernel, .inl (by decide +kernel)⟩
  · obtain ⟨offspring, ok, empty⟩ := cross_eq_nil_iff .pairs 1 ht hu source
    have deep : ∀ a ∈ t₁.preorder, a ≠ t₁.root → Grammar.pairs.isNonTerminal (t₁.symbol a) = true →
        ∀ b ∈ t₂.preorder, b ≠ t₂.root → 1 < t₂.depth b + t₁.heightAt a := by decide +kernel
    rw [ok, empty.mpr]
    rintro ⟨a, b, ⟨ha, aNotRoot, kind⟩, ⟨hb, bNotRoot⟩, -, -, shallow, -⟩
    exact absurd shallow (Nat.not_le.mpr (deep a ha aNotRoot kind b hb bNotRoot))

end Crossover

/-! ### Mutation -/

namespace Mutation

open Growth

variable {d : DepthTable}

/-- A symbol that may stand somewhere is declared, so one without a length is a terminal. -/
theorem fits_iff_of_mayStand (closed : g.Closed) (rewriting : g.Rewriting)
    (table : DepthTable.ofGrammar g = .ok d) (legal : g.MayStand t n s) (depth : Nat) :
    d.fits g s depth = true ↔ Fits g d s depth := by
  constructor
  · exact fits_of_mayStand closed table legal
  · intro fits
    cases kind : g.isNonTerminal s with
    | true =>
        obtain ⟨l, hl, le⟩ := fits kind
        simpa [DepthTable.fits, hl] using le
    | false =>
        have none : d.symbolLength g s = none := by
          refine Option.eq_none_iff_forall_ne_some.mpr fun l hl => ?_
          obtain ⟨p, hp, -⟩ := (DepthTable.symbolLength_eq_some_iff.mp hl).1
          have owner := rewriting.isNonTerminal_of_mem hp
          simp [kind] at owner
        simp [DepthTable.fits, none]

/-- **Which parents mutation leaves without offspring.** It never fails on a well-formed parent,
whether it is a derivation or not, and whatever the source does, it answers nothing exactly when at
no position some replacement is a terminal or has a length within the depth that is left there. -/
theorem mutate_eq_nil_iff [RandomSource σ] (built : g.Built)
    (table : DepthTable.ofGrammar g = .ok d) (ht : t.WellFormed) (maxDepth : Nat) (s : σ) :
    ∃ offspring, (mutate g d maxDepth t).answer s = .ok offspring ∧
      (offspring = [] ↔ ¬ ∃ n legal symbol,
        (n ∈ t.preorder ∧ n ≠ t.root ∧ g.isNonTerminal (t.symbol n) = true) ∧
        g.replacementSymbols t n = .ok legal ∧ symbol ∈ legal ∧
        (g.isNonTerminal symbol = false ∨
          ∃ l, d.symbolLength g symbol = some l ∧ l ≤ maxDepth - t.depth n)) := by
  obtain ⟨offspring, ok, made⟩ := mutate_always built.closed table ht maxDepth s
  refine ⟨offspring, ok, ?_⟩
  rcases made with ⟨n, p, r, regrown, rfl⟩ | ⟨rfl, barren⟩
  · have position := Grammar.mem_nonRootNodes_iff_mem_preorder.mp regrown.position
    obtain ⟨legal, listed, mem⟩ :=
      (Grammar.mayStand_iff_mem_replacementSymbols ht position.1 position.2.1).mp regrown.legal
    have fits := regrown.affords.fits
    simp only [List.cons_ne_nil, false_iff, not_not]
    refine ⟨n, legal, r.label, position, listed, mem, ?_⟩
    cases kind : g.isNonTerminal r.label with
    | true => exact .inr (fits kind)
    | false => exact .inl rfl
  · simp only [true_iff]
    rintro ⟨n, legal, symbol, position, listed, mem, enough⟩
    have mayStand :=
      (Grammar.mayStand_iff_mem_replacementSymbols (g := g) ht position.1 position.2.1).mpr
        ⟨legal, listed, mem⟩
    have unfit := barren n (Grammar.mem_nonRootNodes_iff_mem_preorder.mpr position) symbol mayStand
    have fits : Fits g d symbol (maxDepth - t.depth n) := by
      intro kind
      simpa [kind] using enough
    rw [← fits_iff_of_mayStand built.closed built.rewriting table mayStand] at fits
    simp [unfit] at fits

/-- A pair of two, with one level left at its nodes or none. -/
theorem mutate_cramped :
    let t := Tree.ofShape (.node 0 [.node 0 [.node 1 []], .node 0 [.node 1 []]])
    let d : DepthTable := ⟨#[some 2, some 1]⟩
    let source : WordStream := ⟨#[], #[], 0, 0, ⟨0⟩⟩
    (DepthTable.ofGrammar Grammar.pairs = .ok d ∧ t.WellFormed) ∧
    (∃ offspring, (mutate .pairs d 2 t).answer source = .ok offspring ∧ offspring ≠ []) ∧
    (mutate .pairs d 1 t).answer source = .ok [] := by
  intro t d source
  have table : DepthTable.ofGrammar Grammar.pairs = .ok d := by cbv
  have ht : t.WellFormed := Tree.wellFormed_ofShape _
  refine ⟨⟨table, ht⟩, ?_, ?_⟩
  · obtain ⟨offspring, ok, empty⟩ := mutate_eq_nil_iff Grammar.pairs_built table ht 2 source
    refine ⟨offspring, ok, fun none => empty.mp none ⟨1, [0], 0, ?_⟩⟩
    have legal : Grammar.pairs.replacementSymbols t 1 = .ok [0] := by decide +kernel
    exact ⟨by decide +kernel, legal, by decide, .inr ⟨1, by decide, by decide +kernel⟩⟩
  · obtain ⟨offspring, ok, empty⟩ := mutate_eq_nil_iff Grammar.pairs_built table ht 1 source
    have used : ∀ n ∈ t.preorder, n ≠ t.root → Grammar.pairs.isNonTerminal (t.symbol n) = true →
        Grammar.pairs.replacementSymbols t n = .ok [0] ∧ 1 ≤ t.depth n := by decide +kernel
    rw [ok, empty.mpr]
    rintro ⟨n, legal, symbol, ⟨hn, notRoot, kind⟩, listed, mem, enough⟩
    obtain ⟨only, deep⟩ := used n hn notRoot kind
    cases listed.symm.trans only
    obtain rfl := List.mem_singleton.mp mem
    rcases enough with terminal | ⟨l, hl, le⟩
    · cases terminal
    · rw [show d.symbolLength .pairs 0 = some 1 by decide] at hl
      cases hl
      omega

end Mutation

end GrammarEvolution
