import GrammarEvolution.Proofs.Grammar.Evaluation
import GrammarEvolution.Proofs.Operator.Offspring

/-!
One test of legality, made in two ways.

What may stand at a position is looked up in two ways. The list of replacements goes through all
productions of the parent and keeps those that agree with its children place by place, but for one
place. The other way puts a symbol into that place and looks the whole sequence up.

* `alikeBut_iff_getElem?`: agreement but for one place.
* `mayStandAt_eq_contains`: the look-up of a sequence, in terms of the list of replacements.
* `replacements_legal`: what the list of replacements holds.
-/

namespace GrammarEvolution

open Rose (node)

namespace Grammar

variable {V : Type} {g : Grammar V} {t : Tree} {n m i : Nat}

/-- Two right-hand sides are alike but for one place when they are equally long and agree in every
other place. -/
theorem alikeBut_iff_getElem? {rhs current : List SymbolId} : alikeBut i rhs current = true ↔
    rhs.length = current.length ∧ ∀ j, j ≠ i → rhs[j]? = current[j]? := by
  unfold alikeBut
  rw [beq_iff_eq]
  constructor
  · intro same
    refine ⟨by simpa using congrArg List.length same, fun j other => ?_⟩
    have there := congrArg (·[j]?) same
    simpa [List.getElem?_set_ne other.symm] using there
  · rintro ⟨length, others⟩
    refine List.ext_getElem? fun j => ?_
    by_cases here : j = i
    · subst here
      simp [List.getElem?_set, length]
    · simp [List.getElem?_set_ne (Ne.symm here), others j here]

/-- A production of a node `m` has `s` in the place `i` and agrees with the children of `m` in every
other place. -/
structure Agrees (g : Grammar V) (t : Tree) (m i : Nat) (s : SymbolId) (p : ProductionId) :
    Prop where
  owned : p ∈ g.productionsOf (t.symbol m)
  length : (g.rhs p).length = (t.children m).length
  siblings : ∀ j, j ≠ i → (g.rhs p)[j]? = (t.childSymbols m)[j]?
  here : (g.rhs p)[i]? = some s

/-- What is looked up where a node stands. -/
theorem replacementSymbols_of_position (position : t.position n = .ok (m, i)) :
    ∃ legal, g.replacementSymbols t n = .ok legal ∧ legal.Nodup ∧
      ∀ s, s ∈ legal ↔ ∃ p, g.Agrees t m i s p := by
  unfold replacementSymbols
  rw [position]
  refine ⟨_, rfl, (List.firstOccurrences_eraseDups _).nodup, fun s => ?_⟩
  simp only [List.mem_eraseDups, List.mem_filterMap, List.mem_filter, List.mem_map,
    alikeBut_iff_getElem?]
  constructor
  · rintro ⟨_, ⟨⟨p, owned, rfl⟩, length, siblings⟩, here⟩
    exact ⟨p, owned, by simpa [Tree.childSymbols] using length, siblings, here⟩
  · rintro ⟨p, owned, length, siblings, here⟩
    exact ⟨_, ⟨⟨p, owned, rfl⟩, by simpa [Tree.childSymbols] using length, siblings⟩, here⟩

end Grammar

namespace Crossover

variable {V : Type} {g : Grammar V} {t u : Tree} {n a : Nat} {legal : List SymbolId}

/-- Putting a symbol into the place of a node and looking the whole sequence up finds what the list
of replacements holds. The exception is the symbol that stands there already: it is not looked up,
and in what is no derivation it need not be legal. -/
theorem mayStandAt_eq_contains (h : t.WellFormed) (reached : n ∈ t.preorder) (notRoot : n ≠ t.root)
    (found : g.replacementSymbols t n = .ok legal)
    (other : u.symbol a ≠ t.symbol n ∨ t.symbol n ∈ legal) :
    mayStandAt g u a t n = .ok (legal.contains (u.symbol a)) := by
  obtain ⟨p, stands⟩ := Tree.mem_preorder_iff_standsAt.mp reached
  obtain ⟨answer, ok, legally⟩ := mayStandAt_iff g u a h stands notRoot
  rw [ok, Except.ok.injEq, Bool.eq_iff_iff, legally, List.contains_iff_mem,
    Grammar.mayStand_iff_mem_replacementSymbols h reached notRoot]
  simp only [found, Except.ok.injEq, exists_eq_left']
  constructor
  · rintro (same | mem)
    · rw [same]
      exact other.resolve_left (absurd same)
    · exact mem
  · exact .inr

end Crossover

namespace Grammar

variable {V : Type} {g : Grammar V} {t : Tree} {n : Nat}

/-- **What may stand in place of a node.** Every node below another has its symbols listed, each
once: those that a production of the parent has in the place of the node, where it is like the
children in all other places. They are the symbols that make a production of the children when put
there, and in a derivation that of the node is one. So the two tests of crossover are one test. -/
theorem replacements_legal (h : t.WellFormed) (reached : n ∈ t.preorder) (notRoot : n ≠ t.root) :
    ∃ m i legal, t.parent n = some m ∧ (t.children m)[i]? = some n ∧
      g.replacementSymbols t n = .ok legal ∧ legal.Nodup ∧
      (∀ s, s ∈ legal ↔ ∃ p, g.Agrees t m i s p) ∧
      (∀ s, s ∈ legal ↔ g.hasProduction (t.symbol m) ((t.childSymbols m).set i s) = true) ∧
      (g.check t = .ok () → t.symbol n ∈ legal) ∧
      ∀ u a, u.symbol a ≠ t.symbol n ∨ g.check t = .ok () →
        Crossover.mayStandAt g u a t n = .ok (legal.contains (u.symbol a)) := by
  obtain ⟨q, stands⟩ := Tree.mem_preorder_iff_standsAt.mp reached
  obtain ⟨m, i, -, -, -, hi, position⟩ := h.exists_position stands notRoot
  obtain ⟨legal, found, nodup, agrees⟩ := replacementSymbols_of_position (g := g) position
  have mem_legal : ∀ s, s ∈ legal ↔ g.MayStand t n s := by
    intro s
    rw [mayStand_iff_mem_replacementSymbols h reached notRoot]
    simp [found]
  have own : g.check t = .ok () → t.symbol n ∈ legal :=
    fun valid => (mem_legal _).mpr (mayStand_symbol h valid stands notRoot)
  refine ⟨m, i, legal, h.parent_of_child hi, hi, found, nodup, agrees, fun s => ?_, own, ?_⟩
  · rw [mem_legal, mayStand_iff h hi]
  · intro u a other
    exact Crossover.mayStandAt_eq_contains h reached notRoot found (other.imp_right own)

/-- The variable of a sum may be replaced by the constant, but not by a sum. -/
theorem replacements_legal_sums :
    let t := Tree.ofShape (node 0 [node 1 [], node 0 [node 2 []], node 0 [node 3 []]])
    (t.WellFormed ∧ 3 ∈ t.preorder ∧ 3 ≠ t.root ∧ sums.check t = .ok ()) ∧
    ∃ legal, sums.replacementSymbols t 3 = .ok legal ∧ legal.Nodup ∧
      (∀ s, s ∈ legal ↔ sums.hasProduction 0 [s] = true) ∧ t.symbol 3 ∈ legal ∧
      Crossover.mayStandAt sums t 5 t 3 = .ok true ∧
      Crossover.mayStandAt sums t 4 t 3 = .ok false := by
  intro t
  have wellFormed : t.WellFormed := Tree.wellFormed_ofShape _
  have reached : 3 ∈ t.preorder := by decide +kernel
  have notRoot : 3 ≠ t.root := by decide
  have valid : sums.check t = .ok () := by decide +kernel
  obtain ⟨m, i, legal, parent, place, found, nodup, -, mem, own, same⟩ :=
    replacements_legal (g := sums) wellFormed reached notRoot
  have above : t.parent 3 = some 2 := by decide +kernel
  obtain rfl : 2 = m := Option.some.inj (above.symm.trans parent)
  obtain rfl : 0 = i := by
    rw [show t.children 2 = [3] by decide +kernel] at place
    have := (List.getElem?_eq_some_iff.mp place).1
    simp at this
    omega
  refine ⟨⟨wellFormed, reached, notRoot, valid⟩, legal, found, nodup, mem, own valid, ?_, ?_⟩
  · have legally : t.symbol 5 ∈ legal := (mem _).mpr (by decide +kernel)
    rw [same t 5 (.inr valid), List.contains_iff_mem.mpr legally]
  · have illegal : t.symbol 4 ∉ legal := mt (mem _).mp (by decide +kernel)
    rw [same t 4 (.inr valid), List.contains_eq_mem, decide_eq_false illegal]

end Grammar

end GrammarEvolution
