import GrammarEvolution.Proofs.Grammar.Expansion
import GrammarEvolution.Proofs.Operator.Crossover
import GrammarEvolution.Proofs.Operator.Mutation
import GrammarEvolution.Proofs.Tree.Alike

/-!
Operators at work on alike trees.

The pools of positions of two alike trees are in step, so equal draws pick nodes alongside each
other. What is looked up there is the same, and offspring are laid out from shapes.

* `Pool.firstDrawn_congr`: searches through pools in step come to the same.
* `Crossover.cross_congr`, `Mutation.mutate_congr`: so do the operators.
* `alike_of_beq`: alike trees are read alike and have the same offspring.
-/

namespace GrammarEvolution

namespace Sampling

variable {σ β : Type}

/-- Two samplings answer the same and leave the source in the same state. -/
def Agree (x y : Sampling σ β) (s : σ) : Prop :=
  x.answer s = y.answer s ∧ x.rest s = y.rest s

theorem agree_of_eq {x y : Sampling σ β} (h : x = y) (s : σ) : Agree x y s :=
  ⟨congrArg (answer · s) h, congrArg (rest · s) h⟩

variable [RandomSource σ] {m n : Nat}

/-- A draw depends on the bound, not on how the bound is written. -/
theorem index64_bind_congr {f : Fin m → Sampling σ β} {f' : Fin n → Sampling σ β} (same : m = n)
    (hm : 0 < m) (hn : 0 < n) (h : ∀ i, f i = f' (i.cast same)) :
    (index64 m hm >>= f) = (index64 n hn >>= f') := by
  subst same
  exact congrArg _ (funext h)

end Sampling

namespace Pool

open Sampling

variable {σ α β γ : Type} {R : α → β → Prop} {pool : List α} {pool' : List β}

/-- Pools in step are in step after a draw at the same index. -/
theorem forall₂_without (h : List.Forall₂ R pool pool') (i : Fin pool.length) :
    List.Forall₂ R (without pool i) (without pool' (i.cast h.length_eq)) := by
  refine List.forall₂_iff_get.mpr ⟨by simp [h.length_eq], fun j hj hj' => ?_⟩
  simp only [without, List.get_eq_getElem, List.getElem_dropLast, List.getElem_set,
    List.getLast_eq_getElem, Fin.val_cast, ← h.length_eq]
  split
  · exact h.get _ _
  · exact h.get _ _

variable [RandomSource σ]

/-- **Searches through pools in step** come to the same and leave the source in the same state. -/
theorem firstDrawn_congr {attempt : α → Sampling σ (Option γ)}
    {attempt' : β → Sampling σ (Option γ)}
    (pools : List.Forall₂ R pool pool') (attempts : ∀ a b, R a b → attempt a = attempt' b) :
    firstDrawn pool attempt = firstDrawn pool' attempt' := by
  induction pool using firstDrawn.induct generalizing pool' with
  | case1 pool inhabited ih =>
      have inhabited' : 0 < pool'.length := pools.length_eq ▸ inhabited
      rw [firstDrawn, dif_pos inhabited, firstDrawn, dif_pos inhabited']
      refine index64_bind_congr pools.length_eq inhabited inhabited' fun i => ?_
      have drawn : attempt (pool.get i) = attempt' (pool'.get (i.cast pools.length_eq)) :=
        attempts _ _ (pools.get i.2 (i.cast pools.length_eq).2)
      rw [drawn]
      refine congrArg (attempt' _ >>= ·) (funext fun found => ?_)
      cases found with
      | some found => rfl
      | none => exact ih i (forall₂_without pools i)
  | case2 pool empty =>
      have empty' : ¬ 0 < pool'.length := pools.length_eq ▸ empty
      rw [firstDrawn, dif_neg empty, firstDrawn, dif_neg empty']

end Pool

namespace Tree.Alike

variable {t t' : Tree}

/-- The positions at which operators work are in step. -/
theorem nonRootNodes_alongside (h : t.Alike t') (keep : SymbolId → Bool) :
    List.Forall₂ (fun n n' => n ≠ t.root ∧ Alongside t t' n n') (t.nonRootNodes keep)
      (t'.nonRootNodes keep) := by
  refine (List.forall₂_and_left _ _).mpr ⟨fun n hn => ?_, List.rel_filter ?_ h.preorder_alongside⟩
  · exact (Grammar.mem_nonRootNodes_iff.mp hn).2.1
  · intro n n' a
    beta_reduce
    rw [decide_eq_true_iff, decide_eq_true_iff, h.symbol_eq a, Ne, Ne, h.root_iff a]

end Tree.Alike

/-! ### Operators -/

section Operators

open GrammarEvolution.Tree Sampling

variable {V σ : Type} {t t' u u' : Tree} {n n' m m' : Nat}

theorem Grammar.replacementSymbols_congr (g : Grammar V) (h : t.Alike t')
    (a : Alongside t t' n n') (notRoot : n ≠ t.root) :
    g.replacementSymbols t n = g.replacementSymbols t' n' := by
  obtain ⟨m, m', i, above, position, position'⟩ := h.exists_position a notRoot
  rw [replacementSymbols, position, replacementSymbols, position']
  show (pure _ : Except Error _) = pure _
  rw [h.symbol_eq above, h.childSymbols_eq above]

namespace Crossover

variable (g : Grammar V) (maxDepth : Nat) (ht : t.Alike t') (hu : u.Alike u')
  (a : Alongside t t' n n') (b : Alongside u u' m m')

include ht hu a b

theorem keepsDepth_congr : keepsDepth maxDepth t n u m = keepsDepth maxDepth t' n' u' m' := by
  rw [keepsDepth, ht.depth_eq a, ht.heightAt_eq a, hu.depth_eq b, hu.heightAt_eq b, keepsDepth]

theorem mayStandAt_congr (notRoot : m ≠ u.root) :
    mayStandAt g t n u m = mayStandAt g t' n' u' m' := by
  obtain ⟨k, k', i, above, position, position'⟩ := hu.exists_position b notRoot
  rw [mayStandAt, position, mayStandAt, position', ht.symbol_eq a, hu.symbol_eq b]
  show ite _ _ (pure _ : Except Error _) = ite _ _ (pure _)
  rw [hu.symbol_eq above, hu.childSymbols_eq above]

/-- Offspring are laid out from shapes, so they come out with the same numbers. -/
theorem swap_congr (nNotRoot : n ≠ t.root) (mNotRoot : m ≠ u.root) :
    t.swap n u m = t'.swap n' u' m' := by
  have nNotRoot' := mt (ht.root_iff a).mpr nNotRoot
  have mNotRoot' := mt (hu.root_iff b).mpr mNotRoot
  have below := ht.shapeAt_eq a
  have below' := hu.shapeAt_eq b
  obtain ⟨p, hn, hn'⟩ := a
  obtain ⟨q, hm, hm'⟩ := b
  rw [ht.left.swap_eq hu.left hn hm nNotRoot mNotRoot,
    ht.right.swap_eq hu.right hn' hm' nNotRoot' mNotRoot', ht.shape, hu.shape, below, below']

theorem exchange_congr (nNotRoot : n ≠ t.root) (mNotRoot : m ≠ u.root) :
    exchange g maxDepth t n u m = exchange g maxDepth t' n' u' m' := by
  rw [exchange, keepsDepth_congr maxDepth ht hu a b, mayStandAt_congr g ht hu a b mNotRoot,
    swap_congr ht hu a b nNotRoot mNotRoot, exchange]

variable [RandomSource σ]

omit b in
theorem crossAt_congr (notRoot : n ≠ t.root) :
    (crossAt g maxDepth t n u : Sampling σ _) = crossAt g maxDepth t' n' u' := by
  rw [crossAt, g.replacementSymbols_congr ht a notRoot, crossAt]
  refine congrArg (_ >>= ·) (funext fun legal => ?_)
  refine Pool.firstDrawn_congr (hu.nonRootNodes_alongside legal.contains) fun m m' b => ?_
  rw [exchange_congr g maxDepth ht hu a b.2 notRoot b.1]

omit a b in
/-- **Crossover does not see the numbers of nodes.** -/
theorem cross_congr : (cross g maxDepth t u : Sampling σ _) = cross g maxDepth t' u' := by
  rw [cross, cross]
  refine congrArg (· >>= _) ?_
  exact Pool.firstDrawn_congr (ht.nonRootNodes_alongside g.isNonTerminal) fun n n' a =>
    crossAt_congr g maxDepth ht hu a.2 a.1

end Crossover

namespace Mutation

variable [RandomSource σ] (g : Grammar V) (d : DepthTable) (maxDepth : Nat) (h : t.Alike t')

include h

theorem mutateAt_congr (a : Alongside t t' n n') (notRoot : n ≠ t.root) :
    (mutateAt g d maxDepth t n : Sampling σ _) = mutateAt g d maxDepth t' n' := by
  have notRoot' := mt (h.root_iff a).mpr notRoot
  have replaced : ∀ u, t.replace n u = t'.replace n' u := by
    intro u
    obtain ⟨p, hn, hn'⟩ := a
    rw [h.left.replace_eq hn notRoot, h.right.replace_eq hn' notRoot', h.shape]
  simp only [mutateAt, h.depth_eq a, g.replacementSymbols_congr h a notRoot, replaced]

/-- **Mutation does not see the numbers of nodes.** -/
theorem mutate_congr : (mutate g d maxDepth t : Sampling σ _) = mutate g d maxDepth t' := by
  rw [mutate, mutate]
  refine congrArg (· >>= _) ?_
  exact Pool.firstDrawn_congr (h.nonRootNodes_alongside g.isNonTerminal) fun n n' a =>
    mutateAt_congr g d maxDepth h a.2 a.1

end Mutation

/-- **Results depend on shapes only.** Trees that are alike are read alike, by a pass over their
nodes or from node to node, and the operators make the same of them: the same offspring or the same
failure, with the source left in the same state. -/
theorem alike_of_beq [RandomSource σ] (g : Grammar V) (d : DepthTable) (maxDepth : Nat)
    (ht : t.WellFormed) (ht' : t'.WellFormed) (hu : u.WellFormed) (hu' : u'.WellFormed)
    (same : (t == t') = true) (same' : (u == u') = true) (s : σ) :
    (g.Nodewise t ∧ g.Nodewise t' ∧ g.ReadsAlike t t') ∧
      (Crossover.cross g maxDepth t u).Agree (Crossover.cross g maxDepth t' u') s ∧
      (Mutation.mutate g d maxDepth t).Agree (Mutation.mutate g d maxDepth t') s := by
  have first : t.Alike t' := ⟨ht, ht', beq_iff.mp same⟩
  have second : u.Alike u' := ⟨hu, hu', beq_iff.mp same'⟩
  refine ⟨⟨g.nodewise ht, g.nodewise ht', g.readsAlike first⟩, ?_⟩
  exact ⟨agree_of_eq (Crossover.cross_congr g maxDepth first second) s,
    agree_of_eq (Mutation.mutate_congr g d maxDepth first) s⟩

/-- A pair of pairs with its nodes out of order and one left over, and the same in order. -/
theorem alike_scattered :
    let t := Grammar.scattered
    let t' := Tree.ofShape t.shape
    let d : DepthTable := ⟨#[some 2, some 1]⟩
    let source : WordStream := ⟨#[], #[], 0, 0, ⟨0⟩⟩
    (t.WellFormed ∧ t'.WellFormed ∧ (t == t') = true ∧ t ≠ t') ∧
    (Grammar.pairs.Nodewise t ∧ Grammar.pairs.Nodewise t' ∧ Grammar.pairs.ReadsAlike t t') ∧
      (Crossover.cross .pairs 4 t t').Agree (Crossover.cross .pairs 4 t' t) source ∧
      (Mutation.mutate .pairs d 4 t).Agree (Mutation.mutate .pairs d 4 t') source := by
  intro t t' d source
  have wellFormed : t.WellFormed := by decide
  have wellFormed' : t'.WellFormed := wellFormed_ofShape _
  have same : (t == t') = true := beq_iff.mpr (shape_ofShape _).symm
  have sizes : t.nodes.size ≠ t'.nodes.size := by decide +kernel
  have differ : t ≠ t' := fun e => sizes (congrArg (·.nodes.size) e)
  have same' : (t' == t) = true := beq_iff.mpr (beq_iff.mp same).symm
  exact ⟨⟨wellFormed, wellFormed', same, differ⟩, alike_of_beq .pairs d 4 wellFormed wellFormed'
    wellFormed' wellFormed same same' source⟩

end Operators

end GrammarEvolution
