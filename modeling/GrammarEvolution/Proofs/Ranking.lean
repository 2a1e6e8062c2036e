import GrammarEvolution.Proofs.Ranking.Order

/-!
A ranking loses no tree and adds none, and has the best first.

* `rank_eq_mergeSort`, `rank_eq_of_sorted`: it is the sorted list of candidates.
* `rank_perm`: the ranked candidates are those of the trees, in another order.
* `rank_sorted`: each is as good as any after it.
-/

namespace GrammarEvolution

/-- One candidate ranks no later than another when it is fitter, or as fit and no larger. -/
theorem Candidate.isLE_compare_iff (a b : Candidate) : (compare a b).isLE = true ↔
    a.fitness < b.fitness ∨ a.fitness = b.fitness ∧ a.size ≤ b.size := by
  change ((compare a.fitness.place b.fitness.place).then (compare a.size b.size)).isLE = true ↔
    a.fitness.place < b.fitness.place ∨ _
  rw [← Fitness.place_injective.eq_iff]
  generalize a.fitness.place = x, b.fitness.place = y
  rcases Int.lt_trichotomy x y with less | rfl | greater
  · rw [Int.compare_eq_lt.mpr less]
    simp [less]
  · simp [Nat.isLE_compare]
  · rw [Int.compare_eq_gt.mpr greater]
    simp
    omega

variable {fitness : Tree → Fitness} {trees : List Tree}

/-- Ranking sorts the candidates of the trees. -/
theorem rank_eq_mergeSort (fitness : Tree → Fitness) (trees : List Tree) : rank fitness trees =
    (trees.map fun tree => { tree, fitness := fitness tree }).mergeSort
      fun a b => (compare a b).isLE := by
  simp only [rank, rankBy, Candidate.ofAnswer, bind_pure_comp, map_pure, List.mapM_pure,
    Id.run_pure, toFitness_self]

/-- Candidates that are in order already stay as they are. -/
theorem rank_eq_of_sorted
    (sorted : (trees.map fun tree => ({ tree, fitness := fitness tree } : Candidate)).Pairwise
      fun a b => (compare a b).isLE = true) :
    rank fitness trees = trees.map fun tree => { tree, fitness := fitness tree } := by
  rw [rank_eq_mergeSort]
  exact List.mergeSort_of_pairwise sorted

/-- Ranking reorders the candidates of the trees, each with the fitness of its own tree. -/
theorem rank_perm (fitness : Tree → Fitness) (trees : List Tree) :
    (rank fitness trees).Perm (trees.map fun tree => { tree, fitness := fitness tree }) := by
  rw [rank_eq_mergeSort]
  exact List.mergeSort_perm _ _

/-- Each candidate ranks no later than any after it. -/
theorem rank_sorted (fitness : Tree → Fitness) (trees : List Tree) :
    (rank fitness trees).Pairwise fun a b => (compare a b).isLE = true := by
  rw [rank_eq_mergeSort]
  refine List.pairwise_mergeSort (fun _ _ _ => Std.TransCmp.isLE_trans) (fun a b => ?_) _
  exact (Bool.or_eq_true _ _).mpr (preordered_candidates.total a b)

theorem length_rank : (rank fitness trees).length = trees.length := by
  rw [(rank_perm fitness trees).length_eq, List.length_map]

theorem tree_mem_of_mem_rank {c : Candidate} (h : c ∈ rank fitness trees) : c.tree ∈ trees := by
  obtain ⟨t, ht, rfl⟩ := List.mem_map.mp ((rank_perm fitness trees).subset h)
  exact ht

end GrammarEvolution
