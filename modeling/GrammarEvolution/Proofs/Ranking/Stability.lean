import GrammarEvolution.Proofs.Ranking

/-!
Rankings are stable.

`StablySorted` says of one list what it is to sort another by scores: nothing is lost, the elements
come in the order of their scores, and those with the same score stay in the order in which they
were. Ranking asks for the fitness of every tree once, in the order of the trees, and only then
sorts; so what has been ranked is ranked alike when it is asked for again.

* `stablySorted_mergeSort`: merge sort sorts stably, whatever patterns of bits the scores have.
* `rankBy_eq`: what ranking asks, and of what it sorts the answers.
* `rank_stable`: the order of candidates and the ranking of trees.
-/

namespace GrammarEvolution

/-! ### Stable sorting -/

section Sorting

variable {α : Type}

/-- The elements of `xs` in the order of their scores; those with the same score stand in the order
in which they stand in `xs`. -/
structure StablySorted (score : α → Score) (xs ys : List α) : Prop where
  perm : ys.Perm xs
  sorted : ys.Pairwise fun a b => (compare (score a) (score b)).isLE = true
  stable : ∀ s, ys.filter (score · = s) = xs.filter (score · = s)

/-- Elements that are all as good as each other stay in order. -/
theorem filter_mergeSort {le : α → α → Bool} {p : α → Bool}
    (trans : ∀ a b c, le a b = true → le b c = true → le a c = true)
    (total : ∀ a b, (le a b || le b a) = true)
    (alike : ∀ a b, p a = true → p b = true → le a b = true) (xs : List α) :
    (xs.mergeSort le).filter p = xs.filter p := by
  -- They are sorted already, so the sorted list has them in order, and it has no more of them.
  have sorted : (xs.filter p).Pairwise fun a b => le a b = true :=
    List.pairwise_filter.mpr (List.pairwise_of_forall alike)
  have kept : (xs.filter p).Sublist ((xs.mergeSort le).filter p) := by
    have inside := (List.sublist_mergeSort trans total sorted List.filter_sublist).filter p
    simpa only [List.filter_filter, Bool.and_self] using inside
  exact (kept.eq_of_length ((List.mergeSort_perm xs le).filter p).length_eq.symm).symm

theorem stablySorted_mergeSort (score : α → Score) (xs : List α) :
    StablySorted score xs (xs.mergeSort fun a b => (compare (score a) (score b)).isLE) := by
  have trans : ∀ a b c : α, (compare (score a) (score b)).isLE = true →
      (compare (score b) (score c)).isLE = true → (compare (score a) (score c)).isLE = true :=
    fun _ _ _ => Std.TransCmp.isLE_trans
  have total : ∀ a b : α,
      ((compare (score a) (score b)).isLE || (compare (score b) (score a)).isLE) = true := by
    intro a b
    rw [Std.OrientedOrd.eq_swap (a := score b)]
    cases compare (score a) (score b) <;> rfl
  refine ⟨List.mergeSort_perm _ _, List.pairwise_mergeSort trans total _, fun s => ?_⟩
  refine filter_mergeSort trans total (fun a b ha hb => ?_) xs
  rw [of_decide_eq_true ha, of_decide_eq_true hb, Std.compare_self]
  rfl

end Sorting

/-! ### Rankings -/

/-- Candidates in the order of their scores. -/
def bestFirst (candidates : List Candidate) : List Candidate :=
  candidates.mergeSort fun a b => (compare a b).isLE

/-- **What ranking asks and sorts.** The fitness of every tree is asked for once, in order, and the
answers are sorted, each with its own tree. -/
theorem rankBy_eq {m : Type → Type} [Monad m] [LawfulMonad m] {F : Type} [ToFitness F]
    (ask : Tree → m F) (trees : List Tree) : rankBy ask trees =
      (fun answers => bestFirst (trees.zipWith Candidate.ofAnswer answers)) <$>
        trees.mapM ask := by
  have paired : (trees.mapM fun tree => Candidate.ofAnswer tree <$> ask tree) =
      (fun answers => trees.zipWith Candidate.ofAnswer answers) <$> trees.mapM ask := by
    induction trees with
    | nil => simp
    | cons tree trees ih => simp [List.mapM_cons, ih]
  simp only [rankBy, bind_pure_comp]
  rw [paired, Functor.map_map]
  rfl

variable {fitness : Tree → Fitness} {trees : List Tree}

/-- Every candidate of a ranking has the fitness of its tree. -/
theorem eq_of_mem_rank {c : Candidate} (h : c ∈ rank fitness trees) :
    ({ tree := c.tree, fitness := fitness c.tree } : Candidate) = c := by
  obtain ⟨tree, -, rfl⟩ := List.mem_map.mp ((rank_perm fitness trees).subset h)
  rfl

/-- What has been ranked stands in order already. -/
theorem rank_trees_rank (fitness : Tree → Fitness) (trees : List Tree) :
    rank fitness ((rank fitness trees).map Candidate.tree) = rank fitness trees := by
  have same : ((rank fitness trees).map Candidate.tree).map
      (fun tree => ({ tree, fitness := fitness tree } : Candidate)) = rank fitness trees := by
    rw [List.map_map]
    exact (List.map_congr_left fun _ hc => eq_of_mem_rank hc).trans (List.map_id _)
  refine (rank_eq_of_sorted ?_).trans same
  rw [same]
  exact rank_sorted fitness trees

/-- **The order of candidates and the ranking of trees**, whatever bits a fitness has. Candidates
are in a total preorder, in which those with the same bits of fitness and the same size compare
equal. It is the order of their scores, which is linear, and sorting by scores is stable. Ranking
asks for the fitness of every tree once, in order; it sorts the trees stably, each with its own
fitness and size; and it leaves the trees of a ranking as they are. -/
theorem rank_stable {m : Type → Type} [Monad m] [LawfulMonad m] {F : Type} [ToFitness F]
    (ask : Tree → m F) (fitness : Tree → Fitness) (trees : List Tree) :
    Preordered Candidate ∧
    (∀ a b : Candidate, compare a b = .eq ↔
      a.fitness.bits = b.fitness.bits ∧ a.tree.size = b.tree.size) ∧
    ((∀ a b : Candidate, compare a b = compare a.score b.score) ∧
      Std.TransOrd Score ∧ Std.LawfulEqOrd Score ∧
      ∀ (α : Type) (score : α → Score) (xs : List α),
        StablySorted score xs (xs.mergeSort fun a b => (compare (score a) (score b)).isLE)) ∧
    rankBy ask trees = (do
      let answers ← trees.mapM ask
      return bestFirst (trees.zipWith Candidate.ofAnswer answers)) ∧
    StablySorted Candidate.score (trees.map fun tree => { tree, fitness := fitness tree })
      (rank fitness trees) ∧
    (∀ c ∈ rank fitness trees, c.fitness = fitness c.tree ∧ c.size = c.tree.size) ∧
    rank fitness ((rank fitness trees).map Candidate.tree) = rank fitness trees := by
  refine ⟨preordered_candidates, fun a b => ?_, ?_, ?_, ?_, fun c hc => ⟨?_, c.size_eq⟩,
    rank_trees_rank fitness trees⟩
  · rw [← a.size_eq, ← b.size_eq, Candidate.compare_eq_eq_iff, Fitness.ext_iff]
  · exact ⟨Candidate.compare_eq_score, inferInstance, inferInstance,
      fun _ score xs => stablySorted_mergeSort score xs⟩
  · rw [rankBy_eq, bind_pure_comp]
  · rw [rank_eq_mergeSort]
    exact stablySorted_mergeSort Candidate.score _
  · exact (congrArg Candidate.fitness (eq_of_mem_rank hc)).symm

/-- A pair and three leaves. The fitness of one leaf is negative and no number, so it ranks first;
the others and the pair have −0, the leaves before the pair and in the order in which they were. -/
theorem rank_stable_leaves :
    let pair : Tree := ((Tree.single 0).pushChild 0 1).2
    let trees : List Tree := [pair, .single 0, .single 1, .single 2]
    let fitness : Tree → Fitness := fun t =>
      if t.symbol t.root = 1 then ⟨0xfff8000000000000⟩ else -0
    let ask : Tree → StateM (List Tree) Fitness := fun t => do
      modify (· ++ [t])
      return fitness t
    ((rankBy ask trees).run []).run.2 = trees ∧
      (rank fitness trees).map Candidate.tree = [.single 1, .single 0, .single 2, pair] ∧
      rank fitness [.single 1, .single 0, .single 2, pair] = rank fitness trees := by
  intro pair trees fitness ask
  obtain ⟨-, -, -, asked, -, -, again⟩ := rank_stable ask fitness trees
  have order : (rank fitness trees).map Candidate.tree =
      [.single 1, .single 0, .single 2, pair] := by
    -- The five comparisons that merge sort makes of four candidates.
    let candidate : Tree → Candidate := fun tree => { tree, fitness := fitness tree }
    obtain ⟨pair_zero, one_two, zero_one, zero_two, pair_two⟩ :
        (compare (candidate pair) (candidate (.single 0))).isLE = false ∧
        (compare (candidate (.single 1)) (candidate (.single 2))).isLE = true ∧
        (compare (candidate (.single 0)) (candidate (.single 1))).isLE = false ∧
        (compare (candidate (.single 0)) (candidate (.single 2))).isLE = true ∧
        (compare (candidate pair) (candidate (.single 2))).isLE = false := by
      decide +kernel
    have sorted : ([pair, .single 0, .single 1, .single 2].map candidate).mergeSort
        (fun a b => (compare a b).isLE) =
          [.single 1, .single 0, .single 2, pair].map candidate := by
      simp [List.mergeSort, pair_zero, one_two, zero_one, zero_two, pair_two]
    exact congrArg (List.map Candidate.tree) ((rank_eq_mergeSort fitness trees).trans sorted)
  refine ⟨?_, order, order ▸ again⟩
  rw [asked]
  rfl

end GrammarEvolution
