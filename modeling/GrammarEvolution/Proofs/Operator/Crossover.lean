import GrammarEvolution.Operator.Crossover
import GrammarEvolution.Proofs.Operator.Replacement
import GrammarEvolution.Proofs.Sampling
import GrammarEvolution.Random.WordStream

/-!
What crossover exchanges.

`Exchangeable` says which two nodes may lead an exchange. For well-formed parents, derivations or
not, crossover exchanges the subtrees at two such nodes, and without such a pair it answers no
offspring. When both parents are derivations, so are the offspring.

* `cross_always`: crossover never fails, and answers nothing only where nothing can be exchanged.
* `cross_outcome`: the offspring of derivations, and what they keep of their parents.
-/

namespace GrammarEvolution

open Sampling

namespace Crossover

variable {V : Type} {g : Grammar V} {maxDepth : Nat} {t₁ t₂ : Tree} {a b : Nat}
  {p q : List Nat}

/-- Two nodes whose subtrees may change places. The second condition on symbols asks for less than
the first: where the two symbols are the same, it does not look at the grammar. -/
structure Exchangeable (g : Grammar V) (maxDepth : Nat) (t₁ t₂ : Tree) (a b : Nat) : Prop where
  left : a ∈ t₁.nonRootNodes g.isNonTerminal
  right : b ∈ t₂.nonRootNodes fun _ => true
  legal : g.MayStand t₁ a (t₂.symbol b)
  depthLeft : t₁.depth a + t₂.heightAt b ≤ maxDepth
  depthRight : t₂.depth b + t₁.heightAt a ≤ maxDepth
  back : t₁.symbol a = t₂.symbol b ∨ g.MayStand t₂ b (t₁.symbol a)

/-- The two trees after the exchange. -/
def exchanged (t₁ t₂ : Tree) (a b : Nat) (p q : List Nat) : List Tree :=
  [.ofShape (t₁.shape.replaceAt (t₂.shapeAt b) p), .ofShape (t₂.shape.replaceAt (t₁.shapeAt a) q)]

theorem keepsDepth_iff : keepsDepth maxDepth t₁ a t₂ b = true ↔
    t₁.depth a + t₂.heightAt b ≤ maxDepth ∧ t₂.depth b + t₁.heightAt a ≤ maxDepth := by
  unfold keepsDepth
  rw [Bool.and_eq_true, decide_eq_true_iff, decide_eq_true_iff]

theorem mayStandAt_iff (g : Grammar V) (t₁ : Tree) (a : Nat) (hu : t₂.WellFormed)
    (hb : t₂.StandsAt b q) (notRoot : b ≠ t₂.root) :
    ∃ answer, mayStandAt g t₁ a t₂ b = .ok answer ∧
      (answer = true ↔ t₁.symbol a = t₂.symbol b ∨ g.MayStand t₂ b (t₁.symbol a)) := by
  unfold mayStandAt
  by_cases same : t₁.symbol a = t₂.symbol b
  · rw [if_pos same]
    exact ⟨true, rfl, by simp [same]⟩
  · obtain ⟨m, i, q, rfl, -, hi, position⟩ := hu.exists_position hb notRoot
    rw [if_neg same, position, Grammar.mayStand_iff hu hi]
    exact ⟨_, rfl, by simp [same]⟩

/-- What becomes of an exchange: it is made where it may be, and only there. -/
theorem exchange_eq (maxDepth : Nat) (ht : t₁.WellFormed) (hu : t₂.WellFormed)
    (ha : t₁.StandsAt a p) (hb : t₂.StandsAt b q) (left : a ∈ t₁.nonRootNodes g.isNonTerminal)
    (right : b ∈ t₂.nonRootNodes fun _ => true) (legal : g.MayStand t₁ a (t₂.symbol b)) :
    exchange g maxDepth t₁ a t₂ b = .ok (some (exchanged t₁ t₂ a b p q)) ∧
        Exchangeable g maxDepth t₁ t₂ a b ∨
      exchange g maxDepth t₁ a t₂ b = .ok none ∧ ¬ Exchangeable g maxDepth t₁ t₂ a b := by
  have aNotRoot := (Grammar.mem_nonRootNodes_iff.mp left).2.1
  have bNotRoot := (Grammar.mem_nonRootNodes_iff.mp right).2.1
  unfold exchange
  by_cases depth : keepsDepth maxDepth t₁ a t₂ b = true
  · obtain ⟨depthLeft, depthRight⟩ := keepsDepth_iff.mp depth
    obtain ⟨answer, ok, back⟩ := mayStandAt_iff g t₁ a hu hb bNotRoot
    rw [if_neg (by simp [depth]), ok]
    cases answer with
    | true =>
        refine .inl ⟨?_, left, right, legal, depthLeft, depthRight, back.mp rfl⟩
        rw [ht.swap_eq hu ha hb aNotRoot bNotRoot]
        rfl
    | false =>
        refine .inr ⟨rfl, ?_⟩
        intro exchangeable
        cases back.mpr exchangeable.back
  · rw [if_pos (by simpa using depth)]
    refine .inr ⟨rfl, ?_⟩
    intro exchangeable
    exact depth (keepsDepth_iff.mpr ⟨exchangeable.depthLeft, exchangeable.depthRight⟩)

/-- What the search for a partner of node `a` comes to: an exchange, or that there is none. -/
def Searched (g : Grammar V) (maxDepth : Nat) (t₁ t₂ : Tree) (a : Nat) :
    Option (List Tree) → Prop
  | some trees => ∃ b p q, Exchangeable g maxDepth t₁ t₂ a b ∧ t₁.StandsAt a p ∧
      t₂.StandsAt b q ∧ trees = exchanged t₁ t₂ a b p q
  | none => ∀ b, ¬ Exchangeable g maxDepth t₁ t₂ a b

variable {σ : Type} [RandomSource σ]

/-- Where the symbol of a node is not on offer, the node is no partner; all others are tried. -/
theorem crossAt_always (ht : t₁.WellFormed) (hu : t₂.WellFormed)
    (left : a ∈ t₁.nonRootNodes g.isNonTerminal) :
    (crossAt g maxDepth t₁ a t₂ : Sampling σ _).Always (Searched g maxDepth t₁ t₂ a) := by
  obtain ⟨⟨p, ha⟩, aNotRoot, -⟩ := Grammar.mem_nonRootNodes_iff.mp left
  obtain ⟨legal, ok, mem_legal⟩ := Grammar.mem_replacementSymbols_iff (g := g) ht ha aNotRoot
  have offered : ∀ b, b ∈ t₂.nonRootNodes legal.contains ↔
      b ∈ t₂.nonRootNodes (fun _ => true) ∧ g.MayStand t₁ a (t₂.symbol b) := by
    intro b
    rw [Grammar.mem_nonRootNodes_iff, Grammar.mem_nonRootNodes_iff, List.contains_iff_mem,
      mem_legal]
    tauto
  unfold crossAt
  refine always_lift_bind ok ((Pool.always_firstDrawn_of
    (P := fun trees => Searched g maxDepth t₁ t₂ a (some trees))
    (Q := fun b => ¬ Exchangeable g maxDepth t₁ t₂ a b) fun b hb => ?_).mono ?_)
  · obtain ⟨right, mayStand⟩ := (offered b).mp hb
    obtain ⟨q, standsB⟩ := (Grammar.mem_nonRootNodes_iff.mp right).1
    rcases exchange_eq maxDepth ht hu ha standsB left right mayStand with
      ⟨made, exchangeable⟩ | ⟨refused, not⟩
    · refine always_lift made ⟨?_, nofun⟩
      intro trees same
      exact ⟨b, p, q, exchangeable, ha, standsB, (Option.some.inj same).symm⟩
    · exact always_lift refused ⟨nofun, fun _ => not⟩
  · intro found searched
    cases found with
    | some trees => exact searched.1 trees rfl
    | none =>
        intro b exchangeable
        have inPool := (offered b).mpr ⟨exchangeable.right, exchangeable.legal⟩
        exact searched.2 rfl b inPool exchangeable

/-- **Crossover of well-formed trees does not fail.** It exchanges two nodes that may be exchanged,
and gives up only where there are none. -/
theorem cross_always (g : Grammar V) (maxDepth : Nat) (ht : t₁.WellFormed) (hu : t₂.WellFormed) :
    (cross g maxDepth t₁ t₂ : Sampling σ _).Always fun offspring =>
      (∃ a b p q, Exchangeable g maxDepth t₁ t₂ a b ∧ t₁.StandsAt a p ∧ t₂.StandsAt b q ∧
        offspring = exchanged t₁ t₂ a b p q) ∨
      offspring = [] ∧ ∀ a b, ¬ Exchangeable g maxDepth t₁ t₂ a b := by
  unfold cross
  refine (Pool.always_firstDrawn fun a left => crossAt_always ht hu left).bind
    fun found searched => ?_
  cases found with
  | some trees =>
      obtain ⟨a, -, b, p, q, exchange⟩ := searched.1 trees rfl
      exact always_pure (.inl ⟨a, b, p, q, exchange⟩)
  | none =>
      refine always_pure (.inr ⟨rfl, fun a b exchangeable => ?_⟩)
      exact searched.2 rfl a exchangeable.left b exchangeable

/-! ### Offspring of derivations -/

omit [RandomSource σ] in
/-- The second offspring is legal for the same reason as the first: a symbol that is not looked up
in the grammar is the one that stood there. -/
theorem Exchangeable.mayStand_back (h : Exchangeable g maxDepth t₁ t₂ a b) (hu : t₂.WellFormed)
    (valid : g.check t₂ = .ok ()) : g.MayStand t₂ b (t₁.symbol a) := by
  obtain ⟨⟨q, hb⟩, notRoot, -⟩ := Grammar.mem_nonRootNodes_iff.mp h.right
  rcases h.back with same | legal
  · rw [same]
    exact Grammar.mayStand_symbol hu valid hb notRoot
  · exact legal

omit [RandomSource σ] in
/-- An exchange between derivations makes offspring of both. -/
theorem Exchangeable.offspring (h : Exchangeable g maxDepth t₁ t₂ a b) (ht : t₁.WellFormed)
    (hu : t₂.WellFormed) (valid₁ : g.check t₁ = .ok ()) (valid₂ : g.check t₂ = .ok ())
    (ha : t₁.StandsAt a p) (hb : t₂.StandsAt b q) :
    g.Offspring maxDepth t₁ a p (t₂.shapeAt b) (.ofShape (t₁.shape.replaceAt (t₂.shapeAt b) p)) ∧
      g.Offspring maxDepth t₂ b q (t₁.shapeAt a)
        (.ofShape (t₂.shape.replaceAt (t₁.shapeAt a) q)) := by
  constructor
  · refine Grammar.offspring_of_mayStand maxDepth ht valid₁ ha
      (Grammar.mem_nonRootNodes_iff.mp h.left).2.1 (Grammar.checkShape_shapeAt valid₂ hb) ?_ ?_
    · rw [Tree.label_shapeAt]
      exact h.legal
    · rw [Tree.height_shapeAt]
      exact h.depthLeft.trans (Nat.le_max_right ..)
  · refine Grammar.offspring_of_mayStand maxDepth hu valid₂ hb
      (Grammar.mem_nonRootNodes_iff.mp h.right).2.1 (Grammar.checkShape_shapeAt valid₁ ha) ?_ ?_
    · rw [Tree.label_shapeAt]
      exact h.mayStand_back hu valid₂
    · rw [Tree.height_shapeAt]
      exact h.depthRight.trans (Nat.le_max_right ..)

/-- **What crossover makes of two derivations**: nothing, or two trees, each of which is one parent
with a subtree of the other in place of one of its own. They are derivations again, keep their
roots, are no higher than their parents or the bound, and hold the symbols of their parents between
them. -/
theorem cross_outcome (ht : t₁.WellFormed) (hu : t₂.WellFormed) (valid₁ : g.check t₁ = .ok ())
    (valid₂ : g.check t₂ = .ok ()) (maxDepth : Nat) (s : σ) :
    ∃ offspring, (cross g maxDepth t₁ t₂).answer s = .ok offspring ∧
      (offspring = [] ∨ ∃ n₁ n₂ p₁ p₂ o₁ o₂, offspring = [o₁, o₂] ∧
        g.Offspring maxDepth t₁ n₁ p₁ (t₂.shapeAt n₂) o₁ ∧
        g.Offspring maxDepth t₂ n₂ p₂ (t₁.shapeAt n₁) o₂ ∧
        (o₁.preorder.map o₁.symbol ++ o₂.preorder.map o₂.symbol).Perm
          (t₁.preorder.map t₁.symbol ++ t₂.preorder.map t₂.symbol)) := by
  obtain ⟨offspring, ok, made⟩ := cross_always g maxDepth ht hu s
  refine ⟨offspring, ok, ?_⟩
  rcases made with ⟨a, b, p, q, exchangeable, ha, hb, rfl⟩ | ⟨rfl, -⟩
  · obtain ⟨first, second⟩ := exchangeable.offspring ht hu valid₁ valid₂ ha hb
    refine .inr ⟨a, b, p, q, _, _, rfl, first, second, ?_⟩
    simp only [← Tree.preorder_shape, first.shape, second.shape]
    exact Rose.preorder_exchange_perm ha.subtreeAt_shape hb.subtreeAt_shape
  · exact .inl rfl

/-- Two derivations of different height, with room for one more level. Nodes 1 may be exchanged, so
there are offspring. -/
theorem cross_pairs :
    let one : Rose SymbolId := .node 0 [.node 1 []]
    let t₁ := Tree.ofShape (.node 0 [one, one])
    let t₂ := Tree.ofShape (.node 0 [one, .node 0 [one, one]])
    let source : WordStream := ⟨#[], #[], 0, 0, ⟨0⟩⟩
    (Grammar.pairs.check t₁ = .ok () ∧ Grammar.pairs.check t₂ = .ok ()) ∧
    ∃ n₁ n₂ p₁ p₂ o₁ o₂, (cross .pairs 4 t₁ t₂).answer source = .ok [o₁, o₂] ∧
      Grammar.pairs.Offspring 4 t₁ n₁ p₁ (t₂.shapeAt n₂) o₁ ∧
      Grammar.pairs.Offspring 4 t₂ n₂ p₂ (t₁.shapeAt n₁) o₂ ∧
      (o₁.preorder.map o₁.symbol ++ o₂.preorder.map o₂.symbol).Perm
        (t₁.preorder.map t₁.symbol ++ t₂.preorder.map t₂.symbol) := by
  intro one t₁ t₂ source
  have ht : t₁.WellFormed := Tree.wellFormed_ofShape _
  have hu : t₂.WellFormed := Tree.wellFormed_ofShape _
  have valid₁ : Grammar.pairs.check t₁ = .ok () := by decide +kernel
  have valid₂ : Grammar.pairs.check t₂ = .ok () := by decide +kernel
  have left : 1 ∈ t₁.nonRootNodes Grammar.pairs.isNonTerminal := by decide +kernel
  obtain ⟨⟨p, stands⟩, notRoot, -⟩ := Grammar.mem_nonRootNodes_iff.mp left
  have same : t₁.symbol 1 = t₂.symbol 1 := by decide +kernel
  have exchangeable : Exchangeable .pairs 4 t₁ t₂ 1 1 :=
    ⟨left, by decide +kernel, same ▸ Grammar.mayStand_symbol ht valid₁ stands notRoot,
      by decide +kernel, by decide +kernel, .inl same⟩
  obtain ⟨offspring, ok, made⟩ := cross_outcome ht hu valid₁ valid₂ 4 source
  refine ⟨⟨valid₁, valid₂⟩, ?_⟩
  rcases made with rfl | ⟨n₁, n₂, p₁, p₂, o₁, o₂, rfl, first, second, symbols⟩
  · obtain ⟨_, ok', found⟩ := cross_always .pairs 4 ht hu source
    cases ok.symm.trans ok'
    rcases found with ⟨_, _, _, _, _, _, _, none⟩ | ⟨-, nowhere⟩
    · cases none
    · exact absurd exchangeable (nowhere 1 1)
  · exact ⟨n₁, n₂, p₁, p₂, o₁, o₂, ok, first, second, symbols⟩

end Crossover

end GrammarEvolution
