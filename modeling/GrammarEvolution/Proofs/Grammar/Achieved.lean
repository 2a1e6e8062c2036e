import GrammarEvolution.Proofs.Grammar.Declaring
import GrammarEvolution.Proofs.Grammar.Derivation
import GrammarEvolution.Proofs.Grammar.Resolution
import Mathlib.Order.Bounds.Basic

/-!
Lengths are heights of derivations.

A length is settled from the lengths that the non-terminals of the right-hand side have at that
moment, and each of these is the height of a derivation. `Achieved` is the invariant: for every
settled length there is a derivation of exactly that height that begins with the production. Lengths
of symbols sink later on, but the derivation found once remains.

* `Achieved.settle`: settling keeps it, so the table of a grammar has it.
* `lengths_exact`: what the lengths in the table of a grammar are.
-/

namespace GrammarEvolution

open Rose (node)

namespace Grammar

variable {V : Type} {g : Grammar V} {s : SymbolId}

/-! ### Finished derivations as trees -/

/-- A tree is a finished derivation from a symbol. -/
structure Derives (g : Grammar V) (s : SymbolId) (t : Tree) : Prop where
  wellFormed : t.WellFormed
  root : t.symbol t.root = s
  valid : g.check t = .ok ()

theorem derives_ofShape {r : Rose SymbolId} (h : g.checkShape r = .ok ()) :
    g.Derives r.label (Tree.ofShape r) where
  wellFormed := Tree.wellFormed_ofShape r
  root := by rw [Tree.symbol_root_eq_label, Tree.shape_ofShape]
  valid := by rw [check_ofShape, h]

theorem height_ofShape (r : Rose SymbolId) : (Tree.ofShape r).height = r.height := by
  rw [← Tree.height_shape, Tree.shape_ofShape]

theorem childSymbols_ofShape (r : Rose SymbolId) :
    (Tree.ofShape r).childSymbols (Tree.ofShape r).root = r.children.map Rose.label := by
  rw [← (Tree.wellFormed_ofShape r).labels_shapeAt]
  exact congrArg (fun u : Rose SymbolId => u.children.map Rose.label) (Tree.shape_ofShape r)

end Grammar

namespace DepthTable

variable {V : Type} {g : Grammar V} {d : DepthTable} {s : SymbolId} {p : ProductionId} {k l : Nat}

/-! ### The invariant -/

/-- Children that spell a right-hand side, with derivations below them. -/
structure Spells (g : Grammar V) (rhs : List SymbolId) (cs : List (Rose SymbolId)) : Prop where
  labels : cs.map Rose.label = rhs
  valid : ∀ c ∈ cs, g.checkShape c = .ok ()

/-- Every settled length is the height of a derivation that begins with the production. -/
def Achieved (g : Grammar V) (d : DepthTable) : Prop :=
  ∀ p k, d.productionLength p = some k →
    ∃ cs, Spells g (g.rhs p) cs ∧ ∀ s, (node s cs).height = k

theorem Spells.checkShape {cs : List (Rose SymbolId)} (h : Spells g (g.rhs p) cs)
    (kind : g.isNonTerminal s = true) (hp : p ∈ g.productionsOf s) :
    g.checkShape (node s cs) = .ok () := by
  rw [Grammar.checkShape_node_iff, Grammar.checkStep_ok_iff, if_pos kind, h.labels]
  exact ⟨Grammar.hasProduction_of_mem_productionsOf hp, h.valid⟩

/-- A length of a symbol is the height of a derivation. -/
theorem Achieved.symbol (h : Achieved g d) (kind : g.isNonTerminal s = true)
    (hl : d.symbolLength g s = some l) :
    ∃ r : Rose SymbolId, r.label = s ∧ g.checkShape r = .ok () ∧ r.height = l := by
  obtain ⟨p, hp, hk⟩ := (symbolLength_eq_some_iff.mp hl).1
  obtain ⟨cs, spells, height⟩ := h p l hk
  exact ⟨node s cs, rfl, spells.checkShape kind hp, height s⟩

/-- Where the symbols of a right-hand side have derivations as high as their lengths, so have their
children in a row: terminals stand as leaves. -/
theorem exists_spells (h : Achieved g d) {rhs : List SymbolId} {below : List Nat}
    (lengths : (rhs.filter g.isNonTerminal).mapM (d.symbolLength g) = some below) (m : Nat) :
    ∃ cs, Spells g rhs cs ∧ (cs.map Rose.height).foldl max m = below.foldl max m := by
  induction rhs generalizing below m with
  | nil =>
      cases lengths
      exact ⟨[], ⟨rfl, nofun⟩, rfl⟩
  | cons s rhs ih =>
      by_cases kind : g.isNonTerminal s = true
      · rw [List.filter_cons_of_pos kind, List.mapM_eq_some_iff] at lengths
        obtain ⟨l, rest, hl, others, rfl⟩ := List.forall₂_cons_left_iff.mp lengths
        obtain ⟨r, rfl, valid, height⟩ := h.symbol kind hl
        obtain ⟨cs, spells, same⟩ := ih (List.mapM_eq_some_iff.mpr others) (max m l)
        refine ⟨r :: cs, ⟨?_, ?_⟩, ?_⟩
        · rw [List.map_cons, spells.labels]
        · exact List.forall_mem_cons.mpr ⟨valid, spells.valid⟩
        · rw [List.map_cons, List.foldl_cons, List.foldl_cons, height, same]
      · rw [List.filter_cons_of_neg kind] at lengths
        obtain ⟨cs, spells, same⟩ := ih lengths m
        refine ⟨node s [] :: cs, ⟨?_, ?_⟩, ?_⟩
        · rw [List.map_cons, spells.labels, Rose.label_node]
        · refine List.forall_mem_cons.mpr ⟨?_, spells.valid⟩
          rw [Grammar.checkShape_node_iff, Grammar.checkStep_ok_iff, if_neg kind]
          exact ⟨rfl, nofun⟩
        · have flat : (node s []).height = 0 := rfl
          rw [List.map_cons, List.foldl_cons, flat, max_eq_left (Nat.zero_le m), same]

/-- **Settling keeps lengths achieved.** The derivation of a new length is put together from those
of the lengths that it was made of. -/
theorem Achieved.settle (rewriting : g.Rewriting) (sized : d.lengths.size = g.productions.size)
    (h : Achieved g d) (q : ProductionId) : Achieved g (DepthTable.settle g d q) := by
  intro p k hk
  rw [productionLength_settle] at hk
  split at hk
  · rename_i new
    obtain ⟨rfl, inside, -⟩ := new
    obtain ⟨below, lengths, last⟩ := Option.bind_eq_some_iff.mp hk
    cases last
    obtain ⟨cs, spells, same⟩ := exists_spells h lengths 0
    refine ⟨cs, spells, fun s => ?_⟩
    have found := Array.getElem?_eq_getElem (sized ▸ inside : p < g.productions.size)
    have something : cs ≠ [] := by
      rintro rfl
      have empty := spells.labels
      rw [Grammar.rhs_eq found] at empty
      exact (rewriting _ (Array.getElem_mem _)).2 empty.symm
    rw [Rose.height_node_of_ne_nil something, same]
  · exact h p k hk

theorem achieved_resolved (rewriting : g.Rewriting) : Achieved g (resolved g) := by
  refine (resolved_preserves (g := g)
    (P := fun d => d.lengths.size = g.productions.size ∧ Achieved g d) ?_ ?_).2
  · exact fun d q h => ⟨(size_settle d q).trans h.1, h.2.settle rewriting h.1 q⟩
  · refine ⟨size_blank g, fun p k hk => ?_⟩
    rw [productionLength_blank] at hk
    cases hk

/-! ### Lengths in the table of a grammar -/

/-- Without non-terminals on the right-hand side there is one level below the top. -/
theorem Spells.height_eq_one {cs : List (Rose SymbolId)} {rhs : List SymbolId}
    (h : Spells g rhs cs) (something : rhs ≠ [])
    (terminal : ∀ s ∈ rhs, g.isNonTerminal s = false) (s : SymbolId) :
    (node s cs).height = 1 := by
  have flat : ∀ c ∈ cs, c.height = 0 := by
    intro c hc
    have kind : g.isNonTerminal c.label = false :=
      terminal c.label (h.labels ▸ List.mem_map_of_mem hc)
    have valid := h.valid c hc
    cases c with
    | node s ds =>
        obtain ⟨step, -⟩ := Grammar.checkShape_node_iff.mp valid
        rw [Rose.label_node] at kind
        rw [Grammar.checkStep_ok_iff, if_neg (Bool.eq_false_iff.mp kind),
          List.map_eq_nil_iff] at step
        rw [step]
        rfl
  have above : cs ≠ [] := by
    rintro rfl
    exact something h.labels.symm
  refine Nat.le_antisymm (Rose.height_node_le_iff.mpr fun c hc => ?_) ?_
  · rw [flat c hc]
  · rw [Rose.height_node_of_ne_nil above]
    exact Nat.succ_pos _

theorem achieved_of_ofGrammar (rewriting : g.Rewriting) (h : ofGrammar g = .ok d) :
    Achieved g d := by
  rw [(ofGrammar_eq_ok h).2]
  exact achieved_resolved rewriting

/-- **What lengths are.** The length of a declared non-terminal is the least among its productions.
The length of a production is above those of its non-terminals, and 1 without any. Both are reached
by derivations of exactly that height, and so not below that of the shallowest. -/
theorem lengths_exact (built : g.Built) (h : ofGrammar g = .ok d) :
    (∀ s ∈ g.nonTerminals, ∃ l, d.symbolLength g s = some l ∧
      IsLeast {k | ∃ p ∈ g.productionsOf s, d.productionLength p = some k} l ∧
      (∃ t, g.Derives s t ∧ t.height = l) ∧
      ∀ m, IsLeast {k | ∃ t, g.Derives s t ∧ t.height = k} m → m ≤ l) ∧
    ∀ p production, g.productions[p]? = some production →
      ∃ k, d.productionLength p = some k ∧
        (∀ s ∈ production.rhs, g.isNonTerminal s = true →
          ∃ l, d.symbolLength g s = some l ∧ 1 + l ≤ k) ∧
        ((∀ s ∈ production.rhs, g.isNonTerminal s = false) → k = 1) ∧
        ∃ t, g.Derives production.lhs t ∧ t.childSymbols t.root = production.rhs ∧
          t.height = k := by
  have closed := built.closed
  have achieved := achieved_of_ofGrammar built.rewriting h
  constructor
  · intro s declared
    have kind := closed.isNonTerminal s declared
    obtain ⟨l, hl⟩ := (exists_symbolLength_iff_declared closed h kind).mpr declared
    obtain ⟨r, rfl, valid, height⟩ := achieved.symbol kind hl
    have reached : ∃ t, g.Derives r.label t ∧ t.height = l :=
      ⟨Tree.ofShape r, Grammar.derives_ofShape valid, (Grammar.height_ofShape r).trans height⟩
    obtain ⟨owner, least⟩ := symbolLength_eq_some_iff.mp hl
    refine ⟨l, hl, ⟨owner, ?_⟩, reached, fun m shallowest => shallowest.2 reached⟩
    rintro k ⟨p, hp, hk⟩
    exact least p hp k hk
  · intro p production found
    obtain ⟨kind, something⟩ := built.rewriting production (Array.mem_of_getElem? found)
    have owned : p ∈ g.productionsOf production.lhs :=
      Grammar.mem_productionsOf_iff.mpr ⟨production, found, rfl⟩
    obtain ⟨k, hk⟩ := settled_of_ofGrammar h (Array.getElem?_eq_some_iff.mp found).1
    obtain ⟨cs, spells, height⟩ := achieved p k hk
    have top := Grammar.derives_ofShape (spells.checkShape kind owned)
    rw [Grammar.rhs_eq found] at spells
    refine ⟨k, hk, ?_, ?_, Tree.ofShape (node production.lhs cs), top, ?_, ?_⟩
    · intro s hs kind
      obtain ⟨l, hl, below⟩ := ((sound_of_ofGrammar h).above p k hk).2 s
        (Grammar.rhs_eq found ▸ hs) kind
      exact ⟨l, hl, by omega⟩
    · intro terminal
      rw [← height production.lhs, spells.height_eq_one something terminal]
    · rw [Grammar.childSymbols_ofShape]
      exact spells.labels
    · rw [Grammar.height_ofShape, height]

end DepthTable

namespace Grammar

/-- `B ::= c`, `A ::= B`, `S ::= A`, `A ::= c`, in this order. -/
def layers : Grammar Nat where
  symbols := #[.nonTerminal "S", .nonTerminal "A", .nonTerminal "B", .constant "c" 1]
  nonTerminals := [0, 1, 2]
  terminals := [3]
  productions := #[⟨2, [3]⟩, ⟨1, [2]⟩, ⟨0, [1]⟩, ⟨1, [3]⟩]
  start := 0

theorem layers_built : layers.Built := by
  refine ⟨[.nonTerminal "S", .nonTerminal "A", .nonTerminal "B", .constant "c" 1,
    .declareNonTerminals [0, 1, 2], .declareTerminals [3], .startAt 0, .production 2 [3],
    .production 1 [2], .production 0 [1], .production 1 [3]], ?_⟩
  with_unfolding_all rfl

end Grammar

namespace DepthTable

/-- The length of `S` was settled before that of `A` sank from 2 to 1. There is a derivation of that
height, and a lower one too. -/
theorem lengths_layers :
    let d : DepthTable := ⟨#[some 1, some 2, some 3, some 1]⟩
    Grammar.layers.Built ∧ ofGrammar .layers = .ok d ∧
      d.symbolLength .layers 1 = some 1 ∧ d.symbolLength .layers 0 = some 3 ∧
      (∃ t, Grammar.layers.Derives 0 t ∧ t.childSymbols t.root = [1] ∧ t.height = 3) ∧
      ∃ t, Grammar.layers.Derives 0 t ∧ t.height = 2 := by
  intro d
  have table : ofGrammar .layers = .ok d := by cbv
  obtain ⟨k, hk, -, -, t, derives, spelled, height⟩ :=
    (lengths_exact Grammar.layers_built table).2 2 ⟨0, [1]⟩ rfl
  cases hk
  have lower : Grammar.layers.checkShape (node 0 [node 1 [node 3 []]]) = .ok () := by decide +kernel
  exact ⟨Grammar.layers_built, table, by decide, by decide, ⟨t, derives, spelled, height⟩,
    _, Grammar.derives_ofShape lower, by rw [Grammar.height_ofShape]; rfl⟩

end DepthTable

end GrammarEvolution
