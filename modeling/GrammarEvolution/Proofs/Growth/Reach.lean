import GrammarEvolution.Proofs.Grammar.Achieved
import GrammarEvolution.Proofs.Grammar.Expansion
import GrammarEvolution.Proofs.Growth.InPlace

/-!
Which trees growth comes to.

Growth keeps within its depth step by step, so it never answers a tree with a node whose children
spell productions that are all too long for where they stand. It answers every other derivation, for
a source may choose any of the productions that fit.

* `Affords.reaches`: the script for a derivation that the depth affords.
* `affords_iff`: what a depth affords, from address to address.
* `affords_shape_iff`: and from node to node of a tree.
* `exists_answer_grow_iff`: growth answers what the depth affords, and nothing else.
* `grow_outcome`: the trees that growth can answer, and when it answers.
-/

namespace GrammarEvolution

open Rose (node)
open Sampling

namespace Growth

variable {V : Type} {g : Grammar V} {d : DepthTable} {s : SymbolId} {p : ProductionId}
  {depth : Nat} {r : Rose SymbolId} {t : Tree}

/-! ### Every choice can be made -/

section Choices

variable {σ : Type} [RandomSource σ]

theorem length_viable_le (g : Grammar V) (d : DepthTable) (s : SymbolId) (depth : Nat) :
    (viable g d s depth).length ≤ g.productions.size := by
  calc (viable g d s depth).length
      ≤ (g.productionsOf s).length := List.length_filter_le ..
    _ ≤ (List.range g.productions.size).length := List.length_filter_le ..
    _ = g.productions.size := List.length_range

theorem reaches_chooseViable (choice : p ∈ viable g d s depth) :
    Reaches g.productions.size (chooseViable g d s depth : Sampling σ _) p :=
  (reaches_choose choice (length_viable_le g d s depth)).bind (reaches_pure _ p)

/-- **Growth reaches every derivation that the depth affords.** The script makes the choices of a
node before those of its children, and these from left to right. -/
theorem Affords.reaches (h : Affords g d depth r) :
    Reaches g.productions.size (grow g d depth r.label : Sampling σ _) r := by
  induction h with
  | leaf kind =>
      rw [Rose.label_node, grow_terminal kind]
      exact reaches_pure _ _
  | @step below s p rs kind choice spelled _ ih =>
      have parts : List.Forall₂ (fun s' r => Reaches g.productions.size
          (grow g d below s' : Sampling σ _) r) (g.rhs p) rs := by
        rw [← spelled, List.forall₂_map_left_iff, List.forall₂_same]
        exact ih
      rw [Rose.label_node, grow, if_pos kind]
      exact (reaches_chooseViable choice).bind ((Reaches.mapM parts).bind (reaches_pure _ _))

end Choices

/-! ### What a depth affords -/

/-- The children of a node spell a production of its symbol, one whose length a depth still covers
so many levels down. -/
def Covers (g : Grammar V) (d : DepthTable) (depth : Nat) (s : SymbolId) (below : List SymbolId)
    (level : Nat) : Prop :=
  ∃ (p : ProductionId) (l : Nat), g.productions[p]? = some ⟨s, below⟩ ∧
    d.productionLength p = some l ∧ l + level ≤ depth

theorem covers_iff {below : List SymbolId} {level : Nat} : Covers g d depth s below level ↔
    ∃ p ∈ g.productionsOf s, g.rhs p = below ∧
      (d.productionLength p).any (· + level ≤ depth) = true := by
  constructor
  · rintro ⟨p, l, found, length, le⟩
    exact ⟨p, Grammar.mem_productionsOf_iff.mpr ⟨_, found, rfl⟩, Grammar.rhs_eq found,
      by simpa [length] using le⟩
  · rintro ⟨p, owned, rfl, covered⟩
    obtain ⟨production, found, rfl⟩ := Grammar.mem_productionsOf_iff.mp owned
    obtain ⟨l, length, le⟩ := (Option.any_eq_true _ _).mp covered
    exact ⟨p, l, by rw [Grammar.rhs_eq found, found], length, of_decide_eq_true le⟩

instance {below : List SymbolId} {level : Nat} : Decidable (Covers g d depth s below level) :=
  decidable_of_iff' _ covers_iff

/-- What a depth covers on the spot are the viable productions. -/
theorem covers_zero_iff {below : List SymbolId} : Covers g d depth s below 0 ↔
    ∃ p ∈ viable g d s depth, g.rhs p = below := by
  simp only [covers_iff, viable, List.mem_filter, Nat.add_zero]
  constructor
  · rintro ⟨p, owned, spelled, covered⟩
    exact ⟨p, ⟨owned, covered⟩, spelled⟩
  · rintro ⟨p, ⟨owned, covered⟩, spelled⟩
    exact ⟨p, owned, spelled, covered⟩

theorem covers_succ {below : List SymbolId} {level : Nat} :
    Covers g d (depth + 1) s below (level + 1) ↔ Covers g d depth s below level := by
  simp only [Covers, ← Nat.add_assoc, Nat.add_le_add_iff_right]

/-- **What a depth affords**, from address to address: a derivation with a production at each
non-terminal whose length the depth covers. -/
theorem affords_iff (sound : d.Sound g) : Affords g d depth r ↔
    g.checkShape r = .ok () ∧ ∀ q u, r.subtreeAt q = some u → g.isNonTerminal u.label = true →
      Covers g d depth u.label (u.children.map Rose.label) q.length := by
  constructor
  · intro h
    refine ⟨h.grown.valid, ?_⟩
    induction h with
    | leaf kind =>
        intro q u hu nonTerminal
        cases q with
        | nil =>
            cases hu
            simp [kind] at nonTerminal
        | cons i q => simp at hu
    | step kind choice spelled _ ih =>
        intro q u hu nonTerminal
        cases q with
        | nil =>
            cases hu
            exact covers_zero_iff.mpr ⟨_, choice, spelled.symm⟩
        | cons i q =>
            obtain ⟨c, hi, hc⟩ := Rose.subtreeAt_cons_eq_some_iff.mp hu
            exact covers_succ.mpr (ih c (List.mem_of_getElem? hi) q u hc nonTerminal)
  · rintro ⟨valid, each⟩
    induction r using Rose.induction generalizing depth with
    | step s cs ih =>
        obtain ⟨top, parts⟩ := Grammar.checkShape_node_iff.mp valid
        cases kind : g.isNonTerminal s with
        | false =>
            have leaf : cs = [] := by simpa [Grammar.checkStep_ok_iff, kind] using top
            subst leaf
            exact .leaf kind
        | true =>
            obtain ⟨p, choice, spelled⟩ := covers_zero_iff.mp (each [] _ rfl kind)
            -- A length is positive, so the depth is.
            obtain ⟨below, rfl⟩ := Nat.exists_eq_add_one.mpr (fits_below sound choice).1
            refine .step kind choice spelled.symm fun c hc => ih c hc (parts c hc) fun q u hu => ?_
            obtain ⟨i, hi⟩ := List.getElem?_of_mem hc
            intro nonTerminal
            exact covers_succ.mp
              (each (i :: q) u (Rose.subtreeAt_cons_eq_some_iff.mpr ⟨c, hi, hu⟩) nonTerminal)

/-- The same from node to node of a tree, where depths are counted along the links up. -/
theorem affords_shape_iff (sound : d.Sound g) (h : t.WellFormed) : Affords g d depth t.shape ↔
    g.check t = .ok () ∧ ∀ n ∈ t.preorder, g.isNonTerminal (t.symbol n) = true →
      Covers g d depth (t.symbol n) (t.childSymbols n) (t.depth n) := by
  rw [affords_iff sound, Grammar.check]
  refine and_congr_right fun _ => ?_
  constructor
  · intro each n hn nonTerminal
    obtain ⟨q, stands⟩ := Tree.mem_preorder_iff_standsAt.mp hn
    have covers := each q _ stands.subtreeAt_shape
    rw [Tree.label_shapeAt, h.labels_shapeAt, ← h.depth_eq stands] at covers
    exact covers nonTerminal
  · intro each q u hu nonTerminal
    obtain ⟨n, stands, rfl⟩ := Grammar.exists_standsAt hu
    rw [Tree.label_shapeAt] at nonTerminal
    rw [Tree.label_shapeAt, h.labels_shapeAt, ← h.depth_eq stands]
    exact each n (Tree.mem_preorder_iff_standsAt.mpr ⟨q, stands⟩) nonTerminal

/-! ### The answers of growth -/

section Answers

variable {σ : Type} [RandomSource σ]

/-- On a versatile source growth answers what the depth affords, and nothing else. -/
theorem exists_answer_grow_iff (sound : d.Sound g)
    (versatile : Versatile (RandomSource.index32 (σ := σ)) g.productions.size) :
    (∃ source : σ, (grow g d depth s).answer source = .ok r) ↔
      r.label = s ∧ Affords g d depth r := by
  constructor
  · rintro ⟨source, grown⟩
    by_cases fits : Fits g d s depth
    · obtain ⟨r', ok, affords⟩ := grow_affords sound fits source
      cases ok.symm.trans grown
      exact affords
    · rw [answer_grow fits] at grown
      cases grown
  · rintro ⟨rfl, affords⟩
    exact affords.reaches.exists_answer versatile

/-- **The answers of growth.** On a versatile source, growth comes to a tree when that is rooted at
the symbol, is a derivation, and has at each non-terminal a production whose length the depth covers
there. A non-terminal whose length the depth covers is grown whatever is drawn, and any other never.
Growth by expansion draws the same and answers the same. -/
theorem grow_outcome (table : DepthTable.ofGrammar g = .ok d) (s : SymbolId) (depth : Nat) :
    (Versatile (RandomSource.index32 (σ := σ)) g.productions.size → ∀ t : Tree, t.WellFormed →
      ((∃ source : σ, (grow g d depth s).answer source = .ok t.shape) ↔
        t.symbol t.root = s ∧ g.check t = .ok () ∧
          ∀ n ∈ t.preorder, g.isNonTerminal (t.symbol n) = true →
            Covers g d depth (t.symbol n) (t.childSymbols n) (t.depth n))) ∧
    (g.isNonTerminal s = true → ∀ source : σ,
      ((∃ l, d.symbolLength g s = some l ∧ l ≤ depth) →
        ∃ r, (grow g d depth s).answer source = .ok r) ∧
      ((¬ ∃ l, d.symbolLength g s = some l ∧ l ≤ depth) →
        (grow g d depth s).answer source =
          .error (.structural (.noFittingProduction (g.name s) depth)))) ∧
    ∀ source : σ, match (grow g d depth s).answer source with
      | .ok r => ∃ t, (growTree g d depth s).answer source = .ok t ∧ t.WellFormed ∧ t.shape = r ∧
          (growTree g d depth s).rest source = (grow g d depth s).rest source
      | .error e => (growTree g d depth s).answer source = .error e := by
  have sound := DepthTable.sound_of_ofGrammar table
  refine ⟨fun versatile t h => ?_, fun kind source => ⟨fun fits => ?_, fun unfit => ?_⟩,
    growTree_agrees sound depth s⟩
  · rw [exists_answer_grow_iff sound versatile, affords_shape_iff sound h,
      ← Tree.symbol_root_eq_label]
  · obtain ⟨r, ok, -⟩ := grow_always (s := s) sound (fun _ => fits) source
    exact ⟨r, ok⟩
  · exact answer_grow (fun fits => unfit (fits kind)) source

end Answers

/-- The shortest derivation of `S` and a longer one, with the depth that its length asks for; with
one less there is none, though the shortest would do. -/
theorem grow_layers :
    let d : DepthTable := ⟨#[some 1, some 2, some 3, some 1]⟩
    DepthTable.ofGrammar Grammar.layers = .ok d ∧
    Versatile (RandomSource.index32 (σ := WordStream)) Grammar.layers.productions.size ∧
    (∃ source : WordStream, (grow .layers d 3 0).answer source =
      .ok (node 0 [node 1 [node 3 []]])) ∧
    (∃ source : WordStream, (grow .layers d 3 0).answer source =
      .ok (node 0 [node 1 [node 2 [node 3 []]]])) ∧
    ∀ source : WordStream, (grow .layers d 2 0).answer source =
      .error (.structural (.noFittingProduction "S" 2)) := by
  intro d
  have table : DepthTable.ofGrammar Grammar.layers = .ok d := by cbv
  have versatile :
      Versatile (RandomSource.index32 (σ := WordStream)) Grammar.layers.productions.size :=
    WordStream.versatile32.mono (by decide)
  have reached := (grow_outcome table 0 3).1 versatile
  refine ⟨table, versatile, ?_, ?_, fun source => ((grow_outcome table 0 2).2.1 rfl source).2 ?_⟩
  · have shallow := reached (Tree.ofShape (node 0 [node 1 [node 3 []]]))
      (Tree.wellFormed_ofShape _)
    rw [Tree.shape_ofShape] at shallow
    exact shallow.mpr ⟨rfl, by decide +kernel, by decide +kernel⟩
  · have deep := reached (Tree.ofShape (node 0 [node 1 [node 2 [node 3 []]]]))
      (Tree.wellFormed_ofShape _)
    rw [Tree.shape_ofShape] at deep
    exact deep.mpr ⟨rfl, by decide +kernel, by decide +kernel⟩
  · rintro ⟨l, length, le⟩
    rw [show d.symbolLength .layers 0 = some 3 by decide] at length
    cases length
    omega

end Growth

end GrammarEvolution
