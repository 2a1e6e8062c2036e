import GrammarEvolution.Growth
import GrammarEvolution.Proofs.Grammar.Depth
import GrammarEvolution.Proofs.Grammar.Derivation
import GrammarEvolution.Proofs.Sampling
import GrammarEvolution.Random.WordStream
import Mathlib.Logic.Relation

/-!
Growth meets no dead end.

The length of a production is above the lengths of the non-terminals on its right-hand side, so
below a symbol that fits its depth every symbol fits the depth that is left there, and some
production of it does.

* `viable_ne_nil`, `fits_below`: the two halves of that argument.
* `answer_grow`: growth of a symbol that does not fit fails.
* `grow_affords`: growth of a symbol that fits answers a derivation of it whose steps the depth
  affords.
* `Affords.grown`, `grow_always`: such a derivation keeps within the depth.
* `wellFounded_descends`, `viable_of_descends`: the calls below such a symbol come to an end, and
  none of them is without a choice.
* `Initializer.generate_outcome`: when a request for a population is refused, and what it gets
  otherwise.
-/

namespace GrammarEvolution

open Sampling

namespace Growth

variable {V : Type} {g : Grammar V} {d : DepthTable} {s : SymbolId} {p : ProductionId}
  {depth : Nat}

/-- A symbol can be grown within a depth: a terminal always, a non-terminal when it has a length
and that is no larger. -/
def Fits (g : Grammar V) (d : DepthTable) (s : SymbolId) (depth : Nat) : Prop :=
  g.isNonTerminal s = true → ∃ l, d.symbolLength g s = some l ∧ l ≤ depth

theorem mem_viable_iff : p ∈ viable g d s depth ↔
    p ∈ g.productionsOf s ∧ ∃ l, d.productionLength p = some l ∧ l ≤ depth := by
  rw [viable, List.mem_filter, Option.any_eq_true]
  simp only [decide_eq_true_eq]

/-- The production that gives a symbol its length is viable. -/
theorem viable_ne_nil (fits : Fits g d s depth) (kind : g.isNonTerminal s = true) :
    viable g d s depth ≠ [] := by
  obtain ⟨l, hl, le⟩ := fits kind
  obtain ⟨p, hp, hk⟩ := (DepthTable.symbolLength_eq_some_iff.mp hl).1
  exact List.ne_nil_of_mem (mem_viable_iff.mpr ⟨hp, l, hk, le⟩)

/-- Conversely, a symbol with a viable production fits. -/
theorem viable_eq_nil (unfit : ¬ Fits g d s depth) : viable g d s depth = [] := by
  refine List.eq_nil_iff_forall_not_mem.mpr fun p hp => unfit fun _ => ?_
  obtain ⟨owned, k, hk, le⟩ := mem_viable_iff.mp hp
  obtain ⟨l, hl, least⟩ := DepthTable.exists_symbolLength owned hk
  exact ⟨l, hl, least.trans le⟩

/-- Below a viable production there is depth left, and everything fits it. -/
theorem fits_below (sound : d.Sound g) (hp : p ∈ viable g d s depth) :
    0 < depth ∧ ∀ s' ∈ g.rhs p, Fits g d s' (depth - 1) := by
  obtain ⟨-, k, hk, le⟩ := mem_viable_iff.mp hp
  obtain ⟨pos, above⟩ := sound.above p k hk
  refine ⟨by omega, fun s' hs' kind => ?_⟩
  obtain ⟨l, hl, lt⟩ := above s' hs' kind
  exact ⟨l, hl, by omega⟩

/-! ### What is grown -/

/-- A finished derivation of a symbol within a depth. -/
structure Grown (g : Grammar V) (depth : Nat) (s : SymbolId) (r : Rose SymbolId) : Prop where
  label : r.label = s
  valid : g.checkShape r = .ok ()
  height : r.height ≤ depth

/-- A terminal is a derivation of itself. -/
theorem grown_leaf (kind : g.isNonTerminal s = false) (depth : Nat) :
    Grown g depth s (.node s []) where
  label := rfl
  valid := by
    rw [Grammar.checkShape_node_iff, Grammar.checkStep_ok_iff, if_neg (by simp [kind])]
    exact ⟨rfl, nofun⟩
  height := Nat.zero_le depth

/-- A finished derivation whose steps a depth affords: above each step stands a non-terminal with a
production that is spelled below it and has a length within the depth that is left there. -/
inductive Affords (g : Grammar V) (d : DepthTable) : Nat → Rose SymbolId → Prop where
  | leaf {depth : Nat} {s : SymbolId} : g.isNonTerminal s = false →
      Affords g d depth (.node s [])
  | step {below : Nat} {s : SymbolId} {p : ProductionId} {rs : List (Rose SymbolId)} :
      g.isNonTerminal s = true → p ∈ viable g d s (below + 1) → rs.map Rose.label = g.rhs p →
      (∀ r ∈ rs, Affords g d below r) → Affords g d (below + 1) (.node s rs)

/-- What a depth affords is a derivation within it. -/
theorem Affords.grown {r : Rose SymbolId} (h : Affords g d depth r) : Grown g depth r.label r := by
  induction h with
  | leaf kind => exact grown_leaf kind _
  | step kind choice spelled _ ih =>
      refine ⟨rfl, ?_, Rose.height_node_le_iff.mpr fun r hr => Nat.succ_le_succ (ih r hr).height⟩
      rw [Grammar.checkShape_node_iff, Grammar.checkStep_ok_iff, if_pos kind, spelled]
      exact ⟨Grammar.hasProduction_of_mem_productionsOf (mem_viable_iff.mp choice).1,
        fun r hr => (ih r hr).valid⟩

/-- What a depth affords has a symbol on top that fits. -/
theorem Affords.fits {r : Rose SymbolId} (h : Affords g d depth r) : Fits g d r.label depth := by
  by_contra unfit
  cases h with
  | leaf kind => exact unfit fun nonTerminal => by simp [kind] at nonTerminal
  | step _ choice _ _ =>
      rw [Rose.label_node] at unfit
      rw [viable_eq_nil unfit] at choice
      cases choice

section Choices

variable {σ : Type} [RandomSource σ]

theorem chooseViable_always (fits : Fits g d s depth) (kind : g.isNonTerminal s = true) :
    (chooseViable g d s depth : Sampling σ _).Always (· ∈ viable g d s depth) := by
  refine (always_choose (viable_ne_nil fits kind)).bind fun found chosen => ?_
  obtain ⟨p, hp, rfl⟩ := chosen
  exact always_pure hp

/-- A terminal grows into a leaf. -/
theorem grow_terminal (kind : g.isNonTerminal s = false) (depth : Nat) :
    (grow g d depth s : Sampling σ _) = pure (.node s []) := by
  cases depth <;> simp [grow, kind]

/-- Without a viable production there is no choice, and nothing is drawn. -/
theorem answer_chooseViable (unfit : ¬ Fits g d s depth) (source : σ) :
    (chooseViable g d s depth).answer source =
      .error (.structural (.noFittingProduction (g.name s) depth)) := by
  rw [chooseViable, choose, viable_eq_nil unfit]
  rfl

/-- **Growth of a symbol that does not fit fails**, whatever the source is. -/
theorem answer_grow (unfit : ¬ Fits g d s depth) (source : σ) :
    (grow g d depth s).answer source =
      .error (.structural (.noFittingProduction (g.name s) depth)) := by
  have kind := (Classical.not_imp.mp unfit).1
  cases depth with
  | zero =>
      rw [grow, if_pos kind]
      rfl
  | succ below =>
      rw [grow, if_pos kind, answer_bind, answer_chooseViable unfit]
      rfl

/-- **Growth of a symbol that fits does not fail.** Whatever is chosen, it ends in a derivation of
the symbol whose steps the depth affords. -/
theorem grow_affords (sound : d.Sound g) (fits : Fits g d s depth) :
    (grow g d depth s : Sampling σ _).Always fun r => r.label = s ∧ Affords g d depth r := by
  induction depth generalizing s with
  | zero =>
      rw [grow]
      split
      · rename_i kind
        obtain ⟨p, hp⟩ := List.exists_mem_of_ne_nil _ (viable_ne_nil fits kind)
        exact absurd (fits_below sound hp).1 (Nat.lt_irrefl 0)
      · rename_i kind
        exact always_pure ⟨rfl, .leaf (eq_false_of_ne_true kind)⟩
  | succ below ih =>
      rw [grow]
      split
      · rename_i kind
        refine (chooseViable_always fits kind).bind fun p hp => ?_
        have left := (fits_below sound hp).2
        refine (Always.mapM fun s' hs' => ih (left s' hs')).bind fun rs parts => ?_
        have spelled : g.rhs p = rs.map Rose.label := by
          simpa using parts.map_eq (f := id) fun s' r part => part.1.symm
        refine always_pure ⟨rfl, .step kind hp spelled.symm fun r hr => ?_⟩
        obtain ⟨s', -, part⟩ := parts.exists_of_mem_right hr
        exact part.2
      · rename_i kind
        exact always_pure ⟨rfl, .leaf (eq_false_of_ne_true kind)⟩

/-- So it ends in a derivation of the symbol within the depth. -/
theorem grow_always (sound : d.Sound g) (fits : Fits g d s depth) :
    (grow g d depth s : Sampling σ _).Always (Grown g depth s) := by
  refine (grow_affords sound fits).mono ?_
  rintro r ⟨rfl, affords⟩
  exact affords.grown

end Choices

/-! ### The calls of growth -/

/-- Growth of one symbol within a depth may go on to grow another within another: a non-terminal on
the right-hand side of a viable production, one level down. -/
inductive Descends (g : Grammar V) (d : DepthTable) : SymbolId × Nat → SymbolId × Nat → Prop where
  | step {s s' : SymbolId} {p : ProductionId} {depth : Nat} (choice : p ∈ viable g d s depth)
      (below : s' ∈ g.rhs p) (kind : g.isNonTerminal s' = true) :
      Descends g d (s, depth) (s', depth - 1)

/-- What growth goes on to fits again. -/
theorem Descends.fits (sound : d.Sound g) {call call' : SymbolId × Nat}
    (h : Descends g d call call') : Fits g d call'.1 call'.2 := by
  cases h with
  | step choice below _ => exact (fits_below sound choice).2 _ below

/-- However deep growth has gone, there is a choice. -/
theorem viable_of_descends (sound : d.Sound g) (fits : Fits g d s depth)
    (kind : g.isNonTerminal s = true) {call : SymbolId × Nat}
    (h : Relation.ReflTransGen (Descends g d) (s, depth) call) :
    viable g d call.1 call.2 ≠ [] := by
  cases h with
  | refl => exact viable_ne_nil fits kind
  | tail _ last =>
      refine viable_ne_nil (last.fits sound) ?_
      cases last with
      | step _ _ kind => exact kind

/-- Growth cannot go on for ever. -/
theorem wellFounded_descends (sound : d.Sound g) : WellFounded (flip (Descends g d)) := by
  refine Subrelation.wf ?_ (measure Prod.snd).wf
  intro call' call h
  cases h with
  | step choice _ _ => exact Nat.sub_lt (fits_below sound choice).1 Nat.one_pos

end Growth

/-! ### Populations -/

namespace Initializer

open Growth

variable {V σ : Type} [RandomSource σ] {g : Grammar V} {d : DepthTable} {i : Initializer V}
  {maxDepth currentDepth populationSize available : Nat} {start : SymbolId}

omit [RandomSource σ] in
theorem ofGrammar_eq_ok (h : ofGrammar g maxDepth = .ok i) :
    ∃ d, DepthTable.ofGrammar g = .ok d ∧ i = ⟨g, d, maxDepth⟩ := by
  obtain ⟨d, table, made⟩ := Except.bind_eq_ok_iff.mp h
  cases made
  exact ⟨d, table, rfl⟩

/-- Why no trees are grown from `start` within a depth: it is a terminal, it was never declared, or
it needs more depth. -/
inductive Refuses (g : Grammar V) (d : DepthTable) (start : SymbolId) (available : Nat) :
    Error → Prop where
  | terminal (kind : g.isNonTerminal start = false) :
      Refuses g d start available (.config (.terminalRoot (g.name start)))
  | undeclared (kind : g.isNonTerminal start = true) (absent : start ∉ g.nonTerminals) :
      Refuses g d start available (.grammar (.noDerivation (g.name start)))
  | tooShallow {required : Nat} (declared : start ∈ g.nonTerminals)
      (length : d.symbolLength g start = some required) (short : available < required) :
      Refuses g d start available (.depthUnsatisfiable required available)

omit [RandomSource σ] in
/-- What growth ends in, laid out as a tree. -/
theorem admits_ofShape {r : Rose SymbolId} (h : Grown g available start r) :
    g.Admits start available (Tree.ofShape r) where
  wellFormed := Tree.wellFormed_ofShape r
  root := by rw [Tree.symbol_root_eq_label, Tree.shape_ofShape, h.label]
  valid := by rw [Grammar.check_ofShape, h.valid]
  height := by
    rw [← Tree.height_shape, Tree.shape_ofShape]
    exact h.height

theorem answer_generate_of_refuses {e : Error} {root : Option SymbolId} (s : σ)
    (closed : i.grammar.Closed) (table : DepthTable.ofGrammar i.grammar = .ok i.depths)
    (h : Refuses i.grammar i.depths (root.getD i.grammar.start) (i.maxDepth - currentDepth) e) :
    (i.generate currentDepth populationSize root).answer s = .error e := by
  rw [generate]
  dsimp only
  generalize root.getD i.grammar.start = start at *
  cases h with
  | terminal kind =>
      rw [if_neg (by simp [kind])]
      rfl
  | undeclared kind absent =>
      have none : i.depths.symbolLength i.grammar start = none := by
        refine Option.eq_none_iff_forall_ne_some.mpr fun l hl => absent ?_
        exact (DepthTable.exists_symbolLength_iff_declared closed table kind).mp ⟨l, hl⟩
      rw [if_pos kind, none]
      rfl
  | tooShallow declared length short =>
      rw [if_pos (closed.isNonTerminal _ declared), length]
      dsimp only
      rw [if_pos short]
      rfl

/-- A population from a symbol that fits. -/
theorem generate_always {root : Option SymbolId} (currentDepth populationSize : Nat)
    (sound : i.depths.Sound i.grammar) (kind : i.grammar.isNonTerminal (root.getD i.grammar.start))
    (fits : Fits i.grammar i.depths (root.getD i.grammar.start) (i.maxDepth - currentDepth)) :
    (i.generate currentDepth populationSize root : Sampling σ _).Always
      (i.grammar.Populates (root.getD i.grammar.start) (i.maxDepth - currentDepth)
        populationSize) := by
  obtain ⟨required, length, enough⟩ := fits kind
  unfold generate
  dsimp only
  rw [if_pos kind, length]
  dsimp only
  rw [if_neg (Nat.not_lt.mpr enough)]
  generalize root.getD i.grammar.start = start at *
  have each : ∀ s ∈ List.replicate populationSize start,
      (do return Tree.ofShape (← grow i.grammar i.depths (i.maxDepth - currentDepth) s) :
        Sampling σ Tree).Always fun t => i.grammar.Admits start (i.maxDepth - currentDepth) t := by
    intro s hs
    obtain rfl := List.eq_of_mem_replicate hs
    exact (grow_always sound fits).bind fun r grown => always_pure (admits_ofShape grown)
  refine (Always.mapM each).mono fun trees parts => ?_
  constructor
  · rw [← parts.length_eq, List.length_replicate]
  · intro t ht
    obtain ⟨_, -, admitted⟩ := parts.exists_of_mem_right ht
    exact admitted

omit [RandomSource σ] in
/-- There are trees from a symbol, or there is a reason why not. -/
theorem refuses_or_fits (closed : g.Closed) (table : DepthTable.ofGrammar g = .ok d)
    (start : SymbolId) (available : Nat) :
    (∃ e, Refuses g d start available e) ∨
      g.isNonTerminal start = true ∧ Fits g d start available := by
  cases kind : g.isNonTerminal start with
  | false => exact .inl ⟨_, .terminal kind⟩
  | true =>
      by_cases declared : start ∈ g.nonTerminals
      · obtain ⟨required, length⟩ :=
          (DepthTable.exists_symbolLength_iff_declared closed table kind).mpr declared
        by_cases short : available < required
        · exact .inl ⟨_, .tooShallow declared length short⟩
        · exact .inr ⟨rfl, fun _ => ⟨required, length, Nat.not_lt.mp short⟩⟩
      · exact .inl ⟨_, .undeclared kind declared⟩

/-- **What becomes of a request for a population.** It fails exactly when it is refused. Otherwise
there are as many trees as were asked for, whatever is chosen, and growth always had a choice and
came to an end. -/
theorem generate_outcome (built : g.Built) (h : ofGrammar g maxDepth = .ok i)
    (currentDepth populationSize : Nat) (root : Option SymbolId) (s : σ) :
    let start := root.getD g.start
    let available := maxDepth - currentDepth
    let outcome := (i.generate currentDepth populationSize root).answer s
    (∀ e, outcome = .error e ↔ Refuses g i.depths start available e) ∧
    ((∀ e, ¬ Refuses g i.depths start available e) →
      (∃ trees, outcome = .ok trees ∧ trees.length = populationSize ∧ ∀ t ∈ trees,
        t.symbol t.root = start ∧ g.check t = .ok () ∧ currentDepth + t.height ≤ maxDepth) ∧
      (∀ call, Relation.ReflTransGen (Descends g i.depths) (start, available) call →
        viable g i.depths call.1 call.2 ≠ []) ∧
      WellFounded (flip (Descends g i.depths))) := by
  intro start available outcome
  obtain ⟨d, table, rfl⟩ := ofGrammar_eq_ok h
  have closed := built.closed
  have sound := DepthTable.sound_of_ofGrammar table
  have refused : ∀ e, Refuses g d start available e → outcome = .error e := fun e he =>
    answer_generate_of_refuses s closed table he
  rcases refuses_or_fits closed table start available with ⟨e', he'⟩ | ⟨kind, fits⟩
  · refine ⟨fun e => ⟨?_, refused e⟩, fun none => absurd he' (none e')⟩
    intro failed
    obtain rfl := Except.error.inj (failed.symm.trans (refused e' he'))
    exact he'
  · obtain ⟨trees, ok, length, admitted⟩ :=
      generate_always (i := ⟨g, d, maxDepth⟩) currentDepth populationSize sound kind fits s
    refine ⟨fun e => ⟨?_, refused e⟩, fun _ => ⟨⟨trees, ok, length, ?_⟩, ?_, ?_⟩⟩
    · intro failed
      cases ok.symm.trans failed
    · intro t ht
      obtain ⟨required, hl, enough⟩ := fits kind
      have positive := sound.symbolLength_pos hl
      have height : t.height ≤ maxDepth - currentDepth := (admitted t ht).height
      exact ⟨(admitted t ht).root, (admitted t ht).valid, by omega⟩
    · intro call reached
      exact viable_of_descends sound fits kind reached
    · exact wellFounded_descends sound

/-- Four trees at most two levels high, from a generator in state 0. -/
theorem generate_pairs :
    let i : Initializer Nat := ⟨.pairs, ⟨#[some 2, some 1]⟩, 3⟩
    let source : WordStream := ⟨#[], #[], 0, 0, ⟨0⟩⟩
    ofGrammar .pairs 3 = .ok i ∧
      ∃ trees, (i.generate 1 4 none).answer source = .ok trees ∧ trees.length = 4 ∧ ∀ t ∈ trees,
        t.symbol t.root = 0 ∧ Grammar.pairs.check t = .ok () ∧ 1 + t.height ≤ 3 := by
  intro i source
  have table : ofGrammar .pairs 3 = .ok i := by cbv
  refine ⟨table, ((generate_outcome Grammar.pairs_built table 1 4 none source).2 ?_).1⟩
  intro e refused
  cases refused with
  | terminal kind => cases kind
  | undeclared _ absent => exact absent (by decide)
  | tooShallow _ length short =>
      obtain rfl := Option.some.inj length
      exact absurd short (by decide)

end Initializer

end GrammarEvolution
