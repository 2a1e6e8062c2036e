import GrammarEvolution.Grammar.Depth
import GrammarEvolution.Proofs.Grammar.Built
import GrammarEvolution.Proofs.Basic

/-!
What settled lengths promise.

A length is settled once and for all, while the lengths of symbols go on sinking as more productions
are settled. `Sound` is the invariant that ties the two together: the length of a production is
above the present lengths of all non-terminals on its right-hand side.

* `passes_preserves`: what holds of the empty table and survives settling holds of every table.
* `sound_of_ofGrammar`, `settled_of_ofGrammar`: the table of a grammar is sound and knows every
  production.
* `Sound.symbolLength_pos`: no length is 0.
* `exists_symbolLength_iff`, `exists_symbolLength_iff_declared`: a symbol has a length exactly when
  it has a production, and a non-terminal when it is declared.
-/

namespace GrammarEvolution

namespace DepthTable

variable {V : Type} {g : Grammar V} {d d' : DepthTable} {s : SymbolId} {p q : ProductionId}
  {k l : Nat}

/-! ### Lengths of symbols -/

/-- The length of a symbol is that of one of its productions, and no settled one is shorter. -/
theorem symbolLength_eq_some_iff :
    d.symbolLength g s = some l ↔ (∃ p ∈ g.productionsOf s, d.productionLength p = some l) ∧
      ∀ p ∈ g.productionsOf s, ∀ k, d.productionLength p = some k → l ≤ k := by
  rw [symbolLength, List.min?_eq_some_iff]
  simp only [List.mem_filterMap, forall_exists_index, and_imp]
  exact and_congr_right fun _ =>
    ⟨fun h p hp k hk => h k p hp hk, fun h k p hp hk => h p hp k hk⟩

/-- One settled production is enough for a length, which is no larger. -/
theorem exists_symbolLength (hp : p ∈ g.productionsOf s) (hk : d.productionLength p = some k) :
    ∃ l, d.symbolLength g s = some l ∧ l ≤ k := by
  have mem : k ∈ (g.productionsOf s).filterMap d.productionLength :=
    List.mem_filterMap.mpr ⟨p, hp, hk⟩
  cases found : d.symbolLength g s with
  | none =>
      rw [List.min?_eq_none_iff.mp found] at mem
      cases mem
  | some l => exact ⟨l, rfl, (symbolLength_eq_some_iff.mp found).2 p hp k hk⟩

/-- `d'` knows what `d` does. -/
def Extends (d d' : DepthTable) : Prop :=
  ∀ p k, d.productionLength p = some k → d'.productionLength p = some k

/-- Lengths of symbols sink as productions are settled, and never get lost. -/
theorem Extends.symbolLength (h : d.Extends d') (hl : d.symbolLength g s = some l) :
    ∃ l', d'.symbolLength g s = some l' ∧ l' ≤ l := by
  obtain ⟨p, hp, hk⟩ := (symbolLength_eq_some_iff.mp hl).1
  exact exists_symbolLength hp (h p l hk)

/-! ### Lengths of right-hand sides -/

/-- A right-hand side is longer than every non-terminal in it. -/
theorem lengthOf_bounds {rhs : List SymbolId} (h : d.lengthOf g rhs = some k) :
    0 < k ∧ ∀ s ∈ rhs, g.isNonTerminal s = true → ∃ l, d.symbolLength g s = some l ∧ l < k := by
  rw [lengthOf] at h
  obtain ⟨below, found, last⟩ := Option.bind_eq_some_iff.mp h
  cases last
  refine ⟨Nat.succ_pos _, ?_⟩
  intro s hs kind
  have mem : s ∈ rhs.filter g.isNonTerminal := List.mem_filter.mpr ⟨hs, kind⟩
  obtain ⟨l, hl, length⟩ := (List.mapM_eq_some_iff.mp found).exists_of_mem_left mem
  have bounded := ((List.foldl_max_le_iff below 0 _).mp (Nat.le_refl _)).2 l hl
  exact ⟨l, length, Nat.lt_succ_of_le bounded⟩

/-! ### Settling -/

/-- The table covers the productions, and every settled length is above the present lengths of the
non-terminals on its right-hand side. -/
structure Sound (g : Grammar V) (d : DepthTable) : Prop where
  size : d.lengths.size = g.productions.size
  above : ∀ p k, d.productionLength p = some k → 0 < k ∧
    ∀ s ∈ g.rhs p, g.isNonTerminal s = true → ∃ l, d.symbolLength g s = some l ∧ l < k

/-- Settling one production leaves the others alone, and a settled one too. -/
theorem productionLength_settle (d : DepthTable) (p q : ProductionId) :
    (settle g d q).productionLength p =
      if p = q ∧ q < d.lengths.size ∧ d.productionLength q = none then d.lengthOf g (g.rhs q)
      else d.productionLength p := by
  rw [settle]
  split
  · rename_i k hk
    rw [if_neg (by simp [hk])]
  · rename_i hk
    by_cases here : p = q ∧ q < d.lengths.size
    · obtain ⟨rfl, inside⟩ := here
      rw [if_pos ⟨rfl, inside, hk⟩, productionLength]
      simp [inside]
    · rw [if_neg fun all => here ⟨all.1, all.2.1⟩]
      simp only [productionLength, Array.getD_eq_getD_getElem?, Array.getElem?_setIfInBounds]
      split
      · rename_i same
        subst same
        have outside : ¬ q < d.lengths.size := fun inside => here ⟨rfl, inside⟩
        simp [outside]
      · rfl

theorem size_settle (d : DepthTable) (q : ProductionId) :
    (settle g d q).lengths.size = d.lengths.size := by
  rw [settle]
  split
  · rfl
  · exact Array.size_setIfInBounds

theorem extends_settle (d : DepthTable) (q : ProductionId) : d.Extends (settle g d q) := by
  intro p k hk
  rw [productionLength_settle, if_neg]
  · exact hk
  · rintro ⟨rfl, -, none⟩
    rw [hk] at none
    cases none

/-- **Settling keeps a table sound.** The new length is above the lengths that it was made of, and
the old ones are above lengths that have only sunk. -/
theorem Sound.settle (h : d.Sound g) (q : ProductionId) : (settle g d q).Sound g where
  size := (size_settle d q).trans h.size
  above p k hk := by
    have old : 0 < k ∧ ∀ s ∈ g.rhs p, g.isNonTerminal s = true →
        ∃ l, d.symbolLength g s = some l ∧ l < k := by
      rw [productionLength_settle] at hk
      split at hk
      · rename_i new
        rw [new.1]
        exact lengthOf_bounds hk
      · exact h.above p k hk
    refine ⟨old.1, ?_⟩
    intro s hs kind
    obtain ⟨l, hl, below⟩ := old.2 s hs kind
    obtain ⟨l', hl', sunk⟩ := (extends_settle d q).symbolLength hl
    exact ⟨l', hl', Nat.lt_of_le_of_lt sunk below⟩

/-- What survives settling survives a pass. -/
theorem pass_preserves {P : DepthTable → Prop} (step : ∀ d q, P d → P (settle g d q)) (h : P d) :
    P (pass g d) := by
  rw [pass]
  induction List.range g.productions.size generalizing d with
  | nil => exact h
  | cons q qs ih => exact ih (step d q h)

/-- What survives settling survives any number of passes. -/
theorem passes_preserves {P : DepthTable → Prop} (step : ∀ d q, P d → P (settle g d q)) (n : Nat)
    (h : P d) : P (passes g n d) := by
  induction n generalizing d with
  | zero => exact h
  | succ n ih =>
      rw [passes]
      split
      · exact h
      · exact ih (pass_preserves step h)

/-! ### The table of a grammar -/

/-- The table of a grammar is complete, and what the passes made of an open one. -/
theorem ofGrammar_eq_ok (h : ofGrammar g = .ok d) :
    d.complete = true ∧
      d = passes g g.productions.size ⟨Array.replicate g.productions.size none⟩ := by
  rw [ofGrammar] at h
  dsimp only at h
  split at h
  · rename_i complete
    cases h
    exact ⟨complete, rfl⟩
  · cases h

theorem sound_of_ofGrammar (h : ofGrammar g = .ok d) : d.Sound g := by
  rw [(ofGrammar_eq_ok h).2]
  refine passes_preserves (fun d q sound => sound.settle q) _ ⟨by simp, fun p k hk => ?_⟩
  rw [productionLength, Array.getD_eq_getD_getElem?, Array.getElem?_replicate] at hk
  split at hk <;> cases hk

theorem settled_of_ofGrammar (h : ofGrammar g = .ok d) (hp : p < g.productions.size) :
    ∃ k, d.productionLength p = some k := by
  have complete := (ofGrammar_eq_ok h).1
  have inside : p < d.lengths.size := (sound_of_ofGrammar h).size ▸ hp
  have settled := Array.all_eq_true.mp complete p inside
  obtain ⟨k, hk⟩ := Option.isSome_iff_exists.mp settled
  refine ⟨k, ?_⟩
  rw [productionLength, Array.getD_eq_getD_getElem?, Array.getElem?_eq_getElem inside, hk]
  rfl

/-- No length is 0. -/
theorem Sound.symbolLength_pos (h : d.Sound g) (hl : d.symbolLength g s = some l) : 0 < l := by
  obtain ⟨p, -, hk⟩ := (symbolLength_eq_some_iff.mp hl).1
  exact (h.above p l hk).1

/-- In the table of a grammar a symbol has a length when it has a production. -/
theorem exists_symbolLength_iff (h : ofGrammar g = .ok d) :
    (∃ l, d.symbolLength g s = some l) ↔ g.productionsOf s ≠ [] := by
  constructor
  · rintro ⟨l, hl⟩
    obtain ⟨p, hp, -⟩ := (symbolLength_eq_some_iff.mp hl).1
    exact List.ne_nil_of_mem hp
  · intro owner
    obtain ⟨p, hp⟩ := List.exists_mem_of_ne_nil _ owner
    obtain ⟨production, found, -⟩ := Grammar.mem_productionsOf_iff.mp hp
    obtain ⟨k, hk⟩ := settled_of_ofGrammar h (Array.getElem?_eq_some_iff.mp found).1
    obtain ⟨l, hl, -⟩ := exists_symbolLength hp hk
    exact ⟨l, hl⟩

/-- In the table of a closed grammar, the non-terminals with a length are the declared ones. -/
theorem exists_symbolLength_iff_declared (closed : g.Closed) (h : ofGrammar g = .ok d)
    (kind : g.isNonTerminal s = true) :
    (∃ l, d.symbolLength g s = some l) ↔ s ∈ g.nonTerminals := by
  rw [exists_symbolLength_iff h, ne_eq, closed.productionsOf_eq_nil_iff kind, not_not]

end DepthTable

end GrammarEvolution
