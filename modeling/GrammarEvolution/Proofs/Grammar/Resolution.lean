import GrammarEvolution.Proofs.Grammar.Depth
import Mathlib.Data.Finset.Card
import Mathlib.Logic.Relation

/-!
Resolution comes to rest.

A pass either settles a production that was open or changes nothing, and then no pass after it
changes anything. So as many passes as there are productions are enough.

A `Resolution` is the same process as an open-ended loop that knows no such bound: it keeps the
least length of every symbol as lengths come in, counts the passes that settle nothing, and gives
up after more of them than there are productions.

* `pass_resolved`: another pass over what the bounded number of passes leaves changes nothing.
* `Resolution.round_tally`: the least lengths that the loop keeps are the lengths of symbols.
* `Resolution.loop_ends`: the loop ends, and with the answer of `ofGrammar`.
-/

namespace GrammarEvolution

namespace DepthTable

variable {V : Type} {g : Grammar V} {d d' d'' : DepthTable} {s : SymbolId} {p q : ProductionId}
  {k l n : Nat}

/-! ### What a pass changes -/

theorem productionLength_eq_none (outside : d.lengths.size ≤ p) : d.productionLength p = none := by
  rw [productionLength, Array.getD_eq_getD_getElem?, Array.getElem?_eq_none outside]
  rfl

theorem Extends.refl (d : DepthTable) : d.Extends d :=
  fun _ _ h => h

theorem Extends.trans (h : d.Extends d') (h' : d'.Extends d'') : d.Extends d'' :=
  fun p k hk => h' p k (h p k hk)

/-- Tables that know the same are the same. -/
theorem Extends.antisymm (h : d.Extends d') (h' : d'.Extends d)
    (sized : d.lengths.size = d'.lengths.size) : d = d' := by
  have agree : ∀ p, d.productionLength p = d'.productionLength p :=
    fun p => Option.ext fun k => ⟨h p k, h' p k⟩
  cases d with
  | mk lengths =>
      cases d' with
      | mk lengths' =>
          congr 1
          refine Array.ext sized fun i hi hi' => ?_
          have here := agree i
          simpa [productionLength, Array.getD_eq_getD_getElem?, hi, hi'] using here

theorem size_foldl_settle (qs : List ProductionId) (d : DepthTable) :
    (qs.foldl (settle g) d).lengths.size = d.lengths.size := by
  induction qs generalizing d with
  | nil => rfl
  | cons q qs ih => rw [List.foldl_cons, ih, size_settle]

theorem extends_foldl_settle (qs : List ProductionId) (d : DepthTable) :
    d.Extends (qs.foldl (settle g) d) := by
  induction qs generalizing d with
  | nil => exact Extends.refl d
  | cons q qs ih => exact (extends_settle d q).trans (ih _)

theorem size_pass (d : DepthTable) : (pass g d).lengths.size = d.lengths.size :=
  size_foldl_settle _ d

theorem extends_pass (d : DepthTable) : d.Extends (pass g d) :=
  extends_foldl_settle _ d

/-- A pass in which everything stays as it is has nothing to settle anywhere. -/
theorem settle_eq_self_of_pass (rest : pass g d = d) (hp : p < g.productions.size) :
    settle g d p = d := by
  have each : ∀ qs : List ProductionId, qs.foldl (settle g) d = d → ∀ q ∈ qs, settle g d q = d := by
    intro qs
    induction qs with
    | nil => exact fun _ q hq => absurd hq List.not_mem_nil
    | cons r qs ih =>
        intro whole
        rw [List.foldl_cons] at whole
        have back : (settle g d r).Extends d := by
          have onwards := extends_foldl_settle (g := g) qs (settle g d r)
          rwa [whole] at onwards
        have first : settle g d r = d := back.antisymm (extends_settle d r) (size_settle d r)
        rw [first] at whole
        intro q hq
        rcases List.mem_cons.mp hq with rfl | hq
        · exact first
        · exact ih whole q hq
  exact each _ rest p (List.mem_range.mpr hp)

/-- Where a pass changes nothing, an open production is one that has no length yet. -/
theorem lengthOf_eq_none_of_pass (sized : d.lengths.size = g.productions.size)
    (rest : pass g d = d) (hp : p < g.productions.size) (unsettled : d.productionLength p = none) :
    d.lengthOf g (g.rhs p) = none := by
  have here := productionLength_settle (g := g) d p p
  rw [settle_eq_self_of_pass rest hp, if_pos ⟨rfl, sized ▸ hp, unsettled⟩, unsettled] at here
  exact here.symm

/-! ### How long passes go on -/

/-- The productions that are still open. -/
def openProductions (g : Grammar V) (d : DepthTable) : Finset ProductionId :=
  (Finset.range g.productions.size).filter fun p => d.productionLength p = none

theorem mem_openProductions_iff :
    p ∈ openProductions g d ↔ p < g.productions.size ∧ d.productionLength p = none := by
  rw [openProductions, Finset.mem_filter, Finset.mem_range]

/-- **A pass that changes anything leaves fewer productions open.** -/
theorem card_openProductions_pass_lt (sized : d.lengths.size = g.productions.size)
    (moves : pass g d ≠ d) :
    (openProductions g (pass g d)).card < (openProductions g d).card := by
  have fewer : openProductions g (pass g d) ⊆ openProductions g d := by
    intro p hp
    obtain ⟨inside, unsettled⟩ := mem_openProductions_iff.mp hp
    refine mem_openProductions_iff.mpr ⟨inside, Option.eq_none_iff_forall_ne_some.mpr ?_⟩
    intro k hk
    rw [extends_pass d p k hk] at unsettled
    cases unsettled
  refine Finset.card_lt_card (Finset.ssubset_iff_subset_ne.mpr ⟨fewer, fun same => moves ?_⟩)
  refine Extends.antisymm (fun p k hk => ?_) (extends_pass d) (size_pass d)
  have inside : p < g.productions.size := by
    by_contra outside
    rw [productionLength_eq_none (by rw [size_pass, sized]; exact Nat.le_of_not_lt outside)] at hk
    cases hk
  cases settled : d.productionLength p with
  | none =>
      have stays : p ∈ openProductions g (pass g d) :=
        same ▸ mem_openProductions_iff.mpr ⟨inside, settled⟩
      rw [(mem_openProductions_iff.mp stays).2] at hk
      cases hk
  | some l => rw [← hk, extends_pass d p l settled]

theorem complete_iff : d.complete = true ↔
    ∀ p < d.lengths.size, ∃ k, d.productionLength p = some k := by
  rw [complete, Array.all_eq_true]
  refine forall_congr' fun p => forall_congr' fun hp => ?_
  rw [Option.isSome_iff_exists, productionLength, Array.getD_eq_getD_getElem?,
    Array.getElem?_eq_getElem hp, Option.getD_some]

theorem pass_of_complete (sized : d.lengths.size = g.productions.size) (h : d.complete = true) :
    pass g d = d := by
  by_contra moves
  have fewer := card_openProductions_pass_lt sized moves
  have none : openProductions g d = ∅ := by
    refine Finset.eq_empty_of_forall_notMem fun p hp => ?_
    obtain ⟨inside, unsettled⟩ := mem_openProductions_iff.mp hp
    obtain ⟨k, hk⟩ := complete_iff.mp h p (sized ▸ inside)
    rw [hk] at unsettled
    cases unsettled
  rw [none, Finset.card_empty] at fewer
  exact Nat.not_lt_zero _ fewer

/-- Passes that stop early leave what all of them would. -/
theorem passes_eq_iterate (sized : d.lengths.size = g.productions.size) (n : Nat) :
    passes g n d = (pass g)^[n] d := by
  induction n generalizing d with
  | zero => rfl
  | succ n ih =>
      rw [passes]
      split
      · rename_i complete
        exact (Function.iterate_fixed (pass_of_complete sized complete) _).symm
      · exact ih ((size_pass d).trans sized)

theorem pass_iterate (sized : d.lengths.size = g.productions.size)
    (enough : (openProductions g d).card ≤ n) :
    pass g ((pass g)^[n] d) = (pass g)^[n] d := by
  induction n generalizing d with
  | zero =>
      by_contra moves
      have := card_openProductions_pass_lt sized moves
      omega
  | succ n ih =>
      by_cases rest : pass g d = d
      · rw [Function.iterate_fixed rest, rest]
      · have fewer := card_openProductions_pass_lt sized rest
        exact ih ((size_pass d).trans sized) (by omega)

/-! ### Where passes come to rest -/

/-- The table in which every production is open. -/
def blank (g : Grammar V) : DepthTable :=
  ⟨Array.replicate g.productions.size none⟩

/-- The table after as many passes as there are productions. -/
def resolved (g : Grammar V) : DepthTable :=
  passes g g.productions.size (blank g)

theorem size_blank (g : Grammar V) : (blank g).lengths.size = g.productions.size :=
  Array.size_replicate

theorem productionLength_blank (p : ProductionId) : (blank g).productionLength p = none := by
  rw [blank, productionLength, Array.getD_eq_getD_getElem?, Array.getElem?_replicate]
  split <;> rfl

theorem ofGrammar_eq (g : Grammar V) : ofGrammar g =
    if (resolved g).complete then .ok (resolved g)
    else .error (.grammar (.unproductive
      ((g.nonTerminals.filter fun s => ((resolved g).symbolLength g s).isNone).map g.name))) :=
  rfl

theorem resolved_eq_iterate (g : Grammar V) :
    resolved g = (pass g)^[g.productions.size] (blank g) :=
  passes_eq_iterate (size_blank g) _

/-- **Passes come to rest** within as many as there are productions. -/
theorem pass_resolved (g : Grammar V) : pass g (resolved g) = resolved g := by
  rw [resolved_eq_iterate]
  refine pass_iterate (size_blank g) ?_
  calc (openProductions g (blank g)).card
      ≤ (Finset.range g.productions.size).card := Finset.card_filter_le _ _
    _ = g.productions.size := Finset.card_range _

/-- What survives settling holds of the resolved table if it holds of the blank one. -/
theorem resolved_preserves {P : DepthTable → Prop} (step : ∀ d q, P d → P (settle g d q))
    (start : P (blank g)) : P (resolved g) :=
  passes_preserves step _ start

theorem size_resolved (g : Grammar V) : (resolved g).lengths.size = g.productions.size :=
  resolved_preserves (P := fun d => d.lengths.size = g.productions.size)
    (fun d q sized => (size_settle d q).trans sized) (size_blank g)

/-- Wherever passes from the blank table come to rest, they leave the resolved one. -/
theorem eq_resolved_of_rest (reached : d = (pass g)^[n] (blank g)) (rest : pass g d = d) :
    d = resolved g := by
  calc d = (pass g)^[g.productions.size] d := (Function.iterate_fixed rest _).symm
    _ = (pass g)^[n] (resolved g) := by
        rw [reached, resolved_eq_iterate, ← Function.iterate_add_apply,
          ← Function.iterate_add_apply, Nat.add_comm]
    _ = resolved g := Function.iterate_fixed (pass_resolved g) _

/-! ### Least lengths as they come in -/

/-- A new length counts for a symbol if it is the first or the least so far. -/
def enter (least : SymbolId → Option Nat) (s : SymbolId) (length : Nat) : SymbolId → Option Nat :=
  Function.update least s (some ((least s).elim length (min · length)))

theorem productionLength_settle_of_ne {q : ProductionId} (differ : q ≠ p) :
    (settle g d p).productionLength q = d.productionLength q := by
  rw [productionLength_settle, if_neg fun h => differ h.1]

theorem settle_eq_self_of_lengthOf (nothing : d.lengthOf g (g.rhs p) = none) :
    settle g d p = d := by
  refine Extends.antisymm (fun q k hk => ?_) (extends_settle d p) (size_settle d p)
  rw [productionLength_settle, nothing] at hk
  split at hk
  · cases hk
  · exact hk

/-- Settling a production leaves the symbols alone that it does not belong to. -/
theorem symbolLength_settle_of_not_mem (other : p ∉ g.productionsOf s) :
    (settle g d p).symbolLength g s = d.symbolLength g s := by
  rw [symbolLength, symbolLength]
  congr 1
  refine List.filterMap_congr fun q hq => productionLength_settle_of_ne ?_
  rintro rfl
  exact other hq

/-- The symbol that a production belongs to has the new length, unless it had a smaller one. -/
theorem symbolLength_settle_of_mem (owned : p ∈ g.productionsOf s)
    (unsettled : d.productionLength p = none)
    (new : (settle g d p).productionLength p = some k) :
    (settle g d p).symbolLength g s = some ((d.symbolLength g s).elim k (min · k)) := by
  rw [symbolLength_eq_some_iff]
  cases before : d.symbolLength g s with
  | none =>
      refine ⟨⟨p, owned, new⟩, fun q hq j hj => ?_⟩
      by_cases same : q = p
      · subst same
        exact (Option.some.inj (new.symm.trans hj)).le
      · rw [productionLength_settle_of_ne same] at hj
        obtain ⟨l, hl, -⟩ := exists_symbolLength hq hj
        rw [before] at hl
        cases hl
  | some l =>
      obtain ⟨⟨q, hq, hl⟩, least⟩ := symbolLength_eq_some_iff.mp before
      have differ : q ≠ p := by
        rintro rfl
        rw [unsettled] at hl
        cases hl
      rw [Option.elim_some]
      constructor
      · rcases Nat.le_total l k with le | le
        · exact ⟨q, hq, by rw [productionLength_settle_of_ne differ, hl, min_eq_left le]⟩
        · exact ⟨p, owned, by rw [new, min_eq_right le]⟩
      · intro q hq j hj
        by_cases same : q = p
        · subst same
          rw [← Option.some.inj (new.symm.trans hj)]
          exact min_le_right l k
        · rw [productionLength_settle_of_ne same] at hj
          exact (min_le_left l k).trans (least q hq j hj)

/-- Settling a production enters its length for the symbol that it belongs to. -/
theorem symbolLength_settle {production : Production} (found : g.productions[p]? = some production)
    (sized : d.lengths.size = g.productions.size) (unsettled : d.productionLength p = none)
    (length : d.lengthOf g (g.rhs p) = some k) :
    (settle g d p).symbolLength g = enter (d.symbolLength g) production.lhs k := by
  have inside : p < d.lengths.size := sized ▸ (Array.getElem?_eq_some_iff.mp found).1
  have new : (settle g d p).productionLength p = some k := by
    rw [productionLength_settle, if_pos ⟨rfl, inside, unsettled⟩, length]
  funext s
  rw [enter, Function.update_apply]
  split
  · rename_i owner
    subst owner
    exact symbolLength_settle_of_mem (Grammar.mem_productionsOf_iff.mpr ⟨production, found, rfl⟩)
      unsettled new
  · rename_i other
    refine symbolLength_settle_of_not_mem fun owned => other ?_
    obtain ⟨production', found', owner⟩ := Grammar.mem_productionsOf_iff.mp owned
    rw [found] at found'
    cases found'
    exact owner.symm

/-! ### The open-ended loop -/

/-- Resolution on its way: the lengths settled so far, the least of them for every symbol, and how
many passes have settled nothing. -/
structure Resolution where
  table : DepthTable
  least : SymbolId → Option Nat
  stalls : Nat

namespace Resolution

variable {stalls : Nat}

def start (g : Grammar V) : Resolution :=
  ⟨blank g, fun _ => none, 0⟩

/-- The length that a right-hand side gives its production by the least lengths so far. -/
def lengthOf (g : Grammar V) (r : Resolution) (rhs : List SymbolId) : Option Nat := do
  let below ← (rhs.filter g.isNonTerminal).mapM r.least
  return below.foldl max 0 + 1

/-- One production in its turn. If it is open and can be settled now, its length is entered at
once for the symbol that it belongs to. -/
def settle (g : Grammar V) (r : Resolution) (p : ProductionId) : Resolution :=
  match g.productions[p]? with
  | none => r
  | some production =>
      match r.table.productionLength p, r.lengthOf g production.rhs with
      | none, some length =>
          { r with
            table := ⟨r.table.lengths.setIfInBounds p (some length)⟩
            least := enter r.least production.lhs length }
      | _, _ => r

/-- One pass over all productions, counted if it settles nothing. -/
def round (g : Grammar V) (r : Resolution) : Resolution :=
  let next := (List.range g.productions.size).foldl (settle g) r
  { next with stalls := if next.table = r.table then r.stalls + 1 else r.stalls }

/-- The loop goes round while a production is open and the passes that settled nothing are no more
than there are productions. -/
inductive Round (g : Grammar V) : Resolution → Resolution → Prop where
  | again {r : Resolution} (incomplete : r.table.complete = false)
      (patient : r.stalls ≤ g.productions.size) : Round g r (r.round g)

/-- What the loop answers where it ends. -/
def answer (g : Grammar V) (r : Resolution) : Except Error DepthTable :=
  if r.table.complete then .ok r.table
  else .error (.grammar (.unproductive
    ((g.nonTerminals.filter fun s => (r.least s).isNone).map g.name)))

/-- The loop at a table, when the least lengths that it keeps are the lengths of symbols there. -/
def tally (g : Grammar V) (d : DepthTable) (stalls : Nat) : Resolution :=
  ⟨d, d.symbolLength g, stalls⟩

theorem start_eq_tally (g : Grammar V) : start g = tally g (blank g) 0 := by
  have least : (blank g).symbolLength g = fun _ => none := by
    funext s
    refine Option.eq_none_iff_forall_ne_some.mpr fun l hl => ?_
    obtain ⟨p, -, hk⟩ := (symbolLength_eq_some_iff.mp hl).1
    rw [productionLength_blank] at hk
    cases hk
  rw [start, tally, least]

/-- Settling with a tally is settling, and keeps the tally. -/
theorem settle_tally (sized : d.lengths.size = g.productions.size) (p : ProductionId) :
    (tally g d stalls).settle g p = tally g (DepthTable.settle g d p) stalls := by
  cases found : g.productions[p]? with
  | none =>
      have outside : d.lengths.size ≤ p := sized ▸ Array.getElem?_eq_none_iff.mp found
      have same : DepthTable.settle g d p = d := by
        rw [DepthTable.settle, productionLength_eq_none outside]
        exact congrArg DepthTable.mk (Array.setIfInBounds_eq_of_size_le outside)
      rw [settle, found, same]
  | some production =>
      have length : d.lengthOf g (g.rhs p) = (tally g d stalls).lengthOf g production.rhs := by
        rw [Grammar.rhs_eq found]
        rfl
      have table : (tally g d stalls).table.productionLength p = d.productionLength p := rfl
      unfold settle
      rw [found]
      cases settled : d.productionLength p with
      | some k =>
          rw [table, DepthTable.settle, settled]
      | none =>
          dsimp only
          rw [table, settled, ← length]
          cases new : d.lengthOf g (g.rhs p) with
          | none =>
              rw [settle_eq_self_of_lengthOf new]
          | some k =>
              have entered := symbolLength_settle found sized settled new
              have placed : DepthTable.settle g d p = ⟨d.lengths.setIfInBounds p (some k)⟩ := by
                rw [DepthTable.settle, settled, new]
              rw [tally, tally, entered, placed]

theorem foldl_settle_tally (sized : d.lengths.size = g.productions.size)
    (qs : List ProductionId) :
    qs.foldl (settle g) (tally g d stalls) =
      tally g (qs.foldl (DepthTable.settle g) d) stalls := by
  induction qs generalizing d with
  | nil => rfl
  | cons q qs ih =>
      rw [List.foldl_cons, List.foldl_cons, settle_tally sized, ih ((size_settle d q).trans sized)]

/-- **Going round with a tally** is a pass, and keeps the tally. -/
theorem round_tally (sized : d.lengths.size = g.productions.size) (stalls : Nat) :
    (tally g d stalls).round g =
      tally g (pass g d) (if pass g d = d then stalls + 1 else stalls) := by
  unfold round
  rw [foldl_settle_tally sized]
  rfl

/-- From every tally an end of the loop is reached, where passes have come to rest: a round leaves
fewer productions open, or as many and less patience. -/
theorem ends_of_tally (d : DepthTable) (stalls : Nat)
    (sized : d.lengths.size = g.productions.size) (stalled : 0 < stalls → pass g d = d) :
    ∃ n stalls', Relation.ReflTransGen (Round g) (tally g d stalls)
        (tally g ((pass g)^[n] d) stalls') ∧
      (∀ next, ¬ Round g (tally g ((pass g)^[n] d) stalls') next) ∧
      pass g ((pass g)^[n] d) = (pass g)^[n] d := by
  by_cases finished : d.complete = true ∨ g.productions.size < stalls
  · refine ⟨0, stalls, .refl, ?_, ?_⟩
    · rintro _ ⟨incomplete, patient⟩
      rcases finished with complete | impatient
      · exact Bool.false_ne_true (incomplete.symm.trans complete)
      · exact absurd patient (Nat.not_le.mpr impatient)
    · rcases finished with complete | impatient
      · exact pass_of_complete sized complete
      · exact stalled (Nat.zero_lt_of_lt impatient)
  · obtain ⟨incomplete, patient⟩ := not_or.mp finished
    have again : Round g (tally g d stalls) ((tally g d stalls).round g) :=
      .again (Bool.eq_false_iff.mpr incomplete) (Nat.not_lt.mp patient)
    rw [round_tally sized] at again
    have counted : 0 < (if pass g d = d then stalls + 1 else stalls) →
        pass g (pass g d) = pass g d := by
      split
      · rename_i rest
        exact fun _ => by rw [rest, rest]
      · rename_i moves
        exact fun count => absurd (stalled count) moves
    obtain ⟨n, stalls', reached, ends⟩ :=
      ends_of_tally (pass g d) _ ((size_pass d).trans sized) counted
    exact ⟨n + 1, stalls', .head again reached, ends⟩
termination_by ((openProductions g d).card, g.productions.size + 1 - stalls)
decreasing_by
  by_cases rest : pass g d = d
  · rw [if_pos rest, rest]
    refine Prod.Lex.right _ ?_
    omega
  · exact Prod.Lex.left _ _ (card_openProductions_pass_lt sized rest)

/-- **The loop ends**, knowing the least length of every symbol, and with the answer that the
bounded number of passes gives. -/
theorem loop_ends (g : Grammar V) :
    ∃ r, Relation.ReflTransGen (Round g) (start g) r ∧ (∀ next, ¬ Round g r next) ∧
      r.least = r.table.symbolLength g ∧ r.answer g = ofGrammar g := by
  obtain ⟨n, stalls, reached, finished, rest⟩ :=
    ends_of_tally (blank g) 0 (size_blank g) (absurd · (Nat.lt_irrefl 0))
  refine ⟨_, start_eq_tally g ▸ reached, finished, rfl, ?_⟩
  rw [eq_resolved_of_rest rfl rest, ofGrammar_eq]
  rfl

end Resolution

end DepthTable

end GrammarEvolution
