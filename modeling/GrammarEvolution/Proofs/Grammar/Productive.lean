import GrammarEvolution.Proofs.Grammar.Achieved

/-!
Which grammars have a table of lengths.

Where passes have come to rest, the non-terminals with a length are those that some finished
derivation starts from: a length is the height of one, and a derivation would let a pass settle the
production that it begins with. So a grammar has a table exactly when all its declared non-terminals
are productive, and otherwise those that are not are named.

* `exists_symbolLength_resolved_iff`: lengths at rest are had by the productive symbols.
* `ofGrammar_outcome`: when a grammar has a table, what the table knows, and what is said otherwise.
-/

namespace GrammarEvolution

namespace Grammar

variable {V : Type} {g : Grammar V} {s : SymbolId}

/-- Some finished derivation starts from the symbol. -/
def Productive (g : Grammar V) (s : SymbolId) : Prop :=
  ∃ t, g.Derives s t

theorem productive_iff : g.Productive s ↔
    ∃ r : Rose SymbolId, r.label = s ∧ g.checkShape r = .ok () := by
  constructor
  · rintro ⟨t, derives⟩
    exact ⟨t.shape, by rw [← derives.root, Tree.symbol_root_eq_label], derives.valid⟩
  · rintro ⟨r, rfl, valid⟩
    exact ⟨_, derives_ofShape valid⟩

/-! ### The order of declaration -/

section Reordered

variable {productions : Array Production} (same : productions.Perm g.productions)

include same

theorem hasProduction_reordered :
    ({ g with productions } : Grammar V).hasProduction = g.hasProduction := by
  funext lhs rhs
  rw [Bool.eq_iff_iff, hasProduction, hasProduction, Array.contains_iff_mem,
    Array.contains_iff_mem]
  exact same.mem_iff

/-- What is a derivation does not depend on the order of productions. -/
theorem productive_reordered :
    ({ g with productions } : Grammar V).Productive s ↔ g.Productive s := by
  have step : ({ g with productions } : Grammar V).checkStep = g.checkStep := by
    funext s below
    rw [checkStep, checkStep, hasProduction_reordered same]
    rfl
  rw [productive_iff, productive_iff]
  unfold checkShape
  rw [step]

theorem Closed.reordered (h : g.Closed) : ({ g with productions } : Grammar V).Closed where
  isNonTerminal := h.isNonTerminal
  isTerminal := h.isTerminal
  declared := fun p hp => h.declared p (same.mem_iff.mp hp)
  owned := fun s hs => by
    obtain ⟨p, hp, owner⟩ := h.owned s hs
    exact ⟨p, same.mem_iff.mpr hp, owner⟩
  start := h.start

theorem Rewriting.reordered (h : g.Rewriting) : ({ g with productions } : Grammar V).Rewriting :=
  fun p hp => h p (same.mem_iff.mp hp)

end Reordered

end Grammar

namespace DepthTable

variable {V : Type} {g : Grammar V} {d : DepthTable} {s : SymbolId} {rhs : List SymbolId}

/-! ### Lengths at rest -/

theorem exists_lengthOf (h : ∀ s ∈ rhs, g.isNonTerminal s = true →
    ∃ l, d.symbolLength g s = some l) : ∃ k, d.lengthOf g rhs = some k := by
  have known : ∀ s ∈ rhs.filter g.isNonTerminal, ∃ l, d.symbolLength g s = some l := fun s hs =>
    h s (List.mem_filter.mp hs).1 (List.mem_filter.mp hs).2
  obtain ⟨below, found⟩ := List.exists_mapM_eq_some known
  exact ⟨below.foldl max 0 + 1, by rw [lengthOf, found]; rfl⟩

/-- **A derivation lets passes settle its production.** Where they have come to rest, its symbol has
a length. -/
theorem exists_symbolLength_of_checkShape (sized : d.lengths.size = g.productions.size)
    (rest : pass g d = d) {r : Rose SymbolId} (valid : g.checkShape r = .ok ())
    (kind : g.isNonTerminal r.label = true) : ∃ l, d.symbolLength g r.label = some l := by
  induction r using Rose.induction with
  | step s cs ih =>
      rw [Rose.label_node] at kind ⊢
      obtain ⟨step, each⟩ := Grammar.checkShape_node_iff.mp valid
      rw [Grammar.checkStep_ok_iff, if_pos kind] at step
      obtain ⟨p, hp, spelled⟩ := Grammar.hasProduction_iff.mp step
      obtain ⟨production, found, -⟩ := Grammar.mem_productionsOf_iff.mp hp
      have below : ∃ k, d.lengthOf g (g.rhs p) = some k := by
        refine exists_lengthOf fun s' hs' kind' => ?_
        rw [spelled] at hs'
        obtain ⟨c, hc, rfl⟩ := List.mem_map.mp hs'
        exact ih c hc (each c hc) kind'
      cases settled : d.productionLength p with
      | some k =>
          obtain ⟨l, hl, -⟩ := exists_symbolLength hp settled
          exact ⟨l, hl⟩
      | none =>
          have inside := (Array.getElem?_eq_some_iff.mp found).1
          obtain ⟨k, hk⟩ := below
          rw [lengthOf_eq_none_of_pass sized rest inside settled] at hk
          cases hk

/-- **Lengths at rest are had by the productive symbols.** -/
theorem exists_symbolLength_resolved_iff (rewriting : g.Rewriting)
    (kind : g.isNonTerminal s = true) :
    (∃ l, (resolved g).symbolLength g s = some l) ↔ g.Productive s := by
  rw [Grammar.productive_iff]
  constructor
  · rintro ⟨l, hl⟩
    obtain ⟨r, label, valid, -⟩ := (achieved_resolved rewriting).symbol kind hl
    exact ⟨r, label, valid⟩
  · rintro ⟨r, rfl, valid⟩
    exact exists_symbolLength_of_checkShape (size_resolved g) (pass_resolved g) valid kind

/-- A table at rest is complete when all declared non-terminals are productive. -/
theorem complete_resolved_iff (closed : g.Closed) (rewriting : g.Rewriting) :
    (resolved g).complete = true ↔ ∀ s ∈ g.nonTerminals, g.Productive s := by
  rw [complete_iff, size_resolved]
  constructor
  · intro settled s declared
    have kind := closed.isNonTerminal s declared
    obtain ⟨production, mem, owner⟩ := closed.owned s declared
    obtain ⟨p, found⟩ := Array.getElem?_of_mem mem
    obtain ⟨k, hk⟩ := settled p (Array.getElem?_eq_some_iff.mp found).1
    obtain ⟨l, hl, -⟩ :=
      exists_symbolLength (Grammar.mem_productionsOf_iff.mpr ⟨production, found, owner⟩) hk
    exact (exists_symbolLength_resolved_iff rewriting kind).mp ⟨l, hl⟩
  · intro productive p hp
    have below : ∃ k, (resolved g).lengthOf g (g.rhs p) = some k := by
      refine exists_lengthOf fun s hs kind => ?_
      have declared := closed.mem_nonTerminals_of_mem_rhs hs kind
      exact (exists_symbolLength_resolved_iff rewriting kind).mpr (productive s declared)
    cases settled : (resolved g).productionLength p with
    | some k => exact ⟨k, rfl⟩
    | none =>
        obtain ⟨k, hk⟩ := below
        rw [lengthOf_eq_none_of_pass (size_resolved g) (pass_resolved g) hp settled] at hk
        cases hk

theorem exists_ofGrammar_iff (closed : g.Closed) (rewriting : g.Rewriting) :
    (∃ d, ofGrammar g = .ok d) ↔ ∀ s ∈ g.nonTerminals, g.Productive s := by
  rw [← complete_resolved_iff closed rewriting, ofGrammar_eq]
  cases (resolved g).complete <;> simp

/-! ### Naming what is not productive -/

open scoped Classical in
/-- The declared non-terminals that no finished derivation starts from, in order of declaration. -/
noncomputable def unproductive (g : Grammar V) : List SymbolId :=
  g.nonTerminals.filter fun s => ¬ g.Productive s

theorem mem_unproductive_iff : s ∈ unproductive g ↔ s ∈ g.nonTerminals ∧ ¬ g.Productive s := by
  classical
  rw [unproductive, List.mem_filter, decide_eq_true_iff]

/-- What has no length at rest is what is not productive. -/
theorem filter_symbolLength_resolved (closed : g.Closed) (rewriting : g.Rewriting) :
    (g.nonTerminals.filter fun s => ((resolved g).symbolLength g s).isNone) = unproductive g := by
  classical
  refine List.filter_congr fun s declared => ?_
  rw [Bool.eq_iff_iff, decide_eq_true_iff,
    ← exists_symbolLength_resolved_iff rewriting (closed.isNonTerminal s declared),
    Option.isNone_iff_eq_none, Option.eq_none_iff_forall_ne_some, not_exists]

/-- A list of names reads as nothing when it has none, or one and that is blank. -/
theorem intercalate_eq_empty_iff {names : List String} :
    String.intercalate ", " names = "" ↔ names = [] ∨ names = [""] := by
  match names with
  | [] => exact ⟨fun _ => .inl rfl, fun _ => rfl⟩
  | [name] =>
      have alone : String.intercalate ", " [name] = name := rfl
      rw [alone]
      simp
  | first :: second :: rest =>
      rw [String.intercalate_cons_cons, String.append_eq_empty_iff, String.append_eq_empty_iff]
      simp

/-- The text of the failure. Names are listed, unless the list reads as nothing. -/
theorem message_unproductive {names : List String} (something : names ≠ []) :
    (Error.grammar (.unproductive names)).message =
      "grammar is not well-founded: no finite derivation for " ++
        if names = [""] then "some productions" else String.intercalate ", " names := by
  have blank : (String.intercalate ", " names).isEmpty = decide (names = [""]) := by
    rw [Bool.eq_iff_iff, String.isEmpty_iff, intercalate_eq_empty_iff, decide_eq_true_iff]
    exact or_iff_right something
  have opening : "grammar is not well-founded: no finite derivation for " =
      "grammar is not well-founded: " ++ "no finite derivation for " := by simp
  have worded : (Error.grammar (.unproductive names)).message =
      "grammar is not well-founded: " ++ ("no finite derivation for " ++
        if (String.intercalate ", " names).isEmpty then "some productions"
        else String.intercalate ", " names) := rfl
  rw [worded, opening, String.append_assoc, blank]
  simp only [decide_eq_true_eq]

/-- **When a grammar has a table.** Resolution as an open-ended loop ends, and there is a table
exactly when every declared non-terminal is productive, in whatever order the productions stand. The
table knows every production and every declared non-terminal. Without one, the non-terminals that
are not productive are named in order of declaration; there is at least one. -/
theorem ofGrammar_outcome (built : g.Built) :
    (∃ r, Relation.ReflTransGen (Resolution.Round g) (Resolution.start g) r ∧
      (∀ next, ¬ Resolution.Round g r next) ∧ r.least = r.table.symbolLength g ∧
      r.answer g = ofGrammar g) ∧
    ((∃ d, ofGrammar g = .ok d) ↔ ∀ s ∈ g.nonTerminals, g.Productive s) ∧
    (∀ d, ofGrammar g = .ok d →
      (∀ p < g.productions.size, ∃ k, d.productionLength p = some k) ∧
      ∀ s ∈ g.nonTerminals, ∃ l, d.symbolLength g s = some l) ∧
    (∀ e, ofGrammar g = .error e →
      unproductive g ≠ [] ∧ e = .grammar (.unproductive ((unproductive g).map g.name)) ∧
      e.message = "grammar is not well-founded: no finite derivation for " ++
        if (unproductive g).map g.name = [""] then "some productions"
        else String.intercalate ", " ((unproductive g).map g.name)) ∧
    ∀ productions : Array Production, productions.Perm g.productions →
      ((∃ d, ofGrammar { g with productions } = .ok d) ↔ ∃ d, ofGrammar g = .ok d) := by
  have closed := built.closed
  have rewriting := built.rewriting
  have success := exists_ofGrammar_iff closed rewriting
  refine ⟨Resolution.loop_ends g, success, fun d table => ⟨?_, ?_⟩, fun e failed => ?_, ?_⟩
  · exact fun p hp => settled_of_ofGrammar table hp
  · intro s declared
    exact (exists_symbolLength_iff_declared closed table (closed.isNonTerminal s declared)).mpr
      declared
  · have some_unproductive : unproductive g ≠ [] := by
      intro none
      have all : ∀ s ∈ g.nonTerminals, g.Productive s := by
        intro s declared
        by_contra unproductive
        have listed := mem_unproductive_iff.mpr ⟨declared, unproductive⟩
        rw [none] at listed
        cases listed
      obtain ⟨d, table⟩ := success.mpr all
      rw [failed] at table
      cases table
    have fault : e = .grammar (.unproductive ((unproductive g).map g.name)) := by
      rw [ofGrammar_eq, filter_symbolLength_resolved closed rewriting] at failed
      split at failed
      · cases failed
      · cases failed
        rfl
    refine ⟨some_unproductive, fault, ?_⟩
    rw [fault, message_unproductive (mt List.map_eq_nil_iff.mp some_unproductive)]
  · intro productions same
    rw [success, exists_ofGrammar_iff (closed.reordered same) (rewriting.reordered same)]
    exact forall_congr' fun s => imp_congr_right fun _ => Grammar.productive_reordered same

end DepthTable

namespace Grammar

/-- `S ::= one | A`, `A ::= B`, `B ::= A`. -/
def knot : Grammar Nat where
  symbols := #[.nonTerminal "S", .nonTerminal "A", .nonTerminal "B", .constant "one" 1]
  nonTerminals := [0, 1, 2]
  terminals := [3]
  productions := #[⟨0, [3]⟩, ⟨0, [1]⟩, ⟨1, [2]⟩, ⟨2, [1]⟩]
  start := 0

theorem knot_built : knot.Built := by
  refine ⟨[.nonTerminal "S", .nonTerminal "A", .nonTerminal "B", .constant "one" 1,
    .declareNonTerminals [0, 1, 2], .declareTerminals [3], .startAt 0, .production 0 [3],
    .production 0 [1], .production 1 [2], .production 2 [1]], ?_⟩
  with_unfolding_all rfl

/-- A non-terminal without a name that rewrites to itself. -/
def nameless : Grammar Nat where
  symbols := #[.nonTerminal "", .constant "c" 1]
  nonTerminals := [0]
  terminals := [1]
  productions := #[⟨0, [0]⟩]
  start := 0

theorem nameless_built : nameless.Built := by
  refine ⟨[.nonTerminal "", .constant "c" 1, .declareNonTerminals [0], .declareTerminals [1],
    .startAt 0, .production 0 [0]], ?_⟩
  with_unfolding_all rfl

end Grammar

namespace DepthTable

/-- `A` and `B` only rewrite to each other. They are named, and `S` is not. -/
theorem ofGrammar_knot :
    Grammar.knot.Built ∧ ofGrammar .knot = .error (.grammar (.unproductive ["A", "B"])) ∧
      (unproductive .knot).map Grammar.knot.name = ["A", "B"] ∧
      ¬ ∀ s ∈ Grammar.knot.nonTerminals, Grammar.knot.Productive s := by
  have failed : ofGrammar .knot = .error (.grammar (.unproductive ["A", "B"])) := by decide +kernel
  obtain ⟨-, success, -, failure, -⟩ := ofGrammar_outcome Grammar.knot_built
  obtain ⟨-, named, -⟩ := failure _ failed
  injection named with fault
  injection fault with names
  refine ⟨Grammar.knot_built, failed, names.symm, fun all => ?_⟩
  obtain ⟨d, table⟩ := success.mpr all
  rw [failed] at table
  cases table

/-- One unproductive non-terminal is listed, but the list reads as nothing and is paraphrased. -/
theorem message_nameless :
    Grammar.nameless.Built ∧ unproductive .nameless = [0] ∧
      ∃ e, ofGrammar .nameless = .error e ∧
        e.message = "grammar is not well-founded: no finite derivation for some productions" ∧
        e.message ≠ "grammar is not well-founded: no finite derivation for " ++
          String.intercalate ", " ((unproductive .nameless).map Grammar.nameless.name) := by
  have listed : unproductive .nameless = [0] := by
    rw [← filter_symbolLength_resolved Grammar.nameless_built.closed
      Grammar.nameless_built.rewriting]
    decide +kernel
  have failed : ofGrammar .nameless = .error (.grammar (.unproductive [""])) := by decide +kernel
  refine ⟨Grammar.nameless_built, listed, _, failed, ?_, ?_⟩
  · decide
  · rw [listed]
    decide

end DepthTable

end GrammarEvolution
