import GrammarEvolution.Proofs.Grammar.Declaring
import Mathlib.Data.List.Induction
import Mathlib.Data.List.TakeWhile

/-!
A built grammar as the record of its declarations.

A call adds to a builder at the end and takes nothing back. `Call.Adds` says what it adds, refused
or not, so a builder is the record of all calls so far: the declared lists are the calls' lists one
after the other, and the productions are those offered productions that were acceptable when they
were offered, in order and with operations moved to the front.

* `adds_run`: what one call adds.
* `recorded_after`: what a sequence of calls leaves behind.
* `build_outcome`: which sequences end in a grammar, and what that grammar records.
-/

namespace GrammarEvolution

namespace Symbol

variable {V : Type}

/-- The name and the index of a variable. -/
def asVariable : Symbol V → Option (String × Nat)
  | var name index => some (name, index)
  | _ => none

/-- The symbol but for the index of a variable. -/
def unnumbered : Symbol V → Symbol V
  | var name _ => var name 0
  | symbol => symbol

end Symbol

namespace Builder

variable {V : Type} {b b' : Builder V} {lhs s : SymbolId} {rhs : List SymbolId}

/-! ### What calls add -/

namespace Call

/-- The symbol that a call enters when there are `n` variables already. -/
def entry (n : Nat) : Call V → List (Symbol V)
  | nonTerminal name => [.nonTerminal name]
  | constant name value => [.constant name value]
  | fresh name => [.var name n]
  | operation name apply => [.operation name apply]
  | _ => []

/-- The name of the variable that a call enters. -/
def freshName : Call V → Option String
  | fresh name => some name
  | _ => none

def nonTerminals : Call V → List SymbolId
  | declareNonTerminals symbols => symbols
  | _ => []

def terminals : Call V → List SymbolId
  | declareTerminals symbols => symbols
  | _ => []

def start? : Call V → Option SymbolId
  | startAt symbol => some symbol
  | _ => none

/-- The productions that a call offers, as they are written there. -/
def offers : Call V → List Production
  | production lhs rhs => [⟨lhs, rhs⟩]
  | leafProductions lhs leaves => leaves.map fun leaf => ⟨lhs, [leaf]⟩
  | _ => []

end Call

/-- The number of variables so far. -/
def variableCount (b : Builder V) : Nat :=
  b.symbols.toList.countP Symbol.isVariable

/-- A production as it is kept. -/
def arranged (b : Builder V) (offer : Production) : Production :=
  ⟨offer.lhs, b.operationsFirst offer.rhs⟩

/-- The offers before the first that is not acceptable, as they are kept. -/
def taken (b : Builder V) (offers : List Production) : List Production :=
  (offers.takeWhile fun offer => b.Acceptable offer.lhs offer.rhs).map b.arranged

/-- What a call adds to a builder. -/
structure Call.Adds (c : Call V) (b b' : Builder V) : Prop where
  symbols : b'.symbols.toList = b.symbols.toList ++ c.entry b.variableCount
  nonTerminals : b'.nonTerminals = b.nonTerminals ++ c.nonTerminals
  terminals : b'.terminals = b.terminals ++ c.terminals
  start : b'.start = c.start?.or b.start
  productions : b'.productions.toList = b.productions.toList ++ b.taken c.offers

/-! ### Productions and the symbols there are -/

/-- More symbols do not change what is known. -/
theorem symbols_of_more (more : b.symbols.toList <+: b'.symbols.toList)
    (known : s < b.symbols.size) : b'.symbols[s]? = b.symbols[s]? := by
  obtain ⟨rest, all⟩ := more
  rw [← Array.getElem?_toList, ← Array.getElem?_toList, ← all,
    List.getElem?_append_left (by simpa using known)]

theorem isOperation_of_more (more : b.symbols.toList <+: b'.symbols.toList)
    (known : s < b.symbols.size) : b'.isOperation s = b.isOperation s := by
  rw [isOperation, symbols_of_more more known, isOperation]

theorem arranged_of_more (more : b.symbols.toList <+: b'.symbols.toList) {offer : Production}
    (known : ∀ s ∈ offer.rhs, s < b.symbols.size) : b'.arranged offer = b.arranged offer := by
  rw [arranged, arranged, operationsFirst, operationsFirst]
  congr 2
  · exact List.filter_congr fun s hs => isOperation_of_more more (known s hs)
  · exact List.filter_congr fun s hs => congrArg _ (isOperation_of_more more (known s hs))

/-- More symbols leave acceptable productions acceptable. -/
theorem Acceptable.of_more (h : b.Acceptable lhs rhs)
    (more : b.symbols.toList <+: b'.symbols.toList) : b'.Acceptable lhs rhs := by
  have owner : lhs < b.symbols.size := by
    obtain ⟨name, found⟩ := isNonTerminal_iff.mp h.owner
    exact (Array.getElem?_eq_some_iff.mp found).1
  have operations : rhs.countP b'.isOperation = rhs.countP b.isOperation :=
    List.countP_congr fun s hs => by rw [isOperation_of_more more (h.known s hs)]
  exact {
    owner := by rw [isNonTerminal, symbols_of_more more owner]; exact h.owner
    something := h.something
    known := fun s hs => Nat.lt_of_lt_of_le (h.known s hs) (by simpa using more.length_le)
    single := (Nat.le_of_eq operations).trans h.single
    operands := fun one => h.operands (operations.symm.trans one) }

/-- A production is kept as it was offered and acceptable. -/
def Keeping (b : Builder V) (offer kept : Production) : Prop :=
  b.Acceptable offer.lhs offer.rhs ∧ kept = b.arranged offer

theorem Keeping.of_more {offer kept : Production} (h : b.Keeping offer kept)
    (more : b.symbols.toList <+: b'.symbols.toList) : b'.Keeping offer kept :=
  ⟨h.1.of_more more, h.2.trans (arranged_of_more more h.1.known).symm⟩

/-- What is taken are the first offers, kept one for one. -/
theorem taken_eq (b : Builder V) (offers : List Production) :
    ∃ accepted, accepted.Sublist offers ∧ List.Forall₂ b.Keeping accepted (b.taken offers) := by
  refine ⟨offers.takeWhile fun offer => b.Acceptable offer.lhs offer.rhs,
    List.takeWhile_sublist _, ?_⟩
  rw [taken, List.forall₂_map_right_iff, List.forall₂_same]
  intro offer first
  have acceptable := List.mem_takeWhile_imp
    (p := fun o : Production => b.Acceptable o.lhs o.rhs) first
  exact ⟨of_decide_eq_true acceptable, rfl⟩

/-! ### What one call adds -/

theorem taken_cons (b : Builder V) (offer : Production) (offers : List Production) :
    b.taken (offer :: offers) =
      if b.Acceptable offer.lhs offer.rhs then b.arranged offer :: b.taken offers else [] := by
  rw [taken, List.takeWhile_cons]
  by_cases acceptable : b.Acceptable offer.lhs offer.rhs <;> simp [acceptable, taken]

/-- The productions that there are do not decide what is taken. -/
theorem taken_with (b : Builder V) (productions : Array Production) (offers : List Production) :
    ({ b with productions := productions } : Builder V).taken offers = b.taken offers := by
  induction offers with
  | nil => rfl
  | cons offer offers ih =>
      have same : ({ b with productions := productions } : Builder V).Acceptable offer.lhs offer.rhs
          ↔ b.Acceptable offer.lhs offer.rhs :=
        ⟨fun h => h.of_more List.prefix_rfl, fun h => h.of_more List.prefix_rfl⟩
      simp only [taken_cons, ih, same]
      rfl

/-- What is made of the answer does not matter to the builder. -/
theorem run_bind_pure {α β : Type} (x : Declaring V α) (f : α → β) (b : Builder V) :
    ((x >>= fun a => pure (f a)).run.run b).2 = (x.run.run b).2 := by
  rw [ExceptT.run_run_bind]
  rcases x.run.run b with ⟨_ | a, b'⟩ <;> rfl

theorem run_discard {α : Type} (x : Declaring V α) (b : Builder V) :
    ((Functor.discard x).run.run b).2 = (x.run.run b).2 := by
  change (((fun _ => ()) <$> x : Declaring V Unit).run.run b).2 = _
  rw [map_eq_pure_bind]
  exact run_bind_pure x _ b

theorem rest_production (lhs : SymbolId) (rhs : List SymbolId) (b : Builder V) :
    ((production lhs rhs).run.run b).2 =
      { b with productions := b.productions ++ b.taken [⟨lhs, rhs⟩] } := by
  rw [run_production, taken_cons]
  rcases b.checkedProduction_cases lhs rhs with ⟨acceptable, ok⟩ | ⟨refused, fault, error⟩
  · rw [ok, if_pos acceptable, Array.appendList_cons]
    simp [taken, arranged]
  · rw [error, if_neg refused]
    simp

/-- Leaves are taken up to the first that is refused. -/
theorem rest_leafProductions (lhs : SymbolId) (leaves : List SymbolId) (b : Builder V) :
    ((leafProductions lhs leaves).run.run b).2 =
      { b with productions :=
          b.productions ++ b.taken (leaves.map fun leaf => ⟨lhs, [leaf]⟩) } := by
  rw [leafProductions]
  induction leaves generalizing b with
  | nil => simp [taken]; rfl
  | cons leaf leaves ih =>
      rw [List.mapM_cons, ExceptT.run_run_bind, run_production, List.map_cons, taken_cons]
      rcases b.checkedProduction_cases lhs [leaf] with ⟨acceptable, ok⟩ | ⟨refused, fault, error⟩
      · rw [ok, if_pos acceptable]
        dsimp only
        rw [run_bind_pure, ih, taken_with, Array.appendList_cons]
        rfl
      · rw [error, if_neg refused]
        simp

/-- **What a call adds**, whether it is refused or not. -/
theorem adds_run (c : Call V) (b : Builder V) : c.Adds b (c.run b) := by
  have same {α : Type} (xs : List α) : xs = xs ++ [] := (List.append_nil xs).symm
  have start : b.start = Option.or none b.start := Option.none_or.symm
  cases c with
  | nonTerminal name => exact ⟨Array.toList_push, same _, same _, start, same _⟩
  | constant name value => exact ⟨Array.toList_push, same _, same _, start, same _⟩
  | fresh name => exact ⟨Array.toList_push, same _, same _, start, same _⟩
  | operation name apply => exact ⟨Array.toList_push, same _, same _, start, same _⟩
  | declareNonTerminals symbols => exact ⟨same _, rfl, same _, start, same _⟩
  | declareTerminals symbols => exact ⟨same _, same _, rfl, start, same _⟩
  | startAt symbol => exact ⟨same _, same _, same _, rfl, same _⟩
  | production lhs rhs =>
      have run := (run_discard (production lhs rhs) b).trans (rest_production lhs rhs b)
      rw [show Call.run b (.production lhs rhs) = _ from run]
      exact ⟨same _, same _, same _, start, Array.toList_appendList⟩
  | leafProductions lhs leaves =>
      have run := (run_discard (leafProductions lhs leaves) b).trans
        (rest_leafProductions lhs leaves b)
      rw [show Call.run b (.leafProductions lhs leaves) = _ from run]
      exact ⟨same _, same _, same _, start, Array.toList_appendList⟩

/-! ### What a sequence of calls leaves behind -/

/-- A builder is what the calls say. -/
structure Recorded (calls : List (Call V)) (b : Builder V) : Prop where
  symbols : b.symbols.toList.map Symbol.unnumbered = calls.flatMap (Call.entry 0)
  indices : b.symbols.toList.filterMap Symbol.asVariable =
    (calls.filterMap Call.freshName).zipIdx
  nonTerminals : b.nonTerminals = calls.flatMap Call.nonTerminals
  terminals : b.terminals = calls.flatMap Call.terminals
  start : b.start = (calls.filterMap Call.start?).getLast?
  productions : ∃ accepted, accepted.Sublist (calls.flatMap Call.offers) ∧
    List.Forall₂ b.Keeping accepted b.productions.toList

theorem after_concat (calls : List (Call V)) (c : Call V) :
    after (calls ++ [c]) = c.run (after calls) :=
  List.foldl_concat ..

/-- As many variables are counted as there are. -/
theorem variableCount_eq (b : Builder V) :
    b.variableCount = (b.symbols.toList.filterMap Symbol.asVariable).length := by
  rw [variableCount, List.length_filterMap_eq_countP]
  refine List.countP_congr fun symbol _ => ?_
  cases symbol <;> rfl

theorem unnumbered_entry (c : Call V) (n : Nat) :
    (c.entry n).map Symbol.unnumbered = c.entry 0 := by
  cases c <;> rfl

theorem asVariable_entry (c : Call V) (n : Nat) :
    (c.entry n).filterMap Symbol.asVariable = c.freshName.toList.zipIdx n := by
  cases c <;> rfl

/-- **A sequence of calls leaves a record of itself.** -/
theorem recorded_after (calls : List (Call V)) : Recorded calls (after calls) := by
  induction calls using List.reverseRecOn with
  | nil => exact ⟨rfl, rfl, rfl, rfl, rfl, [], .slnil, .nil⟩
  | append_singleton calls c ih =>
      have adds := adds_run c (after calls)
      rw [← after_concat] at adds
      exact {
        symbols := by
          rw [adds.symbols, List.map_append, ih.symbols, unnumbered_entry, List.flatMap_append,
            List.flatMap_singleton]
        indices := by
          rw [adds.symbols, List.filterMap_append, asVariable_entry, variableCount_eq, ih.indices,
            List.filterMap_append, List.zipIdx_append, List.length_zipIdx, Nat.zero_add]
          cases c <;> rfl
        nonTerminals := by
          rw [adds.nonTerminals, ih.nonTerminals, List.flatMap_append, List.flatMap_singleton]
        terminals := by
          rw [adds.terminals, ih.terminals, List.flatMap_append, List.flatMap_singleton]
        start := by
          rw [adds.start, ih.start, List.filterMap_append, List.getLast?_append]
          cases c <;> rfl
        productions := by
          obtain ⟨accepted, offered, kept⟩ := ih.productions
          obtain ⟨more, among, new⟩ := taken_eq (after calls) c.offers
          have larger : (after calls).symbols.toList <+: (after (calls ++ [c])).symbols.toList :=
            ⟨_, adds.symbols.symm⟩
          refine ⟨accepted ++ more, ?_, ?_⟩
          · rw [List.flatMap_append, List.flatMap_singleton]
            exact offered.append among
          · rw [adds.productions]
            exact List.rel_append (kept.imp fun offer p h => h.of_more larger)
              (new.imp fun offer p h => h.of_more larger) }

/-! ### The grammar -/

/-- A production as a grammar has it: nothing of what was offered is lost, an operation stands in
front and has operands, and all else is in the order in which it was offered. -/
structure Spells (g : Grammar V) (offer p : Production) : Prop where
  lhs : p.lhs = offer.lhs
  something : p.rhs ≠ []
  rhs : p.rhs.Perm offer.rhs
  operation : ∀ (i : Nat) (s : SymbolId), p.rhs[i]? = some s → g.isOperation s = true →
    i = 0 ∧ 1 < p.rhs.length
  others : p.rhs.filter (!g.isOperation ·) = offer.rhs.filter (!g.isOperation ·)

/-- A grammar is what the calls say, and every number in it stands for a symbol. -/
structure Kept (calls : List (Call V)) (g : Grammar V) : Prop where
  symbols : g.symbols.toList.map Symbol.unnumbered = calls.flatMap (Call.entry 0)
  indices : g.symbols.toList.filterMap Symbol.asVariable =
    (calls.filterMap Call.freshName).zipIdx
  nonTerminals : List.FirstOccurrences (calls.flatMap Call.nonTerminals) g.nonTerminals
  terminals : List.FirstOccurrences (calls.flatMap Call.terminals) g.terminals
  start : (calls.filterMap Call.start?).getLast? = some g.start
  productions : ∃ accepted, accepted.Sublist (calls.flatMap Call.offers) ∧
    List.Forall₂ (Spells g) accepted g.productions.toList
  productionsOf : ∀ s, (g.productionsOf s).Pairwise (· < ·) ∧
    ∀ p, p ∈ g.productionsOf s ↔ ∃ production, g.productions[p]? = some production ∧
      production.lhs = s
  inside : ∀ s, s = g.start ∨ s ∈ g.nonTerminals ∨ s ∈ g.terminals ∨
    (∃ p ∈ g.productions, s ∈ p.lhs :: p.rhs) → s < g.symbols.size

/-- Every declared symbol is one. -/
theorem Complete.lt_size {start : SymbolId} (c : b.Complete start)
    (declared : s ∈ b.nonTerminals ∨ s ∈ b.terminals) : s < b.symbols.size := by
  rcases declared with among | among
  · obtain ⟨name, found⟩ := c.nonTerminal s among
    exact (Array.getElem?_eq_some_iff.mp found).1
  · obtain ⟨symbol, found, -⟩ := c.terminal s among
    exact (Array.getElem?_eq_some_iff.mp found).1

/-- What is kept of an offer is spelled as it should be. -/
theorem Keeping.spells {offer p : Production} (h : b.Keeping offer p) (start : SymbolId) :
    Spells (b.frozen start) offer p := by
  obtain ⟨acceptable, rfl⟩ := h
  exact {
    lhs := rfl
    something := fun none => by
      have perm := b.operationsFirst_perm offer.rhs
      rw [show b.operationsFirst offer.rhs = [] from none] at perm
      exact acceptable.something perm.nil_eq.symm
    rhs := b.operationsFirst_perm offer.rhs
    operation := fun _ _ here operation => acceptable.operation_first here operation
    others := b.filter_operationsFirst offer.rhs }

theorem Complete.kept {calls : List (Call V)} {start : SymbolId} (c : b.Complete start)
    (recorded : Recorded calls b) : Kept calls (b.frozen start) where
  symbols := recorded.symbols
  indices := recorded.indices
  nonTerminals := by
    rw [← recorded.nonTerminals]
    exact List.firstOccurrences_eraseDups _
  terminals := by
    rw [← recorded.terminals]
    exact List.firstOccurrences_eraseDups _
  start := recorded.start.symm.trans c.started
  productions := by
    obtain ⟨accepted, offered, keeping⟩ := recorded.productions
    exact ⟨accepted, offered, keeping.imp fun offer p h => h.spells start⟩
  productionsOf s :=
    ⟨List.pairwise_lt_range.filter _, fun p => Grammar.mem_productionsOf_iff⟩
  inside := by
    rintro s (rfl | among | among | ⟨p, hp, hs⟩)
    · exact c.lt_size (.inl c.startDeclared)
    · exact c.lt_size (.inl (List.mem_eraseDups.mp among))
    · exact c.lt_size (.inr (List.mem_eraseDups.mp among))
    · exact c.lt_size (c.declared p hp s hs)

/-- **Which declarations end in a grammar, and in which one.** A builder is the record of its calls,
and one more call adds to it what it says. It builds when its declarations are complete; otherwise
they are a fault of the setup. What it builds is what the calls say. -/
theorem build_outcome (calls : List (Call V)) :
    Recorded calls (after calls) ∧
    (∀ c, Call.Adds c (after calls) (after (calls ++ [c]))) ∧
    ((∃ g, (after calls).build = .ok g) ↔ ∃ start, (after calls).Complete start) ∧
    match (after calls).build with
    | .ok g => Kept calls g
    | .error e => ∃ fault, e = .config fault := by
  have recorded := recorded_after calls
  have adds : ∀ c, Call.Adds c (after calls) (after (calls ++ [c])) := by
    intro c
    rw [after_concat]
    exact adds_run c (after calls)
  refine ⟨recorded, adds, ?_⟩
  rcases (after calls).build_cases with ⟨start, complete, ok⟩ | ⟨incomplete, fault, refused⟩
  · rw [ok]
    exact ⟨⟨fun _ => ⟨start, complete⟩, fun _ => ⟨_, rfl⟩⟩, complete.kept recorded⟩
  · rw [refused]
    refine ⟨⟨nofun, ?_⟩, fault, rfl⟩
    rintro ⟨start, complete⟩
    exact absurd complete (incomplete start)

/-- Refused calls leave nothing behind, and what is declared twice counts once. The first six of the
calls do not make a grammar, as they name no start symbol. -/
theorem build_outcome_pairs :
    let calls : List (Call Nat) := [.nonTerminal "pair", .constant "one" 1, .production 0 [7],
      .declareNonTerminals [0, 0], .declareTerminals [1], .production 0 [0, 0], .startAt 5,
      .declareTerminals [1], .startAt 0, .production 1 [0], .leafProductions 0 [1, 9, 1]]
    ((after calls).build = .ok .pairs ∧ Kept calls .pairs ∧
      ∃ start, (after calls).Complete start) ∧
    (∃ fault, (after (calls.take 6)).build = .error (.config fault)) ∧
    ¬ ∃ start, (after (calls.take 6)).Complete start := by
  intro calls
  have built : (after calls).build = .ok .pairs := by with_unfolding_all rfl
  have refused : (after (calls.take 6)).build = .error (.config .noStart) := by
    with_unfolding_all rfl
  obtain ⟨-, -, complete, kept⟩ := build_outcome calls
  obtain ⟨-, -, incomplete, -⟩ := build_outcome (calls.take 6)
  rw [built] at kept complete
  rw [refused] at incomplete
  refine ⟨⟨built, kept, complete.mp ⟨_, rfl⟩⟩, ⟨_, refused⟩, ?_⟩
  intro started
  obtain ⟨_, ok⟩ := incomplete.mpr started
  cases ok

end Builder

end GrammarEvolution
