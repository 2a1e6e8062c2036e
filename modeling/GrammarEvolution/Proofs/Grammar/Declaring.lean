import GrammarEvolution.Proofs.Grammar.Built

/-!
What declarations leave in a builder.

`Keeps P x` says that a declaration leads from builders with a property to such builders, whether it
is refused or not.

* `Builder.allProductions_after`: what every checked production has, every declared one has.
* `Grammar.Built.rewriting`: every production of a built grammar rewrites a non-terminal, and to
  something.
-/

namespace GrammarEvolution

namespace Builder

variable {V α β : Type} {b : Builder V} {P : Builder V → Prop}

/-! ### One declaration after the other -/

/-- Whatever becomes of the declaration, the property stays. -/
def Keeps (P : Builder V → Prop) (x : Declaring V α) : Prop :=
  ∀ b, P b → P (x.run.run b).2

namespace Keeps

theorem pure (a : α) : Keeps P (Pure.pure a : Declaring V α) :=
  fun _ hb => hb

theorem bind {x : Declaring V α} {f : α → Declaring V β} (first : Keeps P x)
    (next : ∀ a, Keeps P (f a)) : Keeps P (x >>= f) := by
  intro b hb
  have done := first b hb
  rw [ExceptT.run_run_bind]
  rcases outcome : x.run.run b with ⟨_ | a, b'⟩ <;> rw [outcome] at done
  · exact done
  · exact next a b' done

theorem discard {x : Declaring V α} (h : Keeps P x) : Keeps P (Functor.discard x) := by
  change Keeps P ((fun _ => ()) <$> x)
  rw [map_eq_pure_bind]
  exact h.bind fun _ => pure ()

theorem mapM {f : α → Declaring V β} (each : ∀ a, Keeps P (f a)) (xs : List α) :
    Keeps P (xs.mapM f) := by
  induction xs with
  | nil => exact pure []
  | cons x xs ih =>
      rw [List.mapM_cons]
      exact (each x).bind fun y => ih.bind fun ys => pure (y :: ys)

end Keeps

/-! ### Productions -/

/-- A production is declared as it was checked, or not at all. -/
theorem run_production (lhs : SymbolId) (rhs : List SymbolId) (b : Builder V) :
    (production lhs rhs).run.run b = match b.checkedProduction lhs rhs with
      | .ok p => (.ok b.productions.size, { b with productions := b.productions.push p })
      | .error e => (.error e, b) := by
  rw [production, ExceptT.run_run_get_bind, ExceptT.run_run_lift_bind]
  cases b.checkedProduction lhs rhs <;> rfl

section Declared

/-- All productions declared so far have a property, by the symbols there are. -/
def AllProductions (Q : Array (Symbol V) → Production → Prop) (b : Builder V) : Prop :=
  ∀ p ∈ b.productions, Q b.symbols p

variable {Q : Array (Symbol V) → Production → Prop}

/-- A property that more symbols do not break survives entering one. -/
theorem keeps_enter (stable : ∀ symbols symbol p, Q symbols p → Q (symbols.push symbol) p)
    (symbol : Symbol V) : Keeps (AllProductions Q) (enter symbol) :=
  fun b hb p hp => stable b.symbols symbol p (hb p hp)

/-- A property that checked productions have survives declaring one. -/
theorem keeps_production
    (checked : ∀ b lhs rhs p, checkedProduction b lhs rhs = .ok p → Q b.symbols p)
    (lhs : SymbolId) (rhs : List SymbolId) : Keeps (AllProductions Q) (production lhs rhs) := by
  intro b hb
  rw [run_production]
  cases outcome : b.checkedProduction lhs rhs with
  | error e => exact hb
  | ok new =>
      intro p hp
      rcases Array.mem_push.mp hp with old | rfl
      · exact hb p old
      · exact checked b lhs rhs p outcome

/-- **What every checked production has, every declared one has**, whatever is called, when more
symbols do not break it. -/
theorem allProductions_after
    (stable : ∀ symbols symbol p, Q symbols p → Q (symbols.push symbol) p)
    (checked : ∀ b lhs rhs p, checkedProduction b lhs rhs = .ok p → Q b.symbols p)
    (calls : List (Call V)) : AllProductions Q (after calls) := by
  have each : ∀ c : Call V, Keeps (AllProductions Q) c.perform := by
    intro c
    cases c with
    | nonTerminal name => exact (keeps_enter stable _).discard
    | constant name value => exact (keeps_enter stable _).discard
    | fresh name => exact Keeps.discard fun b hb => keeps_enter stable _ b hb
    | operation name apply => exact (keeps_enter stable _).discard
    | declareNonTerminals symbols => exact fun b hb => hb
    | declareTerminals symbols => exact fun b hb => hb
    | startAt symbol => exact fun b hb => hb
    | production lhs rhs => exact (keeps_production checked lhs rhs).discard
    | leafProductions lhs leaves =>
        exact (Keeps.mapM (fun leaf => keeps_production checked lhs [leaf]) leaves).discard
  have all : ∀ b, AllProductions Q b → AllProductions Q (calls.foldl Call.run b) := by
    induction calls with
    | nil => exact fun b hb => hb
    | cons c calls ih => exact fun b hb => ih _ (each c b hb)
  exact all {} fun p hp => absurd hp (Array.not_mem_empty p)

end Declared

/-- The left-hand side is a non-terminal and the right-hand side is not empty. -/
def Rewrites (symbols : Array (Symbol V)) (p : Production) : Prop :=
  symbols[p.lhs]?.any Symbol.isNonTerminal = true ∧ p.rhs ≠ []

theorem rewrites_push (symbols : Array (Symbol V)) (symbol : Symbol V) (p : Production)
    (h : Rewrites symbols p) : Rewrites (symbols.push symbol) p := by
  have inside : p.lhs < symbols.size := by
    by_contra outside
    have kind := h.1
    rw [Array.getElem?_eq_none (Nat.le_of_not_lt outside)] at kind
    cases kind
  refine ⟨?_, h.2⟩
  rw [Array.getElem?_push_lt inside, ← Array.getElem?_eq_getElem inside]
  exact h.1

theorem rewrites_of_checkedProduction (b : Builder V) (lhs : SymbolId) (rhs : List SymbolId)
    (p : Production) (h : b.checkedProduction lhs rhs = .ok p) : Rewrites b.symbols p := by
  obtain ⟨acceptable, rfl⟩ := checkedProduction_eq_ok_iff.mp h
  obtain ⟨s, hs⟩ := List.exists_mem_of_ne_nil _ acceptable.something
  exact ⟨acceptable.owner, List.ne_nil_of_mem (mem_operationsFirst_iff.mpr hs)⟩

end Builder

namespace Grammar

variable {V : Type} {g : Grammar V}

/-- Every production rewrites a non-terminal, and to something. -/
def Rewriting (g : Grammar V) : Prop :=
  ∀ p ∈ g.productions, g.isNonTerminal p.lhs = true ∧ p.rhs ≠ []

theorem Built.rewriting (h : g.Built) : g.Rewriting := by
  obtain ⟨calls, built⟩ := h
  obtain ⟨symbols, productions, -⟩ := Builder.frozen_of_build built
  intro p hp
  rw [productions] at hp
  have declared := Builder.allProductions_after Builder.rewrites_push
    Builder.rewrites_of_checkedProduction calls p hp
  rw [← symbols] at declared
  exact declared

/-- Terminals have no productions. -/
theorem Rewriting.isNonTerminal_of_mem (h : g.Rewriting) {s : SymbolId} {p : ProductionId}
    (hp : p ∈ g.productionsOf s) : g.isNonTerminal s = true := by
  obtain ⟨production, found, rfl⟩ := mem_productionsOf_iff.mp hp
  exact (h production (Array.mem_of_getElem? found)).1

end Grammar

end GrammarEvolution
