import GrammarEvolution.Proofs.Grammar.Record

/-!
What a refused declaration leaves behind.

A production that is refused leaves no trace. Leaf productions are declared one after the other,
and nothing is taken back: those before the first that is refused stay. `transcript` is all that
further calls and `build` make known of a builder.

* `snd_transcript`: a transcript ends with what the calls build.
* `run_leafProductions_of_ok`: leaves that are all accepted are declared in order.
* `exists_leading_of_refused`: a list of leaves that is refused ends at its first refused leaf.
* `refused_outcome`: so after a refused call everything goes on as if the leading leaves alone had
  been declared, or nothing at all.
-/

namespace GrammarEvolution

namespace Builder

open ExceptT (run_run_bind)

variable {V : Type} {b b' : Builder V} {lhs : SymbolId} {leaves : List SymbolId} {e : Error}

/-! ### Answers -/

/-- A call, and the numbers that it answers. -/
def Call.answer : Call V → Declaring V (List Nat)
  | nonTerminal name => return [← Builder.nonTerminal name]
  | constant name value => return [← Builder.constant name value]
  | fresh name => return [← Builder.fresh name]
  | operation name apply => return [← Builder.operation name apply]
  | declareNonTerminals symbols => do Builder.declareNonTerminals symbols; return []
  | declareTerminals symbols => do Builder.declareTerminals symbols; return []
  | startAt symbol => do Builder.startAt symbol; return []
  | production lhs rhs => return [← Builder.production lhs rhs]
  | leafProductions lhs leaves => Builder.leafProductions lhs leaves

/-- What the calls answer one after the other, and what is built in the end. -/
def transcript (b : Builder V) : List (Call V) →
    List (Except Error (List Nat)) × Except Error (Grammar V)
  | [] => ([], b.build)
  | c :: later =>
      let (answer, b) := c.answer.run.run b
      let (answers, built) := b.transcript later
      (answer :: answers, built)

theorem transcript_cons {c : Call V} {answer : Except Error (List Nat)}
    (run : c.answer.run.run b = (answer, b')) (later : List (Call V)) :
    b.transcript (c :: later) = (answer :: (b'.transcript later).1, (b'.transcript later).2) := by
  rw [transcript, run]

/-- A call does the same whether anybody asks for its numbers or not. -/
theorem rest_answer (c : Call V) (b : Builder V) : (c.answer.run.run b).2 = c.run b := by
  cases c with
  | nonTerminal name => rfl
  | constant name value => rfl
  | fresh name => rfl
  | operation name apply => rfl
  | declareNonTerminals symbols => rfl
  | declareTerminals symbols => rfl
  | startAt symbol => rfl
  | production lhs rhs =>
      exact (run_bind_pure _ _ b).trans (run_discard (Builder.production lhs rhs) b).symm
  | leafProductions lhs leaves => exact (run_discard (Builder.leafProductions lhs leaves) b).symm

theorem snd_transcript (b : Builder V) (calls : List (Call V)) :
    (b.transcript calls).2 = (calls.foldl Call.run b).build := by
  induction calls generalizing b with
  | nil => rfl
  | cons c calls ih =>
      rw [List.foldl_cons, ← rest_answer, ← ih]
      rfl

/-! ### Leaves -/

/-- The builder with one more production for each leaf. -/
def withLeaves (b : Builder V) (lhs : SymbolId) (leaves : List SymbolId) : Builder V :=
  { b with productions := b.productions ++ leaves.map fun leaf => Production.mk lhs [leaf] }

@[simp] theorem withLeaves_nil (b : Builder V) (lhs : SymbolId) : b.withLeaves lhs [] = b := by
  rw [withLeaves, List.map_nil, Array.appendList_nil]

theorem withLeaves_cons (b : Builder V) (lhs leaf : SymbolId) (leaves : List SymbolId) :
    b.withLeaves lhs (leaf :: leaves) = (b.withLeaves lhs [leaf]).withLeaves lhs leaves := by
  simp [withLeaves]

theorem withLeaves_eq_self_iff : b.withLeaves lhs leaves = b ↔ leaves = [] := by
  constructor
  · intro same
    have size := congrArg (fun b => b.productions.toList.length) same
    simpa [withLeaves] using size
  · rintro rfl
    exact withLeaves_nil b lhs

/-- The productions that there are do not decide what is refused. -/
theorem checkedProduction_withLeaves (rhs : List SymbolId) (s : SymbolId) :
    (b.withLeaves lhs leaves).checkedProduction s rhs = b.checkedProduction s rhs :=
  rfl

/-- An accepted leaf is declared as it is. -/
theorem run_production_leaf {leaf : SymbolId} {p : Production}
    (ok : b.checkedProduction lhs [leaf] = .ok p) :
    (production lhs [leaf]).run.run b = (.ok b.productions.size, b.withLeaves lhs [leaf]) := by
  obtain ⟨-, rfl⟩ := checkedProduction_eq_ok_iff.mp ok
  have whole : b.operationsFirst [leaf] = [leaf] :=
    List.perm_singleton.mp (b.operationsFirst_perm [leaf])
  rw [run_production, ok, whole, withLeaves, List.map_singleton, Array.appendList_cons,
    Array.appendList_nil]

/-- The first leaf is declared, and the others after it, unless it is refused. -/
theorem run_leafProductions_cons (b : Builder V) (lhs leaf : SymbolId) (leaves : List SymbolId) :
    (leafProductions lhs (leaf :: leaves)).run.run b = match b.checkedProduction lhs [leaf] with
      | .error e => (.error e, b)
      | .ok _ =>
          let (numbers, b') := (leafProductions lhs leaves).run.run (b.withLeaves lhs [leaf])
          (numbers.map (b.productions.size :: ·), b') := by
  rw [leafProductions, List.mapM_cons, run_run_bind]
  cases first : b.checkedProduction lhs [leaf] with
  | error e => rw [run_production, first]
  | ok p =>
      rw [run_production_leaf first]
      dsimp only
      rw [run_run_bind, leafProductions]
      rcases (leaves.mapM fun leaf => production lhs [leaf]).run.run (b.withLeaves lhs [leaf]) with
        ⟨_ | numbers, b'⟩ <;> rfl

/-- Leaves that are all accepted are declared in order. -/
theorem run_leafProductions_of_ok
    (ok : ∀ leaf ∈ leaves, ∃ p, b.checkedProduction lhs [leaf] = .ok p) :
    (leafProductions lhs leaves).run.run b =
      (.ok (List.range' b.productions.size leaves.length), b.withLeaves lhs leaves) := by
  induction leaves generalizing b with
  | nil =>
      rw [withLeaves_nil]
      rfl
  | cons leaf leaves ih =>
      obtain ⟨⟨p, first⟩, others⟩ := List.forall_mem_cons.mp ok
      have next : (b.withLeaves lhs [leaf]).productions.size = b.productions.size + 1 := by
        simp [withLeaves]
      rw [run_leafProductions_cons, first]
      dsimp only
      rw [ih (b := b.withLeaves lhs [leaf]) others, next, withLeaves_cons b, List.length_cons,
        List.range'_succ]
      rfl

/-- A list of leaves that is refused ends at its first refused leaf. -/
theorem exists_leading_of_refused
    (refused : (leafProductions lhs leaves).run.run b = (.error e, b')) :
    ∃ leading leaf rest, leaves = leading ++ leaf :: rest ∧
      (∀ l ∈ leading, ∃ p, b.checkedProduction lhs [l] = .ok p) ∧
      b.checkedProduction lhs [leaf] = .error e ∧ b' = b.withLeaves lhs leading := by
  induction leaves generalizing b with
  | nil => cases refused
  | cons leaf leaves ih =>
      rw [run_leafProductions_cons] at refused
      cases first : b.checkedProduction lhs [leaf] with
      | error e' =>
          rw [first] at refused
          obtain ⟨⟨⟩, ⟨⟩⟩ := Prod.mk.inj refused
          exact ⟨[], leaf, leaves, rfl, fun _ => nofun, first, (withLeaves_nil _ lhs).symm⟩
      | ok p =>
          rw [first] at refused
          dsimp only at refused
          rcases rest : (leafProductions lhs leaves).run.run (b.withLeaves lhs [leaf]) with
            ⟨_ | numbers, b''⟩
          · rw [rest] at refused
            obtain ⟨⟨⟩, ⟨⟩⟩ := Prod.mk.inj refused
            obtain ⟨leading, bad, later, rfl, accepted, because, rfl⟩ := ih rest
            exact ⟨leaf :: leading, bad, later, rfl,
              List.forall_mem_cons.mpr ⟨⟨p, first⟩, accepted⟩, because,
              (withLeaves_cons b lhs leaf leading).symm⟩
          · rw [rest] at refused
            cases refused

/-! ### Refusals -/

/-- A refused call that leaves no trace: the builder is what it was, and whatever is called later is
answered as if the call had not been made. -/
structure Traceless (b : Builder V) (c : Call V) (e : Error) (b' : Builder V) : Prop where
  unchanged : b' = b
  later : ∀ calls, b.transcript (c :: calls) =
    (.error e :: (b.transcript calls).1, (b.transcript calls).2)

/-- A list of leaves that ends at its first refused leaf: the builder has the productions of the
leading leaves, and whatever is called later is answered as if no more had been asked for. -/
structure Truncated (b : Builder V) (lhs : SymbolId) (leaves leading : List SymbolId) (e : Error)
    (b' : Builder V) : Prop where
  refused : ∃ leaf rest, leaves = leading ++ leaf :: rest ∧
    (production lhs [leaf]).run.run b' = (.error e, b')
  declared : (leafProductions lhs leading).run.run b =
    (.ok (List.range' b.productions.size leading.length), b')
  added : b' = b.withLeaves lhs leading
  unchanged_iff : b' = b ↔ leading = []
  later : ∀ calls, b.transcript (.leafProductions lhs leaves :: calls) =
    let instead := b.transcript (.leafProductions lhs leading :: calls)
    (.error e :: instead.1.tail, instead.2)

/-- A production that is refused leaves no trace. -/
theorem traceless_of_refused {rhs : List SymbolId}
    (refused : (production lhs rhs).run.run b = (.error e, b')) :
    Traceless b (.production lhs rhs) e b' := by
  have same : b' = b := by
    rw [run_production] at refused
    cases checked : b.checkedProduction lhs rhs with
    | ok p =>
        rw [checked] at refused
        cases refused
    | error e' =>
        rw [checked] at refused
        exact (Prod.mk.inj refused).2.symm
  subst same
  have answered : (Call.production lhs rhs).answer.run.run b' = (.error e, b') := by
    rw [Call.answer, run_run_bind, refused]
  exact ⟨rfl, transcript_cons answered⟩

/-- Leaf productions that are refused leave those of the leading leaves. -/
theorem truncated_of_refused (refused : (leafProductions lhs leaves).run.run b = (.error e, b')) :
    ∃ leading, Truncated b lhs leaves leading e b' := by
  obtain ⟨leading, leaf, rest, split, accepted, because, rfl⟩ := exists_leading_of_refused refused
  have declared := run_leafProductions_of_ok accepted
  refine ⟨leading, ⟨leaf, rest, split, ?_⟩, declared, rfl, withLeaves_eq_self_iff, fun calls => ?_⟩
  · rw [run_production, checkedProduction_withLeaves, because]
  · rw [transcript_cons (c := .leafProductions lhs leaves) refused,
      transcript_cons (c := .leafProductions lhs leading) declared]
    rfl

/-- **What a refusal leaves behind.** A refused production leaves nothing behind: every later call
is answered, and everything is built, as if it had never been declared. Leaf productions are
refused for the first leaf that is, and then everything is as if the leaves before it had been
declared and no others, so nothing is left behind exactly when the first leaf is refused. -/
theorem refused_outcome (b : Builder V) (lhs : SymbolId) (e : Error) (b' : Builder V) :
    (∀ rhs, (production lhs rhs).run.run b = (.error e, b') →
      Traceless b (.production lhs rhs) e b') ∧
    ∀ leaves, (leafProductions lhs leaves).run.run b = (.error e, b') →
      ∃ leading, Truncated b lhs leaves leading e b' :=
  ⟨fun _ refused => traceless_of_refused refused, fun _ refused => truncated_of_refused refused⟩

/-- A start symbol and a constant that it may be rewritten to, but is not yet. -/
def oneLeaf : Builder Nat :=
  after [.nonTerminal "S", .constant "one" 1, .declareNonTerminals [0], .declareTerminals [1],
    .startAt 0]

theorem refused_outcome_oneLeaf :
    ((production 0 [7]).run.run oneLeaf = (.error (.config (.foreignSymbol 7)), oneLeaf) ∧
      Traceless oneLeaf (.production 0 [7]) (.config (.foreignSymbol 7)) oneLeaf) ∧
    (leafProductions 0 [1, 7]).run.run oneLeaf =
      (.error (.config (.foreignSymbol 7)), oneLeaf.withLeaves 0 [1]) ∧
    ∃ leading, Truncated oneLeaf 0 [1, 7] leading (.config (.foreignSymbol 7))
      (oneLeaf.withLeaves 0 [1]) :=
  ⟨⟨rfl, (refused_outcome oneLeaf 0 _ _).1 [7] rfl⟩,
    rfl, (refused_outcome oneLeaf 0 _ _).2 [1, 7] rfl⟩

/-- A refusal of leaf productions need not leave the builder as it was: the leaf before the refused
one has its production, the next production has another number, and the grammar has two. -/
theorem leaf_left_behind :
    (leafProductions 0 [1, 7]).run.run oneLeaf =
      (.error (.config (.foreignSymbol 7)), oneLeaf.withLeaves 0 [1]) ∧
    oneLeaf.withLeaves 0 [1] ≠ oneLeaf ∧
    (oneLeaf.transcript [.leafProductions 0 [1, 7], .production 0 [1]]).1 =
      [.error (.config (.foreignSymbol 7)), .ok [1]] ∧
    (oneLeaf.transcript [.production 0 [1]]).1 = [.ok [0]] ∧
    (oneLeaf.transcript [.leafProductions 0 [1, 7], .production 0 [1]]).2.map
      (·.productions.size) = .ok 2 ∧
    (oneLeaf.transcript [.production 0 [1]]).2.map (·.productions.size) = .ok 1 := by
  refine ⟨rfl, ?_, rfl, rfl, ?_, ?_⟩
  · rw [ne_eq, withLeaves_eq_self_iff]
    decide
  · rw [snd_transcript]
    decide +kernel
  · rw [snd_transcript]
    decide +kernel

end Builder

end GrammarEvolution
