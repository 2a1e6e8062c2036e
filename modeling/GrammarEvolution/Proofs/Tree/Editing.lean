import GrammarEvolution.Proofs.Grammar.Built
import GrammarEvolution.Proofs.Tree.Reached

/-!
Edits in place.

`Grammar.expand`, `Tree.replace` and `Tree.swap` answer new trees, and one that fails answers none,
so there is no tree that it could have left half edited. An `Editing` writes to the trees at hand as
it goes, and what it wrote before a failure stays. Written in this way, the three operations look
everything up before they write.

* `run_expand`, `run_replace`, `run_swap`: each ends as the operation that answers new trees, and
  one that fails has written nothing.
* `exists_expand_iff`, `exists_replace_iff`, `exists_swap_iff`: an edit fails when a node has
  children already, or when a node is in no list of children.
* `failing_edits`: so a failing edit leaves every node of every tree as it was, and which edits fail
  is decided by symbols and lists of children alone.
-/

namespace GrammarEvolution

/-- An edit of what is at hand: when it fails, what it wrote before stays written. -/
abbrev Editing (σ : Type) := ExceptT Error (StateM σ)

namespace Editing

open ExceptT (run_run_bind run_run_get_bind run_run_lift_bind)

variable {V σ α : Type} {t u : Tree}

/-! ### The operations -/

/-- A derivation step: the node is looked at, and then the new nodes join it one after the other. -/
def expand (g : Grammar V) (n : Nat) (p : Production) : Editing Tree (List Nat) := do
  let t ← get
  if t.symbol n ≠ p.lhs then
    throw (.structural (.foreignProduction (g.name (t.symbol n)) (g.name p.lhs)))
  unless t.isLeaf n do
    throw (.structural (.alreadyExpanded (g.name p.lhs)))
  p.rhs.mapM fun s => modifyGet fun t => t.pushChild n s

/-- A replacement: the place is looked up, the other tree is copied to the end of the table, the
child slot is pointed at the copy, and the table is rebuilt. -/
def replace (a : Nat) (u : Tree) : Editing Tree Unit := do
  let (p, i) ← (← get).position a
  let copied ← modifyGet fun t => u.copySubtree u.root t (some p)
  modify fun t => t.relink p (·.set i copied)
  modify Tree.compact

/-- An exchange: both places are looked up, each subtree is copied to the end of the other table,
the second one from a table that holds the first copy already, and then both tables are finished as
after a replacement. -/
def swap (a b : Nat) : Editing (Tree × Tree) Unit := do
  let (p, i) ← (← get).1.position a
  let (q, j) ← (← get).2.position b
  let x ← modifyGet fun (t, u) => let (x, u) := t.copySubtree a u (some q); (x, t, u)
  let y ← modifyGet fun (t, u) => let (y, t) := u.copySubtree b t (some p); (y, t, u)
  modify fun (t, u) => (t.relink p (·.set i y), u)
  modify fun (t, u) => (t, u.relink q (·.set j x))
  modify fun (t, u) => (t.compact, u)
  modify fun (t, u) => (t, u.compact)

/-! ### How they end -/

/-- The end of an edit that writes all that `whole` answers, or fails before it writes anything. -/
def settled (s : σ) : Except Error (α × σ) → Except Error α × σ
  | .ok (a, s') => (.ok a, s')
  | .error e => (.error e, s)

/-- New nodes that join one after the other are the new nodes of a derivation step. -/
theorem run_pushChildren (n : Nat) (ss : List SymbolId) (t : Tree) :
    (ss.mapM fun s => (modifyGet fun t => t.pushChild n s : Editing Tree Nat)).run.run t =
      (.ok (t.pushChildren n ss).1, (t.pushChildren n ss).2) := by
  induction ss generalizing t with
  | nil => rfl
  | cons s ss ih =>
      have others := ih (t.pushChild n s).2
      rw [List.mapM_cons, run_run_bind]
      change ((ss.mapM _ >>= fun ns => pure ((t.pushChild n s).1 :: ns)) : Editing Tree _).run.run
        (t.pushChild n s).2 = _
      rw [run_run_bind, others]
      rfl

theorem run_expand (g : Grammar V) (n : Nat) (p : Production) (t : Tree) :
    (expand g n p).run.run t = settled t (g.expand t n p) := by
  rw [expand, run_run_get_bind, Grammar.expand]
  by_cases same : t.symbol n = p.lhs
  · cases leaf : t.isLeaf n with
    | false =>
        simp only [same, ne_eq, not_true_eq_false, Bool.false_eq_true, ↓reduceIte]
        rfl
    | true =>
        simp only [same, ne_eq, not_true_eq_false, ↓reduceIte]
        exact run_pushChildren n p.rhs t
  · simp only [same, ne_eq, not_false_eq_true, ↓reduceIte]
    rfl

theorem run_replace (a : Nat) (u t : Tree) :
    (replace a u).run.run t = settled t ((t.replace a u).map fun t' => ((), t')) := by
  rw [replace, run_run_get_bind, run_run_lift_bind, Tree.replace]
  cases t.position a <;> rfl

/-- The subtree that is read second is still what it was, though its table has grown. -/
theorem run_swap (hu : u.WellFormed) (a b : Nat) (t : Tree) :
    (swap a b).run.run (t, u) = settled (t, u) ((t.swap a u b).map fun both => ((), both)) := by
  rw [swap, run_run_get_bind, run_run_lift_bind, Tree.swap]
  cases here : t.position a with
  | error e => rfl
  | ok place =>
      obtain ⟨p, i⟩ := place
      dsimp only
      rw [run_run_get_bind, run_run_lift_bind]
      cases there : u.position b with
      | error e => rfl
      | ok place =>
          obtain ⟨q, j⟩ := place
          have second : (u.graft (t.shapeAt a) (some q)).2.shapeAt b = u.shapeAt b :=
            hu.shapeAt_graft (hu.lt_of_position there).2
          change (Except.ok (), t.plant p i ((u.graft (t.shapeAt a) (some q)).2.shapeAt b),
            u.plant q j (t.shapeAt a)) = _
          rw [second]
          rfl

/-! ### When they fail -/

/-- A derivation step is possible at a childless node with the left-hand side. -/
theorem exists_expand_iff (g : Grammar V) (t : Tree) (n : Nat) (p : Production) :
    (∃ grown, g.expand t n p = .ok grown) ↔ t.symbol n = p.lhs ∧ t.children n = [] := by
  have leaf : t.isLeaf n = true ↔ t.children n = [] := List.isEmpty_iff
  simp only [Tree.expand_eq_ok_iff, leaf, exists_and_left, exists_eq', and_true]

/-- Something can be put in place of a node that some node lists. -/
theorem exists_replace_iff (h : t.WellFormed) (a : Nat) (u : Tree) :
    (∃ t', t.replace a u = .ok t') ↔ ∃ m, a ∈ t.children m := by
  rw [← h.exists_position_iff, Prod.exists]
  constructor
  · rintro ⟨t', replaced⟩
    obtain ⟨m, i, here, -⟩ := Tree.replace_eq_ok_iff.mp replaced
    exact ⟨m, i, here⟩
  · rintro ⟨m, i, here⟩
    exact ⟨_, Tree.replace_eq_ok_iff.mpr ⟨m, i, here, rfl⟩⟩

/-- Two nodes can be exchanged when some node lists the one and some node lists the other. -/
theorem exists_swap_iff (ht : t.WellFormed) (hu : u.WellFormed) (a b : Nat) :
    (∃ both, t.swap a u b = .ok both) ↔ (∃ m, a ∈ t.children m) ∧ ∃ m, b ∈ u.children m := by
  rw [← ht.exists_position_iff, ← hu.exists_position_iff, Prod.exists, Prod.exists, Prod.exists]
  constructor
  · rintro ⟨t', u', swapped⟩
    obtain ⟨p, i, q, j, here, there, -⟩ := Tree.swap_eq_ok_iff.mp swapped
    exact ⟨⟨p, i, here⟩, q, j, there⟩
  · rintro ⟨⟨p, i, here⟩, q, j, there⟩
    exact ⟨_, _, Tree.swap_eq_ok_iff.mpr ⟨p, i, q, j, here, there, rfl, rfl⟩⟩

/-- An edit in place ends as the operation that answers new trees. If it fails, everything is as it
was, and it fails for one cause only. -/
structure Settles (edit : Editing σ α) (s : σ) (whole : Except Error (α × σ)) (cause : Prop) :
    Prop where
  outcome : edit.run.run s = settled s whole
  unchanged : ∀ e s', edit.run.run s = (.error e, s') → s' = s
  fails_iff : (∃ e s', edit.run.run s = (.error e, s')) ↔ cause

theorem Settles.of_outcome {edit : Editing σ α} {s : σ} {whole : Except Error (α × σ)}
    {cause : Prop} (outcome : edit.run.run s = settled s whole)
    (fails : (¬ ∃ done, whole = .ok done) ↔ cause) : Settles edit s whole cause where
  outcome := outcome
  unchanged e s' failed := by
    rw [outcome] at failed
    cases whole with
    | ok done => cases failed
    | error e => exact (Prod.mk.inj failed).2.symm
  fails_iff := by
    rw [outcome, ← fails]
    cases whole with
    | ok done =>
        constructor
        · rintro ⟨e, s', failed⟩
          cases failed
        · exact fun none => absurd ⟨done, rfl⟩ none
    | error e => exact ⟨fun _ => nofun, fun _ => ⟨e, s, rfl⟩⟩

/-- For its cause the edit fails, and changes nothing. -/
theorem Settles.refused {edit : Editing σ α} {s : σ} {whole : Except Error (α × σ)} {cause : Prop}
    (h : Settles edit s whole cause) (because : cause) :
    ∃ e, edit.run.run s = (.error e, s) := by
  obtain ⟨e, s', failed⟩ := h.fails_iff.mpr because
  exact ⟨e, by rw [failed, h.unchanged e s' failed]⟩

/-- **An edit that fails changes nothing.** A derivation step fails exactly at a node that has
another symbol or has children already; a replacement exactly at a node that no node lists, be it
the root, a copy that nobody has taken in or a part that has been dropped; an exchange exactly when
one of its two nodes is of that kind. All others end as the operations that answer new trees. -/
theorem failing_edits (g : Grammar V) (p : Production) (ht : t.WellFormed) (hu : u.WellFormed)
    (n a b : Nat) :
    Settles (expand g n p) t (g.expand t n p) (t.symbol n ≠ p.lhs ∨ t.children n ≠ []) ∧
    Settles (replace a u) t ((t.replace a u).map fun t' => ((), t')) (∀ m, a ∉ t.children m) ∧
    Settles (swap a b) (t, u) ((t.swap a u b).map fun both => ((), both))
      ((∀ m, a ∉ t.children m) ∨ ∀ m, b ∉ u.children m) := by
  refine ⟨.of_outcome (run_expand g n p t) ?_, .of_outcome (run_replace a u t) ?_,
    .of_outcome (run_swap hu a b t) ?_⟩
  · rw [exists_expand_iff, not_and_or]
  · rw [Except.exists_map_eq_ok_iff, exists_replace_iff ht, not_exists]
  · rw [Except.exists_map_eq_ok_iff, exists_swap_iff ht hu, not_and_or, not_exists, not_exists]

/-- Node 3 is the top of a copy that nobody has taken in: nothing can be put in its place, and it
cannot be exchanged with a node that has one. -/
theorem failing_edits_spare : Tree.forkWithSpare.WellFormed ∧ Tree.fork.WellFormed ∧
    (∃ e, (expand Grammar.pairs 3 ⟨0, [1]⟩).run.run Tree.forkWithSpare =
      (.error e, Tree.forkWithSpare)) ∧
    (∃ e, (replace 3 Tree.fork).run.run Tree.forkWithSpare = (.error e, Tree.forkWithSpare)) ∧
    ∃ e, (swap 3 1).run.run (Tree.forkWithSpare, Tree.fork) =
      (.error e, Tree.forkWithSpare, Tree.fork) := by
  have spare : Tree.forkWithSpare.WellFormed := by decide
  have fork : Tree.fork.WellFormed := by decide
  obtain ⟨expanding, replacing, swapping⟩ :=
    failing_edits Grammar.pairs ⟨0, [1]⟩ spare fork 3 3 1
  have unlisted : ∀ m, 3 ∉ Tree.forkWithSpare.children m := by
    intro m listed
    have owner := spare.child_parent m 3 listed
    obtain rfl : 1 = m := Option.some.inj owner
    revert listed
    decide
  exact ⟨spare, fork, expanding.refused (.inr (by decide)), replacing.refused unlisted,
    swapping.refused (.inl unlisted)⟩

end Editing

end GrammarEvolution
