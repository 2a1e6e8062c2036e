import GrammarEvolution.Grammar.Written
import GrammarEvolution.Proofs.Grammar.Nodewise

/-!
Trees of symbol numbers as texts.

A node is written as its number in brackets of its own, and then its children in brackets, if it has
any. Where a tree ends shows in what comes next: an opening bracket goes on with the same node, and
anything else does not. So the text of a tree tells the tree from whatever follows it, as long as
that does not begin with an opening bracket, and what follows a child never does.

* `Rose.recognizable`: a tree can be told from what follows it.
* `shapeAt_eq_iff_matches`: trees are compared from node to node.
* `numbered_eq_iff`: two trees have the same text when they are alike.
-/

namespace List

variable {α : Type}

/-- The first occurrence of an element ends what is before it. -/
theorem append_cons_inj_of_first {a : α} {xs ys us vs : List α} (hx : a ∉ xs) (hy : a ∉ ys)
    (h : xs ++ a :: us = ys ++ a :: vs) : xs = ys ∧ us = vs := by
  induction xs generalizing ys with
  | nil =>
      cases ys with
      | nil => exact ⟨rfl, (cons.inj h).2⟩
      | cons y ys =>
          obtain ⟨rfl, -⟩ := cons.inj h
          exact absurd mem_cons_self hy
  | cons x xs ih =>
      cases ys with
      | nil =>
          obtain ⟨rfl, -⟩ := cons.inj h
          exact absurd mem_cons_self hx
      | cons y ys =>
          obtain ⟨rfl, rest⟩ := cons.inj h
          obtain ⟨rfl, same⟩ := ih (not_mem_of_not_mem_cons hx) (not_mem_of_not_mem_cons hy) rest
          exact ⟨rfl, same⟩

end List

namespace GrammarEvolution

namespace Rose

/-! ### Characters of a text -/

theorem numbered_node (s : SymbolId) (cs : List (Rose SymbolId)) :
    (node s cs).numbered =
      let below := String.intercalate " " (cs.map numbered)
      if cs.isEmpty then s!"SymbolId({s})" else s!"SymbolId({s})({below})" := by
  simp [numbered, fold_node, Function.comp_def]

/-- What is written after a child: its later siblings, and the bracket that closes the list. -/
def afterChild : List (Rose SymbolId) → List Char
  | [] => [')']
  | c :: cs => ' ' :: (c.numbered.toList ++ afterChild cs)

/-- What is written after the number of a node. -/
def afterNumber : List (Rose SymbolId) → List Char
  | [] => []
  | c :: cs => '(' :: (c.numbered.toList ++ afterChild cs)

theorem toList_intercalate_numbered (c : Rose SymbolId) (cs : List (Rose SymbolId)) :
    (String.intercalate " " ((c :: cs).map numbered)).toList ++ [')'] =
      c.numbered.toList ++ afterChild cs := by
  induction cs generalizing c with
  | nil => simp [afterChild]
  | cons d cs ih =>
      rw [List.map_cons, List.map_cons, String.intercalate_cons_cons, ← List.map_cons,
        String.toList_append, String.toList_append, List.append_assoc, ih, List.append_assoc]
      rfl

theorem toList_numbered_node (s : SymbolId) (cs : List (Rose SymbolId)) :
    (node s cs).numbered.toList =
      "SymbolId(".toList ++ (Nat.toDigits 10 s ++ ')' :: afterNumber cs) := by
  rw [numbered_node]
  cases cs with
  | nil => simp [afterNumber, toString]
  | cons c cs =>
      simp [afterNumber, toString, ← toList_intercalate_numbered]

/-! ### Telling a tree from what follows it -/

/-- The text of a tree and what follows can be told apart, unless that goes on with the same
node. -/
def Recognizable (t : Rose SymbolId) : Prop :=
  ∀ (u : Rose SymbolId) (x y : List Char), x.head? ≠ some '(' → y.head? ≠ some '(' →
    t.numbered.toList ++ x = u.numbered.toList ++ y → t = u ∧ x = y

theorem head?_afterChild_append (cs : List (Rose SymbolId)) (x : List Char) :
    (afterChild cs ++ x).head? ≠ some '(' := by
  cases cs <;> simp [afterChild]

/-- So can a list of siblings and what follows it, whatever that is. -/
theorem afterChild_append_inj {cs ds : List (Rose SymbolId)} {x y : List Char}
    (each : ∀ c ∈ cs, c.Recognizable) (h : afterChild cs ++ x = afterChild ds ++ y) :
    cs = ds ∧ x = y := by
  induction cs generalizing ds with
  | nil =>
      cases ds with
      | nil => exact ⟨rfl, (List.cons.inj h).2⟩
      | cons d ds => simp [afterChild] at h
  | cons c cs ih =>
      cases ds with
      | nil => simp [afterChild] at h
      | cons d ds =>
          simp only [afterChild, List.cons_append, List.append_assoc, List.cons.injEq,
            true_and] at h
          obtain ⟨rfl, later⟩ := each c List.mem_cons_self d _ _
            (head?_afterChild_append cs x) (head?_afterChild_append ds y) h
          obtain ⟨rfl, same⟩ := ih (fun c' hc' => each c' (List.mem_cons_of_mem _ hc')) later
          exact ⟨rfl, same⟩

/-- The children of a node and what follows it, if that does not go on with the same node. -/
theorem afterNumber_append_inj {cs ds : List (Rose SymbolId)} {x y : List Char}
    (each : ∀ c ∈ cs, c.Recognizable) (hx : x.head? ≠ some '(') (hy : y.head? ≠ some '(')
    (h : afterNumber cs ++ x = afterNumber ds ++ y) : cs = ds ∧ x = y := by
  cases cs with
  | nil =>
      cases ds with
      | nil => exact ⟨rfl, h⟩
      | cons d ds =>
          rw [afterNumber, List.nil_append] at h
          simp [h, afterNumber] at hx
  | cons c cs =>
      cases ds with
      | nil =>
          rw [afterNumber.eq_1, List.nil_append] at h
          simp [← h, afterNumber] at hy
      | cons d ds =>
          -- With their opening brackets, the children are written as later siblings are.
          refine afterChild_append_inj each ?_
          simpa [afterNumber, afterChild] using h

theorem not_mem_toDigits (n : Nat) : ')' ∉ Nat.toDigits 10 n := by
  intro mem
  cases Nat.isDigit_of_mem_toDigits (by decide) (by decide) mem

theorem toDigits_injective {m n : Nat} (h : Nat.toDigits 10 m = Nat.toDigits 10 n) : m = n := by
  simpa using congrArg (Nat.ofDigitChars 10 · 0) h

/-- **A tree can be told from what follows it.** -/
theorem recognizable (t : Rose SymbolId) : t.Recognizable := by
  induction t using Rose.induction with
  | step s cs ih =>
      rintro ⟨s', ds⟩ x y hx hy h
      simp only [toList_numbered_node, List.append_assoc, List.append_cancel_left_eq,
        List.cons_append] at h
      obtain ⟨digits, rest⟩ :=
        List.append_cons_inj_of_first (not_mem_toDigits s) (not_mem_toDigits s') h
      obtain ⟨rfl, same⟩ := afterNumber_append_inj ih hx hy rest
      exact ⟨by rw [toDigits_injective digits], same⟩

theorem numbered_injective {t u : Rose SymbolId} (h : t.numbered = u.numbered) : t = u :=
  (recognizable t u [] [] nofun nofun (by rw [h])).1

end Rose

namespace Tree

variable {t u : Tree}

/-! ### Comparing from node to node -/

/-- Two nodes match when they hold the same symbol and have, in number and order, children that
match. -/
inductive Matches (t u : Tree) : Nat → Nat → Prop where
  | node {n m : Nat} : t.symbol n = u.symbol m →
      List.Forall₂ (Matches t u) (t.children n) (u.children m) → Matches t u n m

theorem shapeAt_eq_iff_matches (ht : t.WellFormed) (hu : u.WellFormed) {n m : Nat} :
    t.shapeAt n = u.shapeAt m ↔ t.Matches u n m := by
  induction n using ht.wellFounded_children.induction generalizing m with
  | _ n ih =>
      have each : ∀ c ∈ t.children n, ∀ d, t.shapeAt c = u.shapeAt d ↔ t.Matches u c d :=
        fun c hc d => ih c hc
      rw [shapeAt_eq_iff ht hu]
      constructor
      · rintro ⟨symbol, children⟩
        have both := (List.forall₂_and_left _ _).mpr ⟨each, children⟩
        exact .node symbol (both.imp fun c d alike => (alike.1 d).mp alike.2)
      · rintro ⟨symbol, children⟩
        have both := (List.forall₂_and_left _ _).mpr ⟨each, children⟩
        exact ⟨symbol, both.imp fun c d alike => (alike.1 d).mpr alike.2⟩

/-- **The text of a tree determines it**, and nothing else does: two trees have the same text when
they are alike, that is, when their roots match. How their nodes are numbered, and what the roots do
not reach, is not told. -/
theorem numbered_eq_iff (ht : t.WellFormed) (hu : u.WellFormed) :
    (t.numbered = u.numbered ↔ (t == u) = true) ∧
      ((t == u) = true ↔ t.Matches u t.root u.root) := by
  refine ⟨?_, ?_⟩
  · rw [beq_iff]
    exact ⟨Rose.numbered_injective, congrArg Rose.numbered⟩
  · rw [beq_iff]
    exact shapeAt_eq_iff_matches ht hu

/-- The second tree is the first, entered in another order and without a node that no one lists. The
third has the same symbols in the same order, but puts them into one line. -/
theorem numbered_entangled :
    let t : Tree := ⟨#[⟨1, none, [3, 1]⟩, ⟨2, some 0, [2]⟩, ⟨3, some 1, []⟩, ⟨12, some 0, []⟩,
      ⟨7, some 2, []⟩]⟩
    let u := ofShape (.node 1 [.node 12 [], .node 2 [.node 3 []]])
    let v := ofShape (.node 1 [.node 12 [.node 2 [.node 3 []]]])
    (t.WellFormed ∧ u.WellFormed ∧ v.WellFormed ∧ t ≠ u ∧
      t.preorder.map t.symbol = v.preorder.map v.symbol) ∧
    t.numbered = u.numbered ∧ t.numbered ≠ v.numbered := by
  intro t u v
  have ht : t.WellFormed := by decide
  have hu : u.WellFormed := wellFormed_ofShape _
  have hv : v.WellFormed := wellFormed_ofShape _
  refine ⟨⟨ht, hu, hv, by decide +kernel, by decide +kernel⟩, ?_, ?_⟩
  · exact (numbered_eq_iff ht hu).1.mpr (by decide +kernel)
  · intro same
    exact absurd ((numbered_eq_iff ht hv).1.mp same) (by decide +kernel)

end Tree

end GrammarEvolution
