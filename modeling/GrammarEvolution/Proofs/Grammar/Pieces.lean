import GrammarEvolution.Proofs.Grammar.Evaluation
import GrammarEvolution.Proofs.Tree.Paths

/-!
Function notation, piece by piece.

A text is cut into pieces from left to right; a piece is a mark of the notation or the whole name of
a node. Function notation does not visit the operation at the head of a step, but writes its name,
and an operation has nothing below it. So the names that it writes are those of the childless nodes,
in the order of the walk, and only marks come between.

* `Cut.intercalate`: separated texts are cut when each of them is.
* `cut_displayAt`: what is written for a node names the childless nodes below it.
* `display_pieces`: the notation of a derivation, the walk and the string of leaves agree.
-/

namespace GrammarEvolution

open Rose (node)

namespace Tree

variable {t : Tree}

/-- The childless nodes below a node, in the order of the walk. -/
def leavesBelow (t : Tree) (n : Nat) : List Nat :=
  (t.outline n).preorder.filter t.isLeaf

theorem WellFormed.leavesBelow_eq (h : t.WellFormed) (n : Nat) :
    t.leavesBelow n = if t.isLeaf n then [n] else (t.children n).flatMap t.leavesBelow := by
  rw [leavesBelow, h.outline_eq, Rose.preorder_node, List.filter_cons, List.filter_flatMap,
    List.flatMap_map]
  split
  · rename_i leaf
    rw [List.isEmpty_iff.mp leaf]
    rfl
  · rfl

end Tree

namespace Grammar

variable {V : Type} {g : Grammar V} {t : Tree}

/-! ### Cutting a text -/

/-- The marks of function notation. -/
def marks : List Char := ['(', ')', ',', ' ']

/-- The text can be cut into pieces, each a mark or the whole name of a node; the nodes that are
named are listed from left to right. -/
inductive Cut (g : Grammar V) (t : Tree) : String → List Nat → Prop where
  | done : Cut g t "" []
  | mark {c : Char} {text : String} {nodes : List Nat} :
      c ∈ marks → Cut g t text nodes → Cut g t (c.toString ++ text) nodes
  | name {n : Nat} {text : String} {nodes : List Nat} :
      Cut g t text nodes → Cut g t (g.name (t.symbol n) ++ text) (n :: nodes)

/-- A text without its marks. -/
def unmarked (text : String) : String :=
  String.ofList (text.toList.filter (· ∉ marks))

theorem unmarked_append (text text' : String) :
    unmarked (text ++ text') = unmarked text ++ unmarked text' := by
  simp [unmarked]

theorem unmarked_toString {c : Char} (mem : c ∈ marks) : unmarked c.toString = "" := by
  simp [unmarked, mem]

theorem unmarked_of_free {text : String} (free : ∀ c ∈ text.toList, c ∉ marks) :
    unmarked text = text := by
  rw [unmarked, List.filter_eq_self.mpr fun c hc => decide_eq_true (free c hc),
    String.ofList_toList]

namespace Cut

variable {text text' : String} {nodes nodes' : List Nat}

theorem append (h : g.Cut t text nodes) (h' : g.Cut t text' nodes') :
    g.Cut t (text ++ text') (nodes ++ nodes') := by
  induction h with
  | done => simpa using h'
  | mark mem _ ih =>
      rw [String.append_assoc]
      exact .mark mem ih
  | name _ ih =>
      rw [String.append_assoc]
      exact .name ih

theorem ofMark {c : Char} (mem : c ∈ marks) : g.Cut t c.toString [] := by
  simpa using mark mem done

theorem ofName (n : Nat) : g.Cut t (g.name (t.symbol n)) [n] := by
  simpa using name (n := n) done

/-- Separated texts are cut when each of them is. -/
theorem intercalate {c : Char} (mem : c ∈ marks) {ns : List Nat} {written : Nat → String}
    {named : Nat → List Nat} (each : ∀ n ∈ ns, g.Cut t (written n) (named n)) :
    g.Cut t (String.intercalate c.toString (ns.map written)) (ns.flatMap named) := by
  induction ns with
  | nil => exact done
  | cons n ns ih =>
      obtain ⟨first, others⟩ := List.forall_mem_cons.mp each
      cases ns with
      | nil => simpa using first
      | cons m ns =>
          rw [List.map_cons, List.map_cons, String.intercalate_cons_cons, ← List.map_cons,
            List.flatMap_cons]
          simpa using (first.append (ofMark mem)).append (ih others)

/-- Names that are free of marks are what is left without the marks. -/
theorem unmarked_eq (h : g.Cut t text nodes)
    (free : ∀ n ∈ nodes, ∀ c ∈ (g.name (t.symbol n)).toList, c ∉ marks) :
    unmarked text = String.join (nodes.map fun n => g.name (t.symbol n)) := by
  induction h with
  | done => rfl
  | mark mem _ ih => rw [unmarked_append, unmarked_toString mem, String.empty_append, ih free]
  | name _ ih =>
      obtain ⟨here, others⟩ := List.forall_mem_cons.mp free
      rw [unmarked_append, unmarked_of_free here, ih others, List.map_cons, String.join_cons]

end Cut

/-! ### What is written for a node -/

theorem isLeaf_of_isOperation (h : t.WellFormed) {n : Nat}
    (valid : g.checkShape (t.shapeAt n) = .ok ()) (operation : g.isOperation (t.symbol n) = true) :
    t.isLeaf n = true := by
  rw [h.shapeAt_eq, checkShape_node_iff] at valid
  by_contra inner
  have children : (t.children n).map t.shapeAt ≠ [] := by simpa [Tree.isLeaf] using inner
  have kind := (hasProduction_of_checkStep valid.1 (by simpa using children)).1
  rw [(of_isNonTerminal kind).2] at operation
  cases operation

/-- The head of an operation is written by name, and the operands between brackets. -/
theorem cut_application (h : t.WellFormed) {head : Nat} {operands : List Nat}
    (leaf : t.isLeaf head = true)
    (each : ∀ c ∈ operands, g.Cut t (g.displayAt t c) (t.leavesBelow c)) :
    g.Cut t (g.name (t.symbol head) ++ "(" ++
        String.intercalate "," (operands.map (g.displayAt t)) ++ ")")
      ((head :: operands).flatMap t.leavesBelow) := by
  have opening : g.Cut t "(" [] := .ofMark (c := '(') (by decide)
  have closing : g.Cut t ")" [] := .ofMark (c := ')') (by decide)
  have between := Cut.intercalate (c := ',') (by decide) each
  have pieces := (((Cut.ofName head).append opening).append between).append closing
  rw [List.flatMap_cons, h.leavesBelow_eq head, if_pos leaf]
  simpa using pieces

/-- What is written for a node is made of what is written for its children. -/
theorem cut_displayStep (h : t.WellFormed) {n : Nat}
    (leaves : ∀ c ∈ t.children n, g.isOperation (t.symbol c) = true → t.isLeaf c = true)
    (each : ∀ c ∈ t.children n, g.Cut t (g.displayAt t c) (t.leavesBelow c)) :
    g.Cut t (g.displayAt t n) (t.leavesBelow n) := by
  rw [(nodewise h g).display n, h.leavesBelow_eq]
  cases below : t.children n with
  | nil =>
      rw [if_pos (by simp [Tree.isLeaf, below])]
      exact Cut.ofName n
  | cons first rest =>
      rw [if_neg (by simp [Tree.isLeaf, below])]
      rw [below] at each leaves
      cases rest with
      | nil =>
          rw [List.flatMap_singleton]
          exact each first List.mem_cons_self
      | cons second rest =>
          simp only [List.map_cons, displayStep, Tree.label_shapeAt, List.map_map]
          split
          · rename_i operation
            exact cut_application h (leaves first List.mem_cons_self operation)
              fun c hc => each c (List.mem_cons_of_mem _ hc)
          · exact Cut.intercalate (c := ' ') (by decide) each

/-- In a derivation, what is written for a node names the childless nodes below it. -/
theorem cut_displayAt (h : t.WellFormed) {n : Nat} (valid : g.checkShape (t.shapeAt n) = .ok ()) :
    g.Cut t (g.displayAt t n) (t.leavesBelow n) := by
  induction n using h.wellFounded_children.induction with
  | _ n ih =>
      rw [h.shapeAt_eq, checkShape_node_iff] at valid
      have parts : ∀ c ∈ t.children n, g.checkShape (t.shapeAt c) = .ok () :=
        fun c hc => valid.2 _ (List.mem_map_of_mem hc)
      exact cut_displayStep h (fun c hc => isLeaf_of_isOperation h (parts c hc))
        fun c hc => ih c hc (parts c hc)

/-! ### Trees -/

/-- **The notation of a derivation, piece by piece.** It can be cut into marks and the names of the
childless nodes, each of these once and in the order of the walk, as they are strung together
without the marks. Where no name holds a mark, leaving out the marks leaves the names. -/
theorem display_pieces (h : t.WellFormed) (valid : g.check t = .ok ()) :
    let leaves := t.preorder.filter t.isLeaf
    leaves.Nodup ∧ g.Cut t (g.display t) leaves ∧
      g.leaves t = String.join (leaves.map fun n => g.name (t.symbol n)) ∧
      ((∀ n ∈ leaves, ∀ c ∈ (g.name (t.symbol n)).toList, c ∉ marks) →
        unmarked (g.display t) = g.leaves t) := by
  intro leaves
  have once : leaves.Nodup :=
    (h.nodup_preorder_outline (Tree.mem_preorder_iff_standsAt.mpr
      ⟨[], Tree.standsAt_nil_iff.mpr rfl⟩)).filter _
  have pieces : g.Cut t (g.display t) leaves := cut_displayAt h valid
  have names := (nodewise h g).leaves
  exact ⟨once, pieces, names, fun free => (pieces.unmarked_eq free).trans names.symm⟩

/-- A sum of a variable and of two constants side by side. -/
theorem display_pieces_sums :
    let t := Tree.ofShape (node 0 [node 1 [], node 0 [node 2 []],
      node 0 [node 0 [node 3 []], node 0 [node 3 []]]])
    (t.WellFormed ∧ sums.check t = .ok ()) ∧
    sums.display t = "plus(x,one one)" ∧ sums.Cut t "plus(x,one one)" [1, 3, 6, 8] ∧
    unmarked "plus(x,one one)" = "plusxoneone" := by
  intro t
  have wellFormed : t.WellFormed := Tree.wellFormed_ofShape _
  have valid : sums.check t = .ok () := by decide +kernel
  have written : sums.display t = "plus(x,one one)" := by decide +kernel
  have walk : t.preorder.filter t.isLeaf = [1, 3, 6, 8] := by decide +kernel
  have names : [1, 3, 6, 8].map (fun n => sums.name (t.symbol n)) =
      ["plus", "x", "one", "one"] := by decide +kernel
  have free : ∀ name ∈ ["plus", "x", "one", "one"], ∀ c ∈ name.toList, c ∉ marks := by
    simp [marks]
  rw [← names, List.forall_mem_map] at free
  obtain ⟨-, pieces, -, bare⟩ := display_pieces wellFormed valid
  rw [written, walk] at pieces bare
  exact ⟨⟨wellFormed, valid⟩, written, pieces, (bare free).trans (by decide +kernel)⟩

end Grammar

end GrammarEvolution
