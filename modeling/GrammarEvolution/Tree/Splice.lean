import GrammarEvolution.Tree.Basic

/-!
Copying subtrees within and between trees.

`Rose.layout` numbers a rose tree in pre-order from a given number on, which is how every copy
enters a table. `Tree.ofShape` is the table that holds one rose tree and nothing else. The splices
`swap` and `replace` read the subtrees first, lay out the copies, point the child slots at them and
then keep only what the root still reaches, renumbered in pre-order. Both look the places up before
they touch anything, so a failing splice changes nothing.
-/

namespace GrammarEvolution

namespace Rose

/-- The numbers of the trees of a list when the first takes `base` and each one as many numbers as
it has nodes. -/
def rootNumbers (base : Nat) : List (Rose SymbolId) → List Nat
  | [] => []
  | c :: cs => base :: rootNumbers (base + c.size) cs

mutual

/-- The nodes of a rose tree numbered in pre-order from `base`, its root below `parent`. -/
def layout (base : Nat) (parent : Option Nat) : Rose SymbolId → List Node
  | node s cs => ⟨s, parent, rootNumbers (base + 1) cs⟩ :: layoutEach (base + 1) base cs

/-- The nodes of the trees of a list, one after the other, all below `owner`. -/
def layoutEach (base owner : Nat) : List (Rose SymbolId) → List Node
  | [] => []
  | c :: cs => layout base (some owner) c ++ layoutEach (base + c.size) owner cs

end

end Rose

namespace Tree

/-- The tree that holds a rose tree, numbered in pre-order. -/
def ofShape (r : Rose SymbolId) : Tree :=
  ⟨(r.layout 0 none).toArray⟩

/-- Adds a rose tree at the end of the table, its root linked up to `parent` but not yet among
anybody's children. Answers the number of that root. -/
def graft (t : Tree) (r : Rose SymbolId) (parent : Option Nat) : Nat × Tree :=
  let fresh := t.nodes.size
  (fresh, ⟨t.nodes ++ r.layout fresh parent⟩)

/-- Copies the subtree at a node of `t` to the end of `dst`, below `parent`. The copy is not
among its parent's children. -/
def copySubtree (t : Tree) (n : Nat) (dst : Tree) (parent : Option Nat) : Nat × Tree :=
  dst.graft (t.shapeAt n) parent

/-- The subtree at a node as a tree of its own. -/
def subtree (t : Tree) (n : Nat) : Tree :=
  ofShape (t.shapeAt n)

/-- Drops what the root does not reach and numbers the rest in pre-order. -/
def compact (t : Tree) : Tree :=
  ofShape t.shape

/-- Puts a copy of `r` into the child slot `index` of `owner`. -/
def plant (t : Tree) (owner : Nat) (index : Nat) (r : Rose SymbolId) : Tree :=
  let (fresh, t) := t.graft r (some owner)
  let nodes := t.nodes.modify owner fun node =>
    { node with children := node.children.set index fresh }
  (Tree.mk nodes).compact

/-- Exchanges the subtree at `a` in `t₁` with the subtree at `b` in `t₂`. Neither may be a root. -/
def swap (t₁ : Tree) (a : Nat) (t₂ : Tree) (b : Nat) : Except Error (Tree × Tree) := do
  let (p₁, i₁) ← t₁.position a
  let (p₂, i₂) ← t₂.position b
  return (t₁.plant p₁ i₁ (t₂.shapeAt b), t₂.plant p₂ i₂ (t₁.shapeAt a))

/-- Puts a copy of `u` in place of the subtree at `target`, which may not be the root. -/
def replace (t : Tree) (target : Nat) (u : Tree) : Except Error Tree := do
  let (p, i) ← t.position target
  return t.plant p i u.shape

end Tree

end GrammarEvolution
