import GrammarEvolution.Error
import GrammarEvolution.Rose

/-!
Derivation trees with numbered nodes.

A tree is a table of nodes. A node records its symbol, the number of its parent and the numbers of
its children, and node 0 is the root, so a walk can go up as well as down. A tree knows nothing
about what its symbols mean. The table may hold nodes that the root does not reach: copies whose
owner has not taken them in, or has since dropped them.

`outline` is the view from above: the rose tree of node numbers below a node. `shape` is the same
with symbols for numbers, and is all that a tree means. Whatever looks down is a fold over one of
the two; `depth` and `position` look up. `WellFormed` says when the two directions agree.
-/

namespace GrammarEvolution

/-- The number of a symbol in its grammar. -/
abbrev SymbolId := Nat

/-- One place of a tree. -/
structure Node where
  symbol : SymbolId
  parent : Option Nat
  children : List Nat
deriving DecidableEq, Repr, Inhabited

/-- A table of nodes, of which number 0 is the root. -/
structure Tree where
  nodes : Array Node
deriving DecidableEq, Repr

namespace Tree

/-- The tree of one childless node. -/
def single (symbol : SymbolId) : Tree :=
  ⟨#[⟨symbol, none, []⟩]⟩

def root (_ : Tree) : Nat := 0

/-! ### Reading a node

Numbers outside the table belong to no node of the tree. They read as childless nodes without a
parent. -/

section Reading

variable (t : Tree) (n : Nat)

def node : Node := t.nodes.getD n ⟨0, none, []⟩

def symbol : SymbolId := (t.node n).symbol

def parent : Option Nat := (t.node n).parent

def children : List Nat := (t.node n).children

def isLeaf : Bool := (t.children n).isEmpty

end Reading

/-- Both directions agree: the root has no parent; a child comes after its owner and names it as
its parent; no node is a child twice; and every link up leads to an earlier node. -/
structure WellFormed (t : Tree) : Prop where
  nonempty : 0 < t.nodes.size
  root_parent : t.parent t.root = none
  child_bounds : ∀ n c, c ∈ t.children n → n < c ∧ c < t.nodes.size
  child_parent : ∀ n c, c ∈ t.children n → t.parent c = some n
  children_nodup : (t.nodes.toList.flatMap Node.children).Nodup
  parent_lt : ∀ n p, t.parent n = some p → p < n

/-! ### Looking down -/

/-- The node numbers below a node, as a rose tree. Only a link to a later node of the table is
followed, which in a well-formed tree every link is. -/
def outline (t : Tree) (n : Nat) : Rose Nat :=
  .node n <| (t.children n).filterMap fun c =>
    if _h : n < c ∧ c < t.nodes.size then some (t.outline c) else none
termination_by t.nodes.size - n
decreasing_by omega

/-- The symbols below a node, as a rose tree. -/
def shapeAt (t : Tree) (n : Nat) : Rose SymbolId :=
  (t.outline n).map t.symbol

/-- The symbols of the whole tree, as a rose tree. -/
def shape (t : Tree) : Rose SymbolId :=
  t.shapeAt t.root

/-- Trees are alike when they have the same shape, however their nodes are numbered. -/
instance : BEq Tree where
  beq t u := t.shape = u.shape

/-- Every node that the root reaches, a node before its children. -/
def preorder (t : Tree) : List Nat :=
  (t.outline t.root).preorder

/-- The height of the subtree at a node: 0 at a leaf. -/
def heightAt (t : Tree) (n : Nat) : Nat :=
  (t.outline n).height

/-- The number of nodes of the subtree at a node, the node included. -/
def sizeAt (t : Tree) (n : Nat) : Nat :=
  (t.outline n).size

def height (t : Tree) : Nat :=
  t.heightAt t.root

def size (t : Tree) : Nat :=
  t.sizeAt t.root

/-! ### Looking up -/

/-- The number of links up to a node without a parent: 0 at the root. -/
def depth (t : Tree) (n : Nat) : Nat :=
  match t.parent n with
  | none => 0
  | some p => if _h : p < n then t.depth p + 1 else 0
termination_by n

/-- The parent of a node and the place of the node among that parent's children. -/
def position (t : Tree) (n : Nat) : Except Error (Nat × Nat) :=
  match t.parent n with
  | none => throw (.structural .rootHasNoPosition)
  | some p =>
      match (t.children p).idxOf? n with
      | none => throw (.structural (.missingFromParent n p))
      | some i => pure (p, i)

/-! ### Growing by one node -/

/-- Puts a new childless node last among the children of a node and answers its number. -/
def pushChild (t : Tree) (owner : Nat) (symbol : SymbolId) : Nat × Tree :=
  let fresh := t.nodes.size
  let nodes := t.nodes.push ⟨symbol, some owner, []⟩
  (fresh, ⟨nodes.modify owner fun node => { node with children := node.children ++ [fresh] }⟩)

/-- Puts one new node per symbol below a node, in order. -/
def pushChildren (t : Tree) (owner : Nat) : List SymbolId → List Nat × Tree
  | [] => ([], t)
  | s :: rest =>
      let (fresh, t) := t.pushChild owner s
      let (others, t) := t.pushChildren owner rest
      (fresh :: others, t)

end Tree

end GrammarEvolution
