/-!
Rose trees: a label and an ordered list of subtrees.

A rose tree is what a derivation is when nothing is said about how it is stored. `Rose.fold` is the
one recursion; it gives the rule of a node each child together with the child's own result, and
`fold_node` is its only equation. All measures and walks are folds. `Rose.induction` is the matching
proof principle. Addresses are lists of child indices from the root, `subtreeAt` and `replaceAt`
read and write there.
-/

namespace GrammarEvolution

/-- A label and the subtrees below it, left to right. -/
inductive Rose (α : Type) where
  | node (label : α) (children : List (Rose α))

namespace Rose

variable {α β : Type}

instance [Inhabited α] : Inhabited (Rose α) := ⟨node default []⟩

def label : Rose α → α
  | node a _ => a

def children : Rose α → List (Rose α)
  | node _ cs => cs

@[simp] theorem label_node (a : α) (cs : List (Rose α)) : (node a cs).label = a := rfl

@[simp] theorem children_node (a : α) (cs : List (Rose α)) : (node a cs).children = cs := rfl

/-! ### The one recursion -/

mutual

/-- Works a tree out from its leaves: `rule` sees a label and every child with its result. -/
def fold (rule : α → List (Rose α × β) → β) : Rose α → β
  | node a cs => rule a (foldEach rule cs)

/-- The trees of a list, each with its result. -/
def foldEach (rule : α → List (Rose α × β) → β) : List (Rose α) → List (Rose α × β)
  | [] => []
  | c :: cs => (c, fold rule c) :: foldEach rule cs

end

theorem foldEach_eq_map (rule : α → List (Rose α × β) → β) (cs : List (Rose α)) :
    foldEach rule cs = cs.map fun c => (c, fold rule c) := by
  induction cs with
  | nil => rfl
  | cons c cs ih => simp [foldEach, ih]

theorem fold_node (rule : α → List (Rose α × β) → β) (a : α) (cs : List (Rose α)) :
    fold rule (node a cs) = rule a (cs.map fun c => (c, fold rule c)) := by
  rw [fold, foldEach_eq_map]

/-- What holds of a node whenever it holds of every child holds of every tree. -/
theorem induction {P : Rose α → Prop}
    (step : ∀ a cs, (∀ c ∈ cs, P c) → P (node a cs)) (t : Rose α) : P t :=
  match t with
  | node a cs => step a cs (each cs)
where
  each : ∀ cs : List (Rose α), ∀ c ∈ cs, P c
    | [], _, h => absurd h List.not_mem_nil
    | d :: ds, c, h => by
        cases h with
        | head => exact induction step d
        | tail _ h => exact each ds c h

/-! ### Measures and walks -/

/-- The number of nodes. -/
def size : Rose α → Nat :=
  fold fun _ cs => cs.foldr (fun c n => c.2 + n) 1

/-- The number of edges of the longest path down: none for a leaf. -/
def height : Rose α → Nat :=
  fold fun _ cs => (cs.map (·.2 + 1)).foldl max 0

/-- Every subtree, a node before its children and these from left to right. -/
def subtrees : Rose α → List (Rose α) :=
  fold fun a cs => node a (cs.map (·.1)) :: (cs.map (·.2)).flatten

/-- The labels in the order of `subtrees`. -/
def preorder : Rose α → List α :=
  fold fun a cs => a :: (cs.map (·.2)).flatten

/-- The labels of the childless nodes, left to right. -/
def leafLabels : Rose α → List α :=
  fold fun a cs => if cs.isEmpty then [a] else (cs.map (·.2)).flatten

/-- The same tree with every label renamed. -/
def map (f : α → β) : Rose α → Rose β :=
  fold fun a cs => node (f a) (cs.map (·.2))

theorem size_node (a : α) (cs : List (Rose α)) :
    (node a cs).size = cs.foldr (fun c n => c.size + n) 1 := by
  simp [size, fold_node, List.foldr_map]

theorem height_node (a : α) (cs : List (Rose α)) :
    (node a cs).height = (cs.map fun c => c.height + 1).foldl max 0 := by
  simp [height, fold_node, Function.comp_def]

theorem subtrees_node (a : α) (cs : List (Rose α)) :
    (node a cs).subtrees = node a cs :: cs.flatMap subtrees := by
  simp [subtrees, fold_node, Function.comp_def, List.flatMap_def]

theorem preorder_node (a : α) (cs : List (Rose α)) :
    (node a cs).preorder = a :: cs.flatMap preorder := by
  simp [preorder, fold_node, Function.comp_def, List.flatMap_def]

theorem leafLabels_node (a : α) (cs : List (Rose α)) :
    (node a cs).leafLabels = if cs.isEmpty then [a] else cs.flatMap leafLabels := by
  simp [leafLabels, fold_node, Function.comp_def, List.flatMap_def]

theorem map_node (f : α → β) (a : α) (cs : List (Rose α)) :
    (node a cs).map f = node (f a) (cs.map (map f)) := by
  simp [map, fold_node, Function.comp_def]

theorem size_pos (t : Rose α) : 0 < t.size := by
  cases t with
  | node a cs =>
    rw [size_node]
    induction cs with
    | nil => simp
    | cons c cs ih => simp only [List.foldr_cons]; omega

/-! ### Equality -/

section Equality

variable [DecidableEq α]

mutual

/-- Two trees are the same when their labels are and their children are, in number and order. -/
def decEq : (t u : Rose α) → Decidable (t = u)
  | node a cs, node b ds =>
      if h : a = b then
        match decEqEach cs ds with
        | isTrue k => isTrue (by rw [h, k])
        | isFalse k => isFalse fun e => k (Rose.node.inj e).2
      else isFalse fun e => h (Rose.node.inj e).1

def decEqEach : (cs ds : List (Rose α)) → Decidable (cs = ds)
  | [], [] => isTrue rfl
  | [], _ :: _ => isFalse (by simp)
  | _ :: _, [] => isFalse (by simp)
  | c :: cs, d :: ds =>
      match decEq c d with
      | isFalse h => isFalse fun e => h (List.cons.inj e).1
      | isTrue h =>
          match decEqEach cs ds with
          | isTrue k => isTrue (by rw [h, k])
          | isFalse k => isFalse fun e => k (List.cons.inj e).2

end

instance : DecidableEq (Rose α) := decEq

end Equality

/-! ### Addresses -/

/-- The subtree at an address, if the address stays inside the tree. -/
def subtreeAt (t : Rose α) : List Nat → Option (Rose α)
  | [] => some t
  | i :: rest => t.children[i]?.bind fun c => c.subtreeAt rest

/-- The tree with `r` in place of the subtree at an address; unchanged if the address leaves it. -/
def replaceAt (t : Rose α) (r : Rose α) : List Nat → Rose α
  | [] => r
  | i :: rest => node t.label (t.children.modify i fun c => c.replaceAt r rest)

end Rose

end GrammarEvolution
