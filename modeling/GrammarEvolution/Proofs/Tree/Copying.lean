import GrammarEvolution.Proofs.Tree.Splice
import GrammarEvolution.Proofs.Tree.Walk

/-!
Copying and splicing, one node at a time.

A copy enters a table whole, as the layout of a shape, and a splice reads both subtrees before it
writes. `Copies`, `Exchanges` and `Replaces` are the same operations carried out step by step on
tables that change underway: a copied node is entered, its children are copied behind it one after
the other, and each joins its list when it is complete.

* `WellFormed.copies_iff`: copying step by step leads to the layout at the end of the table, and
  nowhere else.
* `WellFormed.exchanges_iff`, `WellFormed.replaces_iff`: likewise for the two splices.
-/

namespace GrammarEvolution

namespace Tree

open Rose (layout layoutEach rootNumbers)

variable {t u : Tree} {n a b : Nat}

/-! ### Steps -/

/-- The table with one more node, which has no children yet. -/
def enter (t : Tree) (symbol : SymbolId) (parent : Option Nat) : Tree :=
  ⟨t.nodes.push ⟨symbol, parent, []⟩⟩

mutual

/-- `Copies t n dst parent copied dst'`: the subtree at `n` is copied to the end of `dst`, below
`parent`. -/
inductive Copies (t : Tree) : Nat → Tree → Option Nat → Nat → Tree → Prop
  | enter {n : Nat} {dst dst' : Tree} {parent : Option Nat} :
      CopiesEach t (t.children n) dst.nodes.size (dst.enter (t.symbol n) parent) dst' →
      Copies t n dst parent dst.nodes.size dst'

/-- `CopiesEach t cs owner dst dst'`: the subtrees at `cs` are copied one after the other, and each
joins the children of `owner`. -/
inductive CopiesEach (t : Tree) : List Nat → Nat → Tree → Tree → Prop
  | nil {owner : Nat} {dst : Tree} : CopiesEach t [] owner dst dst
  | cons {c copied owner : Nat} {cs : List Nat} {dst mid dst' : Tree} :
      Copies t c dst (some owner) copied mid →
      CopiesEach t cs owner (mid.relink owner (· ++ [copied])) dst' →
      CopiesEach t (c :: cs) owner dst dst'

end

/-- The root is copied to an empty table. -/
def Rebuilds (t t' : Tree) : Prop :=
  ∃ copied, Copies t t.root ⟨#[]⟩ none copied t'

/-- An exchange in steps: both places are looked up; each subtree is copied to the end of the other
table, the second one from a table that holds the first copy already; the child slots are pointed
at the copies; both tables are rebuilt. -/
inductive Exchanges (t : Tree) (a : Nat) (u : Tree) (b : Nat) : Tree → Tree → Prop
  | steps {p i q j x y : Nat} {t₁ u₁ t' u' : Tree} :
      t.position a = .ok (p, i) → u.position b = .ok (q, j) →
      Copies t a u (some q) x u₁ → Copies u₁ b t (some p) y t₁ →
      Rebuilds (t₁.relink p (·.set i y)) t' → Rebuilds (u₁.relink q (·.set j x)) u' →
      Exchanges t a u b t' u'

/-- A replacement in steps: the place is looked up; the other tree is copied to the end of the
table; the child slot is pointed at the copy; the table is rebuilt. -/
inductive Replaces (t : Tree) (a : Nat) (u : Tree) : Tree → Prop
  | steps {p i x : Nat} {t₁ t' : Tree} :
      t.position a = .ok (p, i) → Copies u u.root t (some p) x t₁ →
      Rebuilds (t₁.relink p (·.set i x)) t' → Replaces t a u t'

/-! ### One outcome -/

mutual

theorem Copies.unique {t dst dst₁ dst₂ : Tree} {n x y : Nat} {parent : Option Nat} :
    Copies t n dst parent x dst₁ → Copies t n dst parent y dst₂ → x = y ∧ dst₁ = dst₂
  | .enter first, .enter second => ⟨rfl, first.unique second⟩

theorem CopiesEach.unique {t dst dst₁ dst₂ : Tree} {owner : Nat} {cs : List Nat} :
    CopiesEach t cs owner dst dst₁ → CopiesEach t cs owner dst dst₂ → dst₁ = dst₂
  | .nil, .nil => rfl
  | .cons first rest, .cons second rest' => by
      obtain ⟨rfl, rfl⟩ := first.unique second
      exact rest.unique rest'

end

/-! ### Layouts that grow by one child -/

section Layouts

variable (base owner : Nat) (r : Rose SymbolId) (rs : List (Rose SymbolId))

theorem rootNumbers_concat :
    rootNumbers base (rs ++ [r]) = rootNumbers base rs ++ [base + (rs.map Rose.size).sum] := by
  induction rs generalizing base with
  | nil => rfl
  | cons c cs ih =>
      rw [List.cons_append, rootNumbers, ih, rootNumbers, List.cons_append, List.map_cons,
        List.sum_cons, Nat.add_assoc]

theorem layoutEach_concat : layoutEach base owner (rs ++ [r]) =
    layoutEach base owner rs ++ layout (base + (rs.map Rose.size).sum) (some owner) r := by
  induction rs generalizing base with
  | nil =>
      rw [List.nil_append, layoutEach, layoutEach, layoutEach, List.append_nil]
      rfl
  | cons c cs ih =>
      rw [List.cons_append, layoutEach, ih, layoutEach, List.append_assoc, List.map_cons,
        List.sum_cons, Nat.add_assoc]

end Layouts

/-- A copy that waits for its last child becomes complete when that child joins its list. -/
theorem graft_concat (dst : Tree) (s : SymbolId) (parent : Option Nat) (rs : List (Rose SymbolId))
    (r : Rose SymbolId) :
    ((dst.graft (.node s rs) parent).2.graft r (some dst.nodes.size)).2.relink dst.nodes.size
        (· ++ [(dst.graft (.node s rs) parent).2.nodes.size]) =
      (dst.graft (.node s (rs ++ [r])) parent).2 := by
  have later : dst.nodes.size + (Rose.node s rs).size =
      dst.nodes.size + 1 + (rs.map Rose.size).sum := by
    rw [Rose.size_node_eq_sum]
    omega
  rw [size_graft, relink, graft, size_graft, graft, graft, later]
  congr 1
  apply Array.toList_inj.mp
  simp only [Array.toList_modify, Array.toList_appendList, layout, rootNumbers_concat,
    layoutEach_concat, List.append_assoc, List.cons_append]
  exact List.modify_append_cons _ dst.nodes.toList _ _

/-! ### The outcome of a copy -/

/-- The children of a node are copied behind those that are copied already. -/
theorem copiesEach_graft {cs : List Nat}
    (each : ∀ c ∈ cs, ∀ dst parent,
      Copies t c dst parent dst.nodes.size (dst.graft (t.shapeAt c) parent).2)
    (dst : Tree) (s : SymbolId) (parent : Option Nat) (rs : List (Rose SymbolId)) :
    CopiesEach t cs dst.nodes.size (dst.graft (.node s rs) parent).2
      (dst.graft (.node s (rs ++ cs.map t.shapeAt)) parent).2 := by
  induction cs generalizing rs with
  | nil =>
      rw [List.map_nil, List.append_nil]
      exact .nil
  | cons c cs ih =>
      have others := ih (fun d hd => each d (List.mem_cons_of_mem c hd)) (rs ++ [t.shapeAt c])
      rw [List.append_assoc] at others
      refine .cons (each c List.mem_cons_self _ _) ?_
      rw [graft_concat]
      exact others

/-- Copying step by step lays out the shape. -/
theorem WellFormed.copies_graft (h : t.WellFormed) (n : Nat) (dst : Tree) (parent : Option Nat) :
    Copies t n dst parent dst.nodes.size (dst.graft (t.shapeAt n) parent).2 := by
  induction n using h.wellFounded_children.induction generalizing dst parent with
  | _ n ih =>
      have entered : dst.enter (t.symbol n) parent =
          (dst.graft (.node (t.symbol n) []) parent).2 := by
        rw [Tree.graft, layout]
        rfl
      have children := copiesEach_graft ih dst (t.symbol n) parent []
      rw [List.nil_append, ← h.shapeAt_eq, ← entered] at children
      exact .enter children

/-- Copying step by step has one outcome, the layout at the end of the table. -/
theorem WellFormed.copies_iff (h : t.WellFormed) {dst dst' : Tree} {parent : Option Nat}
    {copied : Nat} :
    Copies t n dst parent copied dst' ↔ t.copySubtree n dst parent = (copied, dst') := by
  constructor
  · intro steps
    obtain ⟨rfl, rfl⟩ := (h.copies_graft n dst parent).unique steps
    rfl
  · intro whole
    obtain ⟨rfl, rfl⟩ := Prod.mk.inj whole
    exact h.copies_graft n dst parent

theorem WellFormed.rebuilds_iff (h : t.WellFormed) {t' : Tree} :
    Rebuilds t t' ↔ t' = t.compact := by
  have whole : t.copySubtree t.root ⟨#[]⟩ none = (0, t.compact) := by
    rw [copySubtree, Tree.graft, compact, ofShape, shape]
    simp
  rw [Rebuilds]
  simp only [h.copies_iff, whole, Prod.mk.injEq, exists_and_right]
  constructor
  · rintro ⟨-, same⟩
    exact same.symm
  · intro same
    exact ⟨⟨0, rfl⟩, same.symm⟩

/-! ### The outcome of a splice -/

theorem swap_eq_ok_iff {t' u' : Tree} :
    t.swap a u b = .ok (t', u') ↔ ∃ p i q j,
      t.position a = .ok (p, i) ∧ u.position b = .ok (q, j) ∧
      t' = t.plant p i (u.shapeAt b) ∧ u' = u.plant q j (t.shapeAt a) := by
  simp only [swap, Except.bind_eq_ok_iff, Prod.exists]
  constructor
  · rintro ⟨p, i, here, q, j, there, result⟩
    cases result
    exact ⟨p, i, q, j, here, there, rfl, rfl⟩
  · rintro ⟨p, i, q, j, here, there, rfl, rfl⟩
    exact ⟨p, i, here, q, j, there, rfl⟩

theorem replace_eq_ok_iff {t' : Tree} :
    t.replace a u = .ok t' ↔ ∃ p i, t.position a = .ok (p, i) ∧ t' = t.plant p i u.shape := by
  simp only [replace, Except.bind_eq_ok_iff, Prod.exists]
  constructor
  · rintro ⟨p, i, here, result⟩
    cases result
    exact ⟨p, i, here, rfl⟩
  · rintro ⟨p, i, here, rfl⟩
    exact ⟨p, i, here, rfl⟩

/-- What is rebuilt once a child slot has been pointed at the copy. -/
theorem WellFormed.rebuilds_plant_iff (h : t.WellFormed) {p i : Nat} {r : Rose SymbolId}
    {t' : Tree} (here : t.position a = .ok (p, i)) :
    Rebuilds ((t.graft r (some p)).2.relink p (·.set i t.nodes.size)) t' ↔ t' = t.plant p i r := by
  obtain ⟨before, inside⟩ := h.lt_of_position here
  exact (h.planted (before.trans inside) i r).rebuilds_iff

/-- Exchanging in steps has the outcome of the exchange that reads both subtrees first. -/
theorem WellFormed.exchanges_iff (ht : t.WellFormed) (hu : u.WellFormed) {t' u' : Tree} :
    Exchanges t a u b t' u' ↔ t.swap a u b = .ok (t', u') := by
  -- The first copy stands behind the old nodes and leaves the shape at `b` as it was.
  have unmoved : ∀ q j, u.position b = .ok (q, j) →
      (u.graft (t.shapeAt a) (some q)).2.WellFormed ∧
        (u.graft (t.shapeAt a) (some q)).2.shapeAt b = u.shapeAt b := by
    intro q j there
    obtain ⟨before, inside⟩ := hu.lt_of_position there
    exact ⟨hu.graft _ _ fun p hp => Option.some.inj hp ▸ before.trans inside,
      hu.shapeAt_graft inside⟩
  rw [swap_eq_ok_iff]
  constructor
  · rintro @⟨p, i, q, j, x, y, t₁, u₁, _, _, here, there, copyA, copyB, rebuiltT, rebuiltU⟩
    obtain ⟨grafted, same⟩ := unmoved q j there
    cases ht.copies_iff.mp copyA
    cases grafted.copies_iff.mp copyB
    rw [same] at rebuiltT
    exact ⟨p, i, q, j, here, there, (ht.rebuilds_plant_iff here).mp rebuiltT,
      (hu.rebuilds_plant_iff there).mp rebuiltU⟩
  · rintro ⟨p, i, q, j, here, there, rfl, rfl⟩
    obtain ⟨grafted, same⟩ := unmoved q j there
    have copyB := grafted.copies_graft b t (some p)
    rw [same] at copyB
    exact .steps here there (ht.copies_graft a u (some q)) copyB
      ((ht.rebuilds_plant_iff here).mpr rfl) ((hu.rebuilds_plant_iff there).mpr rfl)

/-- Replacing in steps has the outcome of the replacement that reads the other tree first. -/
theorem WellFormed.replaces_iff (ht : t.WellFormed) (hu : u.WellFormed) {t' : Tree} :
    Replaces t a u t' ↔ t.replace a u = .ok t' := by
  rw [replace_eq_ok_iff]
  constructor
  · rintro @⟨p, i, x, t₁, _, here, copy, rebuilt⟩
    cases hu.copies_iff.mp copy
    exact ⟨p, i, here, (ht.rebuilds_plant_iff here).mp rebuilt⟩
  · rintro ⟨p, i, here, rfl⟩
    exact .steps here (hu.copies_graft u.root t (some p)) ((ht.rebuilds_plant_iff here).mpr rfl)

end Tree

end GrammarEvolution
