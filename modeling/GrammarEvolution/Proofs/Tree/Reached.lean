import GrammarEvolution.Grammar.Derivation
import GrammarEvolution.Proofs.Tree.Copying
import Mathlib.Data.List.Permutation
import Mathlib.Logic.Relation

/-!
The trees that operations lead to.

`Step` is one call on the trees at hand, with any node of a tree for an argument: also nodes that
nobody owns, and numbers that come from before a splice. A call that fails leaves the trees as they
were. `Reached` is any number of calls from nothing.

* `Step.wellFormed`, `Reached.wellFormed`: a call keeps every tree well-formed, so every tree
  that is reached is.
* `reached_wellFormed`: what that means for its nodes, for the walks over it and for positions.
-/

namespace GrammarEvolution

namespace Tree

variable {t : Tree}

/-! ### Calls -/

/-- The trees at hand after a call: the ones it answers, or the old ones if it failed. -/
def kept (ts : List Tree) : Except Error (List Tree) → List Tree
  | .ok ts' => ts'
  | .error _ => ts

/-- One call on the trees at hand. A call that writes to one tree and reads another is made on two
of them. -/
inductive Step : List Tree → List Tree → Prop
  | single {ts : List Tree} (s : SymbolId) : Step ts (ts ++ [single s])
  | clone {ts : List Tree} {t : Tree} : t ∈ ts → Step ts (ts ++ [t])
  | pushChild {ts : List Tree} {t : Tree} {i n : Nat} (s : SymbolId) :
      ts[i]? = some t → n < t.nodes.size → Step ts (ts.set i (t.pushChild n s).2)
  | expand {ts : List Tree} {t : Tree} {i n : Nat} {V : Type} (g : Grammar V) (p : Production) :
      ts[i]? = some t → n < t.nodes.size →
      Step ts (kept ts ((g.expand t n p).map fun grown => ts.set i grown.2))
  | copySubtree {ts : List Tree} {t u : Tree} {i j n : Nat} (parent : Option Nat) :
      ts[i]? = some t → ts[j]? = some u → i ≠ j → n < t.nodes.size →
      (∀ p ∈ parent, p < u.nodes.size) → Step ts (ts.set j (t.copySubtree n u parent).2)
  | subtree {ts : List Tree} {t : Tree} {n : Nat} :
      t ∈ ts → n < t.nodes.size → Step ts (ts ++ [t.subtree n])
  | swap {ts : List Tree} {t u : Tree} {i j a b : Nat} :
      ts[i]? = some t → ts[j]? = some u → i ≠ j → a < t.nodes.size → b < u.nodes.size →
      Step ts (kept ts ((t.swap a u b).map fun spliced => (ts.set i spliced.1).set j spliced.2))
  | replace {ts : List Tree} {t u : Tree} {i j a : Nat} :
      ts[i]? = some t → ts[j]? = some u → i ≠ j → a < t.nodes.size →
      Step ts (kept ts ((t.replace a u).map (ts.set i)))

/-- Calls from nothing lead to these trees. -/
def Reached (ts : List Tree) : Prop :=
  Relation.ReflTransGen Step [] ts

/-! ### What a call preserves -/

/-- Every tree at hand is well-formed. -/
def AllWellFormed (ts : List Tree) : Prop :=
  ∀ t ∈ ts, t.WellFormed

namespace AllWellFormed

variable {ts : List Tree} {t : Tree}

theorem set (h : AllWellFormed ts) (ht : t.WellFormed) (i : Nat) : AllWellFormed (ts.set i t) := by
  intro u hu
  rcases List.mem_or_eq_of_mem_set hu with hu | rfl
  · exact h u hu
  · exact ht

theorem concat (h : AllWellFormed ts) (ht : t.WellFormed) : AllWellFormed (ts ++ [t]) := by
  intro u hu
  rcases List.mem_append.mp hu with hu | hu
  · exact h u hu
  · rwa [List.mem_singleton.mp hu]

theorem kept (h : AllWellFormed ts) {result : Except Error (List Tree)}
    (new : ∀ ts', result = .ok ts' → AllWellFormed ts') : AllWellFormed (kept ts result) := by
  cases result with
  | ok ts' => exact new ts' rfl
  | error e => exact h

end AllWellFormed

/-- A derivation step that succeeds puts the right-hand side below its node. -/
theorem expand_eq_ok_iff {V : Type} {g : Grammar V} {p : Production} {t : Tree} {n : Nat}
    {grown : List Nat × Tree} : g.expand t n p = .ok grown ↔
      t.symbol n = p.lhs ∧ t.isLeaf n = true ∧ t.pushChildren n p.rhs = grown := by
  rw [Grammar.expand]
  by_cases same : t.symbol n = p.lhs
  · cases leaf : t.isLeaf n <;>
      simp [same, pure, Except.pure, bind, Except.bind, throw, throwThe, MonadExceptOf.throw]
  · simp [same, bind, Except.bind, throw, throwThe, MonadExceptOf.throw]

/-- A call keeps every tree well-formed. -/
theorem Step.wellFormed {ts ts' : List Tree} (step : Step ts ts') (h : AllWellFormed ts) :
    AllWellFormed ts' := by
  have at_hand : ∀ {i : Nat} {t : Tree}, ts[i]? = some t → t.WellFormed := fun here =>
    h _ (List.mem_of_getElem? here)
  cases step with
  | single s => exact h.concat (wellFormed_ofShape (.node s []))
  | clone ht => exact h.concat (h _ ht)
  | pushChild s here inside => exact h.set ((at_hand here).pushChild inside s) _
  | expand g p here inside =>
      refine h.kept fun ts' result => ?_
      obtain ⟨grown, expanded, rfl⟩ := Except.map_eq_ok_iff.mp result
      obtain ⟨-, -, rfl⟩ := expand_eq_ok_iff.mp expanded
      exact h.set ((at_hand here).pushChildren inside p.rhs) _
  | copySubtree parent _ there _ _ owned => exact h.set ((at_hand there).graft _ parent owned) _
  | subtree _ _ => exact h.concat (wellFormed_ofShape _)
  | swap _ _ _ _ _ =>
      refine h.kept fun ts' result => ?_
      obtain ⟨⟨t', u'⟩, spliced, rfl⟩ := Except.map_eq_ok_iff.mp result
      obtain ⟨_, _, _, _, -, -, rfl, rfl⟩ := swap_eq_ok_iff.mp spliced
      exact (h.set (wellFormed_ofShape _) _).set (wellFormed_ofShape _) _
  | replace _ _ _ _ =>
      refine h.kept fun ts' result => ?_
      obtain ⟨t', spliced, rfl⟩ := Except.map_eq_ok_iff.mp result
      obtain ⟨_, _, -, rfl⟩ := replace_eq_ok_iff.mp spliced
      exact h.set (wellFormed_ofShape _) _

/-- Calls lead to well-formed trees only. -/
theorem Reached.wellFormed {ts : List Tree} (reached : Reached ts) : AllWellFormed ts := by
  induction reached with
  | refl => exact fun t ht => absurd ht List.not_mem_nil
  | tail _ step ih => exact step.wellFormed ih

/-! ### What the links of a reached tree amount to -/

/-- The walks over a tree come to an end: the one down from the root, the ones up, every recursion
from nodes to children, the measures among them, and every copy. -/
structure WalksEnd (t : Tree) : Prop where
  visits : Visits t [t.root] t.preorder
  climbs : ∀ n, Climbs t n (t.depth n)
  descents : WellFounded fun c n => c ∈ t.children n
  heights : ∀ n, t.heightAt n = ((t.children n).map fun c => t.heightAt c + 1).foldl max 0
  sizes : ∀ n, t.sizeAt n = ((t.children n).map t.sizeAt).sum + 1
  copies : ∀ n dst parent, ∃ copied dst', Copies t n dst parent copied dst' ∧
    t.copySubtree n dst parent = (copied, dst')

theorem WellFormed.walksEnd (h : t.WellFormed) : t.WalksEnd where
  visits := h.visits
  climbs := h.climbs
  descents := h.wellFounded_children
  heights := h.heightAt_eq
  sizes := h.sizeAt_eq
  copies n dst parent := ⟨_, _, h.copies_graft n dst parent, rfl⟩

/-- A node has a position when some node lists it. -/
theorem WellFormed.exists_position_iff (h : t.WellFormed) (n : Nat) :
    (∃ place, t.position n = .ok place) ↔ ∃ m, n ∈ t.children m := by
  simp only [Prod.exists, h.position_eq_ok_iff, List.mem_iff_getElem?]

/-- Two leaves below a root. -/
def fork : Tree :=
  ⟨#[⟨0, none, [1, 2]⟩, ⟨1, some 0, []⟩, ⟨2, some 0, []⟩]⟩

/-- The same with a copy of itself below node 1, which has not taken it in. -/
def forkWithSpare : Tree :=
  ⟨#[⟨0, none, [1, 2]⟩, ⟨1, some 0, []⟩, ⟨2, some 0, []⟩,
    ⟨0, some 1, [4, 5]⟩, ⟨1, some 3, []⟩, ⟨2, some 3, []⟩]⟩

/-- The last of the calls fails, since one of its two nodes is a root. -/
theorem reached_forks : Reached [fork, forkWithSpare] := by
  have first : Step [single 0] [⟨#[⟨0, none, [1]⟩, ⟨1, some 0, []⟩]⟩] :=
    .pushChild (t := single 0) (i := 0) (n := 0) 1 rfl (by decide)
  have second : Step [⟨#[⟨0, none, [1]⟩, ⟨1, some 0, []⟩]⟩] [fork] :=
    .pushChild (t := ⟨#[⟨0, none, [1]⟩, ⟨1, some 0, []⟩]⟩) (i := 0) (n := 0) 2 rfl (by decide)
  have copy : Step [fork, fork] [fork, forkWithSpare] := by
    have copied : (fork.copySubtree 0 fork (some 1)).2 = forkWithSpare := by cbv
    rw [← copied]
    exact .copySubtree (t := fork) (u := fork) (i := 0) (j := 1) (n := 0) (some 1) rfl rfl
      (by decide) (by decide) (by decide)
  have failing : Step [fork, forkWithSpare] (kept [fork, forkWithSpare]
      ((fork.swap 0 forkWithSpare 1).map fun spliced => [spliced.1, spliced.2])) :=
    .swap (t := fork) (u := forkWithSpare) (i := 0) (j := 1) (a := 0) (b := 1) rfl rfl
      (by decide) (by decide) (by decide)
  have refused : fork.swap 0 forkWithSpare 1 = .error (.structural .rootHasNoPosition) := by cbv
  rw [refused] at failing
  exact .tail (.tail (.tail (.tail (.tail (.single (.single 0)) first) second)
    (.clone List.mem_cons_self)) copy) failing

end Tree

end GrammarEvolution
