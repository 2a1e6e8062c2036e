import GrammarEvolution.Proofs.Script

/-!
Drawing until nothing is left.

`Draws` is a row of draws from one pool, each from what the one before it left. What has been drawn
and what is left make up the pool at every point of a row, so a row that ends has drawn the pool in
some order. A source that may answer any index may draw any element next, so any order may come up.

* `draw_cases`: what one draw comes to.
* `Draws.perm`: what a row has drawn and what it has left.
* `Draws.unique`: a row ends in one way only.
* `exists_script_of_perm`: the script for an order.
* `Draws.answer_firstDrawn`: a search through a pool goes along a row.
* `draws_permute`: what drawing until nothing is left comes to.
-/

namespace GrammarEvolution

namespace Pool

open Sampling

variable {σ α β : Type} [RandomSource σ] {pool left drawn : List α} {s s' : σ}

/-! ### One draw -/

/-- A draw from a pool that is not empty takes the element at the index that the source answers. -/
theorem answer_draw (inhabited : 0 < pool.length) (s : σ) :
    let i := (RandomSource.index64 pool.length inhabited s).1
    (draw pool).answer s = .ok (some (pool.get i, without pool i)) := by
  rw [draw, dif_pos inhabited]
  rfl

theorem rest_draw (inhabited : 0 < pool.length) (s : σ) :
    (draw pool).rest s = (RandomSource.index64 pool.length inhabited s).2 := by
  rw [draw, dif_pos inhabited]
  rfl

/-- A draw takes one element away and keeps the others; from an empty pool it takes nothing, and
leaves the source alone. -/
theorem draw_cases (pool : List α) (s : σ) :
    (pool = [] ∧ (draw pool).answer s = .ok none ∧ (draw pool).rest s = s) ∨
      ∃ a rest, (draw pool).answer s = .ok (some (a, rest)) ∧ (a :: rest).Perm pool := by
  cases pool with
  | nil => exact .inl ⟨rfl, rfl, rfl⟩
  | cons a pool =>
      have inhabited : 0 < (a :: pool).length := Nat.zero_lt_succ _
      exact .inr ⟨_, _, answer_draw inhabited s, perm_without _ _⟩

/-! ### Rows of draws -/

/-- A row of draws from a pool and a state of the source: what is drawn, what is left of the pool,
and the state in which the source is left. -/
inductive Draws : List α → σ → List α → List α → σ → Prop
  | stop {pool : List α} {s : σ} : Draws pool s [] pool s
  | draw {pool rest drawn left : List α} {a : α} {s s' : σ} :
      (Pool.draw pool).answer s = .ok (some (a, rest)) →
      Draws rest ((Pool.draw pool).rest s) drawn left s' → Draws pool s (a :: drawn) left s'

/-- What is drawn and what is left make up the pool. -/
theorem Draws.perm (h : Draws pool s drawn left s') : (drawn ++ left).Perm pool := by
  induction h with
  | stop => exact .refl _
  | @draw pool rest drawn left a s s' first _ ih =>
      rcases draw_cases pool s with ⟨-, none, -⟩ | ⟨b, others, taken, perm⟩
      · rw [none] at first
        cases first
      · rw [taken] at first
        cases first
        exact (ih.cons a).trans perm

/-- From every pool a row of draws goes on until nothing is left. -/
theorem exists_draws (pool : List α) (s : σ) : ∃ drawn s', Draws pool s drawn [] s' := by
  induction size : pool.length generalizing pool s with
  | zero =>
      obtain rfl := List.length_eq_zero_iff.mp size
      exact ⟨[], s, .stop⟩
  | succ n ih =>
      rcases draw_cases pool s with ⟨rfl, -, -⟩ | ⟨a, rest, first, perm⟩
      · cases size
      · have shorter : rest.length = n := by simpa [size] using perm.length_eq
        obtain ⟨drawn, s', row⟩ := ih rest _ shorter
        exact ⟨a :: drawn, s', .draw first row⟩

/-- A row that ends because nothing is drawn any more is the row that uses the pool up. -/
theorem Draws.unique {drawn' left' : List α} {u : σ} (h : Draws pool s drawn [] s')
    (row : Draws pool s drawn' left' u) (last : (Pool.draw left').answer u = .ok none) :
    drawn' = drawn ∧ left' = [] ∧ u = s' := by
  generalize ended : ([] : List α) = left at h
  induction h generalizing drawn' with
  | stop =>
      subst ended
      cases row with
      | stop => exact ⟨rfl, rfl, rfl⟩
      | draw first _ => cases first
  | draw first _ ih =>
      cases row with
      | stop =>
          rw [first] at last
          cases last
      | draw first' row =>
          rw [first] at first'
          cases first'
          obtain ⟨rfl, same⟩ := ih row ended
          exact ⟨rfl, same⟩

/-! ### Any order -/

/-- For every order of a pool there is a script that leads to it: the index of each element in what
is left when its turn comes. -/
theorem exists_script_of_perm {order : List α} (perm : order.Perm pool) :
    ∃ script : Script, script.Within pool.length ∧
      ∀ s : σ, Follows RandomSource.index64 script s → ∃ s', Draws pool s order [] s' := by
  induction order generalizing pool with
  | nil =>
      obtain rfl := perm.nil_eq
      exact ⟨[], nofun, fun s _ => ⟨s, .stop⟩⟩
  | cons a order ih =>
      obtain ⟨i, rfl⟩ := List.get_of_mem (perm.subset List.mem_cons_self)
      have others : order.Perm (without pool i) :=
        (perm.trans (perm_without pool i).symm).cons_inv
      obtain ⟨script, within, leads⟩ := ih others
      refine ⟨⟨pool.length, i⟩ :: script, List.forall_mem_cons.mpr ⟨Nat.le_refl _, ?_⟩, ?_⟩
      · intro question mem
        have := within question mem
        rw [length_without] at this
        omega
      · rintro s ⟨index, later⟩
        rw [← rest_draw i.pos] at later
        obtain ⟨s', row⟩ := leads _ later
        have first := answer_draw i.pos s
        rw [index] at first
        exact ⟨s', .draw first row⟩

/-! ### Searches -/

/-- A search draws, tries what it has drawn, and goes on with the rest. -/
theorem firstDrawn_eq_draw (pool : List α) (attempt : α → Sampling σ (Option β)) :
    firstDrawn pool attempt = (do
      match ← draw pool with
      | none => return none
      | some (a, rest) =>
          match ← attempt a with
          | some found => return some found
          | none => firstDrawn rest attempt) := by
  by_cases inhabited : 0 < pool.length
  · rw [firstDrawn, dif_pos inhabited, draw, dif_pos inhabited, bind_assoc]
    rfl
  · rw [firstDrawn, dif_neg inhabited, draw, dif_neg inhabited]
    rfl

/-- Where attempts draw nothing themselves, a search finds the first success of a row. -/
theorem Draws.answer_firstDrawn (h : Draws pool s drawn [] s') (attempt : α → Option β) :
    (firstDrawn pool fun a => (pure (attempt a) : Sampling σ _)).answer s =
      .ok (drawn.findSome? attempt) := by
  generalize ended : ([] : List α) = left at h
  induction h with
  | stop =>
      subst ended
      rw [firstDrawn_eq_draw]
      rfl
  | @draw pool rest drawn left a s s' first _ ih =>
      rw [firstDrawn_eq_draw, answer_bind, first, List.findSome?_cons]
      simp only [Except.bind, pure_bind]
      cases attempt a with
      | some found => rfl
      | none => exact ih ended

/-! ### The whole pool -/

/-- **Drawing until nothing is left.** From every pool and every state of the source one row of
draws goes on until the next one answers nothing. It takes as many draws as the pool has elements
and lists them in some order, and the draw that answers nothing leaves the source alone. A source
that may answer any indices may list them in any order. -/
theorem draws_permute (pool : List α) :
    (∀ s : σ, ∃ drawn s',
      (∀ drawn' left u, Draws pool s drawn' left u ∧ (draw left).answer u = .ok none ↔
        drawn' = drawn ∧ left = [] ∧ u = s') ∧
      drawn.length = pool.length ∧ drawn.Perm pool ∧
      (draw ([] : List α)).rest s' = s') ∧
    (Versatile (RandomSource.index64 (σ := σ)) pool.length →
      ∀ order : List α, order.Perm pool → ∃ s s' : σ, Draws pool s order [] s') := by
  constructor
  · intro s
    obtain ⟨drawn, s', row⟩ := exists_draws pool s
    have perm : drawn.Perm pool := by simpa using row.perm
    refine ⟨drawn, s', fun drawn' left u => ⟨fun ⟨row', last⟩ => row.unique row' last, ?_⟩,
      perm.length_eq, perm, rfl⟩
    rintro ⟨rfl, rfl, rfl⟩
    exact ⟨row, rfl⟩
  · intro versatile order perm
    obtain ⟨script, within, leads⟩ := exists_script_of_perm (σ := σ) perm
    obtain ⟨s, follows⟩ := versatile script within
    obtain ⟨s', row⟩ := leads s follows
    exact ⟨s, s', row⟩

/-- A pool with an element twice, and an order that keeps the two apart. -/
theorem draws_permute_twins :
    let pool := [7, 7, 9]
    let source : WordStream := ⟨#[], #[], 0, 0, ⟨0⟩⟩
    (Versatile (RandomSource.index64 (σ := WordStream)) pool.length ∧ [7, 9, 7].Perm pool) ∧
    (∃ drawn s', Draws pool source drawn [] s' ∧ drawn.length = 3 ∧ drawn.Perm pool) ∧
    ∃ s s' : WordStream, Draws pool s [7, 9, 7] [] s' := by
  intro pool source
  have versatile : Versatile (RandomSource.index64 (σ := WordStream)) pool.length :=
    WordStream.versatile64.mono (by decide)
  have perm : [7, 9, 7].Perm pool := by decide
  obtain ⟨some, any⟩ := draws_permute (σ := WordStream) pool
  obtain ⟨drawn, s', row, length, permuted, -⟩ := some source
  exact ⟨⟨versatile, perm⟩,
    ⟨drawn, s', ((row drawn [] s').mpr ⟨rfl, rfl, rfl⟩).1, length, permuted⟩,
    any versatile [7, 9, 7] perm⟩

end Pool

end GrammarEvolution
