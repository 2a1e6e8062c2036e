import GrammarEvolution.Random.Source

/-!
Drawing without replacement.

A pool is a list whose order does not matter to its users. A draw takes the element at a random
index away and moves the last element into the gap, so every draw shrinks the pool by one.
`firstDrawn` draws until something can be made of an element.
-/

namespace GrammarEvolution

namespace Pool

variable {α β σ : Type}

/-- The pool without the element at `i`, the last element in its place. -/
def without (pool : List α) (i : Fin pool.length) : List α :=
  (pool.set i (pool.getLast (List.ne_nil_of_length_pos i.pos))).dropLast

@[simp] theorem length_without (pool : List α) (i : Fin pool.length) :
    (without pool i).length = pool.length - 1 := by
  simp [without]

variable [RandomSource σ]

/-- A random element and the rest of the pool. Nothing is drawn from an empty pool. -/
def draw (pool : List α) : Sampling σ (Option (α × List α)) :=
  if h : 0 < pool.length then do
    let i ← Sampling.index64 pool.length h
    return some (pool.get i, without pool i)
  else
    return none

/-- Draws elements until `attempt` answers something for one of them, or none is left. -/
def firstDrawn (pool : List α) (attempt : α → Sampling σ (Option β)) :
    Sampling σ (Option β) :=
  if h : 0 < pool.length then do
    let i ← Sampling.index64 pool.length h
    match ← attempt (pool.get i) with
    | some found => return some found
    | none => firstDrawn (without pool i) attempt
  else
    return none
termination_by pool.length
decreasing_by simp; omega

end Pool

end GrammarEvolution
