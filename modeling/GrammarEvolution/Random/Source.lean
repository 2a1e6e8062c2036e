import GrammarEvolution.Error

/-!
Random choices.

A random source answers three questions: an index below a bound, asked on 32 or on 64 bits, and a
fraction of the unit interval. An index is below its bound by its type, so nothing that draws has
to trust a source. Whatever is random is stated for every source; a sampling may fail, and then has
still used the source up to that point.
-/

namespace GrammarEvolution

/-- What can be asked of a source of randomness with states `σ`. -/
class RandomSource (σ : Type) where
  /-- An index below `n`, from 32-bit words. -/
  index32 (n : Nat) (h : 0 < n) : σ → Fin n × σ
  /-- An index below `n`, from 64-bit words. -/
  index64 (n : Nat) (h : 0 < n) : σ → Fin n × σ
  /-- A multiple of 2⁻⁵³ from 0 up to but not including 1. -/
  fraction : σ → Float × σ

/-- A computation that draws from a source and may fail. -/
abbrev Sampling (σ : Type) := ExceptT Error (StateM σ)

namespace Sampling

variable {σ α : Type} [RandomSource σ]

def index32 (n : Nat) (h : 0 < n) : Sampling σ (Fin n) :=
  modifyGet (RandomSource.index32 n h)

def index64 (n : Nat) (h : 0 < n) : Sampling σ (Fin n) :=
  modifyGet (RandomSource.index64 n h)

/-- A uniformly chosen element. Nothing is drawn for an empty list. -/
def choose (xs : List α) : Sampling σ (Option α) :=
  if h : 0 < xs.length then do
    let i ← index32 xs.length h
    return some (xs.get i)
  else
    return none

end Sampling

end GrammarEvolution
