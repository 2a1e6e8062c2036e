/-!
SplitMix64: a counter in steps of an odd constant, and a bijective mixer.

The counter runs through all 64-bit states, and the mixer sends 0 to 0, so the word 0 comes round
from every state. `stepsToZero` counts how many words come before it, which is what lets a search
through the words end.
-/

namespace GrammarEvolution

/-- The state of the generator: the counter from which the last word was mixed. -/
structure SplitMix where
  state : UInt64
deriving DecidableEq, Repr

namespace SplitMix

def increment : UInt64 := 0x9e3779b97f4a7c15

/-- The odd constant that undoes `increment` as a factor. -/
def incrementInverse : UInt64 := 0xf1de83e19937733d

/-- Spreads every bit of the counter over the word. -/
def mix (z : UInt64) : UInt64 :=
  let z := (z ^^^ (z >>> 30)) * 0xbf58476d1ce4e5b9
  let z := (z ^^^ (z >>> 27)) * 0x94d049bb133111eb
  z ^^^ (z >>> 31)

def advance (g : SplitMix) : SplitMix := ⟨g.state + increment⟩

/-- The next word and the generator after it. -/
def next (g : SplitMix) : UInt64 × SplitMix := (mix g.advance.state, g.advance)

/-- How many words are drawn before the next one that is 0. -/
def stepsToZero (g : SplitMix) : Nat :=
  (-(g.state * incrementInverse) - 1).toNat

@[simp] theorem mix_zero : mix 0 = 0 := by decide

theorem increment_mul_incrementInverse : increment * incrementInverse = 1 := by decide

/-- A word other than 0 brings the next 0 one step nearer. -/
theorem stepsToZero_advance_lt (g : SplitMix) (h : mix g.advance.state ≠ 0) :
    g.advance.stepsToZero < g.stepsToZero := by
  have hne : g.state + increment ≠ 0 := by
    intro hz
    apply h
    simp [advance, hz]
  have hstep : -(g.advance.state * incrementInverse) - 1 =
      (-(g.state * incrementInverse) - 1) - 1 := by
    rw [advance, UInt64.add_mul, increment_mul_incrementInverse]
    grind
  have hpos : -(g.state * incrementInverse) - 1 ≠ 0 := by
    intro hz
    apply hne
    grind [increment_mul_incrementInverse]
  simp only [stepsToZero]
  rw [hstep]
  generalize -(g.state * incrementInverse) - 1 = k at hpos
  have hk : k.toNat ≠ 0 := fun hz => hpos (UInt64.toNat_inj.mp (by simpa using hz))
  have hle : (1 : UInt64) ≤ k := by
    rw [UInt64.le_iff_toNat_le]
    have : (1 : UInt64).toNat = 1 := rfl
    omega
  rw [UInt64.toNat_sub_of_le _ _ hle]
  have : (1 : UInt64).toNat = 1 := rfl
  omega

end SplitMix

end GrammarEvolution
