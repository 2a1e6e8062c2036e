/-!
Fitness.

Fitness measures error: smaller is better, and 0 means solved. It is a double, kept as its bits,
since the total order of all doubles tells more of them apart than arithmetic does. Sign and
magnitude decide in that order: −0 comes before 0, what is no number and negative comes before
everything, and what is no number and positive comes after.
-/

namespace GrammarEvolution

/-- The bit of a double that is set when it is negative. -/
def signBit : Nat := 0x8000000000000000

/-- A double by its bits. -/
@[ext]
structure Fitness where
  bits : UInt64
deriving DecidableEq, Repr

namespace Fitness

instance : Zero Fitness where
  zero := ⟨0⟩

/-- The other sign, whatever the magnitude. -/
instance : Neg Fitness where
  neg f := ⟨f.bits ^^^ 0x8000000000000000⟩

/-- The bits of a double. `Float` has only one that is no number, the positive one. -/
def ofFloat (x : Float) : Fitness := ⟨x.toBits⟩

/-- The double with these bits. Those that are no numbers become one. -/
def toFloat (f : Fitness) : Float := .ofBits f.bits

instance : Coe Float Fitness := ⟨ofFloat⟩

instance : CoeOut Fitness Float := ⟨toFloat⟩

/-- The place in the total order: the magnitude bits, counted down from −1 when the sign bit is
set. -/
def place (f : Fitness) : Int :=
  let bits := f.bits.toNat
  if bits < signBit then bits else -1 - (bits - signBit : Nat)

instance : Ord Fitness where
  compare a b := compare a.place b.place

instance : LE Fitness where
  le a b := a.place ≤ b.place

instance : LT Fitness where
  lt a b := a.place < b.place

instance (a b : Fitness) : Decidable (a ≤ b) := inferInstanceAs (Decidable (a.place ≤ b.place))

instance (a b : Fitness) : Decidable (a < b) := inferInstanceAs (Decidable (a.place < b.place))

/-- Whether a fitness equals 0: both zeros do. -/
def isZero (f : Fitness) : Bool := f == 0 || f == -0

end Fitness

/-- What a fitness may be given as: a double, or its bits. -/
class ToFitness (F : Type) where
  toFitness : F → Fitness

export ToFitness (toFitness)

instance : ToFitness Float := ⟨Fitness.ofFloat⟩

instance : ToFitness Fitness := ⟨id⟩

@[simp] theorem toFitness_self (f : Fitness) : toFitness f = f := rfl

end GrammarEvolution
