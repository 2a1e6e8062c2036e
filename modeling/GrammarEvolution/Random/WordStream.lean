import GrammarEvolution.Random.SplitMix
import GrammarEvolution.Random.Source

/-!
Random choices from a stream of 64-bit words.

A stream is a script followed by a SplitMix64 generator. The script is a list of words said once
and a list of words said over and over, a given number of rounds; it is read by position and never
written out. An index below `n` is the upper half of a word times `n`, and a word is passed over
when the lower half falls outside the largest multiple of `n` that fits by shifting, so that no
index is favoured. The word 0 is never passed over, and every stream reaches it.
-/

namespace GrammarEvolution

/-- Words said once, words said in rounds, then the generator; and how many have been taken. -/
structure WordStream where
  once : Array UInt64
  round : Array UInt64
  rounds : Nat
  drawn : Nat
  generator : SplitMix
deriving DecidableEq, Repr

namespace WordStream

/-! ### Words -/

/-- The number of words before the generator takes over. -/
def scripted (s : WordStream) : Nat :=
  s.once.size + s.round.size * s.rounds

/-- The word at a position of the script. -/
def scriptedWord (s : WordStream) (k : Nat) : UInt64 :=
  if k < s.once.size then s.once.getD k 0
  else s.round.getD ((k - s.once.size) % s.round.size) 0

/-- The next word and the stream after it. -/
def next (s : WordStream) : UInt64 × WordStream :=
  if s.drawn < s.scripted then
    (s.scriptedWord s.drawn, { s with drawn := s.drawn + 1 })
  else
    (s.generator.next.1, { s with drawn := s.drawn + 1, generator := s.generator.next.2 })

theorem next_of_lt {s : WordStream} (h : s.drawn < s.scripted) :
    s.next = (s.scriptedWord s.drawn, { s with drawn := s.drawn + 1 }) :=
  if_pos h

theorem next_of_not_lt {s : WordStream} (h : ¬ s.drawn < s.scripted) :
    s.next = (SplitMix.mix s.generator.advance.state,
      { s with drawn := s.drawn + 1, generator := s.generator.advance }) :=
  if_neg h

/-- Takes words until one is accepted. The word 0 must be acceptable: the script ends, and after
it the generator comes to 0. -/
def search {α : Type} (accept : UInt64 → Option α) (h : accept 0 ≠ none) (s : WordStream) :
    α × WordStream :=
  match _refused : accept s.next.1 with
  | some a => (a, s.next.2)
  | none => search accept h s.next.2
termination_by (s.scripted - s.drawn, s.generator.stepsToZero)
decreasing_by
  by_cases hs : s.drawn < s.scripted
  · rw [next_of_lt hs]
    apply Prod.Lex.left
    simp only [scripted] at hs ⊢
    omega
  · rw [next_of_not_lt hs] at _refused ⊢
    have hzero : SplitMix.mix s.generator.advance.state ≠ 0 := by
      intro hz
      exact h (hz ▸ _refused)
    have hleft : s.scripted - (s.drawn + 1) = s.scripted - s.drawn := by omega
    simp only [scripted] at hleft ⊢
    rw [hleft]
    exact Prod.Lex.right _ (SplitMix.stepsToZero_advance_lt s.generator hzero)

/-! ### Choices -/

/-- The index below `n` that a word below `range` stands for, unless the word is to be passed
over. For `range` a power of two, the words that stand for an index number `n` shifted up until it
fills as many bits. -/
def scaled (range n word : Nat) (h : word < range) : Option (Fin n) :=
  if hn : 0 < n then
    let product := word * n
    if product % range < n <<< (range.log2 - (n.log2 + 1)) then
      some ⟨product / range, Nat.div_lt_of_lt_mul (Nat.mul_lt_mul_of_pos_right h hn)⟩
    else
      none
  else
    none

theorem scaled_zero (range n : Nat) (hn : 0 < n) (h : 0 < range) :
    scaled range n 0 h = some ⟨0, hn⟩ := by
  have hpos : 0 < n <<< (range.log2 - (n.log2 + 1)) := by
    rw [Nat.shiftLeft_eq]
    exact Nat.mul_pos hn (Nat.two_pow_pos _)
  simp [scaled, hn, hpos]

/-- An index below `n` from the upper 32 bits of a word. -/
def scaled32 (n : Nat) (word : UInt64) : Option (Fin n) :=
  scaled UInt32.size n (word >>> 32).toNat (by
    have := word.toNat_lt
    rw [UInt64.toNat_shiftRight, Nat.shiftRight_eq_div_pow]
    change word.toNat / 2 ^ 32 < 2 ^ 32
    omega)

/-- An index below `n` from a whole word. -/
def scaled64 (n : Nat) (word : UInt64) : Option (Fin n) :=
  scaled UInt64.size n word.toNat word.toNat_lt

/-- The word 0 stands for the index 0, whatever the bound. -/
theorem scaled32_zero_ne_none {n : Nat} (h : 0 < n) : scaled32 n 0 ≠ none := by
  simp [scaled32, scaled_zero, h]

theorem scaled64_zero_ne_none {n : Nat} (h : 0 < n) : scaled64 n 0 ≠ none := by
  simp [scaled64, scaled_zero, h]

/-- The fraction whose 53 binary places are the upper bits of a word. -/
def fractionOf (word : UInt64) : Float :=
  (word >>> 11).toFloat / 9007199254740992

instance : RandomSource WordStream where
  index32 n h := search (scaled32 n) (scaled32_zero_ne_none h)
  index64 n h := search (scaled64 n) (scaled64_zero_ne_none h)
  fraction s := (fractionOf s.next.1, s.next.2)

end WordStream

end GrammarEvolution
