import GrammarEvolution.Proofs.Sampling
import GrammarEvolution.Random.WordStream

/-!
What samplings can be brought to answer.

`Always` speaks of every state of a source; the other side is that a source may give any answer
within its bounds. A script is a list of questions with their answers, and a sampling reaches an
answer when some script leads to it, wherever the script is followed. Scripts of parts are joined to
scripts of the whole, and on a versatile source, which has a state for every script, all that is
reached is answered.

* `Reaches.bind`, `reaches_choose`, `Reaches.mapM`: one rule for each way in which samplings are put
  together.
* `Reaches.exists_answer`: what is reached is answered on a versatile source.
* `WordStream.instRandomSource_eq_trying`: the choices of a stream of words in a form that computes.
* `WordStream.versatile_of_accept`: streams of words are versatile, if every answer has a word that
  is accepted for it; `WordStream.versatile32` and `WordStream.versatile64` are the two cases of it.
-/

namespace GrammarEvolution

namespace Sampling

variable {σ α β : Type}

/-- Questions for an index below a bound, each with the answer. -/
abbrev Script := List ((n : Nat) × Fin n)

/-- A way to ask a source for an index below a bound. -/
abbrev Asking (σ : Type) := (n : Nat) → 0 < n → σ → Fin n × σ

/-- The bounds in a script are no larger than a limit. -/
def Script.Within (limit : Nat) (script : Script) : Prop :=
  ∀ question ∈ script, question.1 ≤ limit

/-- Asked the questions of a script in turn, the source gives its answers. -/
def Follows (ask : Asking σ) : Script → σ → Prop
  | [], _ => True
  | ⟨n, i⟩ :: script, s => (ask n i.pos s).1 = i ∧ Follows ask script (ask n i.pos s).2

/-- Every script with bounds up to a limit is followed from some state of the source. -/
def Versatile (ask : Asking σ) (limit : Nat) : Prop :=
  ∀ script : Script, script.Within limit → ∃ s : σ, Follows ask script s

/-- A smaller limit asks for less. -/
theorem Versatile.mono {ask : Asking σ} {limit limit' : Nat} (h : Versatile ask limit)
    (le : limit' ≤ limit) : Versatile ask limit' :=
  fun script within => h script fun question mem => Nat.le_trans (within question mem) le

variable [RandomSource σ]

/-- Wherever some script with bounds up to a limit is followed on 32 bits, the sampling answers `a`,
and is done with the script then. -/
def Reaches (limit : Nat) (x : Sampling σ α) (a : α) : Prop :=
  ∃ script : Script, script.Within limit ∧ ∀ s rest,
    Follows RandomSource.index32 (script ++ rest) s →
      x.answer s = .ok a ∧ Follows RandomSource.index32 rest (x.rest s)

/-! ### Rules -/

variable {limit : Nat} {x : Sampling σ α} {a : α}

theorem reaches_pure (limit : Nat) (a : α) : Reaches limit (pure a : Sampling σ α) a :=
  ⟨[], nofun, fun _ _ follows => ⟨rfl, follows⟩⟩

theorem Reaches.bind {f : α → Sampling σ β} {b : β} (h : Reaches limit x a)
    (next : Reaches limit (f a) b) : Reaches limit (x >>= f) b := by
  obtain ⟨first, within, leads⟩ := h
  obtain ⟨second, within', leads'⟩ := next
  refine ⟨first ++ second, List.forall_mem_append.mpr ⟨within, within'⟩, fun s rest follows => ?_⟩
  rw [List.append_assoc] at follows
  obtain ⟨ok, follows⟩ := leads s _ follows
  rw [answer_bind, ok, rest_bind ok]
  exact leads' _ rest follows

/-- Answers for the elements of a list are reached one after the other. -/
theorem Reaches.mapM {xs : List α} {ys : List β} {f : α → Sampling σ β}
    (h : List.Forall₂ (fun x y => Reaches limit (f x) y) xs ys) : Reaches limit (xs.mapM f) ys := by
  induction h with
  | nil => exact reaches_pure limit []
  | cons head _ ih =>
      rw [List.mapM_cons]
      exact head.bind (ih.bind (reaches_pure limit _))

/-- Any element can be chosen. -/
theorem reaches_choose {xs : List α} (mem : a ∈ xs) (small : xs.length ≤ limit) :
    Reaches limit (choose xs : Sampling σ (Option α)) (some a) := by
  obtain ⟨i, rfl⟩ := List.get_of_mem mem
  have drawn : Reaches limit (index32 xs.length i.pos : Sampling σ _) i := by
    refine ⟨[⟨xs.length, i⟩], by simpa [Script.Within] using small, ?_⟩
    rintro s rest ⟨first, later⟩
    exact ⟨congrArg Except.ok first, later⟩
  rw [choose, dif_pos i.pos]
  exact drawn.bind (reaches_pure limit _)

/-- **What is reached is answered** on a versatile source. -/
theorem Reaches.exists_answer (h : Reaches limit x a)
    (versatile : Versatile (RandomSource.index32 (σ := σ)) limit) : ∃ s, x.answer s = .ok a := by
  obtain ⟨script, within, leads⟩ := h
  obtain ⟨s, follows⟩ := versatile script within
  rw [← List.append_nil script] at follows
  exact ⟨s, (leads s [] follows).1⟩

end Sampling

/-! ### Streams of words -/

namespace WordStream

open Sampling

/-- The search with the next word tried first. It computes where that word is accepted, which
`search` never does, as it recurs on a measure. -/
def tryNext {α : Type} (accept : UInt64 → Option α) (h : accept 0 ≠ none) (s : WordStream) :
    α × WordStream :=
  match accept s.next.1 with
  | some a => (a, s.next.2)
  | none => search accept h s.next.2

theorem search_eq_tryNext : @search = @tryNext := by
  funext α accept h s
  rw [search, tryNext]
  split <;> rename_i found <;> rw [found]

/-- A word that is accepted ends the search. -/
theorem search_of_accept {α : Type} {accept : UInt64 → Option α} {a : α} {s : WordStream}
    (h : accept 0 ≠ none) (found : accept s.next.1 = some a) :
    search accept h s = (a, s.next.2) := by
  rw [search_eq_tryNext, tryNext, found]

/-- The choices of a stream, in the form in which they compute. -/
abbrev trying : RandomSource WordStream where
  index32 n h := tryNext (scaled32 n) (scaled32_zero_ne_none h)
  index64 n h := tryNext (scaled64 n) (scaled64_zero_ne_none h)
  fraction s := (fractionOf s.next.1, s.next.2)

theorem instRandomSource_eq_trying : instRandomSource = trying := by
  rw [instRandomSource, trying, search_eq_tryNext]

/-- Every index has a number that is accepted and scaled to it: the smallest that is not scaled to
less. -/
theorem exists_scaled {range n : Nat} (small : n ≤ range) (i : Fin n) :
    ∃ word, ∃ h : word < range, scaled range n word h = some i := by
  obtain ⟨i, inside⟩ := i
  have positive : 0 < n := Nat.zero_lt_of_lt inside
  obtain ⟨word, lower, upper⟩ : ∃ word, i * range ≤ word * n ∧ word * n < i * range + n := by
    refine ⟨(i * range + (n - 1)) / n, ?_, ?_⟩
    · have := Nat.lt_div_mul_add (a := i * range + (n - 1)) positive
      omega
    · have := Nat.div_mul_le_self (i * range + (n - 1)) n
      omega
  have next : i * range + range ≤ n * range := by
    rw [← Nat.succ_mul]
    exact Nat.mul_le_mul_right range inside
  have bounded : word < range := by
    refine Nat.lt_of_mul_lt_mul_right (a := n) ?_
    rw [Nat.mul_comm range n]
    omega
  have index : word * n / range = i :=
    Nat.div_eq_of_lt_le lower (by rw [Nat.succ_mul]; omega)
  have offset : word * n % range = word * n - i * range := by
    have := Nat.div_add_mod (word * n) range
    rw [index, Nat.mul_comm range i] at this
    omega
  have accepted : word * n % range < n <<< (range.log2 - (n.log2 + 1)) := by
    have shifted : n ≤ n <<< (range.log2 - (n.log2 + 1)) := by
      rw [Nat.shiftLeft_eq]
      exact Nat.le_mul_of_pos_right n (Nat.two_pow_pos _)
    omega
  refine ⟨word, bounded, ?_⟩
  simp [scaled, positive, accepted, index]

/-- Every index below a bound of 32 bits has a word that stands for it. -/
theorem exists_scaled32 {n : Nat} (small : n ≤ UInt32.size) (i : Fin n) :
    ∃ word, scaled32 n word = some i := by
  obtain ⟨upper, bounded, stands⟩ := exists_scaled small i
  have half : (UInt64.ofNat (upper * 2 ^ 32) >>> 32).toNat = upper := by
    rw [UInt64.toNat_shiftRight, UInt64.toNat_ofNat', Nat.shiftRight_eq_div_pow]
    change upper < 2 ^ 32 at bounded
    change upper * 2 ^ 32 % 2 ^ 64 / 2 ^ 32 = upper
    omega
  refine ⟨UInt64.ofNat (upper * 2 ^ 32), ?_⟩
  rw [scaled32]
  simp only [half]
  exact stands

/-- Every index below a bound of 64 bits has a word that stands for it. -/
theorem exists_scaled64 {n : Nat} (small : n ≤ UInt64.size) (i : Fin n) :
    ∃ word, scaled64 n word = some i := by
  obtain ⟨word, bounded, stands⟩ := exists_scaled small i
  have whole : (UInt64.ofNat word).toNat = word := UInt64.toNat_ofNat_of_lt' bounded
  refine ⟨UInt64.ofNat word, ?_⟩
  rw [scaled64]
  simp only [whole]
  exact stands

section Accepted

variable (accept : (n : Nat) → UInt64 → Option (Fin n)) (ends : ∀ n, 0 < n → accept n 0 ≠ none)

/-- A stream that begins with accepted words gives the answers that they stand for. -/
theorem follows_of_accepted {script : Script} {words : List UInt64}
    (h : List.Forall₂ (fun question word => accept question.1 word = some question.2) script words)
    (taken : List UInt64) (generator : SplitMix) :
    Follows (fun n positive => search (accept n) (ends n positive)) script
      (⟨(taken ++ words).toArray, #[], 0, taken.length, generator⟩ : WordStream) := by
  induction h generalizing taken with
  | nil => trivial
  | @cons question word script words accepted _ ih =>
      have next : WordStream.next
          ⟨(taken ++ word :: words).toArray, #[], 0, taken.length, generator⟩ =
            (word, ⟨(taken ++ word :: words).toArray, #[], 0, taken.length + 1, generator⟩) := by
        rw [next_of_lt (by simp [scripted])]
        simp [scriptedWord]
      have found := search_of_accept (ends question.1 question.2.pos) (by rw [next]; exact accepted)
      rw [next] at found
      have later := ih (taken ++ [word])
      rw [List.append_assoc, List.singleton_append, List.length_append] at later
      refine ⟨congrArg Prod.fst found, ?_⟩
      beta_reduce
      rw [found]
      exact later

/-- **Streams of words are versatile**, up to bounds for which every index has a word. -/
theorem versatile_of_accept {limit : Nat}
    (stands : ∀ n ≤ limit, ∀ i : Fin n, ∃ word, accept n word = some i) :
    Versatile (fun n positive => search (accept n) (ends n positive)) limit := by
  intro script within
  have answers : ∀ question ∈ script, ∃ word, accept question.1 word = some question.2 :=
    fun question mem => stands question.1 (within question mem) question.2
  choose! word accepted using answers
  have words : List.Forall₂ (fun question word => accept question.1 word = some question.2)
      script (script.map word) := by
    rw [List.forall₂_map_right_iff, List.forall₂_same]
    exact accepted
  exact ⟨_, follows_of_accepted accept ends words [] ⟨0⟩⟩

end Accepted

theorem versatile32 : Versatile (RandomSource.index32 (σ := WordStream)) UInt32.size :=
  versatile_of_accept scaled32 _ fun _ small i => exists_scaled32 small i

theorem versatile64 : Versatile (RandomSource.index64 (σ := WordStream)) UInt64.size :=
  versatile_of_accept scaled64 _ fun _ small i => exists_scaled64 small i

end WordStream

end GrammarEvolution
