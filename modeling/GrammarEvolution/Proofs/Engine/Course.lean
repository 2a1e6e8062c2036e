import GrammarEvolution.Engine.Run
import GrammarEvolution.Proofs.Sampling

/-!
Triples for the course of a run.

A course answers or halts, and adds to a log of events either way. A triple says, for every log that
satisfies a condition and every state of the source, how answer and log are related at the end, and
how the reason to halt and the log are.

* `Triple.bind`, `triple_assume`: composition, and how what was answered is carried on.
* `triple_sample`, `triple_pick`: what is drawn is arbitrary within what samplings promise.
-/

namespace GrammarEvolution

namespace Course

variable {σ α β : Type}

/-- What a course comes to from a log and a state of the source, and the log after it. -/
def outcome (x : Course σ α) (log : Array Event) (s : σ) : Except Halt α × Array Event :=
  ((x.run.run log).run s).run.1

/-- The state in which the source is left. -/
def rest (x : Course σ α) (log : Array Event) (s : σ) : σ :=
  ((x.run.run log).run s).run.2

/-- All of it: what the course comes to, the log after it, and the source after it. -/
def result (x : Course σ α) (log : Array Event) (s : σ) : (Except Halt α × Array Event) × σ :=
  ((x.run.run log).run s).run

/-- From every log that satisfies `pre`, the course answers as `post` says or halts as `halted`
says. -/
def Triple (pre : Array Event → Prop) (x : Course σ α) (post : α → Array Event → Prop)
    (halted : Halt → Array Event → Prop) : Prop :=
  ∀ log s, pre log → match x.outcome log s with
    | (.ok a, log') => post a log'
    | (.error halt, log') => halted halt log'

variable {pre : Array Event → Prop} {x : Course σ α} {post : α → Array Event → Prop}
  {after : β → Array Event → Prop} {halted : Halt → Array Event → Prop}

theorem outcome_bind (x : Course σ α) (f : α → Course σ β) (log : Array Event) (s : σ) :
    (x >>= f).outcome log s = match x.outcome log s with
      | (.ok a, log') => (f a).outcome log' (x.rest log s)
      | (.error halt, log') => (.error halt, log') := by
  simp only [outcome, rest, ExceptT.run_bind, StateT.run_bind, Id.run_bind]
  rcases ((x.run.run log).run s).run with ⟨⟨_ | _, _⟩, _⟩ <;> rfl

theorem result_bind (x : Course σ α) (f : α → Course σ β) (log : Array Event) (s : σ) :
    (x >>= f).result log s = match x.result log s with
      | ((.ok a, log'), s') => (f a).result log' s'
      | ((.error halt, log'), s') => ((.error halt, log'), s') := by
  simp only [result, ExceptT.run_bind, StateT.run_bind, Id.run_bind]
  rcases ((x.run.run log).run s).run with ⟨⟨_ | _, _⟩, _⟩ <;> rfl

/-- A draw that cannot fail reports nothing. -/
theorem result_lift (x : StateM σ α) (log : Array Event) (s : σ) :
    (liftM x : Course σ α).result log s = ((.ok (x.run s).run.1, log), (x.run s).run.2) :=
  rfl

/-- A sampling reports nothing, and a failed one has drawn all the same. -/
theorem result_sample (x : Sampling σ α) (log : Array Event) (s : σ) :
    (sample x).result log s = match x.answer s with
      | .ok a => ((.ok a, log), x.rest s)
      | .error error => ((.error (.failed error), log), x.rest s) := by
  unfold sample result Sampling.answer Sampling.rest
  rcases answer : (x.run.run s).run with ⟨_ | _, _⟩ <;> simp [answer]

/-! ### Rules -/

theorem triple_pure {a : α} (h : ∀ log, pre log → post a log) :
    Triple pre (pure a : Course σ α) post halted :=
  fun log _ => h log

theorem triple_throw {halt : Halt} (h : ∀ log, pre log → halted halt log) :
    Triple pre (throw halt : Course σ α) post halted :=
  fun log _ => h log

theorem Triple.bind {f : α → Course σ β} (h : Triple pre x post halted)
    (next : ∀ a, Triple (post a) (f a) after halted) : Triple pre (x >>= f) after halted := by
  intro log s start
  have done := h log s start
  rw [outcome_bind]
  rcases outcome : x.outcome log s with ⟨_ | a, log'⟩ <;> rw [outcome] at done
  · exact done
  · exact next a log' _ done

/-- What a log does not decide may be assumed beforehand. -/
theorem triple_assume {P : Prop} (h : P → Triple pre x post halted) :
    Triple (fun log => P ∧ pre log) x post halted :=
  fun log s start => h start.1 log s start.2

theorem triple_report {event : Event} {post : Unit → Array Event → Prop}
    (h : ∀ log, pre log → post () (log.push event)) :
    Triple pre (report event : Course σ Unit) post halted :=
  fun log _ => h log

/-- A sampling reports nothing, and a failed one halts the course. -/
theorem outcome_sample (x : Sampling σ α) (log : Array Event) (s : σ) :
    (sample x).outcome log s = match x.answer s with
      | .ok a => (.ok a, log)
      | .error error => (.error (.failed error), log) := by
  unfold sample outcome Sampling.answer
  rcases answer : (x.run.run s).run with ⟨_ | _, _⟩ <;> simp [answer]

/-- A sampling that never fails draws what it promises. -/
theorem triple_sample {x : Sampling σ α} {P : α → Prop} (h : x.Always P)
    (done : ∀ a log, P a → pre log → post a log) : Triple pre (sample x) post halted := by
  intro log s start
  obtain ⟨a, ok, ha⟩ := h s
  rw [outcome_sample, ok]
  exact done a log ha start

/-- A draw that cannot fail may be anything. -/
theorem triple_pick {x : StateM σ α} (done : ∀ a log, pre log → post a log) :
    Triple pre (x : Course σ α) post halted :=
  fun log _ start => done _ log start

end Course

end GrammarEvolution
