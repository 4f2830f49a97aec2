import Mathlib.Data.List.Induction
import SegmentGate.Suspension.Channel

/-!
# The first signal counts

A channel has two sides that do not wait for each other, and either of them may
go away at any time. `Channel.after` is the channel after any list of
operations, and `Channel.answer` is what one more operation is answered. An
operation of a side that has gone is skipped: nobody is left to ask for it.

`Channel.Tells` says what the fields of a channel tell of the operations so far:
which sides are there, which verdict was signalled first, and whether an abort
has come through. One more operation keeps that (`Tells.concat`), so it is so
after all of them (`tells_after`). The verdict and the cancellation are two
things: an abort that comes second leaves the verdict alone, and cancels.
-/
namespace SegmentGate.Channel

/-! ## Operations -/

inductive Op where
  | proceed
  | abort (cause : Interruption)
  /-- The execution looks once. -/
  | wait
  | dropSignal
  | dropParked
  deriving DecidableEq

inductive Answer where
  | done
  | aborted (result : Except AbortError Unit)
  /-- What the execution has seen: a verdict, or nothing yet. -/
  | waited (seen : Option (Except Interruption Unit))
  /-- The side that would do it has gone. -/
  | skipped

def perform (c : Channel) : Op → Channel × Answer
  | .proceed => if c.signalAlive then (c.proceed, .done) else (c, .skipped)
  | .abort cause =>
    if c.signalAlive then ((c.abort cause).1, .aborted (c.abort cause).2) else (c, .skipped)
  | .wait => if c.parkedAlive then (c, .waited c.wait) else (c, .skipped)
  | .dropSignal => (c.dropSignal, .done)
  | .dropParked => (c.dropParked, .done)

/-- The channel after the operations `ops`, one after the other. -/
def after (ops : List Op) : Channel := ops.foldl (fun c op => (c.perform op).1) fresh

/-- What `op` is answered after the operations `ops`. -/
def answer (ops : List Op) (op : Op) : Answer := ((after ops).perform op).2

theorem after_concat (ops : List Op) (op : Op) :
    after (ops ++ [op]) = ((after ops).perform op).1 := by
  simp [after]

/-! ## What was signalled -/

/-- The verdict that was signalled first. Whatever would be signalled by a side
that has gone, is not. -/
def firstSignal? : List Op → Option (Except Interruption Unit)
  | [] => none
  | .proceed :: _ => some (.ok ())
  | .abort cause :: _ => some (.error cause)
  | .dropSignal :: _ => none
  | .wait :: ops => firstSignal? ops
  | .dropParked :: ops => firstSignal? ops

theorem firstSignal?_append (ops more : List Op) : firstSignal? (ops ++ more) =
    (firstSignal? ops).or (if .dropSignal ∈ ops then none else firstSignal? more) := by
  induction ops with
  | nil => simp [firstSignal?]
  | cons op ops ih => cases op <;> simp [firstSignal?, ih]

/-- An abort has come through. -/
def Aborted (ops : List Op) : Prop :=
  ∃ pre cause, pre ++ [.abort cause] <+: ops ∧ answer pre (.abort cause) = .aborted (.ok ())

theorem aborted_concat {ops : List Op} {op : Op} : Aborted (ops ++ [op]) ↔
    Aborted ops ∨ ∃ cause, op = .abort cause ∧ answer ops op = .aborted (.ok ()) := by
  constructor
  · rintro ⟨pre, cause, hpre, hok⟩
    rcases List.prefix_concat_iff.mp hpre with heq | hpre
    · obtain ⟨rfl, hop⟩ := List.append_inj' heq rfl
      cases hop
      exact .inr ⟨cause, rfl, hok⟩
    · exact .inl ⟨pre, cause, hpre, hok⟩
  · rintro (⟨pre, cause, hpre, hok⟩ | ⟨cause, rfl, hok⟩)
    · exact ⟨pre, cause, hpre.trans (List.prefix_append ops [op]), hok⟩
    · exact ⟨ops, cause, List.prefix_rfl, hok⟩

/-! ## What one operation does -/

section Perform
variable (c : Channel) (op : Op)

theorem signalAlive_perform :
    (c.perform op).1.signalAlive = (c.signalAlive && decide (op ≠ .dropSignal)) := by
  obtain ⟨outcome, cancelled, signalAlive, parkedAlive⟩ := c
  cases op <;> cases signalAlive <;> cases parkedAlive <;> rfl

theorem parkedAlive_perform :
    (c.perform op).1.parkedAlive = (c.parkedAlive && decide (op ≠ .dropParked)) := by
  obtain ⟨outcome, cancelled, signalAlive, parkedAlive⟩ := c
  cases op <;> cases signalAlive <;> cases parkedAlive <;> rfl

/-- Only the first signal settles the outcome. -/
theorem outcome_perform (h : c.parkedAlive = true) : (c.perform op).1.outcome =
    c.outcome.or (if c.signalAlive then firstSignal? [op] else none) := by
  obtain ⟨outcome, cancelled, signalAlive, parkedAlive⟩ := c
  cases h
  cases op <;> cases signalAlive <;> cases outcome <;> rfl

/-- Every abort that comes through cancels, be it the first signal or not. -/
theorem cancelled_perform : (c.perform op).1.cancelled = true ↔
    c.cancelled = true ∨ ∃ cause, op = .abort cause ∧ (c.perform op).2 = .aborted (.ok ()) := by
  obtain ⟨outcome, cancelled, signalAlive, parkedAlive⟩ := c
  cases op <;> cases signalAlive <;> cases parkedAlive <;> simp [perform, proceed, abort, settle,
    dropSignal, dropParked]

end Perform

/-! ## What a channel tells -/

/-- What the channel tells of the operations so far. Whoever is left to look at
the outcome has not gone. -/
structure Tells (ops : List Op) : Prop where
  signalAlive : (after ops).signalAlive = true ↔ .dropSignal ∉ ops
  parkedAlive : (after ops).parkedAlive = true ↔ .dropParked ∉ ops
  outcome : .dropParked ∉ ops → (after ops).outcome = firstSignal? ops
  cancelled : (after ops).cancelled = true ↔ Aborted ops

section Operation
variable {ops : List Op}

theorem Tells.answer_abort (h : Tells ops) (cause : Interruption) :
    answer ops (.abort cause) = if .dropSignal ∈ ops then .skipped
      else .aborted (if .dropParked ∈ ops then .error .gone else .ok ()) := by
  simp only [answer, perform, h.signalAlive, abort, h.parkedAlive]
  by_cases hs : .dropSignal ∈ ops <;> by_cases hp : .dropParked ∈ ops <;> simp [hs, hp]

theorem Tells.answer_wait (h : Tells ops) :
    answer ops .wait = if .dropParked ∈ ops then .skipped
      else .waited ((firstSignal? ops).or
        (if .dropSignal ∈ ops then some (.error .detached) else none)) := by
  by_cases hp : .dropParked ∈ ops
  · simp [answer, perform, h.parkedAlive, hp]
  · simp only [answer, perform, h.parkedAlive, wait, h.outcome hp, h.signalAlive]
    cases firstSignal? ops <;> simp [hp]

/-- An abort that finds the execution gone does nothing. -/
theorem Tells.after_abort (h : Tells ops) (cause : Interruption) (hp : .dropParked ∈ ops) :
    after (ops ++ [.abort cause]) = after ops := by
  rw [after_concat]
  simp only [perform, abort, h.parkedAlive, hp]
  split <;> simp

theorem Tells.concat (h : Tells ops) (op : Op) : Tells (ops ++ [op]) where
  signalAlive := by
    rw [after_concat, signalAlive_perform, Bool.and_eq_true, h.signalAlive, decide_eq_true_iff,
      List.mem_append, List.mem_singleton, not_or, ne_comm]
  parkedAlive := by
    rw [after_concat, parkedAlive_perform, Bool.and_eq_true, h.parkedAlive, decide_eq_true_iff,
      List.mem_append, List.mem_singleton, not_or, ne_comm]
  outcome := by
    intro hp
    have hbefore : .dropParked ∉ ops := fun hmem => hp (List.mem_append_left [op] hmem)
    rw [after_concat, outcome_perform _ op (h.parkedAlive.mpr hbefore), h.outcome hbefore,
      firstSignal?_append]
    simp only [h.signalAlive, ite_not]
  cancelled := by
    rw [after_concat, cancelled_perform, h.cancelled, aborted_concat]
    rfl

end Operation

theorem tells_after (ops : List Op) : Tells ops := by
  induction ops using List.reverseRecOn with
  | nil => exact ⟨by simp [after, fresh], by simp [after, fresh], fun _ => rfl, by
      simp [Aborted, after, fresh]⟩
  | append_singleton ops op ih => exact ih.concat op

/-- What the execution has seen once, it sees as long as it looks. -/
theorem answer_wait_append {ops : List Op} {v : Except Interruption Unit}
    (h : answer ops .wait = .waited (some v)) {later : List Op} (hp : .dropParked ∉ later) :
    answer (ops ++ later) .wait = .waited (some v) := by
  rw [(tells_after ops).answer_wait] at h
  split at h
  · cases h
  · rename_i hbefore
    rw [(tells_after (ops ++ later)).answer_wait, firstSignal?_append,
      if_neg (by simp [hbefore, hp]), ← h]
    -- Either the verdict was signalled, or nobody is left to signal one.
    cases hfirst : firstSignal? ops with
    | some verdict => simp
    | none =>
      have hs : .dropSignal ∈ ops := by
        by_contra hs
        simp [hfirst, hs] at h
      simp [hs]

/-- **The first signal counts.** After any operations on a channel the execution
that looks sees the verdict that was signalled first, be the side that signalled
it still there or not; if none was signalled it sees nothing yet while that side
is there, and is detached once it has gone. What it has seen it sees again. An
abort fails if and only if the execution has gone, and then it changes nothing.
The channel is cancelled if and only if an abort has come through, whatever was
signalled before it. -/
theorem first_signal_wins (ops : List Op) :
    (answer ops .wait = if .dropParked ∈ ops then .skipped
        else .waited ((firstSignal? ops).or
          (if .dropSignal ∈ ops then some (.error .detached) else none))) ∧
      (∀ v later, answer ops .wait = .waited (some v) → .dropParked ∉ later →
        answer (ops ++ later) .wait = .waited (some v)) ∧
      (∀ cause, (answer ops (.abort cause) = if .dropSignal ∈ ops then .skipped
          else .aborted (if .dropParked ∈ ops then .error .gone else .ok ())) ∧
        (.dropParked ∈ ops → after (ops ++ [.abort cause]) = after ops)) ∧
      ((after ops).cancelled = true ↔ ∃ pre cause, pre ++ [.abort cause] <+: ops ∧
        answer pre (.abort cause) = .aborted (.ok ())) :=
  have h := tells_after ops
  ⟨h.answer_wait, fun _ _ hv hp => answer_wait_append hv hp,
    fun cause => ⟨h.answer_abort cause, h.after_abort cause⟩, h.cancelled⟩

/-- An execution that may proceed is aborted, and the gate lets go of it. It
sees that it may proceed, again and again, and is cancelled. -/
theorem first_signal_wins_before_abort :
    let cause : Interruption := .superseded "app" "build" 9
    let ops : List Op := [.wait, .proceed, .abort cause, .dropSignal]
    answer ops .wait = .waited (some (.ok ())) ∧
      answer (ops ++ [.wait, .abort cause]) .wait = .waited (some (.ok ())) ∧
      (after ops).cancelled = true := by
  intro cause ops
  obtain ⟨hwait, hagain, -, hcancelled⟩ := first_signal_wins ops
  have hseen : answer ops .wait = .waited (some (.ok ())) := hwait
  refine ⟨hseen, hagain _ _ hseen (by decide), hcancelled.mpr ?_⟩
  exact ⟨[.wait, .proceed], cause, ⟨[.dropSignal], rfl⟩, rfl⟩

/-- An execution that has gone is neither aborted nor cancelled. -/
example : answer [.dropParked] (.abort .detached) = .aborted (.error .gone) ∧
    (after [.dropParked, .abort .detached]).cancelled = false :=
  ⟨rfl, rfl⟩

end SegmentGate.Channel
