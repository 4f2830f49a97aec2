import Mathlib.Data.List.Induction
import Mathlib.Data.List.Nodup
import Mathlib.Logic.Function.Basic
import SegmentGate.Proofs.Deliveries
import SegmentGate.Proofs.EventLog

/-!
# Calls that share a gate and may be given up

Any number of calls come to one gate and take their steps in any order; each of
them may be given up between any two of its steps, while it waits for the
lock, while the table is loaded, or while it is saved. `Traffic` is all of
that: the gate, the phase of every call, and what was let out, with the number
of the call that let it out. A move is a step of `Call.step` for one of the
calls, and a run is any list of moves; a move that does not fit the phase of
its call changes nothing.

**One step.** `Call.StepTo` says everything that a step can do
(`Call.stepTo_of_step`): get the lock, decide, come to an end, or be given up
before the decision. The step function is not unfolded after that.

**The lock.** At most one call is between its lock and its unlock
(`Traffic.Guarded`), and a delivery comes right after the unlock of the same
call (`Traffic.DeliversUnlocked`).

**All calls together.** There is an *order* in which calls have decided, and
the table is what they make of the loaded one, one after the other
(`Traffic.Serial`). A call that is not in the order has let nothing out. A call
in the order has taken its decision on the table of those before it, and
nobody decides after it until it gives up the lock; as soon as it has given up
the lock, its events and signals are out, once (`Traffic.Carries`).
-/
namespace SegmentGate

variable {κ : Type}

/-! ## What a delivery consists of -/

/-- One thing that goes out. -/
inductive Dispatch (κ : Type) where
  | event (e : Stamped)
  | signal (s : Signal κ)
  deriving DecidableEq

namespace Dispatch

/-- An event is sent, a signal is delivered. -/
def perform {m : Type → Type} [Monad m] (h : Host m κ) : Dispatch κ → m Unit
  | .event e => h.publish e
  | .signal s => deliverSignal h s

/-- It belongs to a decision: a signal, or an event that is not about the store. -/
def isDecision : Dispatch κ → Bool
  | .event e => e.event.isDecision
  | .signal _ => true

end Dispatch

/-- What a decision lets out, if its first event gets the number `seq`: all
its events, then all its signals. -/
def Consequences.dispatches (c : Consequences κ) (seq : Nat) : List (Dispatch κ) :=
  (Event.stampFrom seq c.events).map .event ++ c.signals.map .signal

namespace Call

/-- What goes out with a step. -/
def Output.dispatches : Output κ → List (Dispatch κ)
  | .publish e => [.event e]
  | .unlock => []
  | .deliver events signals => events.map .event ++ signals.map .signal

/-- What goes out of decisions with the steps of a call. -/
def verdicts (out : List (Output κ)) : List (Dispatch κ) :=
  (out.flatMap Output.dispatches).filter Dispatch.isDecision

/-- A delivery is the performance of its events and signals, in order. -/
theorem deliver_eq_forM {m : Type → Type} [Monad m] [LawfulMonad m] (h : Host m κ)
    (events : List Stamped) (signals : List (Signal κ)) :
    deliver h events signals =
      (Output.deliver events signals).dispatches.forM (Dispatch.perform h) := by
  simp [Output.dispatches, deliver, Dispatch.perform]

theorem verdicts_append (out out' : List (Output κ)) :
    verdicts (out ++ out') = verdicts out ++ verdicts out' := by
  simp [verdicts]

theorem verdicts_publish {reports : List Stamped}
    (h : ∀ e ∈ reports, e.event.isDecision = false) :
    verdicts (reports.map (.publish : Stamped → Output κ)) = [] := by
  refine List.filter_eq_nil_iff.mpr fun x hx => ?_
  obtain ⟨o, ho, hx⟩ := List.mem_flatMap.mp hx
  obtain ⟨e, he, rfl⟩ := List.mem_map.mp ho
  rw [List.mem_singleton.mp hx, Dispatch.isDecision, h e he]
  exact Bool.false_ne_true

/-- All that is delivered of a decision belongs to it. -/
theorem verdicts_deliver (r : Request κ) (t : Table κ) (seq : Nat) :
    verdicts [.unlock, .deliver (Event.stampFrom seq (r.decide t).consequences.events)
      (r.decide t).consequences.signals] = (r.decide t).consequences.dispatches seq := by
  have hdispatches : verdicts [.unlock, .deliver
      (Event.stampFrom seq (r.decide t).consequences.events) (r.decide t).consequences.signals] =
      ((r.decide t).consequences.dispatches seq).filter Dispatch.isDecision := by
    simp [verdicts, Output.dispatches, Consequences.dispatches]
  rw [hdispatches]
  refine List.filter_eq_self.mpr fun x hx => ?_
  rcases List.mem_append.mp hx with hx | hx
  · obtain ⟨e, he, rfl⟩ := List.mem_map.mp hx
    refine isDecision_of_mem (r := r) (t := t) ?_
    rw [← Event.map_event_stampFrom seq (r.decide t).consequences.events]
    exact List.mem_map_of_mem he
  · obtain ⟨s, -, rfl⟩ := List.mem_map.mp hx
    rfl

/-! ## One step -/

/-- The call has the lock. -/
def Phase.holdsLock : Phase κ → Bool
  | .loading => true
  | .saving .. => true
  | _ => false

/-- The call finds the table `t` to decide on: it gets the lock and the table
is there, or the table was loaded. -/
def Finds (store : String) (s : State κ) (i : Input κ) (t : Table κ) : Prop :=
  (s.phase = .waiting ∧ s.gate.locked = false ∧ s.gate.table = some t) ∨
    s.phase = .loading ∧ ∃ result, i = .loaded result ∧ (loadedTable store result).1 = t

/-- What a step makes of the state, and what it lets out. The reports are about
the store. -/
inductive StepTo (store : String) (r : Request κ) (s : State κ) (i : Input κ) :
    State κ → List (Output κ) → Prop
  /-- The call gets the lock, and the table is to be loaded. -/
  | locks (hp : s.phase = .waiting) (hl : s.gate.locked = false) (ht : s.gate.table = none) :
      StepTo store r s i ⟨s.next, ⟨none, true⟩, .loading⟩ []
  /-- The call decides, and the table is to be saved. -/
  | saves (t : Table κ) (hf : Finds store s i t) (reports : List Stamped)
      (hr : ∀ e ∈ reports, e.event.isDecision = false) (seq next : Nat) :
      StepTo store r s i
        ⟨next, ⟨some (r.decide t).table, true⟩, .saving (r.decide t).answer
          (Event.stampFrom seq (r.decide t).consequences.events)
          (r.decide t).consequences.signals⟩
        (reports.map .publish)
  /-- The call decides, and there is nothing to save. -/
  | decides (t : Table κ) (hf : Finds store s i t) (reports : List Stamped)
      (hr : ∀ e ∈ reports, e.event.isDecision = false) (seq next : Nat) :
      StepTo store r s i
        ⟨next, ⟨some (r.decide t).table, false⟩, .finished (r.decide t).answer⟩
        (reports.map .publish ++ [.unlock, .deliver
          (Event.stampFrom seq (r.decide t).consequences.events)
          (r.decide t).consequences.signals])
  /-- The table was saved, or the call is given up meanwhile. -/
  | ends (reply : Reply κ) (events : List Stamped) (signals : List (Signal κ))
      (hp : s.phase = .saving reply events signals) (phase : Phase κ)
      (hphase : phase = .finished reply ∨ phase = .dropped) (reports : List Stamped)
      (hr : ∀ e ∈ reports, e.event.isDecision = false) (next : Nat) :
      StepTo store r s i ⟨next, { s.gate with locked := false }, phase⟩
        (reports.map .publish ++ [.unlock, .deliver events signals])
  /-- The call is given up while it waits. -/
  | leaves (hp : s.phase = .waiting) : StepTo store r s i { s with phase := .dropped } []
  /-- The call is given up while the table is loaded. -/
  | unlocks (hp : s.phase = .loading) :
      StepTo store r s i ⟨s.next, { s.gate with locked := false }, .dropped⟩ [.unlock]

theorem announce_eq (s : State κ) {e : Option Event} (he : ∀ x ∈ e, x.isDecision = false) :
    ∃ next, ∃ reports : List Stamped, (∀ x ∈ reports, x.event.isDecision = false) ∧
      announce s e = ({ s with next }, reports.map .publish) := by
  cases e with
  | none => exact ⟨s.next, [], fun x hx => (by cases hx), rfl⟩
  | some e =>
    refine ⟨s.next + 1, [⟨s.next, e⟩], fun x hx => ?_, rfl⟩
    rw [List.mem_singleton.mp hx]
    exact he e rfl

theorem stepTo_decideOn {store : String} {r : Request κ} {s : State κ} {i : Input κ}
    {t : Table κ} (hf : Finds store s i t) (reports : List Stamped)
    (hr : ∀ e ∈ reports, e.event.isDecision = false) (c : State κ) :
    StepTo store r s i (decideOn r c t).1 (reports.map .publish ++ (decideOn r c t).2) := by
  cases hc : (r.decide t).consequences.changed with
  | true =>
    have hdecided : decideOn r c t = _ := if_pos hc
    rw [hdecided, List.append_nil]
    exact .saves t hf reports hr _ _
  | false =>
    have hdecided : decideOn r c t = _ := if_neg (by simp [hc])
    rw [hdecided]
    exact .decides t hf reports hr _ _

theorem stepTo_of_step {store : String} {r : Request κ} {s s' : State κ} {i : Input κ}
    {out : List (Output κ)} (h : step store r s i = some (s', out)) :
    StepTo store r s i s' out := by
  cases i with
  | lock =>
    simp only [step] at h
    split at h
    · rename_i hp
      split at h
      · cases h
      · rename_i hl
        have hl : s.gate.locked = false := by simpa using hl
        split at h
        · rename_i t ht
          have hf : Finds store s .lock t := .inl ⟨hp, hl, ht⟩
          have hdecided := stepTo_decideOn (r := r) hf [] (fun e he => (by cases he)) s
          rw [Option.some.inj h] at hdecided
          exact hdecided
        · rename_i ht
          cases h
          rw [ht]
          exact .locks hp hl ht
    · cases h
  | loaded result =>
    simp only [step] at h
    split at h
    · rename_i hp
      obtain ⟨next, reports, hr, ha⟩ := announce_eq s (isDecision_loadedTable store result)
      simp only [ha, Option.some.injEq] at h
      have hf : Finds store s (.loaded result) _ := .inr ⟨hp, result, rfl, rfl⟩
      have hdecided := stepTo_decideOn (r := r) hf reports hr { s with next }
      obtain ⟨rfl, rfl⟩ := Prod.mk.inj h
      exact hdecided
    · cases h
  | saved result =>
    simp only [step] at h
    split at h
    · rename_i reply events signals hp
      cases result with
      | ok saved =>
        cases h
        exact .ends reply events signals hp _ (.inl rfl) [] (fun e he => (by cases he)) s.next
      | error x =>
        cases h
        refine .ends reply events signals hp _ (.inl rfl) [⟨s.next, persistFailed r.job x⟩]
          (fun e he => ?_) (s.next + 1)
        rw [List.mem_singleton.mp he]
        rfl
    · cases h
  | drop =>
    simp only [step] at h
    split at h
    · rename_i hp
      cases h
      exact .leaves hp
    · rename_i hp
      cases h
      exact .unlocks hp
    · rename_i reply events signals hp
      cases h
      exact .ends reply events signals hp _ (.inr rfl) [] (fun e he => (by cases he)) s.next
    · cases h

end Call

/-! ## Calls under way -/

/-- A gate with its calls, each known by a number. -/
structure Traffic (κ : Type) where
  /-- The number of the next event made. -/
  next : Nat
  gate : GateState κ := {}
  phase : Nat → Call.Phase κ := fun _ => .waiting
  /-- What the calls let out, in order. -/
  out : List (Nat × Call.Output κ) := []

namespace Traffic

/-- A step of call `i`, with the state `s` and the output `out` of the step. -/
def put (c : Traffic κ) (i : Nat) (s : Call.State κ) (out : List (Call.Output κ)) : Traffic κ where
  next := s.next
  gate := s.gate
  phase := Function.update c.phase i s.phase
  out := c.out ++ out.map (i, ·)

/-- Call `i` as its next step finds it. -/
def see (c : Traffic κ) (i : Nat) : Call.State κ := ⟨c.next, c.gate, c.phase i⟩

/-- One of the calls gets an input; one that does not fit changes nothing. -/
def move (store : String) (calls : Nat → Request κ) (c : Traffic κ) (m : Nat × Call.Input κ) :
    Traffic κ :=
  match Call.step store (calls m.1) (c.see m.1) m.2 with
  | some (s, out) => c.put m.1 s out
  | none => c

/-- A new gate after any moves of the calls. -/
def run (store : String) (calls : Nat → Request κ) (next : Nat)
    (moves : List (Nat × Call.Input κ)) : Traffic κ :=
  moves.foldl (move store calls) { next }

/-- What went out of the decision of call `i`, in order. -/
def dispatched (c : Traffic κ) (i : Nat) : List (Dispatch κ) :=
  Call.verdicts ((c.out.filter fun o => o.1 = i).map Prod.snd)

variable {store : String} {calls : Nat → Request κ} {c : Traffic κ} {i j : Nat}
  {input : Call.Input κ} {s : Call.State κ} {out : List (Call.Output κ)}

@[simp] theorem phase_put_self (c : Traffic κ) (i : Nat) (s : Call.State κ)
    (out : List (Call.Output κ)) : (c.put i s out).phase i = s.phase :=
  Function.update_self ..

theorem phase_put_of_ne (h : j ≠ i) : (c.put i s out).phase j = c.phase j :=
  Function.update_of_ne h ..

/-- The phase of a call after a step is the one that the step ends in, or the
one that another call had before. -/
theorem phase_put_cases {p : Call.Phase κ} (h : (c.put i s out).phase j = p) :
    j = i ∧ s.phase = p ∨ j ≠ i ∧ c.phase j = p := by
  by_cases hj : j = i
  · subst hj
    exact .inl ⟨rfl, (phase_put_self ..).symm.trans h⟩
  · exact .inr ⟨hj, (phase_put_of_ne hj).symm.trans h⟩

@[simp] theorem dispatched_put_self (c : Traffic κ) (i : Nat) (s : Call.State κ)
    (out : List (Call.Output κ)) :
    (c.put i s out).dispatched i = c.dispatched i ++ Call.verdicts out := by
  have hown : (out.map (i, ·)).filter (fun o => o.1 = i) = out.map (i, ·) :=
    List.filter_eq_self.mpr (by simp)
  simp [dispatched, put, hown, Call.verdicts_append, Function.comp_def]

theorem dispatched_put_of_ne (h : j ≠ i) : (c.put i s out).dispatched j = c.dispatched j := by
  have hother : (out.map (i, ·)).filter (fun o => o.1 = j) = [] :=
    List.filter_eq_nil_iff.mpr (by simp [h.symm])
  simp [dispatched, put, hother]

/-- A move is a step of the call, or nothing. -/
theorem move_cases (store : String) (calls : Nat → Request κ) (c : Traffic κ) (i : Nat)
    (input : Call.Input κ) : c.move store calls (i, input) = c ∨
      ∃ s out, Call.StepTo store (calls i) (c.see i) input s out ∧
        c.move store calls (i, input) = c.put i s out := by
  unfold move
  cases h : Call.step store (calls i) (c.see i) input with
  | none => exact .inl rfl
  | some result => exact .inr ⟨result.1, result.2, Call.stepTo_of_step h, rfl⟩

/-- What every step keeps, a run keeps. -/
theorem run_induction {I : Traffic κ → List (Nat × Call.Input κ) → Prop} (next : Nat)
    (hstart : I { next } [])
    (hidle : ∀ c moves m, I c moves → I c (moves ++ [m]))
    (hstep : ∀ c moves i input s out, I c moves →
      Call.StepTo store (calls i) (c.see i) input s out → I (c.put i s out) (moves ++ [(i, input)]))
    (moves : List (Nat × Call.Input κ)) : I (run store calls next moves) moves := by
  induction moves using List.reverseRecOn with
  | nil => exact hstart
  | append_singleton moves m ih =>
    obtain ⟨i, input⟩ := m
    have hlast : run store calls next (moves ++ [(i, input)]) =
        (run store calls next moves).move store calls (i, input) := by
      simp [run]
    rw [hlast]
    rcases move_cases store calls (run store calls next moves) i input with h | ⟨s, out, hs, h⟩
    · rw [h]
      exact hidle _ moves (i, input) ih
    · rw [h]
      exact hstep _ moves i input s out ih hs

/-! ## The lock -/

/-- The call `holder` has the lock, or no call has it. -/
structure Guarded (c : Traffic κ) (holder : Option Nat) : Prop where
  locked : c.gate.locked = holder.isSome
  holds : ∀ i, (c.phase i).holdsLock = true ↔ holder = some i

section Guarded
variable {holder : Option Nat}

theorem Guarded.eq_none (h : c.Guarded holder) (hl : c.gate.locked = false) : holder = none := by
  rw [h.locked] at hl
  simpa using hl

/-- A call that is about to decide has the lock, or nobody has it. -/
theorem Guarded.free_of_finds (h : c.Guarded holder) {t : Table κ}
    (hf : Call.Finds store (c.see i) input t) : holder = none ∨ holder = some i := by
  rcases hf with ⟨-, hl, -⟩ | ⟨hp, -⟩
  · exact .inl (h.eq_none hl)
  · have hp : c.phase i = .loading := hp
    exact .inr ((h.holds i).mp (by rw [hp]; rfl))

/-- A step of a call while no other call has the lock. -/
theorem Guarded.put (h : c.Guarded holder) (hfree : holder = none ∨ holder = some i)
    (hs : s.gate.locked = s.phase.holdsLock) : ∃ holder, (c.put i s out).Guarded holder := by
  refine ⟨if s.phase.holdsLock then some i else none, ?_, fun j => ?_⟩
  · cases hp : s.phase.holdsLock <;> simpa [Traffic.put, hp] using hs
  · by_cases hj : j = i
    · subst hj
      rw [phase_put_self]
      cases s.phase.holdsLock <;> simp
    · rw [phase_put_of_ne hj, h.holds]
      rcases hfree with rfl | rfl <;> cases s.phase.holdsLock <;> simp [Ne.symm hj]

theorem Guarded.step (h : c.Guarded holder)
    (hs : Call.StepTo store (calls i) (c.see i) input s out) :
    ∃ holder, (c.put i s out).Guarded holder := by
  cases hs with
  | locks hp hl ht => exact h.put (.inl (h.eq_none hl)) rfl
  | saves t hf reports hr seq next => exact h.put (h.free_of_finds hf) rfl
  | decides t hf reports hr seq next => exact h.put (h.free_of_finds hf) rfl
  | ends reply events signals hp phase hphase reports hr next =>
    have hp : c.phase i = .saving reply events signals := hp
    refine h.put (.inr ((h.holds i).mp (by rw [hp]; rfl))) ?_
    rcases hphase with rfl | rfl <;> rfl
  | leaves hp =>
    -- The call that leaves has not had the lock; whoever has it keeps it.
    have hp : c.phase i = .waiting := hp
    refine ⟨holder, h.locked, fun j => ?_⟩
    by_cases hj : j = i
    · subst hj
      rw [phase_put_self, ← h.holds j, hp]
      rfl
    · rw [phase_put_of_ne hj]
      exact h.holds j
  | unlocks hp =>
    have hp : c.phase i = .loading := hp
    exact h.put (.inr ((h.holds i).mp (by rw [hp]; rfl))) rfl

end Guarded

/-- At most one call has the lock, and the lock is taken if one has it. -/
theorem guarded_run (store : String) (calls : Nat → Request κ) (next : Nat)
    (moves : List (Nat × Call.Input κ)) :
    ∃ holder, (run store calls next moves).Guarded holder := by
  refine run_induction (I := fun c _ => ∃ holder, c.Guarded holder) next ?_ ?_ ?_ moves
  · exact ⟨none, rfl, fun i => ⟨fun h => (by cases h), fun h => (by cases h)⟩⟩
  · exact fun c moves m h => h
  · exact fun c moves i input s out ⟨holder, h⟩ hs => h.step hs

/-- Each delivery comes right after its call has given up the lock. -/
def DeliversUnlocked (c : Traffic κ) : Prop :=
  ∀ before i events signals, before ++ [(i, .deliver events signals)] <+: c.out →
    ∃ earlier, before = earlier ++ [(i, .unlock)]

/-- Reports of the store deliver nothing. -/
theorem DeliversUnlocked.append_reports (h : c.DeliversUnlocked) (reports : List Stamped) :
    (c.put i s (reports.map .publish)).DeliversUnlocked := by
  induction reports using List.reverseRecOn with
  | nil => simpa [DeliversUnlocked, put] using h
  | append_singleton reports e ih =>
    intro before j events signals hb
    have hout : (c.put i s ((reports ++ [e]).map .publish)).out =
        (c.put i s (reports.map .publish)).out ++ [(i, .publish e)] := by
      simp [put]
    rw [hout] at hb
    rcases List.prefix_concat_iff.mp hb with hb | hb
    · have hlast := (List.append_inj' hb rfl).2
      cases hlast
    · exact ih before j events signals hb

theorem DeliversUnlocked.append_unlock (h : c.DeliversUnlocked) :
    (c.put i s [.unlock]).DeliversUnlocked := by
  intro before j events signals hb
  rcases List.prefix_concat_iff.mp hb with hb | hb
  · have hlast := (List.append_inj' hb rfl).2
    cases hlast
  · exact h before j events signals hb

theorem DeliversUnlocked.append_delivery (h : c.DeliversUnlocked) (reports events : List Stamped)
    (signals : List (Signal κ)) :
    (c.put i s (reports.map .publish ++ [.unlock, .deliver events signals])).DeliversUnlocked := by
  intro before j events' signals' hb
  have hout : (c.put i s (reports.map .publish ++ [.unlock, .deliver events signals])).out =
      ((c.put i s (reports.map .publish)).put i s [.unlock]).out ++
        [(i, .deliver events signals)] := by
    simp [put]
  rw [hout] at hb
  rcases List.prefix_concat_iff.mp hb with hb | hb
  · obtain ⟨hbefore, hlast⟩ := List.append_inj' hb rfl
    cases hlast
    exact ⟨_, hbefore⟩
  · exact (h.append_reports reports).append_unlock before j events' signals' hb

theorem deliversUnlocked_run (store : String) (calls : Nat → Request κ) (next : Nat)
    (moves : List (Nat × Call.Input κ)) : (run store calls next moves).DeliversUnlocked := by
  refine run_induction (I := fun c _ => c.DeliversUnlocked) next ?_ ?_ ?_ moves
  · intro before i events signals hb
    simp at hb
  · exact fun c moves m h => h
  · intro c moves i input s out h hs
    cases hs with
    | locks hp hl ht => exact h.append_reports []
    | saves t hf reports hr seq next => exact h.append_reports reports
    | decides t hf reports hr seq next => exact h.append_delivery reports _ _
    | ends reply events signals hp phase hphase reports hr next =>
      exact h.append_delivery reports events signals
    | leaves hp => exact h.append_reports []
    | unlocks hp => exact h.append_unlock

/-! ## The order of the decisions -/

/-- A call that decided `d`: either the table is being saved and nothing is
out yet, or the call is over and all of it is out. -/
inductive Carries (c : Traffic κ) (i : Nat) (d : Decision κ (Reply κ)) : Prop where
  | saving (seq : Nat)
      (hphase : c.phase i = .saving d.answer (Event.stampFrom seq d.consequences.events)
        d.consequences.signals)
      (hout : c.dispatched i = [])
  | ended (seq : Nat) (hphase : c.phase i = .finished d.answer ∨ c.phase i = .dropped)
      (hout : c.dispatched i = d.consequences.dispatches seq)

/-- A call that has not decided, and left no trace. -/
structure Undecided (c : Traffic κ) (i : Nat) : Prop where
  phase : c.phase i = .waiting ∨ c.phase i = .loading ∨ c.phase i = .dropped
  silent : c.dispatched i = []

/-- The calls in `order` have decided one after the other, and no others. The
first of them has loaded the table `t`. -/
structure Serial (store : String) (calls : Nat → Request κ) (moves : List (Nat × Call.Input κ))
    (c : Traffic κ) (t : Table κ) (order : List Nat) : Prop where
  nodup : order.Nodup
  table : c.gate.table = if order = [] then none else some (t.after (order.map calls))
  found : order ≠ [] →
    ∃ i result, (i, .loaded result) ∈ moves ∧ (Call.loadedTable store result).1 = t
  undecided : ∀ i, i ∉ order → c.Undecided i
  decided : ∀ before i, before ++ [i] <+: order →
    c.Carries i ((calls i).decide (t.after (before.map calls)))
  /-- Nobody has decided while the table is loaded. -/
  loading : ∀ i, c.phase i = .loading → order = []
  /-- Nobody decides while the table is saved. -/
  saving : ∀ i reply events signals, c.phase i = .saving reply events signals →
    order.getLast? = some i

section Serial
variable {moves : List (Nat × Call.Input κ)} {t : Table κ} {order : List Nat}

theorem Carries.put_of_ne {d : Decision κ (Reply κ)} (h : c.Carries j d) (hj : j ≠ i) :
    (c.put i s out).Carries j d := by
  cases h with
  | saving seq hphase hout =>
    exact .saving seq (by rwa [phase_put_of_ne hj]) (by rwa [dispatched_put_of_ne hj])
  | ended seq hphase hout =>
    exact .ended seq (by rwa [phase_put_of_ne hj]) (by rwa [dispatched_put_of_ne hj])

theorem Undecided.put_of_ne (h : c.Undecided j) (hj : j ≠ i) : (c.put i s out).Undecided j where
  phase := by rw [phase_put_of_ne hj]; exact h.phase
  silent := by rw [dispatched_put_of_ne hj]; exact h.silent

theorem Serial.found_later (h : Serial store calls moves c t order) (m : Nat × Call.Input κ) :
    order ≠ [] →
      ∃ i result, (i, .loaded result) ∈ moves ++ [m] ∧ (Call.loadedTable store result).1 = t := by
  intro hne
  obtain ⟨i, result, hi, ht⟩ := h.found hne
  exact ⟨i, result, List.mem_append_left _ hi, ht⟩

/-- Whoever has decided does not wait and does not load. -/
theorem Serial.not_mem (h : Serial store calls moves c t order)
    (hp : c.phase i = .waiting ∨ c.phase i = .loading) : i ∉ order := by
  intro hi
  obtain ⟨before, after, rfl⟩ := List.append_of_mem hi
  have hcarries := h.decided before i ⟨after, by simp⟩
  cases hcarries with
  | saving seq hphase hout => rw [hphase] at hp; simp at hp
  | ended seq hphase hout => rcases hphase with hphase | hphase <;> rw [hphase] at hp <;> simp at hp

/-- A step of a call that does not decide and has not decided. -/
theorem Serial.put_undecided (h : Serial store calls moves c t order)
    (hp : c.phase i = .waiting ∨ c.phase i = .loading) (hgate : s.gate.table = c.gate.table)
    (hphase : s.phase = .dropped ∨ s.phase = .loading ∧ c.gate.table = none)
    (hout : Call.verdicts out = []) :
    Serial store calls (moves ++ [(i, input)]) (c.put i s out) t order where
  nodup := h.nodup
  table := hgate.trans h.table
  found := h.found_later (i, input)
  undecided := fun j hj => by
    by_cases hji : j = i
    · subst hji
      refine ⟨?_, by rw [dispatched_put_self, (h.undecided j hj).silent, hout]; rfl⟩
      rw [phase_put_self]
      rcases hphase with hphase | ⟨hphase, -⟩ <;> simp [hphase]
    · exact (h.undecided j hj).put_of_ne hji
  decided := fun before j hb => by
    have hji : j ≠ i := by
      rintro rfl
      exact h.not_mem hp (hb.subset (List.mem_append_right _ (List.mem_singleton_self j)))
    exact (h.decided before j hb).put_of_ne hji
  loading := fun j hj => by
    rcases phase_put_cases hj with ⟨rfl, hs⟩ | ⟨-, hj⟩
    · rcases hphase with hphase | ⟨-, hnone⟩
      · rw [hphase] at hs
        cases hs
      · by_contra hne
        rw [h.table, if_neg hne] at hnone
        cases hnone
    · exact h.loading j hj
  saving := fun j reply events signals hj => by
    rcases phase_put_cases hj with ⟨rfl, hs⟩ | ⟨-, hj⟩
    · rcases hphase with hphase | ⟨hphase, -⟩ <;> rw [hphase] at hs <;> cases hs
    · exact h.saving j reply events signals hj

/-- A call that comes to an end lets out what it decided. -/
theorem Serial.put_over (h : Serial store calls moves c t order) {reply : Reply κ}
    {events : List Stamped} {signals : List (Signal κ)}
    (hp : c.phase i = .saving reply events signals) (hgate : s.gate.table = c.gate.table)
    (hphase : s.phase = .finished reply ∨ s.phase = .dropped)
    {reports : List Stamped} (hr : ∀ e ∈ reports, e.event.isDecision = false) :
    Serial store calls (moves ++ [(i, input)])
      (c.put i s (reports.map .publish ++ [.unlock, .deliver events signals])) t order where
  nodup := h.nodup
  table := hgate.trans h.table
  found := h.found_later (i, input)
  undecided := fun j hj => by
    have hji : j ≠ i := by
      rintro rfl
      have hphase := (h.undecided j hj).phase
      rw [hp] at hphase
      simp at hphase
    exact (h.undecided j hj).put_of_ne hji
  decided := fun before j hb => by
    have hcarries := h.decided before j hb
    by_cases hji : j = i
    · subst hji
      cases hcarries with
      | saving seq hsaving hsilent =>
        obtain ⟨rfl, rfl, rfl⟩ := Call.Phase.saving.inj (hp.symm.trans hsaving)
        refine .ended seq (by rwa [phase_put_self]) ?_
        rw [dispatched_put_self, hsilent, Call.verdicts_append, Call.verdicts_publish hr,
          Call.verdicts_deliver]
        rfl
      | ended seq hover _ => rcases hover with hover | hover <;> rw [hp] at hover <;> cases hover
    · exact hcarries.put_of_ne hji
  loading := fun j hj => by
    rcases phase_put_cases hj with ⟨rfl, hs⟩ | ⟨-, hj⟩
    · rcases hphase with hphase | hphase <;> rw [hphase] at hs <;> cases hs
    · exact h.loading j hj
  saving := fun j reply' events' signals' hj => by
    rcases phase_put_cases hj with ⟨rfl, -⟩ | ⟨-, hj⟩
    · exact h.saving j reply events signals hp
    · exact h.saving j reply' events' signals' hj

/-- What a call finds when it decides is what the calls before it made of the
table that the first of them loaded. -/
theorem Serial.find (h : Serial store calls moves c t order) {found : Table κ}
    (hf : Call.Finds store (c.see i) input found) :
    ∃ t₀, t₀.after (order.map calls) = found ∧
      (∃ j result, (j, .loaded result) ∈ moves ++ [(i, input)] ∧
        (Call.loadedTable store result).1 = t₀) ∧
      ∀ before j, before ++ [j] <+: order →
        c.Carries j ((calls j).decide (t₀.after (before.map calls))) := by
  rcases hf with ⟨-, -, htable⟩ | ⟨hp, result, rfl, hresult⟩
  · have htable : c.gate.table = some found := htable
    rw [h.table] at htable
    split at htable
    · cases htable
    · rename_i hne
      exact ⟨t, Option.some.inj htable, h.found_later (i, input) hne, h.decided⟩
  · -- The call has loaded the table itself, and is the first to decide.
    obtain rfl := h.loading i hp
    have hmem : (i, .loaded result) ∈ moves ++ [(i, .loaded result)] :=
      List.mem_append_right _ (List.mem_singleton_self _)
    refine ⟨found, rfl, ⟨i, result, hmem, hresult⟩, ?_⟩
    intro before j hb
    simp at hb

/-- A step of a call that decides, while nobody else has the lock. -/
theorem Serial.put_decided (h : Serial store calls moves c t order) {holder : Option Nat}
    (hg : c.Guarded holder) {found : Table κ} (hf : Call.Finds store (c.see i) input found)
    (hgate : s.gate.table = some ((calls i).decide found).table) (hphase : s.phase ≠ .loading)
    (hcarries : c.dispatched i = [] → (c.put i s out).Carries i ((calls i).decide found)) :
    ∃ t order, Serial store calls (moves ++ [(i, input)]) (c.put i s out) t order := by
  obtain ⟨t₀, hfound, hloaded, hdecided⟩ := h.find hf
  have hi : i ∉ order := h.not_mem (hf.imp (fun hw => hw.1) (fun hl => hl.1))
  have hothers (j : Nat) (hj : j ≠ i) : (c.phase j).holdsLock = false := by
    cases hp : (c.phase j).holdsLock with
    | false => rfl
    | true =>
      have hholder := (hg.holds j).mp hp
      rcases hg.free_of_finds hf with hfree | hfree <;> rw [hfree] at hholder
      · cases hholder
      · exact absurd (Option.some.inj hholder).symm hj
  refine ⟨t₀, order ++ [i], ?_⟩
  constructor
  case nodup =>
    rw [← List.concat_eq_append]
    exact List.Nodup.concat hi h.nodup
  case table =>
    rw [if_neg (by simp), List.map_append, Table.after_append, hfound]
    exact hgate
  case found => exact fun _ => hloaded
  case undecided =>
    intro j hj
    obtain ⟨hj, hji⟩ := not_or.mp (mt List.mem_append.mpr hj)
    exact (h.undecided j hj).put_of_ne (mt List.mem_singleton.mpr hji)
  case decided =>
    intro before j hb
    rcases List.prefix_concat_iff.mp hb with hlast | hbefore
    · obtain ⟨rfl, hj⟩ := List.append_inj' hlast rfl
      cases hj
      rw [hfound]
      exact hcarries (h.undecided i hi).silent
    · refine (hdecided before j hbefore).put_of_ne ?_
      rintro rfl
      exact hi (hbefore.subset (List.mem_append_right _ (List.mem_singleton_self _)))
  case loading =>
    intro j hj
    rcases phase_put_cases hj with ⟨rfl, hs⟩ | ⟨hji, hj⟩
    · exact absurd hs hphase
    · have hfree := hothers j hji
      rw [hj] at hfree
      cases hfree
  case saving =>
    intro j reply events signals hj
    rcases phase_put_cases hj with ⟨rfl, -⟩ | ⟨hji, hj⟩
    · exact List.getLast?_concat
    · have hfree := hothers j hji
      rw [hj] at hfree
      cases hfree

theorem Serial.step (h : Serial store calls moves c t order) {holder : Option Nat}
    (hg : c.Guarded holder) (hs : Call.StepTo store (calls i) (c.see i) input s out) :
    ∃ t order, Serial store calls (moves ++ [(i, input)]) (c.put i s out) t order := by
  cases hs with
  | locks hp hl ht => exact ⟨t, order, h.put_undecided (.inl hp) ht.symm (.inr ⟨rfl, ht⟩) rfl⟩
  | leaves hp => exact ⟨t, order, h.put_undecided (.inl hp) rfl (.inl rfl) rfl⟩
  | unlocks hp => exact ⟨t, order, h.put_undecided (.inr hp) rfl (.inl rfl) rfl⟩
  | ends reply events signals hp phase hphase reports hr next =>
    exact ⟨t, order, h.put_over hp rfl hphase hr⟩
  | saves found hf reports hr seq next =>
    refine h.put_decided hg hf rfl (fun hp => by cases hp) fun hsilent => ?_
    refine .saving seq (phase_put_self ..) ?_
    rw [dispatched_put_self, hsilent, Call.verdicts_publish hr]
    rfl
  | decides found hf reports hr seq next =>
    refine h.put_decided hg hf rfl (fun hp => by cases hp) fun hsilent => ?_
    refine .ended seq (.inl (phase_put_self ..)) ?_
    rw [dispatched_put_self, hsilent, Call.verdicts_append, Call.verdicts_publish hr,
      Call.verdicts_deliver]
    rfl

end Serial

/-- Whatever moves the calls make, the calls that have decided have done so one
after the other. -/
theorem serial_run (store : String) (calls : Nat → Request κ) (next : Nat)
    (moves : List (Nat × Call.Input κ)) :
    ∃ t order, Serial store calls moves (run store calls next moves) t order := by
  have hboth : (∃ holder, (run store calls next moves).Guarded holder) ∧
      ∃ t order, Serial store calls moves (run store calls next moves) t order := by
    refine run_induction (I := fun c moves => (∃ holder, c.Guarded holder) ∧
      ∃ t order, Serial store calls moves c t order) next
      ⟨guarded_run store calls next [], ?_⟩ ?_ ?_ moves
    · refine ⟨{}, [], .nil, rfl, fun h => absurd rfl h, fun i _ => ⟨.inl rfl, rfl⟩, ?_, ?_, ?_⟩
      · intro before i hb
        simp at hb
      · exact fun i hi => rfl
      · intro i reply events signals hi
        cases hi
    · rintro c moves m ⟨hg, t, order, h⟩
      exact ⟨hg, t, order, { h with found := h.found_later m }⟩
    · rintro c moves i input s out ⟨⟨holder, hg⟩, t, order, h⟩ hs
      exact ⟨hg.step hs, h.step hg hs⟩
  exact hboth.2

/-- A call that is not over can be given up. -/
theorem phase_move_drop (store : String) (calls : Nat → Request κ)
    (hp : c.phase i = .waiting ∨ (c.phase i).holdsLock = true) :
    (c.move store calls (i, .drop)).phase i = .dropped := by
  rw [move]
  cases hphase : c.phase i with
  | waiting => simp [Call.step, see, hphase]
  | loading => simp [Call.step, see, hphase]
  | saving => simp [Call.step, see, hphase]
  | finished => simp [hphase, Call.Phase.holdsLock] at hp
  | dropped => simp [hphase, Call.Phase.holdsLock] at hp

end Traffic

/-- **All or nothing.** Any calls come to a new gate and make any moves, each
given up wherever it may be. The calls in `order` have decided one after the
other: the table is what all of them, and no others, have made of the table
that the first of them loaded. A call that has not decided has let out nothing.
A call that has decided saves the table, or is over, answered or given up; then
all events of its decision and after them all its signals are out, each once.
Every delivery comes after its call has given up the lock, which no two calls
have at a time, and performs its events and signals in order, in any
surroundings; where these have a state, so that the account of a delivery can be
kept, it lists the events, and then for one signal after the other all that is
done for it. A call can be given up as long as it is not over. -/
theorem all_or_nothing (store : String) (calls : Nat → Request κ) (next : Nat)
    (moves : List (Nat × Call.Input κ)) :
    let c := Traffic.run store calls next moves
    (∃ (t : Table κ) (order : List Nat), order.Nodup ∧
      c.gate.table = (if order = [] then none else some (t.after (order.map calls))) ∧
      (order ≠ [] →
        ∃ i result, (i, .loaded result) ∈ moves ∧ (Call.loadedTable store result).1 = t) ∧
      (∀ i, i ∉ order → c.Undecided i) ∧
      (∀ before i later, order = before ++ i :: later →
        c.Carries i ((calls i).decide (t.after (before.map calls)))) ∧
      ∀ i reply events signals, c.phase i = .saving reply events signals →
        order.getLast? = some i) ∧
    c.DeliversUnlocked ∧
    (∃ holder, c.Guarded holder) ∧
    (∀ i, c.phase i = .waiting ∨ (c.phase i).holdsLock = true →
      (c.move store calls (i, .drop)).phase i = .dropped) ∧
    (∀ (m : Type → Type) [Monad m] [LawfulMonad m] (h : Host m κ) (events : List Stamped)
      (signals : List (Signal κ)), deliver h events signals =
        (Call.Output.deliver events signals).dispatches.forM (Dispatch.perform h)) ∧
    ∀ (ω : Type) (h : Host (StateM ω) κ) (events : List Stamped) (signals : List (Signal κ))
      (w : ω), ∃ deeds, HandledInOrder h (h.worldAfter events [] w) signals deeds ∧
        h.account events signals w = events.map .published ++ deeds := by
  intro c
  obtain ⟨t, order, h⟩ := Traffic.serial_run store calls next moves
  refine ⟨⟨t, order, h.nodup, h.table, h.found, h.undecided, ?_, h.saving⟩,
    Traffic.deliversUnlocked_run store calls next moves,
    Traffic.guarded_run store calls next moves, fun i hi => Traffic.phase_move_drop store calls hi,
    fun m _ _ h events signals => Call.deliver_eq_forM h events signals,
    fun ω h events signals w =>
      ⟨_, handledInOrder_account h signals _, account_eq h events signals w⟩⟩
  rintro before i later rfl
  exact h.decided before i ⟨later, by simp⟩

/-- #1 builds and #2 waits. #1 is given up while the gate saves the table
without it, and #2 is told to proceed all the same. -/
example :
    let calls (i : Nat) : Request Nat :=
      [ask 1 "build", ask 2 "build", .exit "app" 1].getD i .snapshot
    let c := Traffic.run "memory" calls 0 [(0, .lock), (0, .loaded (.ok none)),
      (0, .saved (.ok ())), (1, .lock), (1, .saved (.ok ())), (2, .lock), (2, .drop)]
    c.gate.table.map (fun t => (t.segment "app" "build").holding.elements) = some [2] ∧
      (c.dispatched 2).getLast? = some (.signal ⟨"app", "build", asker 2, .proceed⟩) := by
  decide

end SegmentGate
