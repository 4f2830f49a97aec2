import SegmentGate.Fanout.Subscriber

/-!
# One subscriber at its queue

A `Desk` is a subscriber with its queue and its worker, and the history of all
three: what was offered and what became of it, what was handed over, what came
of that, and what was reported. Three things happen at a desk, in any order that
fits: an event is offered to the queue, the worker picks the oldest event of the
queue for the subscriber, and the subscriber is done with the event that it has.
Between a pick and the end of it as much time may pass as the subscriber likes.

`StepTo` says everything that a move can do (`stepTo_step`), and `Accounts` is
the balance of a desk: it holds at the start, every move keeps it, and so it
holds after every run (`accounts_run`).
-/
namespace SegmentGate

/-- A subscriber at work, with what has happened to it. -/
structure Desk where
  worker : Worker
  /-- The event that the subscriber is busy with. -/
  handling : Option Stamped := none
  /-- The events offered to the queue, and why it has not taken them. -/
  offers : List (Stamped × Option String) := []
  /-- The events that the subscriber was handed. -/
  handed : List Stamped := []
  /-- The events that it is done with, and what came of them. -/
  outcomes : List (Stamped × Reaction) := []
  reports : List Event := []

namespace Desk

inductive Move where
  | offer (e : Stamped)
  /-- The worker hands the oldest event of the queue to the subscriber. -/
  | pick
  /-- The subscriber is done with its event. -/
  | react
  deriving DecidableEq

def start (x : Subscriber) : Desk := { worker := { subscriber := x } }

/-- What is reported of an offer to the queue of `name`: a refusal, but not that
of such a report. -/
def overflowReport (name : String) : Stamped × Option String → Option Event
  | (_, none) => none
  | (e, some reason) =>
    if e.event.isSubscriberOverflow then none else some (.subscriberOverflow name reason)

/-- What is reported when the subscriber `name` is done with an event: a panic,
but not one that has ended the worker. -/
def panicReport (name : String) : Stamped × Reaction → Option Event
  | (_, .panicked payload) =>
    some (.subscriberPanicked name (payload.getD "unknown panic"))
  | _ => none

/-- What a move reports. -/
def report (d : Desk) : Move → Option Event
  | .offer e => overflowReport d.worker.subscriber.name (e, (d.worker.offer e).2)
  | .pick => none
  | .react => d.handling.bind fun e =>
    panicReport d.worker.subscriber.name (e, d.worker.subscriber.react e)

def offer (d : Desk) (e : Stamped) : Desk :=
  { d with worker := (d.worker.offer e).1, offers := d.offers ++ [(e, (d.worker.offer e).2)] }

/-- The worker hands over `e`, in front of `rest`. -/
def pick (d : Desk) (e : Stamped) (rest : List Stamped) : Desk :=
  { d with worker.queue := rest, handling := some e, handed := d.handed ++ [e] }

/-- The subscriber is done with `e`. -/
def release (d : Desk) (e : Stamped) : Desk :=
  { d with
      handling := none, outcomes := d.outcomes ++ [(e, d.worker.subscriber.react e)]
      worker := if d.worker.subscriber.react e = .collapsed then
        { d.worker with queue := [], alive := false } else d.worker }

def step (d : Desk) (m : Move) : Option Desk :=
  let after : Option Desk := match m with
    | .offer e => some (d.offer e)
    | .pick =>
      match d.handling, d.worker.queue with
      | none, e :: rest => some (d.pick e rest)
      | _, _ => none
    | .react => d.handling.map d.release
  after.map fun d' => { d' with reports := d.reports ++ (d.report m).toList }

/-- The desk after moves that all fit. -/
def run (d : Desk) : List Move → Option Desk
  | [] => some d
  | m :: moves => (d.step m).bind (run · moves)

theorem run_append (d : Desk) (ms ms' : List Move) :
    d.run (ms ++ ms') = (d.run ms).bind (run · ms') := by
  induction ms generalizing d with
  | nil => rfl
  | cons m ms ih =>
    simp only [List.cons_append, run, Option.bind_assoc]
    exact congrArg _ (funext ih)

/-! ## One move -/

/-- What a move makes of a desk. -/
inductive StepTo (d : Desk) : Move → Desk → Prop
  | taken (e : Stamped) (alive : d.worker.alive = true)
      (room : d.worker.queue.length < d.worker.capacity) :
      StepTo d (.offer e)
        { d with worker.queue := d.worker.queue ++ [e], offers := d.offers ++ [(e, none)] }
  | refused (e : Stamped) (reason : String)
      (full : d.worker.alive = false ∨ d.worker.capacity ≤ d.worker.queue.length) :
      StepTo d (.offer e)
        { d with
            offers := d.offers ++ [(e, some reason)]
            reports := d.reports ++
              (overflowReport d.worker.subscriber.name (e, some reason)).toList }
  | picked (e : Stamped) (rest : List Stamped) (free : d.handling = none)
      (queued : d.worker.queue = e :: rest) : StepTo d .pick (d.pick e rest)
  | reacted (e : Stamped) (busy : d.handling = some e) :
      StepTo d .react
        { d.release e with
            reports := d.reports ++ (panicReport d.worker.subscriber.name
              (e, d.worker.subscriber.react e)).toList }

theorem stepTo_step {d d' : Desk} {m : Move} (h : d.step m = some d') : StepTo d m d' := by
  cases m with
  | offer e =>
    simp only [step, offer, report, Option.map_some, Option.some.injEq] at h
    subst h
    rcases d.worker.offer_cases e with ⟨halive, hroom, hoffer⟩ | ⟨hfull, reason, hoffer⟩
    · simpa [hoffer, overflowReport] using StepTo.taken e halive hroom
    · simpa [hoffer] using StepTo.refused e reason hfull
  | pick =>
    cases hh : d.handling with
    | some e => simp [step, hh] at h
    | none =>
      cases hq : d.worker.queue with
      | nil => simp [step, hh, hq] at h
      | cons e rest =>
        simp only [step, hh, hq, report, Option.map_some, Option.some.injEq] at h
        subst h
        simpa [pick] using StepTo.picked e rest hh hq
  | react =>
    cases hh : d.handling with
    | none => simp [step, hh] at h
    | some e =>
      simp only [step, hh, report, Option.map_some, Option.some.injEq, Option.bind_some] at h
      subst h
      exact .reacted e hh

/-- A desk makes the reports that its moves give. -/
theorem reports_step {d d' : Desk} {m : Move} (h : d.step m = some d') :
    d'.reports = d.reports ++ (d.report m).toList := by
  obtain ⟨d₁, -, rfl⟩ := Option.map_eq_some_iff.mp h
  rfl

/-- The event that a move offers. -/
def Move.offered : Move → Option Stamped
  | .offer e => some e
  | _ => none

theorem StepTo.offers {d d' : Desk} {m : Move} (h : StepTo d m d') :
    d'.offers.map Prod.fst = d.offers.map Prod.fst ++ m.offered.toList := by
  cases h <;> simp [Move.offered, Desk.pick, release]

/-- A worker hands over an event in two moves. -/
theorem work_eq_steps {d : Desk} {e : Stamped} {w : Worker} {f f' : Feed}
    (free : d.handling = none) (hw : d.worker.work f = some (e, w, f')) :
    ∃ d₁ d', d.step .pick = some d₁ ∧ d₁.step .react = some d' ∧ d.report .pick = none ∧
      d'.worker = w ∧ d'.handling = none ∧ d'.handed = d.handed ++ [e] ∧
      f' = (d₁.report .react).toList.foldl Feed.publish f := by
  unfold Worker.work at hw
  cases hq : d.worker.queue with
  | nil =>
    simp only [hq] at hw
    cases hw
  | cons e' rest =>
    simp only [hq] at hw
    have hpick : d.step .pick = some (d.pick e' rest) := by
      simp [step, free, hq, report, pick]
    refine ⟨_, _, hpick, rfl, rfl, ?_⟩
    cases hr : d.worker.subscriber.react e' <;> rw [hr] at hw <;> cases hw <;>
      simp [release, pick, report, panicReport, hr]

/-! ## Work to be done -/

/-- The events that the queue has taken, oldest first. -/
def accepted (d : Desk) : List Stamped :=
  (d.offers.filter fun o => o.2.isNone).map Prod.fst

/-- The moves that the worker has before it: two for each queued event, and one
for the event that the subscriber is busy with. -/
def left (d : Desk) : Nat := 2 * d.worker.queue.length + d.handling.toList.length

/-- A worker gets closer to the end with each move of its own. -/
theorem StepTo.left_lt {d d' : Desk} {m : Move} (h : StepTo d m d') (hm : m.offered = none) :
    d'.left < d.left := by
  cases h with
  | taken e => cases hm
  | refused e => cases hm
  | picked e rest free queued =>
    simp only [left, Desk.pick, queued, free, List.length_cons, Option.toList, List.length_nil]
    omega
  | reacted e busy =>
    simp only [left, release, busy, Option.toList, List.length_cons, List.length_nil]
    split <;> simp

/-- Nothing is queued, and the subscriber is not busy. -/
def Idle (d : Desk) : Prop := d.worker.queue = [] ∧ d.handling = none

instance (d : Desk) : Decidable d.Idle := inferInstanceAs (Decidable (_ ∧ _))

/-- A worker goes on until there is nothing to do. -/
theorem exists_step (d : Desk) (h : ¬ d.Idle) :
    ∃ m, m.offered = none ∧ (d.step m).isSome = true := by
  cases hh : d.handling with
  | some e => exact ⟨.react, rfl, by simp [step, hh]⟩
  | none =>
    cases hq : d.worker.queue with
    | nil => exact absurd ⟨hq, hh⟩ h
    | cons e rest => exact ⟨.pick, rfl, by simp [step, hh, hq]⟩

/-- No offer waits for anything. -/
theorem isSome_offer (d : Desk) (e : Stamped) : (d.step (.offer e)).isSome = true := rfl

/-- The queue takes what it has room for, while its worker lives. -/
theorem StepTo.accepted {d d' : Desk} {e : Stamped} (h : StepTo d (.offer e) d') :
    d'.accepted = d.accepted ++
      if d.worker.alive ∧ d.worker.queue.length < d.worker.capacity then [e] else [] := by
  cases h with
  | taken _ alive room => simp [Desk.accepted, alive, room]
  | refused _ reason full =>
    have hfull : ¬ (d.worker.alive = true ∧ d.worker.queue.length < d.worker.capacity) :=
      fun h => full.elim (fun hdead => Bool.noConfusion (h.1.symm.trans hdead)) (Nat.not_le.mpr h.2)
    simp [Desk.accepted, hfull]

/-! ## The balance -/

/-- The balance of the desk of subscriber `x`. -/
structure Accounts (x : Subscriber) (d : Desk) : Prop where
  subscriber : d.worker.subscriber = x
  bounded : d.worker.queue.length ≤ max 1 x.queueCapacity
  /-- What the queue took was handed over or is queued, in order and once. -/
  balanced : d.worker.alive = true → d.handed ++ d.worker.queue = d.accepted
  handed : d.handed <+: d.accepted
  /-- The subscriber has one event at a time. -/
  handled : d.outcomes.map Prod.fst ++ d.handling.toList = d.handed
  reacted : ∀ o ∈ d.outcomes, o.2 = x.react o.1
  /-- One report for each refusal, but not for those of such reports. -/
  overflows : d.reports.filter (·.kind = .subscriberOverflow) =
    d.offers.filterMap fun o =>
      if o.1.event.kind = .subscriberOverflow then none
      else o.2.map fun reason =>
        { kind := .subscriberOverflow
          reason := some ("subscriber=" ++ x.name ++ " reason=" ++ reason) }
  /-- One report for each panic, and no others. -/
  panics : d.reports.filter (·.kind ≠ .subscriberOverflow) =
    d.outcomes.filterMap fun o =>
      match o.2 with
      | .panicked payload => some
          { kind := .subscriberPanicked
            reason := some ("subscriber=" ++ x.name ++ " info=" ++
              payload.getD "unknown panic") }
      | _ => none
  alive : d.worker.alive = true ↔ ∀ o ∈ d.outcomes, o.2 ≠ .collapsed
  dead : d.worker.alive = false → d.Idle

theorem overflowReport_eq (name : String) (o : Stamped × Option String) :
    overflowReport name o =
      if o.1.event.kind = .subscriberOverflow then none
      else o.2.map fun reason =>
        { kind := .subscriberOverflow
          reason := some ("subscriber=" ++ name ++ " reason=" ++ reason) } := by
  obtain ⟨e, _ | reason⟩ := o
  · exact (ite_self none).symm
  · simp only [overflowReport, Event.isSubscriberOverflow, decide_eq_true_eq, Option.map_some]
    rfl

/-- A report of a refusal is found among those of refusals. -/
theorem filter_overflowReport (name : String) (o : Stamped × Option String) :
    (overflowReport name o).toList.filter (·.kind = .subscriberOverflow) =
        (overflowReport name o).toList ∧
      (overflowReport name o).toList.filter (·.kind ≠ .subscriberOverflow) = [] := by
  rw [overflowReport_eq]
  split
  · exact ⟨rfl, rfl⟩
  · cases o.2 <;> exact ⟨rfl, rfl⟩

theorem filter_panicReport (name : String) (o : Stamped × Reaction) :
    (panicReport name o).toList.filter (·.kind = .subscriberOverflow) = [] ∧
      (panicReport name o).toList.filter (·.kind ≠ .subscriberOverflow) =
        (panicReport name o).toList := by
  obtain ⟨e, _ | payload | _⟩ := o <;> exact ⟨rfl, rfl⟩

theorem filterMap_concat {α β : Type} (f : α → Option β) (xs : List α) (x : α) :
    (xs ++ [x]).filterMap f = xs.filterMap f ++ (f x).toList := by
  rw [List.filterMap_append]
  cases h : f x <;> simp [h]

theorem accounts_start (x : Subscriber) : Accounts x (start x) := by
  constructor <;> simp [start, accepted]

section Step
variable {x : Subscriber} {d : Desk} (h : Accounts x d)
include h

theorem Accounts.taken {e : Stamped} (alive : d.worker.alive = true)
    (room : d.worker.queue.length < d.worker.capacity) :
    Accounts x
      { d with worker.queue := d.worker.queue ++ [e], offers := d.offers ++ [(e, none)] } :=
  { h with
    bounded := by
      rw [Worker.capacity, h.subscriber] at room
      rw [List.length_append]
      exact room
    balanced := fun _ => by
      have hbalanced := h.balanced alive
      simp only [accepted] at hbalanced ⊢
      simp [← hbalanced]
    handed := by
      have hhanded := h.handed
      simp only [accepted] at hhanded ⊢
      simpa using hhanded.trans (List.prefix_append _ [e])
    overflows := by
      rw [filterMap_concat, h.overflows]
      simp
    dead := fun hdead => absurd (alive.symm.trans hdead) Bool.noConfusion }

theorem Accounts.refused {e : Stamped} {reason : String} :
    Accounts x
      { d with
          offers := d.offers ++ [(e, some reason)]
          reports := d.reports ++
            (overflowReport d.worker.subscriber.name (e, some reason)).toList } := by
  have hsame : (d.offers ++ [(e, some reason)]).filter (fun o => o.2.isNone) =
      d.offers.filter fun o => o.2.isNone := by simp
  have hreport := filter_overflowReport x.name (e, some reason)
  rw [h.subscriber]
  exact { h with
    balanced := fun halive => by
      rw [accepted, hsame]
      exact h.balanced halive
    handed := by
      rw [accepted, hsame]
      exact h.handed
    overflows := by
      rw [List.filter_append, h.overflows, hreport.1, filterMap_concat, overflowReport_eq]
    panics := by
      rw [List.filter_append, h.panics, hreport.2, List.append_nil] }

theorem Accounts.picked {e : Stamped} {rest : List Stamped} (free : d.handling = none)
    (queued : d.worker.queue = e :: rest) : Accounts x (d.pick e rest) := by
  have halive : d.worker.alive = true := by
    cases ha : d.worker.alive with
    | true => rfl
    | false => rw [(h.dead ha).1] at queued; cases queued
  have hbalanced := h.balanced halive
  rw [queued] at hbalanced
  exact { h with
    bounded := by
      have hbounded := h.bounded
      rw [queued] at hbounded
      exact Nat.le_of_succ_le hbounded
    balanced := fun _ => by
      rw [pick, List.append_assoc]
      exact hbalanced
    handed := ⟨rest, by rw [pick, List.append_assoc]; exact hbalanced⟩
    handled := by
      have hhandled := h.handled
      rw [free] at hhandled
      simp [pick, ← hhandled]
    dead := fun hdead => absurd (halive.symm.trans hdead) Bool.noConfusion }

/-- The subscriber is done with its event. If it has collapsed, its worker and
what was queued go with it. -/
theorem Accounts.released {e : Stamped} (busy : d.handling = some e) :
    Accounts x
      { d.release e with
          reports := d.reports ++ (panicReport d.worker.subscriber.name
            (e, d.worker.subscriber.react e)).toList } := by
  have halive : d.worker.alive = true := by
    cases ha : d.worker.alive with
    | true => rfl
    | false => rw [(h.dead ha).2] at busy; cases busy
  have hreport := filter_panicReport x.name (e, x.react e)
  obtain rfl := h.subscriber
  have hworker : (d.release e).worker =
      if d.worker.subscriber.react e = .collapsed then
        { d.worker with queue := [], alive := false } else d.worker := rfl
  have hcollapsed : (d.release e).worker.alive = true ↔
      d.worker.subscriber.react e ≠ .collapsed := by
    rw [hworker]
    split <;> simp [*]
  constructor
  case subscriber =>
    rw [hworker]
    split <;> rfl
  case bounded =>
    rw [hworker]
    split
    · exact Nat.zero_le _
    · exact h.bounded
  case balanced =>
    intro ha
    rw [hworker, if_neg (hcollapsed.mp ha)]
    exact h.balanced halive
  case handed => exact h.handed
  case handled =>
    have hhandled := h.handled
    rw [busy] at hhandled
    simp [release, ← hhandled]
  case reacted =>
    intro o ho
    rcases List.mem_append.mp ho with ho | ho
    · exact h.reacted o ho
    · rw [List.mem_singleton.mp ho]
  case overflows =>
    rw [List.filter_append, h.overflows, hreport.1, List.append_nil]
    rfl
  case panics =>
    rw [List.filter_append, h.panics, hreport.2, release, filterMap_concat]
    cases d.worker.subscriber.react e <;> rfl
  case alive =>
    rw [hcollapsed, release]
    simp only [List.mem_append, List.mem_singleton, or_imp, forall_and, forall_eq]
    exact (and_iff_right (h.alive.mp halive)).symm
  case dead =>
    intro hdead
    have hc : d.worker.subscriber.react e = .collapsed :=
      Decidable.byContradiction fun hc =>
        Bool.noConfusion ((hcollapsed.mpr hc).symm.trans hdead)
    refine ⟨?_, rfl⟩
    rw [hworker, if_pos hc]

theorem Accounts.step {d' : Desk} {m : Move} (hstep : StepTo d m d') : Accounts x d' := by
  cases hstep with
  | taken e alive room => exact h.taken alive room
  | refused e reason full => exact h.refused
  | picked e rest free queued => exact h.picked free queued
  | reacted e busy => exact h.released busy

end Step

theorem accounts_run {x : Subscriber} {moves : List Move} {d d' : Desk} (h : Accounts x d)
    (hrun : d.run moves = some d') : Accounts x d' := by
  induction moves generalizing d with
  | nil =>
    cases hrun
    exact h
  | cons m moves ih =>
    obtain ⟨d₁, hm, hrest⟩ := Option.bind_eq_some_iff.mp hrun
    exact ih (h.step (stepTo_step hm)) hrest

end Desk
end SegmentGate
