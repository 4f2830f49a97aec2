import SegmentGate.Proofs.Relay

/-!
# Faithful delivery

While the listener is told of no lag and no offer is refused, nothing gets lost
on the three stages between the bus and a subscriber: what the listener has
taken is the beginning of what was published, and what a subscriber was handed,
with what waits in its queue, is what was offered to it. A listener that was
told to close drains the bus until nothing is left, so in the end the subscribers
have all that was published before (`faithful_delivery`).
-/
namespace SegmentGate
namespace Relay

variable {s s' : Relay}

/-! ## What was offered -/

/-- The events that were offered to worker `i`: all that were taken, or all but
the one at hand. -/
def offered (s : Relay) (i : Nat) : List Stamped :=
  match s.offering with
  | some (_, j) => if i < j then s.taken.map Prod.fst else s.taken.dropLast.map Prod.fst
  | none => s.taken.map Prod.fst

theorem offered_hold (h : s.offering = none) (bus : Bus Stamped) (e : Stamped) (i : Nat) :
    (s.hold bus e).offered i = s.offered i := by
  simp [offered, hold, h]

/-- The next worker was offered the event at hand as well; nothing is new for the
others. -/
theorem offered_advance (h : s.Sound) {e : Stamped} {j : Nat} (ho : s.offering = some (e, j))
    (i : Nat) : (s.advance e j).offered i = s.offered i ++ (if i = j then [e] else []) := by
  obtain ⟨-, p, hlast⟩ := h.holding e j ho
  obtain ⟨before, htaken⟩ := List.getLast?_eq_some_iff.mp hlast
  rcases Nat.lt_trichotomy i j with hlt | rfl | hgt
  · simp [offered, advance, ho, hlt, Nat.ne_of_lt hlt, Nat.lt_succ_of_lt hlt]
  · simp [offered, advance, ho, htaken]
  · have hge : ¬ i < j + 1 := by omega
    simp [offered, advance, ho, Nat.not_lt_of_gt hgt, hge, Nat.ne_of_gt hgt]

theorem offered_of_lt {e : Stamped} {i j : Nat} (ho : s.offering = some (e, j))
    (hi : i < j) : s.offered i = s.taken.map Prod.fst := by
  simp [offered, ho, hi]

theorem seen_hand (w : Worker) (e : Stamped) (rest : List Stamped) (i j : Nat) :
    (s.hand i w e rest).audience.seen j 0 =
      s.audience.seen j 0 ++ (if j = i then [e] else []) := by
  by_cases hij : i = j
  · simp [Audience.seen, hand, hij]
  · simp [Audience.seen, hand, hij, Ne.symm hij]

/-! ## The order of events -/

structure InOrder (s : Relay) : Prop where
  taken : s.lags = [] → s.taken.map Prod.fst = s.published.take s.position
  handed : s.refused = [] → ∀ i w, s.audience.workers[i]? = some w → w.alive = true →
    s.audience.seen i 0 ++ w.queue = s.offered i

namespace InOrder

theorem start (next capacity : Nat) (subscribers : List Subscriber) :
    (Relay.start next capacity subscribers).InOrder where
  taken _ := rfl
  handed _ i w hw _ := by
    obtain ⟨subscriber, -, rfl⟩ : ∃ x, subscribers[i]? = some x ∧ { subscriber := x } = w := by
      simpa [Relay.start, Listener.start, Audience.new] using hw
    rfl

/-- The listener has not taken what is published now. -/
theorem publish (h : s.InOrder) (hs : s.Sound) (e : Stamped) :
    s.lags = [] → s.taken.map Prod.fst = (s.published ++ [e]).take s.position := by
  intro hlags
  rw [List.take_append_of_le_length hs.position_le]
  exact h.taken hlags

theorem hold (h : s.InOrder) (ho : s.offering = none) {bus : Bus Stamped} {e : Stamped}
    (he : s.published[s.position]? = some e) : (s.hold bus e).InOrder where
  taken hlags := by
    have hnext : s.published.take (s.position + 1) = s.published.take s.position ++ [e] := by
      rw [List.take_add_one, he]
      rfl
    simp [Relay.hold, setBus, h.taken hlags, hnext]
  handed hrefused i w hw ha := by
    rw [offered_hold ho]
    exact h.handed hrefused i w hw ha

theorem accept (h : s.InOrder) (hs : s.Sound) {e : Stamped} {i : Nat}
    (ho : s.offering = some (e, i)) {w : Worker} (hw : s.audience.workers[i]? = some w) :
    ((s.setWorker i { w with queue := w.queue ++ [e] }).advance e i).InOrder where
  taken := h.taken
  handed hrefused j v hv ha := by
    refine Eq.trans ?_ (offered_advance hs ho j).symm
    rcases worker_setWorker hv with ⟨rfl, rfl⟩ | ⟨hne, hv⟩
    · have hhanded := h.handed hrefused j w hw ha
      rw [if_pos rfl, ← hhanded, List.append_assoc]
      rfl
    · rw [if_neg hne, List.append_nil]
      exact h.handed hrefused j v hv ha

theorem hand (h : s.InOrder) {i : Nat} {w : Worker} (hw : s.audience.workers[i]? = some w)
    {e : Stamped} {rest : List Stamped} (hq : w.queue = e :: rest) :
    (s.hand i w e rest).InOrder where
  taken := h.taken
  handed hrefused j v hv ha := by
    rw [seen_hand]
    rcases worker_setWorker hv with ⟨rfl, rfl⟩ | ⟨hne, hv⟩
    · rw [if_pos rfl, List.append_assoc, List.singleton_append, ← hq]
      exact h.handed hrefused j w hw ha
    · rw [if_neg hne, List.append_nil]
      exact h.handed hrefused j v hv ha

theorem step {m : Move} (h : s.InOrder) (hs : s.Sound) (ht : StepTo s m s') : s'.InOrder := by
  cases ht with
  | publishes next e => exact ⟨h.publish hs e, h.handed⟩
  | holds ho hstage e bus hr =>
    exact h.hold ho ((hs.hears (Stage.not_ended hstage)).receive_value hr).2.1
  | skips ho hstage n bus hr =>
    exact ⟨fun hlags => absurd hlags (by simp [skip]), h.handed⟩
  | halts ho hstage n bus hr =>
    exact ⟨fun hlags => absurd hlags (by simp [halt]), h.handed⟩
  | accepts e i ho w hw ha => exact h.accept hs ho hw
  | declines e i ho w hw hover =>
    exact ⟨h.taken, fun hrefused => absurd hrefused (by simp [decline])⟩
  | refuses e i ho w hw hover reason =>
    exact ⟨h.publish hs _, fun hrefused => absurd hrefused (by simp [Relay.report, decline])⟩
  | offers e i ho hi =>
    refine ⟨h.taken, fun hrefused j v hv ha => ?_⟩
    have hlt : j < i := Nat.lt_of_lt_of_le (List.getElem?_eq_some_iff.mp hv).1 hi
    rw [h.handed hrefused j v hv ha, offered_of_lt ho hlt]
    rfl
  | hands i w hw e rest hq hh => exact h.hand hw hq
  | panics i w hw e hh payload hr => exact ⟨h.publish hs _, h.handed⟩
  | collapses i w hw e hh =>
    refine ⟨h.taken, fun hrefused j v hv ha => ?_⟩
    rcases worker_setWorker hv with ⟨rfl, rfl⟩ | ⟨hne, hv⟩
    · cases ha
    · exact h.handed hrefused j v hv ha
  | _ => exact ⟨h.taken, h.handed⟩

end InOrder

theorem inOrder_run (h : s.InOrder) (hs : s.Sound) {moves : List Move}
    (hr : s.run moves = some s') : s'.InOrder :=
  (run_induction (I := fun t => t.Sound ∧ t.InOrder)
    (fun _ _ _ _ hi ht => ⟨hi.1.step ht, hi.2.step hi.1 ht⟩) ⟨hs, h⟩ hr).2

/-! ## The drain -/

/-- The first `n` events were taken before the listener finished. -/
def Drained (n : Nat) (s : Relay) : Prop :=
  s.stage.isTaking = false → s.lags = [] → n ≤ s.position

theorem Drained.step {n : Nat} {m : Move} (h : s.Drained n) (hs : s.Sound)
    (hn : n ≤ s.published.length) (ht : StepTo s m s') : s'.Drained n := by
  cases ht with
  | holds ho hstage e bus hr => exact fun hdone => by cases hstage.symm.trans hdone
  | skips ho hstage n bus hr => exact fun _ hlags => absurd hlags (by simp [skip])
  | halts ho hstage n bus hr => exact fun _ hlags => absurd hlags (by simp [halt])
  | empties ho hstage hv hl =>
    have hend := (hs.hears (by rw [hstage]; decide)).receive_nothing hv hl
    exact fun _ _ => hend ▸ hn
  | drains hc hst ho => exact fun hdone => by cases hdone
  | finishes hst hi => exact fun _ => h (by rw [hst]; rfl)
  | _ => exact h

theorem drained_run {n : Nat} (h : s.Drained n) (hs : s.Sound) (hn : n ≤ s.published.length)
    {moves : List Move} (hr : s.run moves = some s') : s'.Drained n := by
  refine (run_induction (I := fun t => t.Sound ∧ n ≤ t.published.length ∧ t.Drained n)
    (fun m _ t t' hi ht => ?_) ⟨hs, hn, h⟩ hr).2.2
  obtain ⟨hsound, hlength, hdrained⟩ := hi
  exact ⟨hsound.step ht, Nat.le_trans hlength (Grows.step ht).published.length_le,
    hdrained.step hsound hlength ht⟩

end Relay

open Relay in
/-- **Faithful delivery.** A gate with subscribers runs in any order. If the
listener is told of no lag, no queue refuses an event and no worker dies, then
once the listener has ended after the first shutdown, every subscriber was handed
the first `n` of all events that were published, in that order and each once.
Among them is everything published before the shutdown, and nothing is handed
over later. -/
theorem faithful_delivery {next capacity : Nat} {subscribers : List Subscriber}
    {before after : List Move} {s₁ s₂ : Relay}
    (h : (start next capacity subscribers).ShutsDown before after s₁ s₂)
    (hlags : s₂.lags = []) (hrefused : s₂.refused = [])
    (halive : ∀ w ∈ s₂.audience.workers, w.alive = true) :
    ∃ n, s₁.published.length ≤ n ∧ n ≤ s₂.published.length ∧
      ∀ i < subscribers.length, s₂.audience.seen i 0 = s₂.published.take n ∧
        ∀ later s₃, s₂.run later = some s₃ → s₃.audience.seen i 0 = s₂.audience.seen i 0 := by
  have hsound₁ : s₁.Sound := sound_run (Sound.start next capacity subscribers) h.run_before
  have hsound₂ : s₂.Sound := sound_run hsound₁ h.run_after
  have horder₁ : s₁.InOrder :=
    inOrder_run (InOrder.start ..) (Sound.start next capacity subscribers) h.run_before
  have horder₂ : s₂.InOrder := inOrder_run horder₁ hsound₁ h.run_after
  have hdrained₁ : s₁.Drained s₁.published.length := by
    intro hdone
    rw [h.listening] at hdone
    cases hdone
  have hdrained₂ := drained_run hdrained₁ hsound₁ (Nat.le_refl _) h.run_after
  have hsize : s₂.size = subscribers.length := by
    rw [size_run h.run_after, size_run h.run_before]
    simp [size, Audience.size, start, Listener.start, Audience.new]
  have hdone : s₂.stage.isTaking = false := by rw [h.ended]; rfl
  refine ⟨s₂.position, hdrained₂ hdone hlags, hsound₂.position_le, fun i hi => ⟨?_, ?_⟩⟩
  · have hlt : i < s₂.audience.workers.length := by
      rw [← hsize] at hi
      exact hi
    have hw := List.getElem?_eq_getElem hlt
    have hhanded := horder₂.handed hrefused i _ hw (halive _ (List.getElem_mem hlt))
    rw [hsound₂.queue_eq_nil h.ended hw, List.append_nil] at hhanded
    rw [hhanded, offered, hsound₂.offering_eq_none hdone]
    exact horder₂.taken hlags
  · intro later s₃ h₃
    rw [unmoved_run hsound₂ h.ended h₃]

open Relay in
/-- Two events were published and one of them is at hand when the gate is told to
shut down. The second subscriber panics on it while the listener drains the bus;
the report is handed over as well. Of what is published while the workers finish
nobody is told. -/
theorem faithful_delivery_with_late_panic :
    let event (seq : Nat) (kind : EventKind) : Stamped := ⟨seq, .about kind "app" "build" 1⟩
    let calm : Subscriber := { name := "calm", queueCapacity := 4, react := fun _ => .handled }
    let shaky : Subscriber :=
      { name := "shaky", queueCapacity := 4, react := fun e =>
          if e.event.kind = .admitted then .panicked none else .handled }
    let before : List Move :=
      [.publish 1 (event 0 .admitted), .take, .offer, .publish 2 (event 1 .released), .pick 0]
    let after : List Move :=
      [.offer, .offer, .drain, .take, .offer, .offer, .offer, .pick 1, .react 1, .take, .offer,
        .offer, .offer, .take, .publish 4 (event 3 .admitted), .pick 1, .react 1, .react 0,
        .pick 0, .react 0, .pick 0, .react 0, .pick 1, .react 1, .finish]
    ∃ s₁ s₂, (start 0 2 [calm, shaky]).ShutsDown before after s₁ s₂ ∧
      s₁.published.map Stamped.seq = [0, 1] ∧ s₂.published.map Stamped.seq = [0, 1, 2, 3] ∧
      s₂.lags = [] ∧ s₂.refused = [] ∧ (∀ w ∈ s₂.audience.workers, w.alive = true) ∧
      ∃ n, 2 ≤ n ∧ n ≤ 4 ∧
        ∀ i < 2, s₂.audience.seen i 0 = s₂.published.take n ∧
          ∀ later s₃, s₂.run later = some s₃ → s₃.audience.seen i 0 = s₂.audience.seen i 0 := by
  intro event calm shaky before after
  have hrun : ((start 0 2 [calm, shaky]).run before).bind (fun s₁ =>
      (s₁.run (.shutdown :: after)).bind fun s₂ =>
        some (decide (s₂.stage = .ended ∧ s₁.published.map Stamped.seq = [0, 1] ∧
          s₂.published.map Stamped.seq = [0, 1, 2, 3] ∧ s₂.lags = [] ∧ s₂.refused = [] ∧
          ∀ w ∈ s₂.audience.workers, w.alive = true))) = some true := by
    decide +kernel
  obtain ⟨s₁, h₁, hrun⟩ := Option.bind_eq_some_iff.mp hrun
  obtain ⟨s₂, h₂, hrun⟩ := Option.bind_eq_some_iff.mp hrun
  obtain ⟨hended, hfirst, hall, hlags, hrefused, halive⟩ :=
    of_decide_eq_true (Option.some.inj hrun)
  have h : (start 0 2 [calm, shaky]).ShutsDown before after s₁ s₂ :=
    ⟨h₁, by decide, h₂, hended⟩
  obtain ⟨n, hge, hle, hseen⟩ := faithful_delivery h hlags hrefused halive
  have hlength₁ : s₁.published.length = 2 := by simpa using congrArg List.length hfirst
  have hlength₂ : s₂.published.length = 4 := by simpa using congrArg List.length hall
  rw [hlength₁] at hge
  rw [hlength₂] at hle
  exact ⟨s₁, s₂, h, hfirst, hall, hlags, hrefused, halive, n, hge, hle, hseen⟩

end SegmentGate
