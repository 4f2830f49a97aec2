import SegmentGate.Proofs.Relay

/-!
# The listener in moves

A listener works in larger steps than the moves of a relay: it offers an event to
all workers at once, and a worker hands over an event together with what comes of
it. Each of these steps is a run of moves (`forward_eq_run`, `work_eq_run`), and so
are the rounds until nothing moves (`settle_eq_run`) and the end after a shutdown
(`close_eq_run`). What holds of all runs of a relay thus holds of a listener.

For the end it matters that the drain has come to its end, and not only used up the
steps that it is allowed: `toTake` counts what there is still to take.
-/
namespace SegmentGate

/-- The stage of a relay that the listener corresponds to between its steps. -/
def Listener.stage (l : Listener) : Relay.Stage :=
  match l.phase with
  | .running => .listening
  | .closing => .draining
  | .ended => .ended

/-- The reports that come of offering the event to `n` workers. -/
def Event.refusals (n : Nat) (e : Event) : Nat := if e.isSubscriberOverflow then 0 else n

namespace Relay

variable {s s' : Relay} {l l' : Listener} {f f' : Feed}

/-- The listener and the feed are those of the relay; nothing is at hand, and no
worker hands over anything. -/
structure Fits (s : Relay) (l : Listener) (f : Feed) : Prop where
  rx : s.rx = l.rx
  audience : s.audience = l.audience
  feed : s.feed = f
  offering : s.offering = none
  handling : s.handling = List.replicate s.size none

theorem fits_start (next capacity : Nat) (subscribers : List Subscriber) :
    (start next capacity subscribers).Fits
      (Listener.start subscribers ⟨next, .new capacity⟩).1
      (Listener.start subscribers ⟨next, .new capacity⟩).2 :=
  ⟨rfl, rfl, rfl, rfl,
    by simp [start, Listener.start, Audience.new, size, Audience.size, List.map_const']⟩

/-! ## One event for all workers -/

/-- The event at hand goes to the next worker. -/
theorem offer_eq {e : Stamped} {w : Worker} {done ws : List Worker}
    (hs : s.audience.workers = done ++ w :: ws) (ho : s.offering = some (e, done.length)) :
    ∃ s', s.offer = some s' ∧
      s'.audience = { s.audience with workers := (done ++ [(w.offer e).1]) ++ ws } ∧
      s'.feed = (match (w.offer e).2 with
        | some reason =>
          if e.event.isSubscriberOverflow then s.feed
          else s.feed.publish (.subscriberOverflow (w.offer e).1.subscriber.name reason)
        | none => s.feed) ∧
      s'.offering = some (e, done.length + 1) ∧ s'.handling = s.handling ∧
      s'.rx = s.rx ∧ s'.stage = s.stage := by
  have hw : s.audience.workers[done.length]? = some w := by simp [hs]
  unfold offer
  simp only [ho, hw]
  rcases hr : w.offer e with ⟨w', _ | reason⟩
  · exact ⟨_, rfl, by simp [advance, setWorker, hs], rfl, rfl, rfl, rfl, rfl⟩
  · refine ⟨_, rfl, ?_⟩
    unfold refuse
    split <;> simp [advance, setWorker, decline, report, *]

/-- The event at hand goes to all workers that are left. -/
theorem offerAll_eq_run {e : Stamped} {ws done : List Worker}
    (hs : s.audience.workers = done ++ ws) (ho : s.offering = some (e, done.length)) :
    ∃ moves s', s.run moves = some s' ∧ (∀ m ∈ moves, m = .offer) ∧
      s'.audience =
        { s.audience with workers := done ++ (Audience.offerAll e ws s.feed).1 } ∧
      s'.feed = (Audience.offerAll e ws s.feed).2 ∧
      s'.offering = none ∧ s'.handling = s.handling ∧ s'.rx = s.rx ∧ s'.stage = s.stage := by
  induction ws generalizing s done with
  | nil =>
    have hw : s.audience.workers[done.length]? = none := by simp [hs]
    refine ⟨[.offer], { s with offering := none }, ?_, by simp, ?_, rfl, rfl, rfl, rfl, rfl⟩
    · simp [run, step, offer, ho, hw]
    · rw [Audience.offerAll, ← hs]
  | cons w ws ih =>
    obtain ⟨t, ht, haudience, hfeed, hoffering, hhandling, hrx, hstage⟩ := offer_eq hs ho
    have hnext : t.offering = some (e, (done ++ [(w.offer e).1]).length) := by
      rw [hoffering, List.length_append, List.length_singleton]
    obtain ⟨moves, s', hrun, hoffers, ha, hf, ho', hh, hr, hst⟩ := ih (by rw [haudience]) hnext
    refine ⟨.offer :: moves, s', ?_, ?_, ?_, ?_, ho', hh.trans hhandling, hr.trans hrx,
      hst.trans hstage⟩
    · simp [run, step, ht, hrun]
    · simpa using hoffers
    · rw [ha, haudience, hfeed]
      exact congrArg (fun ws => { s.audience with workers := ws }) (List.append_assoc done _ _)
    · rw [hf, hfeed]
      rfl

theorem length_offerAll (e : Stamped) (ws : List Worker) (f : Feed) :
    (Audience.offerAll e ws f).1.length = ws.length := by
  induction ws generalizing f with
  | nil => rfl
  | cons w ws ih => simp only [Audience.offerAll, List.length_cons, ih]

/-- What the listener does in one step is done by a look at the bus and offers. -/
theorem forward_eq_run (h : s.Fits l f) (hs : s.stage = l.stage)
    (hf : l.forward f = some (l', f')) :
    ∃ moves s', s.run (.take :: moves) = some s' ∧ (∀ m ∈ moves, m = .offer) ∧
      s'.Fits l' f' ∧ s'.stage = l'.stage := by
  obtain ⟨hrx, haudience, rfl, ho, hhandling⟩ := h
  unfold Listener.forward at hf
  split at hf
  · cases hf
  rename_i hne
  have htaking : s.stage = .listening ∧ l.phase = .running ∨
      s.stage = .draining ∧ l.phase = .closing := by
    cases hp : l.phase with
    | running => exact .inl ⟨by rw [hs, Listener.stage, hp], rfl⟩
    | closing => exact .inr ⟨by rw [hs, Listener.stage, hp], rfl⟩
    | ended => exact absurd hp hne
  rw [← hrx] at hf
  rcases hr : s.feed.bus.receive s.rx with ⟨_ | _ | _ | n | _, bus⟩ <;> rw [hr] at hf <;>
    simp only [reduceCtorEq] at hf
  case value e =>
    cases hf
    have htake : s.take = some (s.hold bus e) := by
      rcases htaking with ⟨hs, -⟩ | ⟨hs, -⟩ <;> simp [take, ho, hs, hr]
    obtain ⟨moves, s', hrun, hoffers, ha, hfeed, ho', hh, hrx', hstage⟩ :=
      offerAll_eq_run (s := s.hold bus e) (List.nil_append s.audience.workers).symm rfl
    refine ⟨moves, s', ?_, hoffers, ⟨hrx', ?_, ?_, ho', ?_⟩, hstage.trans hs⟩
    · simp [run, step, htake, hrun]
    · rw [ha, ← haudience]
      rfl
    · rw [hfeed, ← haudience]
      rfl
    · have hsize : s'.size = s.size := by
        simp [size, Audience.size, ha, length_offerAll]
      rw [hh, hsize]
      exact hhandling
  case lagged =>
    split at hf
    · cases hf
    · rename_i hp
      cases hf
      have hlistening : s.stage = .listening := by
        rcases htaking with ⟨hs, -⟩ | ⟨-, hc⟩
        · exact hs
        · exact absurd hc hp
      refine ⟨[], s.skip bus, ?_, by simp, ⟨hrx, haudience, rfl, ho, hhandling⟩, hs⟩
      simp [run, step, take, ho, hlistening, hr]

/-- What a worker does in one step is done in two moves. -/
theorem work_eq_run {a : Audience} {i : Nat} (h : s.Fits l f)
    (hw : l.audience.work i f = some (a, f')) :
    ∃ s', s.run [.pick i, .react i] = some s' ∧ s'.Fits { l with audience := a } f' ∧
      s'.stage = s.stage := by
  obtain ⟨hrx, haudience, rfl, ho, hhandling⟩ := h
  rw [← haudience] at hw
  unfold Audience.work Worker.work at hw
  cases hi : s.audience.workers[i]? with
  | none =>
    rw [hi] at hw
    cases hw
  | some w =>
    have hlt : i < s.audience.workers.length := (List.getElem?_eq_some_iff.mp hi).1
    rw [hi] at hw
    cases hq : w.queue with
    | nil =>
      simp only [hq] at hw
      cases hw
    | cons e rest =>
      have hnone : s.handling[i]? = some none := by
        simp [hhandling, size, Audience.size, hlt]
      have hpick : s.pick i = some (s.hand i w e rest) := by simp [pick, hi, hnone, hq]
      have hworker : (s.hand i w e rest).audience.workers[i]? =
          some { w with queue := rest } := by
        simp [hand, hlt]
      have hevent : (s.hand i w e rest).handling[i]? = some (some e) := by
        simp [hand, hhandling, size, Audience.size, hlt]
      have hfree : ((s.hand i w e rest).release i).handling = List.replicate s.size none := by
        simp [release, hand, hhandling]
      simp only [run, step, hpick, Option.bind_some, react, hworker, hevent]
      simp only [hq] at hw
      cases hr : w.subscriber.react e with
      | handled =>
        rw [hr] at hw
        cases hw
        refine ⟨_, rfl, ⟨hrx, rfl, rfl, ho, ?_⟩, rfl⟩
        rw [size_release, size_hand]
        exact hfree
      | panicked payload =>
        rw [hr] at hw
        cases hw
        refine ⟨_, rfl, ⟨hrx, rfl, rfl, ho, ?_⟩, rfl⟩
        rw [size_report, size_release, size_hand]
        exact hfree
      | collapsed =>
        rw [hr] at hw
        cases hw
        refine ⟨_, rfl, ⟨hrx, ?_, rfl, ho, ?_⟩, rfl⟩
        · simp [setWorker, release, hand]
        · rw [size_setWorker, size_release, size_hand]
          exact hfree

/-! ## Empty queues -/

/-- All workers empty their queues. -/
theorem drain_eq_run (h : s.Fits l f) :
    ∃ moves s', s.run moves = some s' ∧ s'.stage = s.stage ∧
      s'.Fits { l with audience := (l.audience.drain f).1 } (l.audience.drain f).2 := by
  refine Audience.drain_induction (P := fun a f => ∃ moves s', s.run moves = some s' ∧
    s'.stage = s.stage ∧ s'.Fits { l with audience := a } f) ?_ ⟨[], s, rfl, rfl, h⟩
  rintro a a' f f' i ⟨moves, s₁, hrun, hstage, h₁⟩ hw
  obtain ⟨s', hlast, h', hstage'⟩ := work_eq_run h₁ hw
  refine ⟨moves ++ [.pick i, .react i], s', ?_, hstage'.trans hstage, h'⟩
  rw [run_append, hrun]
  exact hlast

theorem queue_workUpTo (n : Nat) (w : Worker) (f : Feed) (h : w.queue.length ≤ n) :
    (w.workUpTo n f).2.1.queue = [] := by
  induction n generalizing w f with
  | zero => exact List.length_eq_zero_iff.mp (Nat.le_zero.mp h)
  | succ n ih =>
    unfold Worker.workUpTo
    cases hw : w.work f with
    | none =>
      unfold Worker.work at hw
      split at hw
      · assumption
      · split at hw <;> cases hw
    | some x =>
      refine ih _ _ ?_
      unfold Worker.work at hw
      split at hw
      · cases hw
      · rename_i e rest hq
        rw [hq] at h
        split at hw <;> cases hw
        · exact Nat.le_of_succ_le_succ h
        · exact Nat.le_of_succ_le_succ h
        · exact Nat.zero_le n

theorem isBusy_drain (a : Audience) (f : Feed) : (a.drain f).1.isBusy = false := by
  have hall (i : Nat) (ws : List Worker) (f : Feed) :
      ∀ w ∈ (Audience.drainFrom i ws f).2.1, w.queue = [] := by
    induction ws generalizing i f with
    | nil => simp [Audience.drainFrom]
    | cons w ws ih =>
      intro v hv
      rcases List.mem_cons.mp hv with rfl | hv
      · exact queue_workUpTo _ w f (Nat.le_refl _)
      · exact ih _ _ v hv
  simpa [Audience.isBusy, Audience.drain] using hall 0 a.workers f

/-! ## Rounds -/

theorem forwardUpTo_eq_run (n : Nat) (h : s.Fits l f) (hs : s.stage = l.stage) :
    ∃ moves s', s.run moves = some s' ∧ s'.Fits (l.forwardUpTo n f).1 (l.forwardUpTo n f).2 ∧
      s'.stage = (l.forwardUpTo n f).1.stage := by
  induction n generalizing s l f with
  | zero => exact ⟨[], s, rfl, h, hs⟩
  | succ n ih =>
    unfold Listener.forwardUpTo
    cases hf : l.forward f with
    | none => exact ⟨[], s, rfl, h, hs⟩
    | some x =>
      obtain ⟨moves₁, s₁, hrun₁, -, h₁, hs₁⟩ := forward_eq_run h hs hf
      obtain ⟨moves, s', hrun, hfits, hstage⟩ := ih h₁ hs₁
      refine ⟨(.take :: moves₁) ++ moves, s', ?_, hfits, hstage⟩
      rw [run_append, hrun₁]
      exact hrun

theorem round_eq_run (h : s.Fits l f) (hs : s.stage = l.stage) :
    ∃ moves s', s.run moves = some s' ∧ s'.Fits (l.round f).1 (l.round f).2 ∧
      s'.stage = (l.round f).1.stage := by
  obtain ⟨moves₁, s₁, hrun₁, h₁, hs₁⟩ := forwardUpTo_eq_run (l.forwardBound f) h hs
  obtain ⟨moves, s', hrun, hstage, hfits⟩ := drain_eq_run h₁
  refine ⟨moves₁ ++ moves, s', ?_, hfits, hstage.trans hs₁⟩
  rw [run_append, hrun₁]
  exact hrun

/-- What a listener does until nothing moves is a run of moves. -/
theorem settle_eq_run (n : Nat) (h : s.Fits l f) (hs : s.stage = l.stage) :
    ∃ moves s', s.run moves = some s' ∧ s'.Fits (l.settle n f).1 (l.settle n f).2 ∧
      s'.stage = (l.settle n f).1.stage := by
  induction n generalizing s l f with
  | zero => exact ⟨[], s, rfl, h, hs⟩
  | succ n ih =>
    unfold Listener.settle
    split
    · obtain ⟨moves₁, s₁, hrun₁, h₁, hs₁⟩ := round_eq_run h hs
      obtain ⟨moves, s', hrun, hfits, hstage⟩ := ih h₁ hs₁
      refine ⟨moves₁ ++ moves, s', ?_, hfits, hstage⟩
      rw [run_append, hrun₁]
      exact hrun
    · exact ⟨[], s, rfl, h, hs⟩

/-! ## The end -/

/-- The events that the listener may still have to take, if nobody but itself
publishes: those on the bus, and the reports of refusals by `n` workers. -/
def toTake (n : Nat) (s : Relay) : Nat :=
  total (fun e => 1 + e.event.refusals n) (s.published.drop s.position) +
    match s.offering with
    | some (e, j) => e.event.refusals (n - j)
    | none => 0

theorem toTake_take {n : Nat} (hs : s.Sound) (hdrain : s.stage = .draining)
    (ht : s.take = some s') (hdrain' : s'.stage = .draining) :
    s'.toTake n + 1 = s.toTake n := by
  have hstep := stepTo_take ht
  cases hstep with
  | holds ho htaking e bus hr =>
    obtain ⟨-, he, -⟩ := (hs.hears (Stage.not_ended htaking)).receive_value hr
    obtain ⟨hlt, hget⟩ := List.getElem?_eq_some_iff.mp he
    have hfirst : s.toTake n = total (fun e => 1 + e.event.refusals n)
        (s.published[s.position] :: s.published.drop (s.position + 1)) + 0 := by
      rw [← List.drop_eq_getElem_cons hlt, toTake, ho]
    have hrest : (s.hold bus e).toTake n = total (fun e => 1 + e.event.refusals n)
        (s.published.drop (s.position + 1)) + e.event.refusals (n - 0) := rfl
    rw [hfirst, hrest, hget, total, Nat.sub_zero]
    omega
  | aside m hp ho bus hbus => cases ho
  | skips ho hst k bus hr => cases hst.symm.trans hdrain
  | halts ho hst k bus hr => cases hdrain'
  | empties ho hst hv hl => cases hdrain'

theorem toTake_advance {n : Nat} {e : Stamped} {i : Nat} (ho : s.offering = some (e, i)) :
    (s.advance e i).toTake n + e.event.refusals (n - i) =
      s.toTake n + e.event.refusals (n - (i + 1)) := by
  simp only [toTake, advance, ho]
  omega

theorem toTake_offer {n : Nat} (hs : s.Sound) (hn : s.size = n) (ht : StepTo s .offer s') :
    s'.toTake n ≤ s.toTake n := by
  have hfewer (e : Event) (i : Nat) : e.refusals (n - (i + 1)) ≤ e.refusals (n - i) := by
    unfold Event.refusals
    split <;> omega
  cases ht with
  | aside m hp ho bus hbus => cases ho
  | accepts e i ho w hw ha =>
    have hadvance := toTake_advance (n := n) ho
    have hle := hfewer e.event i
    change (s.advance e i).toTake n ≤ s.toTake n
    omega
  | declines e i ho w hw hover =>
    have hadvance := toTake_advance (n := n) ho
    have hle := hfewer e.event i
    change (s.advance e i).toTake n ≤ s.toTake n
    omega
  | refuses e i ho w hw hover reason =>
    have hi : i < n := hn ▸ (List.getElem?_eq_some_iff.mp hw).1
    have hadvance := toTake_advance (n := n) ho
    have hone : e.event.refusals (n - i) = e.event.refusals (n - (i + 1)) + 1 := by
      simp only [Event.refusals, hover, Bool.false_eq_true, if_false]
      omega
    have hreport : (((s.advance e i).decline i e).report
        (.subscriberOverflow w.subscriber.name reason)).toTake n =
          (s.advance e i).toTake n + 1 := by
      simp only [toTake, report, decline, advance]
      rw [List.drop_append_of_le_length hs.position_le, total_append]
      simp only [total, Event.refusals, Event.isSubscriberOverflow, Event.subscriberOverflow]
      simp only [decide_true, if_true]
      omega
    rw [hreport]
    omega
  | offers e i ho hi =>
    simp only [toTake, ho]
    omega

theorem toTake_offers {n : Nat} (hs : s.Sound) (hn : s.size = n) {moves : List Move}
    (hoffers : ∀ m ∈ moves, m = .offer) (hr : s.run moves = some s') :
    s'.toTake n ≤ s.toTake n := by
  refine (run_induction (I := fun t => t.Sound ∧ t.size = n ∧ t.toTake n ≤ s.toTake n)
    (fun m hm t t' hi ht => ?_) ⟨hs, hn, Nat.le_refl _⟩ hr).2.2
  obtain ⟨hsound, hsize, hle⟩ := hi
  obtain rfl := hoffers m hm
  exact ⟨hsound.step ht, ht.size.trans hsize, Nat.le_trans (toTake_offer hsound hsize ht) hle⟩

theorem stage_offers {moves : List Move} (hoffers : ∀ m ∈ moves, m = .offer)
    (hr : s.run moves = some s') : s'.stage = s.stage := by
  refine run_induction (I := fun t => t.stage = s.stage) (fun m hm t t' hi ht => ?_) rfl hr
  obtain rfl := hoffers m hm
  cases ht with
  | aside m hp ho bus hbus => cases ho
  | _ => exact hi

theorem phase_forward (hf : l.forward f = some (l', f')) : l'.phase = l.phase := by
  unfold Listener.forward at hf
  split at hf
  · cases hf
  · rcases hr : f.bus.receive l.rx with ⟨_ | _ | _ | n | _, bus⟩ <;> rw [hr] at hf <;>
      simp only [reduceCtorEq] at hf
    · cases hf
      rfl
    · split at hf <;> cases hf
      rfl

/-- Each step of the drain takes one of the events that are to come. -/
theorem forward_of_draining {n : Nat} (h : s.Fits l f) (hs : s.Sound) (hn : s.size = n)
    (hphase : l.phase = .closing) (hstage : s.stage = .draining)
    (hf : l.forward f = some (l', f')) :
    ∃ moves s', s.run moves = some s' ∧ s'.Fits l' f' ∧ s'.stage = .draining ∧
      l'.phase = .closing ∧ s'.toTake n < s.toTake n := by
  have hl : s.stage = l.stage := by rw [hstage, Listener.stage, hphase]
  obtain ⟨moves, s', hrun, hoffers, hfits, hstage'⟩ := forward_eq_run h hl hf
  have hphase' : l'.phase = .closing := (phase_forward hf).trans hphase
  have hdrain : s'.stage = .draining := by rw [hstage', Listener.stage, hphase']
  obtain ⟨t, ht, hrest⟩ := Option.bind_eq_some_iff.mp hrun
  have htake := toTake_take (n := n) hs hstage ht ((stage_offers hoffers hrest).symm.trans hdrain)
  have hstep := stepTo_step ht
  have hrest' := toTake_offers (hs.step hstep) (hstep.size.trans hn) hoffers hrest
  exact ⟨.take :: moves, s', hrun, hfits, hdrain, hphase', by omega⟩

/-- With enough steps the drain comes to its end. -/
theorem forwardUpTo_of_draining {n : Nat} (k : Nat) (h : s.Fits l f) (hs : s.Sound)
    (hn : s.size = n) (hphase : l.phase = .closing) (hstage : s.stage = .draining)
    (hk : s.toTake n ≤ k) :
    ∃ moves s', s.run moves = some s' ∧ s'.stage = .draining ∧
      s'.Fits (l.forwardUpTo k f).1 (l.forwardUpTo k f).2 ∧
      (l.forwardUpTo k f).1.phase = .closing ∧
      (l.forwardUpTo k f).1.forward (l.forwardUpTo k f).2 = none := by
  induction k generalizing s l f with
  | zero =>
    refine ⟨[], s, rfl, hstage, h, hphase, ?_⟩
    cases hf : l.forward f with
    | none => exact hf
    | some x =>
      obtain ⟨_, _, _, _, _, _, hlt⟩ := forward_of_draining h hs hn hphase hstage hf
      omega
  | succ k ih =>
    unfold Listener.forwardUpTo
    cases hf : l.forward f with
    | none => exact ⟨[], s, rfl, hstage, h, hphase, hf⟩
    | some x =>
      obtain ⟨moves₁, s₁, hrun₁, h₁, hstage₁, hphase₁, hlt⟩ :=
        forward_of_draining h hs hn hphase hstage hf
      obtain ⟨moves, s', hrun, hrest⟩ :=
        ih h₁ (sound_run hs hrun₁) ((size_run hrun₁).trans hn) hphase₁ hstage₁ (by omega)
      refine ⟨moves₁ ++ moves, s', ?_, hrest⟩
      rw [run_append, hrun₁]
      exact hrun

theorem forwardUpTo_of_none (k : Nat) (hf : l.forward f = none) :
    l.forwardUpTo k f = (l, f) := by
  cases k with
  | zero => rfl
  | succ k => rw [Listener.forwardUpTo, hf]

theorem forward_of_lag (h : s.Fits l f) (hs : s.Sound) (hphase : l.phase = .closing)
    (hstage : s.stage = .draining) (hlag : s.position < s.feed.bus.start) :
    l.forward f = none := by
  have hears := hs.hears (by rw [hstage]; decide)
  obtain ⟨n, bus, hr⟩ : ∃ n bus, f.bus.receive l.rx = (.lagged n, bus) := by
    rw [← h.feed, ← h.rx]
    rcases hears.receive with ⟨-, he⟩ | ⟨-, hle, -⟩ | ⟨hend, -⟩
    · exact ⟨_, _, he⟩
    · exact absurd hlag (Nat.not_lt.mpr hle)
    · exact absurd (hend ▸ hlag) (Nat.not_lt.mpr hears.start_le)
  simp [Listener.forward, hphase, hr]

/-- A listener that is not behind allows itself enough steps. -/
theorem toTake_le_forwardBound (h : s.Fits l f) (hs : s.Sound) (hstage : s.stage = .draining)
    (hlag : s.feed.bus.start ≤ s.position) : s.toTake s.size ≤ l.forwardBound f := by
  have hears := hs.hears (by rw [hstage]; decide)
  have hpending : f.bus.pending l.rx = s.published.length - s.position := by
    have hstart := hears.start_le
    rw [← h.feed, ← h.rx, Bus.pending, hears.cursor]
    simp only [Option.join_some, Bus.tail, hears.retained, List.length_drop]
    omega
  have hsize : l.audience.size = s.size := by rw [size, h.audience]
  have htotal := total_le (fun e : Stamped => 1 + e.event.refusals s.size) (k := s.size + 1)
    (fun e => by
      unfold Event.refusals
      split <;> omega) (s.published.drop s.position)
  rw [List.length_drop] at htotal
  have hmul : (s.size + 1) * (s.published.length - s.position) ≤
      (s.size + 2) * (2 * (s.published.length - s.position + 1)) :=
    Nat.mul_le_mul (by omega) (by omega)
  have htoTake : s.toTake s.size = total (fun e : Stamped => 1 + e.event.refusals s.size)
      (s.published.drop s.position) := by
    rw [toTake, h.offering]
    rfl
  rw [Listener.forwardBound, hpending, hsize, htoTake, Nat.mul_comm _ (s.size + 2)]
  omega

/-- The steps that a listener allows itself bring the drain to its end. -/
theorem forwardAll_of_draining (h : s.Fits l f) (hs : s.Sound) (hphase : l.phase = .closing)
    (hstage : s.stage = .draining) :
    ∃ moves s', s.run moves = some s' ∧ s'.stage = .draining ∧
      s'.Fits (l.forwardAll f).1 (l.forwardAll f).2 ∧ (l.forwardAll f).1.phase = .closing ∧
      (l.forwardAll f).1.forward (l.forwardAll f).2 = none := by
  by_cases hlag : s.position < s.feed.bus.start
  · have hf := forward_of_lag h hs hphase hstage hlag
    rw [Listener.forwardAll, forwardUpTo_of_none _ hf]
    exact ⟨[], s, rfl, hstage, h, hphase, hf⟩
  · exact forwardUpTo_of_draining _ h hs rfl hphase hstage
      (toTake_le_forwardBound h hs hstage (Nat.le_of_not_lt hlag))

/-- A drain with nothing to forward finishes. -/
theorem take_of_forward_eq_none (h : s.Fits l f) (hphase : l.phase = .closing)
    (hstage : s.stage = .draining) (hf : l.forward f = none) :
    ∃ s', s.take = some s' ∧ s'.stage = .finishing ∧ s'.Fits l f := by
  obtain ⟨hrx, haudience, rfl, ho, hhandling⟩ := h
  unfold Listener.forward at hf
  rw [hphase, ← hrx] at hf
  rcases hr : s.feed.bus.receive s.rx with ⟨_ | _ | _ | n | _, bus⟩ <;> rw [hr] at hf
  case value => simp at hf
  case lagged =>
    exact ⟨s.halt, by simp [take, ho, hstage, hr], rfl, hrx, haudience, rfl, ho, hhandling⟩
  all_goals
    exact ⟨{ s with stage := .finishing }, by simp [take, ho, hstage, hr], rfl, hrx, haudience,
      rfl, ho, hhandling⟩

/-- **The end of a listener.** What a listener does when it is told to close is a run
of moves, from the shutdown to the end. -/
theorem close_eq_run (h : s.Fits l f) (hs : s.Sound) (hphase : l.phase = .running)
    (hstage : s.stage = .listening) :
    ∃ moves s', s.run (.shutdown :: moves) = some s' ∧ s'.stage = .ended ∧
      s'.audience = (l.close f).1.audience ∧ s'.feed = (l.close f).2 := by
  -- It is told to close, and notices at once.
  let t : Relay := { s with closing := true, stage := .draining }
  have ht : s.run [.shutdown, .drain] = some t := by
    simp [run, step, hstage, h.offering, t]
  have hfits : t.Fits { l with phase := .closing } f :=
    ⟨h.rx, h.audience, h.feed, h.offering, h.handling⟩
  obtain ⟨moves₁, s₁, hrun₁, hstage₁, h₁, hphase₁, hnone⟩ :=
    forwardAll_of_draining hfits (sound_run hs ht) rfl rfl
  obtain ⟨s₂, htake, hstage₂, h₂⟩ := take_of_forward_eq_none h₁ hphase₁ hstage₁ hnone
  obtain ⟨moves₃, s₃, hrun₃, hstage₃, h₃⟩ := drain_eq_run h₂
  have hidle : s₃.idle = true := by
    have hbusy : s₃.audience.isBusy = false := by
      rw [h₃.audience]
      exact isBusy_drain _ _
    simp [idle, hbusy, h₃.handling]
  -- The workers are done, and the listener ends.
  let s₄ : Relay := { s₃.setBus (s₃.feed.bus.unsubscribe s₃.rx) with stage := .ended }
  have hfinish : s₃.step .finish = some s₄ := by
    simp only [step, hstage₃.trans hstage₂, hidle, and_self, if_true]
    rfl
  refine ⟨.drain :: (moves₁ ++ (.take :: (moves₃ ++ [.finish]))), s₄, ?_, rfl, ?_, ?_⟩
  · have hall : s.run ([.shutdown, .drain] ++ (moves₁ ++ ([.take] ++ (moves₃ ++ [.finish])))) =
        some s₄ := by
      have htake' : s₁.run [.take] = some s₂ := by simp [run, step, htake]
      have hfinish' : s₃.run [.finish] = some s₄ := by simp [run, hfinish]
      simp only [run_append, ht, hrun₁, htake', hrun₃, hfinish', Option.bind_some]
    exact hall
  · simp only [Listener.close, hphase, reduceCtorEq, if_false]
    exact h₃.audience
  · simp only [Listener.close, hphase, reduceCtorEq, if_false]
    have hrx : s₃.rx = (Listener.forwardAll { l with phase := .closing } f).1.rx := h₃.rx
    rw [← h₃.feed, ← hrx]
    exact rfl

end Relay
end SegmentGate
