import SegmentGate.Proofs.Relay

/-!
# Reports about subscribers

Listener and workers report what goes wrong with a subscriber as events, on the
bus that they take events from. A refusal of such a report about a refusal is not
reported again; a panic always is.

If no subscriber panics on a report, then each event of the gate causes at most
`n * (n + 1)` reports, where `n` is the number of subscribers, and listener and
workers come to rest (`reports_bounded`). The measure `due` is what can still be
reported because of the events that are somewhere on the way: on the bus, at hand,
in a queue, or with a subscriber. A subscriber that panics on reports of its own
panics goes on for ever (`reports_unbounded`).
-/
namespace SegmentGate

/-- A report that listener or workers make about a subscriber. -/
def Event.isReport (e : Event) : Bool :=
  e.kind = .subscriberOverflow || e.kind = .subscriberPanicked

/-- The reports that come of handing the event to one of `n` calm subscribers. -/
def Event.toll (n : Nat) (e : Event) : Nat := if e.isReport then 0 else n + 1

/-- The reports that come of offering the event to one of `n` calm subscribers,
which may also refuse it. -/
def Event.cost (n : Nat) (e : Event) : Nat :=
  if e.isSubscriberOverflow then 0 else max 1 (e.toll n)

section
variable (n : Nat) (e : Event)

theorem Event.toll_le_cost : e.toll n ≤ e.cost n := by
  unfold cost
  split
  · rename_i h
    simp only [isSubscriberOverflow, decide_eq_true_eq] at h
    simp [toll, isReport, h]
  · exact Nat.le_max_right 1 _

theorem Event.cost_le : e.cost n ≤ n + 1 := by
  unfold cost toll
  split
  · exact Nat.zero_le _
  · split <;> omega

theorem Event.one_le_cost (h : e.isSubscriberOverflow = false) : 1 ≤ e.cost n := by
  rw [cost, if_neg (by simp [h])]
  exact Nat.le_max_left 1 _

@[simp]
theorem Event.cost_subscriberOverflow (name reason : String) :
    (subscriberOverflow name reason).cost n = 0 := rfl

@[simp]
theorem Event.cost_subscriberPanicked (name info : String) :
    (subscriberPanicked name info).cost n = 1 := rfl

end

namespace Relay

variable {s s' : Relay} {n : Nat}

/-- A sum over all that waits in a queue. -/
def queued (f : Stamped → Nat) (s : Relay) : Nat :=
  total (fun w => total f w.queue) s.audience.workers

/-- A sum over all that is being handed over. -/
def beingHandled (f : Stamped → Nat) (s : Relay) : Nat :=
  total (fun x => (x.map f).getD 0) s.handling

theorem queued_setWorker (f : Stamped → Nat) {i : Nat} {w : Worker}
    (hw : s.audience.workers[i]? = some w) (w' : Worker) :
    (s.setWorker i w').queued f + total f w.queue = s.queued f + total f w'.queue :=
  total_set _ hw w'

theorem beingHandled_release (f : Stamped → Nat) {i : Nat} {e : Stamped}
    (hh : s.handling[i]? = some (some e)) : (s.release i).beingHandled f + f e = s.beingHandled f :=
  total_set _ hh none

theorem queued_hand (f : Stamped → Nat) {i : Nat} {w : Worker}
    (hw : s.audience.workers[i]? = some w) {e : Stamped} {rest : List Stamped}
    (hq : w.queue = e :: rest) : (s.hand i w e rest).queued f + f e = s.queued f := by
  have h : (s.hand i w e rest).queued f + total f w.queue = s.queued f + total f rest :=
    queued_setWorker f hw { w with queue := rest }
  rw [hq, total] at h
  omega

theorem beingHandled_hand (f : Stamped → Nat) {i : Nat} (hh : s.handling[i]? = some none)
    (w : Worker) (e : Stamped) (rest : List Stamped) :
    (s.hand i w e rest).beingHandled f = s.beingHandled f + f e :=
  total_set (fun x : Option Stamped => (x.map f).getD 0) hh (some e)

/-! ## What can still be reported -/

/-- The reports that come of the events on the bus. -/
def pending (n : Nat) (s : Relay) : Nat :=
  total (fun e => n * e.event.cost n) (s.published.drop s.position)

/-- The reports that come of the offers still to make. -/
def atHand (n : Nat) (s : Relay) : Nat :=
  match s.offering with
  | some (e, j) => (n - j) * e.event.cost n
  | none => 0

/-- The reports that may still come of all events on the way. -/
def due (n : Nat) (s : Relay) : Nat :=
  s.pending n + s.atHand n + s.queued (fun e => e.event.toll n) +
    s.beingHandled (fun e => e.event.toll n)

/-- No subscriber panics on a report. -/
def Calm (s : Relay) : Prop :=
  ∀ w ∈ s.audience.workers, ∀ e payload, e.event.isReport = true →
    w.subscriber.react e ≠ .panicked payload

theorem Calm.setWorker (h : s.Calm) {i : Nat} {w w' : Worker}
    (hw : s.audience.workers[i]? = some w) (hsame : w'.subscriber = w.subscriber) :
    (s.setWorker i w').Calm := by
  intro v hv
  rcases List.mem_or_eq_of_mem_set hv with hv | rfl
  · exact h v hv
  · rw [hsame]
    exact h w (List.mem_of_getElem? hw)

theorem Calm.step (h : s.Calm) {m : Move} (ht : StepTo s m s') : s'.Calm := by
  cases ht with
  | accepts e i ho w hw ha => exact h.setWorker hw rfl
  | hands i w hw e rest hq hh => exact h.setWorker hw rfl
  | collapses i w hw e hh => exact h.setWorker hw rfl
  | _ => exact h

/-- What is published will be offered to all subscribers. -/
theorem due_append (h : s.position ≤ s.published.length) (feed : Feed) (e : Stamped)
    (reports : List Event) :
    ({ s with feed, published := s.published ++ [e], reports } : Relay).due n =
      s.due n + n * e.event.cost n := by
  have hpending : total (fun e => n * e.event.cost n) ((s.published ++ [e]).drop s.position) =
      s.pending n + n * e.event.cost n := by
    rw [List.drop_append_of_le_length h, total_append]
    rfl
  unfold due
  simp only [pending, hpending]
  simp only [atHand, queued, beingHandled]
  omega

theorem due_report (h : s.position ≤ s.published.length) (e : Event) :
    (s.report e).due n = s.due n + n * e.cost n :=
  due_append h _ _ _

theorem pending_hold {e : Stamped} (he : s.published[s.position]? = some e) (bus : Bus Stamped) :
    n * e.event.cost n + (s.hold bus e).pending n = s.pending n := by
  obtain ⟨hlt, hget⟩ := List.getElem?_eq_some_iff.mp he
  have hpending : s.pending n = total (fun e => n * e.event.cost n)
      (s.published[s.position] :: s.published.drop (s.position + 1)) :=
    congrArg (total _) (List.drop_eq_getElem_cons hlt)
  rw [hpending, hget]
  rfl

theorem due_skip (h : s.position ≤ s.feed.bus.start) (bus : Bus Stamped) :
    (s.skip bus).due n ≤ s.due n := by
  have hpending : (s.skip bus).pending n ≤ s.pending n := total_drop_le _ s.published h
  change (s.skip bus).pending n + s.atHand n + s.queued (·.event.toll n) +
    s.beingHandled (·.event.toll n) ≤ s.due n
  unfold due
  omega

theorem due_release (n : Nat) {i : Nat} {e : Stamped} (hh : s.handling[i]? = some (some e)) :
    (s.release i).due n + e.event.toll n = s.due n := by
  have hhanded := beingHandled_release (·.event.toll n) hh
  change s.pending n + s.atHand n + s.queued (·.event.toll n) +
    (s.release i).beingHandled (·.event.toll n) + e.event.toll n = s.due n
  unfold due
  omega

theorem length_reports_report (e : Event) :
    (s.report e).reports.length = s.reports.length + 1 :=
  List.length_append

theorem atHand_advance {e : Stamped} {i : Nat} (ho : s.offering = some (e, i)) (hi : i < n) :
    (s.advance e i).atHand n + e.event.cost n = s.atHand n := by
  have hsub : n - i = n - (i + 1) + 1 := by omega
  simp only [atHand, advance, ho, hsub, Nat.succ_mul]

theorem due_decline {e : Stamped} {i : Nat} (ho : s.offering = some (e, i)) (hi : i < n) :
    ((s.advance e i).decline i e).due n + e.event.cost n = s.due n := by
  have hhand := atHand_advance ho hi
  change s.pending n + (s.advance e i).atHand n + s.queued (·.event.toll n) +
    s.beingHandled (·.event.toll n) + e.event.cost n = s.due n
  unfold due
  omega

/-- Each report uses up some of what was due; only what the gate publishes adds to
it. -/
theorem due_step (hs : s.Sound) (hn : s.size = n) (hc : s.Calm) {m : Move}
    (ht : StepTo s m s') : s'.reports.length + s'.due n ≤
      s.reports.length + s.due n + (if m.isPublish then n * (n + 1) else 0) := by
  cases ht with
  | publishes next e =>
    have hcost : n * e.event.cost n ≤ n * (n + 1) := Nat.mul_le_mul_left n (e.event.cost_le n)
    have hdue : (s.send next e).due n = s.due n + n * e.event.cost n :=
      due_append hs.position_le _ e s.reports
    have hreports : (s.send next e).reports = s.reports := rfl
    simp only [hdue, hreports, Move.isPublish, if_true]
    omega
  | aside m hp ho bus hbus => exact Nat.le_add_right _ _
  | holds ho hstage e bus hr =>
    have he := ((hs.hears (Stage.not_ended hstage)).receive_value hr).2.1
    have hpending := pending_hold (n := n) he bus
    have hhand : (s.hold bus e).atHand n = n * e.event.cost n := rfl
    have hnone : s.atHand n = 0 := by simp [atHand, ho]
    refine Nat.add_le_add_left ?_ s.reports.length
    change (s.hold bus e).pending n + (s.hold bus e).atHand n + s.queued (·.event.toll n) +
      s.beingHandled (·.event.toll n) ≤ s.due n
    unfold due
    omega
  | skips ho hstage k bus hr =>
    have hlag := ((hs.hears (by rw [hstage]; decide)).receive_lagged hr).1
    exact Nat.add_le_add_left (due_skip (Nat.le_of_lt hlag) bus) s.reports.length
  | accepts e i ho w hw ha =>
    have hi : i < n := hn ▸ (List.getElem?_eq_some_iff.mp hw).1
    have hhand := atHand_advance ho hi
    have hqueue := queued_setWorker (·.event.toll n) hw { w with queue := w.queue ++ [e] }
    simp only [total_append, total] at hqueue
    have htoll := e.event.toll_le_cost n
    refine Nat.add_le_add_left ?_ s.reports.length
    change s.pending n + (s.advance e i).atHand n +
      (s.setWorker i { w with queue := w.queue ++ [e] }).queued (·.event.toll n) +
      s.beingHandled (·.event.toll n) ≤ s.due n
    unfold due
    omega
  | declines e i ho w hw hover =>
    have hi : i < n := hn ▸ (List.getElem?_eq_some_iff.mp hw).1
    have hdecline := due_decline ho hi
    refine Nat.add_le_add_left ?_ s.reports.length
    omega
  | refuses e i ho w hw hover reason =>
    have hi : i < n := hn ▸ (List.getElem?_eq_some_iff.mp hw).1
    have hdecline := due_decline ho hi
    -- The report of a refusal takes the place of what was due to the offer.
    have hone := e.event.one_le_cost n hover
    have hposition : ((s.advance e i).decline i e).position ≤
      ((s.advance e i).decline i e).published.length := hs.position_le
    rw [due_report hposition, Event.cost_subscriberOverflow, length_reports_report]
    change s.reports.length + 1 + _ ≤ s.reports.length + s.due n + 0
    omega
  | offers e i ho hi =>
    refine Nat.add_le_add_left ?_ s.reports.length
    change s.pending n + 0 + s.queued (·.event.toll n) + s.beingHandled (·.event.toll n) ≤ s.due n
    unfold due
    omega
  | hands i w hw e rest hq hh =>
    have hqueue := queued_hand (·.event.toll n) hw hq
    have hhand := beingHandled_hand (·.event.toll n) hh w e rest
    refine Nat.add_le_add_left ?_ s.reports.length
    change s.pending n + s.atHand n + (s.hand i w e rest).queued (·.event.toll n) +
      (s.hand i w e rest).beingHandled (·.event.toll n) ≤ s.due n
    unfold due
    omega
  | handles i e hh =>
    refine Nat.add_le_add_left ?_ s.reports.length
    have hdue := due_release n hh
    omega
  | panics i w hw e hh payload hr =>
    have htoll : e.event.toll n = n + 1 := by
      refine if_neg fun hreport => ?_
      exact hc w (List.mem_of_getElem? hw) e payload hreport hr
    have hdue := due_release n hh
    have hposition : (s.release i).position ≤ (s.release i).published.length := hs.position_le
    rw [due_report hposition, Event.cost_subscriberPanicked, length_reports_report]
    change s.reports.length + 1 + _ ≤ s.reports.length + s.due n + 0
    omega
  | collapses i w hw e hh =>
    have hhanded := beingHandled_release (·.event.toll n) hh
    have hqueue := queued_setWorker (·.event.toll n) hw { w with queue := [], alive := false }
    simp only [total] at hqueue
    refine Nat.add_le_add_left ?_ s.reports.length
    change s.pending n + s.atHand n +
      (s.setWorker i { w with queue := [], alive := false }).queued (·.event.toll n) +
      (s.release i).beingHandled (·.event.toll n) ≤ s.due n
    unfold due
    omega
  | _ => exact Nat.le_refl _

/-! ## The moves of listener and workers -/

/-- How often the stage of the listener has changed. -/
def Stage.passed : Stage → Nat
  | .listening => 0
  | .draining => 1
  | .finishing => 2
  | .ended => 3

/-- The moves that are still to come of the offers to `n` workers: each offer with
the handover and the reaction, and the end of the offers. -/
def offersAhead (n : Nat) (s : Relay) : Nat :=
  match s.offering with
  | some (_, j) => 3 * (n - j) + 1
  | none => 0

/-- The moves that are still to come of all events but those on the bus. -/
def ahead (n : Nat) (s : Relay) : Nat :=
  s.offersAhead n + s.queued (fun _ => 2) + s.beingHandled (fun _ => 1)

/-- The moves that listener and workers can have made by the time that the listener
has come to where it is. -/
def allowed (n : Nat) (s : Relay) : Nat := (3 * n + 2) * s.position + s.stage.passed

theorem allowed_eq {x : Stage} (h : s.stage = x) :
    s.allowed n = (3 * n + 2) * s.position + x.passed := by
  rw [allowed, h]

theorem offersAhead_advance {e : Stamped} {i : Nat} (ho : s.offering = some (e, i))
    (hi : i < n) : (s.advance e i).offersAhead n + 3 = s.offersAhead n := by
  simp only [offersAhead, advance, ho]
  omega

theorem ahead_decline {e : Stamped} {i : Nat} (ho : s.offering = some (e, i)) (hi : i < n) :
    ((s.advance e i).decline i e).ahead n + 3 = s.ahead n := by
  have hoffers := offersAhead_advance ho hi
  change (s.advance e i).offersAhead n + s.queued (fun _ => 2) + s.beingHandled (fun _ => 1) + 3 =
    s.ahead n
  unfold ahead
  omega

theorem ahead_release {i : Nat} {e : Stamped} (hh : s.handling[i]? = some (some e)) :
    (s.release i).ahead n + 1 = s.ahead n := by
  have hhanded := beingHandled_release (fun _ => 1) hh
  change s.offersAhead n + s.queued (fun _ => 2) + (s.release i).beingHandled (fun _ => 1) + 1 =
    s.ahead n
  unfold ahead
  omega

theorem mul_add_le_of_lt {p q : Nat} (h : p < q) :
    (3 * n + 2) * p + (3 * n + 2) ≤ (3 * n + 2) * q := by
  rw [← Nat.mul_succ]
  exact Nat.mul_le_mul_left _ h

/-- Each move of the listener or of a worker uses up some of what is allowed. -/
theorem ahead_step (hs : s.Sound) (hn : s.size = n) {m : Move} (ht : StepTo s m s') :
    (if m.isOwn then 1 else 0) + s'.ahead n + s.allowed n ≤ s.ahead n + s'.allowed n := by
  cases ht with
  | publishes next e =>
    change 0 + s.ahead n + s.allowed n ≤ s.ahead n + s.allowed n
    omega
  | aside m hp ho bus hbus =>
    simp only [ho, Bool.false_eq_true, if_false]
    change 0 + s.ahead n + s.allowed n ≤ s.ahead n + s.allowed n
    omega
  | closes =>
    change 0 + s.ahead n + s.allowed n ≤ s.ahead n + s.allowed n
    omega
  | drains hc hst ho =>
    rw [allowed_eq hst]
    change 1 + s.ahead n + ((3 * n + 2) * s.position + 0) ≤
      s.ahead n + ((3 * n + 2) * s.position + 1)
    omega
  | holds ho hstage e bus hr =>
    have hnone : s.offersAhead n = 0 := by simp [offersAhead, ho]
    have hmove := mul_add_le_of_lt (n := n) (Nat.lt_add_one s.position)
    change 1 + ((3 * (n - 0) + 1) + s.queued (fun _ => 2) + s.beingHandled (fun _ => 1)) +
      ((3 * n + 2) * s.position + s.stage.passed) ≤
      s.ahead n + ((3 * n + 2) * (s.position + 1) + s.stage.passed)
    unfold ahead
    omega
  | skips ho hstage k bus hr =>
    have hlag := ((hs.hears (by rw [hstage]; decide)).receive_lagged hr).1
    have hmove := mul_add_le_of_lt (n := n) hlag
    change 1 + s.ahead n + ((3 * n + 2) * s.position + s.stage.passed) ≤
      s.ahead n + ((3 * n + 2) * s.feed.bus.start + s.stage.passed)
    omega
  | halts ho hstage k bus hr =>
    rw [allowed_eq hstage]
    change 1 + s.ahead n + ((3 * n + 2) * s.position + 1) ≤
      s.ahead n + ((3 * n + 2) * s.position + 2)
    omega
  | empties ho hstage hv hl =>
    rw [allowed_eq hstage]
    change 1 + s.ahead n + ((3 * n + 2) * s.position + 1) ≤
      s.ahead n + ((3 * n + 2) * s.position + 2)
    omega
  | accepts e i ho w hw ha =>
    have hi : i < n := hn ▸ (List.getElem?_eq_some_iff.mp hw).1
    have hoffers := offersAhead_advance ho hi
    have hqueue := queued_setWorker (fun _ => 2) hw { w with queue := w.queue ++ [e] }
    simp only [total_append, total] at hqueue
    change 1 + ((s.advance e i).offersAhead n +
      (s.setWorker i { w with queue := w.queue ++ [e] }).queued (fun _ => 2) +
      s.beingHandled (fun _ => 1)) + s.allowed n ≤ s.ahead n + s.allowed n
    unfold ahead
    omega
  | declines e i ho w hw hover =>
    have hi : i < n := hn ▸ (List.getElem?_eq_some_iff.mp hw).1
    have hdecline := ahead_decline ho hi
    change 1 + ((s.advance e i).decline i e).ahead n + s.allowed n ≤ s.ahead n + s.allowed n
    omega
  | refuses e i ho w hw hover reason =>
    have hi : i < n := hn ▸ (List.getElem?_eq_some_iff.mp hw).1
    have hdecline := ahead_decline ho hi
    change 1 + ((s.advance e i).decline i e).ahead n + s.allowed n ≤ s.ahead n + s.allowed n
    omega
  | offers e i ho hi =>
    have hoffers : 1 ≤ s.offersAhead n := by simp [offersAhead, ho]
    change 1 + (0 + s.queued (fun _ => 2) + s.beingHandled (fun _ => 1)) + s.allowed n ≤
      s.ahead n + s.allowed n
    unfold ahead
    omega
  | hands i w hw e rest hq hh =>
    have hqueue := queued_hand (fun _ => 2) hw hq
    have hhand := beingHandled_hand (fun _ => 1) hh w e rest
    change 1 + (s.offersAhead n + (s.hand i w e rest).queued (fun _ => 2) +
      (s.hand i w e rest).beingHandled (fun _ => 1)) + s.allowed n ≤ s.ahead n + s.allowed n
    unfold ahead
    omega
  | handles i e hh =>
    have hrelease := ahead_release (n := n) hh
    change 1 + (s.release i).ahead n + s.allowed n ≤ s.ahead n + s.allowed n
    omega
  | panics i w hw e hh payload hr =>
    have hrelease := ahead_release (n := n) hh
    change 1 + (s.release i).ahead n + s.allowed n ≤ s.ahead n + s.allowed n
    omega
  | collapses i w hw e hh =>
    have hhanded := beingHandled_release (fun _ => 1) hh
    have hqueue := queued_setWorker (fun _ => 2) hw { w with queue := [], alive := false }
    simp only [total] at hqueue
    change 1 + (s.offersAhead n +
      (s.setWorker i { w with queue := [], alive := false }).queued (fun _ => 2) +
      (s.release i).beingHandled (fun _ => 1)) + s.allowed n ≤ s.ahead n + s.allowed n
    unfold ahead
    omega
  | finishes hst hi =>
    rw [allowed_eq hst]
    change 1 + s.ahead n + ((3 * n + 2) * s.position + 2) ≤
      s.ahead n + ((3 * n + 2) * s.position + 3)
    omega

/-! ## Runs -/

/-- What the bounds rely on at any time. -/
structure Steady (n : Nat) (s : Relay) : Prop where
  sound : s.Sound
  size : s.size = n
  calm : s.Calm

theorem Steady.step (h : s.Steady n) {m : Move} (ht : StepTo s m s') : s'.Steady n :=
  ⟨h.sound.step ht, ht.size.trans h.size, h.calm.step ht⟩

/-- Moves of the kind `p` are paid for by what `f` loses or `g` gains; moves of the
kind `q` add `k`. -/
theorem paid_run {f g : Relay → Nat} {p q : Move → Bool} {k : Nat}
    (hstep : ∀ s m s', s.Steady n → StepTo s m s' →
      (if p m then 1 else 0) + f s' + g s ≤ f s + g s' + (if q m then k else 0))
    {moves : List Move} (h : s.Steady n) (hr : s.run moves = some s') :
    moves.countP p + f s' + g s ≤ f s + g s' + moves.countP q * k := by
  induction moves generalizing s with
  | nil =>
    cases hr
    simp
  | cons m moves ih =>
    obtain ⟨s₁, hm, hr⟩ := Option.bind_eq_some_iff.mp hr
    have hfirst := hstep s m s₁ h (stepTo_step hm)
    have hrest := ih (h.step (stepTo_step hm)) hr
    have hadded : (if q m then 1 else 0) * k = if q m then k else 0 := by split <;> simp
    rw [List.countP_cons, List.countP_cons, Nat.add_mul, hadded]
    omega

/-- Gate, listener and workers are the only ones to publish. -/
theorem length_published_step {m : Move} (ht : StepTo s m s') :
    s'.published.length + s.reports.length ≤
      s.published.length + s'.reports.length + (if m.isPublish then 1 else 0) := by
  have hreport (t : Relay) (e : Event) : (t.report e).published.length + t.reports.length ≤
      t.published.length + (t.report e).reports.length + 0 := by
    simp only [report, List.length_append, List.length_singleton]
    omega
  cases ht with
  | publishes next e =>
    simp only [send, List.length_append, List.length_singleton, Move.isPublish, if_true]
    omega
  | refuses e i ho w hw hover reason => exact hreport ((s.advance e i).decline i e) _
  | panics i w hw e hh payload hr => exact hreport (s.release i) _
  | _ => exact Nat.le_add_right _ _

theorem due_run (h : s.Steady n) {moves : List Move} (hr : s.run moves = some s') :
    s'.reports.length + s'.due n ≤
      s.reports.length + s.due n + moves.countP Move.isPublish * (n * (n + 1)) := by
  have hpaid := paid_run (f := fun s => s.reports.length + s.due n) (g := fun _ => 0)
    (p := fun _ => false) (q := Move.isPublish) (k := n * (n + 1)) ?_ h hr
  · simpa using hpaid
  · intro s m s' hs ht
    simpa using due_step hs.sound hs.size hs.calm ht

theorem length_published_run (h : s.Steady n) {moves : List Move} (hr : s.run moves = some s') :
    s'.published.length + s.reports.length ≤
      s.published.length + s'.reports.length + moves.countP Move.isPublish := by
  have hpaid := paid_run (f := fun s => s.published.length) (g := fun s => s.reports.length)
    (p := fun _ => false) (q := Move.isPublish) (k := 1) ?_ h hr
  · simpa using hpaid
  · intro s m s' hs ht
    simpa using length_published_step ht

theorem ahead_run (h : s.Steady n) {moves : List Move} (hr : s.run moves = some s') :
    moves.countP Move.isOwn + s'.ahead n + s.allowed n ≤ s.ahead n + s'.allowed n := by
  have hpaid := paid_run (f := ahead n) (g := allowed n) (p := Move.isOwn)
    (q := fun _ => false) (k := 0) ?_ h hr
  · simpa using hpaid
  · intro s m s' hs ht
    simpa using ahead_step hs.sound hs.size ht

theorem steady_start (next capacity : Nat) {subscribers : List Subscriber}
    (hcalm : ∀ x ∈ subscribers, ∀ e payload, e.event.isReport = true →
      x.react e ≠ .panicked payload) :
    (start next capacity subscribers).Steady subscribers.length where
  sound := Sound.start next capacity subscribers
  size := List.length_map _
  calm w hw := by
    obtain ⟨x, hx, rfl⟩ := List.mem_map.mp hw
    exact hcalm x hx

theorem queued_start (f : Stamped → Nat) (next capacity : Nat) (subscribers : List Subscriber) :
    (start next capacity subscribers).queued f = 0 := by
  refine total_eq_zero _ fun w hw => ?_
  obtain ⟨x, -, rfl⟩ := List.mem_map.mp hw
  rfl

theorem beingHandled_start (f : Stamped → Nat) (next capacity : Nat)
    (subscribers : List Subscriber) :
    (start next capacity subscribers).beingHandled f = 0 := by
  refine total_eq_zero _ fun x hx => ?_
  obtain ⟨-, -, rfl⟩ := List.mem_map.mp hx
  rfl

end Relay

open Relay in
/-- **Reports about subscribers are bounded.** Subscribers that panic on anything
but reports are attached to a gate, and listener and workers run in any order. Each
event that the gate publishes causes at most `n * (n + 1)` reports, where `n` is the
number of subscribers; and the moves of listener and workers are bounded too, so they
come to rest. -/
theorem reports_bounded {next capacity : Nat} {subscribers : List Subscriber}
    {moves : List Move} {s : Relay} (h : (start next capacity subscribers).run moves = some s)
    (hcalm : ∀ x ∈ subscribers, ∀ e payload, e.event.isReport = true →
      x.react e ≠ .panicked payload) :
    let n := subscribers.length
    let sent := moves.countP Move.isPublish
    s.reports.length ≤ sent * (n * (n + 1)) ∧
      moves.countP Move.isOwn ≤ (3 * n + 2) * (sent * (n * (n + 1) + 1)) + 3 := by
  intro n sent
  have hsteady := steady_start next capacity hcalm
  have hsound := sound_run hsteady.sound h
  have hdue : (start next capacity subscribers).due n = 0 := by
    simp only [due, queued_start, beingHandled_start]
    rfl
  have hahead : (start next capacity subscribers).ahead n = 0 := by
    simp only [ahead, queued_start, beingHandled_start]
    rfl
  have hreports : s.reports.length + s.due n ≤
      0 + (start next capacity subscribers).due n + sent * (n * (n + 1)) := due_run hsteady h
  have hpublished : s.published.length + 0 ≤ 0 + s.reports.length + sent :=
    length_published_run hsteady h
  have hmoves : moves.countP Move.isOwn + s.ahead n + 0 ≤
      (start next capacity subscribers).ahead n + ((3 * n + 2) * s.position + s.stage.passed) :=
    ahead_run hsteady h
  refine ⟨by omega, ?_⟩
  -- The listener has come at most to the end of what was published.
  have hposition : s.position ≤ sent * (n * (n + 1) + 1) := by
    have hle := hsound.position_le
    rw [Nat.mul_succ]
    omega
  have hmul := Nat.mul_le_mul_left (3 * n + 2) hposition
  have hstage : s.stage.passed ≤ 3 := by cases s.stage <;> decide
  omega

open Relay in
/-- One subscriber panics on the event, and the other one dies of it and then refuses
the report. The report of that ends it: everything has come to rest. -/
theorem reports_bounded_beside_dead :
    let shaky : Subscriber :=
      { name := "shaky", queueCapacity := 1, react := fun e =>
          if e.event.isReport then .handled else .panicked none }
    let mortal : Subscriber :=
      { name := "mortal", queueCapacity := 1, react := fun _ => .collapsed }
    let moves : List Move :=
      [.publish 1 ⟨0, .about .admitted "app" "build" 1⟩, .take, .offer, .offer, .offer, .pick 0,
        .pick 1, .react 1, .react 0, .take, .offer, .offer, .offer, .pick 0, .react 0, .take,
        .offer, .offer, .offer, .pick 0, .react 0]
    ∃ s, (start 0 4 [shaky, mortal]).run moves = some s ∧
      s.reports.map Event.kind = [.subscriberPanicked, .subscriberOverflow] ∧
      s.position = s.published.length ∧ s.idle = true ∧
      s.reports.length ≤ 6 ∧ moves.countP Move.isOwn ≤ 59 := by
  intro shaky mortal moves
  have hrun : ((start 0 4 [shaky, mortal]).run moves).bind (fun s =>
      some (decide (s.reports.map Event.kind = [.subscriberPanicked, .subscriberOverflow] ∧
        s.position = s.published.length ∧ s.idle = true))) = some true := by
    decide +kernel
  obtain ⟨s, h, hrun⟩ := Option.bind_eq_some_iff.mp hrun
  obtain ⟨hkinds, hposition, hidle⟩ := of_decide_eq_true (Option.some.inj hrun)
  have hcalm : ∀ x ∈ [shaky, mortal], ∀ e payload, e.event.isReport = true →
      x.react e ≠ .panicked payload := by
    intro x hx e payload he
    have hx' : x = shaky ∨ x = mortal := by simpa using hx
    rcases hx' with rfl | rfl
    · simp [shaky, he]
    · simp [mortal]
  have hbounds := reports_bounded h hcalm
  exact ⟨s, h, hkinds, hposition, hidle, hbounds.1, hbounds.2⟩

namespace Relay

variable {s : Relay}

/-! ## Without an end -/

/-- It panics on everything. -/
def jumpy : Subscriber := { name := "jumpy", queueCapacity := 1, react := fun _ => .panicked none }

/-- One event is on the bus, and nothing is on the way behind it. -/
structure Round (s : Relay) : Prop where
  sound : s.Sound
  stage : s.stage = .listening
  offering : s.offering = none
  workers : s.audience.workers = [{ subscriber := jumpy }]
  handling : s.handling = [none]
  length : s.published.length = s.position + 1

/-- The listener takes the event, and the worker hands it over and reports the
panic. -/
def Move.round : List Move := [.take, .offer, .offer, .pick 0, .react 0]

/-- A round ends with a new event on the bus. -/
theorem Round.next (h : s.Round) : ∃ s', s.run Move.round = some s' ∧ s'.Round ∧
    s'.reports.length = s.reports.length + 1 := by
  have hears := h.sound.hears (by rw [h.stage]; decide)
  have hstart : s.feed.bus.start ≤ s.position := by
    have hlt := hears.start_lt (List.ne_nil_of_length_pos (by rw [h.length]; omega))
    rw [h.length] at hlt
    exact Nat.le_of_lt_succ hlt
  have hlt : s.position < s.published.length := by rw [h.length]; exact Nat.lt_succ_self _
  obtain ⟨e, hr⟩ : ∃ e, s.feed.bus.receive s.rx =
      (.value e, s.feed.bus.advance s.rx (s.position + 1)) := by
    rcases hears.receive with ⟨hlag, -⟩ | ⟨e, -, -, he⟩ | ⟨hend, -⟩
    · exact absurd hlag (Nat.not_lt.mpr hstart)
    · exact ⟨e, he⟩
    · exact absurd hend (Nat.ne_of_lt hlt)
  have hrun : ∃ s', s.run Move.round = some s' ∧ s'.stage = s.stage ∧ s'.offering = none ∧
      s'.audience.workers = [{ subscriber := jumpy }] ∧ s'.handling = [none] ∧
      s'.position = s.position + 1 ∧ s'.published.length = s.published.length + 1 ∧
      s'.reports.length = s.reports.length + 1 := by
    simp [Move.round, run, step, take, offer, pick, react, hold, setBus, setWorker, advance, hand,
      release, report, h.offering, h.stage, h.workers, h.handling, hr, Worker.offer,
      Worker.capacity, jumpy]
  obtain ⟨s', hrun, hstage, ho, hw, hh, hposition, hlength, hreports⟩ := hrun
  refine ⟨s', hrun, ⟨sound_run h.sound hrun, hstage.trans h.stage, ho, hw, hh, ?_⟩, hreports⟩
  rw [hlength, hposition, h.length]

/-- As many rounds as one likes, without anything from the gate. -/
theorem Round.repeat (h : s.Round) (k : Nat) : ∃ moves s', s.run moves = some s' ∧
    moves.countP Move.isPublish = 0 ∧ s'.reports.length = s.reports.length + k := by
  induction k generalizing s with
  | zero => exact ⟨[], s, rfl, rfl, rfl⟩
  | succ k ih =>
    obtain ⟨t, hfirst, ht, hone⟩ := h.next
    obtain ⟨moves, s', hrest, hnone, hmore⟩ := ih ht
    refine ⟨Move.round ++ moves, s', ?_, ?_, ?_⟩
    · rw [run_append, hfirst]
      exact hrest
    · rw [List.countP_append, hnone]
      rfl
    · omega

end Relay

open Relay in
/-- There is no bound on the reports that depends only on the numbers of subscribers
and of events that the gate publishes: with one event and one subscriber that panics
on everything, each report of a panic leads to the next. -/
theorem reports_unbounded :
    ¬ ∃ bound : Nat → Nat → Nat, ∀ next capacity subscribers moves s,
      (start next capacity subscribers).run moves = some s →
        s.reports.length ≤ bound subscribers.length (moves.countP Move.isPublish) := by
  rintro ⟨bound, hbound⟩
  let event : Stamped := ⟨0, .about .admitted "app" "build" 1⟩
  have hfirst : (start 0 1 [jumpy]).run [.publish 1 event] =
      some ((start 0 1 [jumpy]).send 1 event) := rfl
  have hround : ((start 0 1 [jumpy]).send 1 event).Round :=
    ⟨sound_run (Sound.start 0 1 [jumpy]) hfirst, rfl, rfl, rfl, rfl, rfl⟩
  obtain ⟨moves, s, hrun, hnone, hreports⟩ := hround.repeat (bound 1 1 + 1)
  have hall : (start 0 1 [jumpy]).run (.publish 1 event :: moves) = some s := hrun
  have hle := hbound 0 1 [jumpy] _ s hall
  have hsent : (Move.publish 1 event :: moves).countP Move.isPublish = 1 := by
    rw [List.countP_cons, hnone]
    rfl
  rw [hsent, hreports, List.length_singleton] at hle
  omega

end SegmentGate
