import SegmentGate.Gate.Delivery
import SegmentGate.Proofs.EventLog

/-!
# A gate among executions

What a call lets out comes to executions and to a resolver, and some of it
fails: an execution refuses to be aborted or is gone, a token leads nowhere.
`Surroundings` are executions and a resolver that answer as they like; a `Site`
is a gate that works on its store among them, and what is seen of a call there
(`Site.see`) is its outcome, the table after it, and all that was published.

**One delivery.** `Outside.Effect` says of a computation what becomes of the
executions and which reports are made, whatever was numbered and published
before. Every delivery has an effect (`effect_signals`), and all its reports are
about failures that nobody is told of (`Event.isSwallowed`).

**One call.** `Site.call_spec`: the session goes on as it would among nobody,
but for the numbers of events; and what is published are the report of the
load, the report of a save that failed, the events of the decision, and the
reports of the delivery, in this order.
-/
namespace SegmentGate

variable {σ ε κ : Type}

/-! ## Executions that answer as they like -/

/-- The executions and the resolver, as a gate meets them, with a state of
their own. A gate without a resolver is one whose tokens lead nowhere. -/
structure Surroundings (ε κ : Type) where
  proceed : κ → ε → ε
  abort : κ → Interruption → ε → Except AbortError Unit × ε
  resolve : String → Token → ε → Option κ × ε

/-- What changes while something is let out. -/
structure Outside (ε : Type) where
  /-- The number of the next event made. -/
  next : Nat
  executions : ε
  /-- What was published so far, in order. -/
  published : List Stamped := []

def Surroundings.host (S : Surroundings ε κ) : Host (StateM (Outside ε)) κ where
  publish e := modify fun o => { o with published := o.published ++ [e] }
  report e := modify fun o =>
    { o with next := o.next + 1, published := o.published ++ [⟨o.next, e⟩] }
  proceed c := modify fun o => { o with executions := S.proceed c o.executions }
  abort c cause := modifyGet fun o =>
    let (answer, executions) := S.abort c cause o.executions
    (answer, { o with executions })
  resolve job token := modifyGet fun o =>
    let (capability, executions) := S.resolve job token o.executions
    (capability, { o with executions })

/-- The event reports a save or an abort that has failed, or a token that leads
nowhere. These failures strike when the call has decided, and its caller is not
told of them. -/
def Event.isSwallowed (e : Event) : Bool :=
  e.kind = .persistFailed || e.kind = .cancelFailed || e.kind = .resumeUnresolved

/-! ## One delivery -/

/-- The computation leaves the executions in the state `e'` if it finds them in
`e`, and makes the reports `reports`, whatever was numbered and published
before. -/
structure Outside.Effect (x : StateM (Outside ε) Unit) (e e' : ε) (reports : List Event) :
    Prop where
  run : ∀ next published, x.run ⟨next, e, published⟩ =
    pure ((), ⟨next + reports.length, e', published ++ Event.stampFrom next reports⟩)
  swallowed : ∀ r ∈ reports, r.isSwallowed = true

namespace Outside.Effect

variable {x y : StateM (Outside ε) Unit} {e e' e'' : ε} {reports reports' : List Event}

theorem seq (hx : Effect x e e' reports) (hy : Effect y e' e'' reports') :
    Effect (do x; y) e e'' (reports ++ reports') where
  run := by
    intro next published
    simp [hx.run, hy.run, Event.stampFrom_append, Nat.add_assoc]
  swallowed := by
    intro r hr
    rcases List.mem_append.mp hr with hr | hr
    · exact hx.swallowed r hr
    · exact hy.swallowed r hr

/-- Only the state that the executions are found in makes a difference. -/
theorem unique (h : Effect x e e' reports) (h' : Effect x e e'' reports') :
    e' = e'' ∧ reports = reports' := by
  have hrun := (h.run 0 []).symm.trans (h'.run 0 [])
  have hout := congrArg (fun o => o.run.2) hrun
  simp only [Id.run_pure, List.nil_append, Outside.mk.injEq] at hout
  obtain ⟨-, he, hreports⟩ := hout
  refine ⟨he, ?_⟩
  rw [← Event.map_event_stampFrom 0 reports, hreports, Event.map_event_stampFrom]

end Outside.Effect

open Outside (Effect)

theorem effect_signalWith (S : Surroundings ε κ) (s : Signal κ) (c : κ) (e : ε) :
    ∃ e' reports, Effect (signalWith S.host s c) e e' reports := by
  cases hv : s.verdict with
  | proceed =>
    refine ⟨S.proceed c e, [], ?_, ?_⟩
    · intro next published
      simp [signalWith, hv, Surroundings.host, Event.stampFrom]
    · intro r hr
      cases hr
  | abort displacer =>
    cases ha : S.abort c (.superseded s.job s.segment displacer) e with
    | mk answer e' =>
      cases answer with
      | ok =>
        refine ⟨e', [], ?_, ?_⟩
        · intro next published
          simp [signalWith, hv, Surroundings.host, Event.stampFrom, ha]
        · intro r hr
          cases hr
      | error x =>
        refine ⟨e', [.cancelFailed s displacer x], ?_, ?_⟩
        · intro next published
          simp [signalWith, hv, Surroundings.host, Event.stampFrom, ha]
        · intro r hr
          rw [List.mem_singleton.mp hr]
          rfl

theorem effect_deliverSignal (S : Surroundings ε κ) (s : Signal κ) (e : ε) :
    ∃ e' reports, Effect (deliverSignal S.host s) e e' reports := by
  cases hl : s.waiter.live with
  | some c =>
    have hsignal : deliverSignal S.host s = signalWith S.host s c := by
      simp [deliverSignal, capability?, hl]
    rw [hsignal]
    exact effect_signalWith S s c e
  | none =>
    cases hr : S.resolve s.job s.waiter.token e with
    | mk found e₁ =>
      cases found with
      | none =>
        refine ⟨e₁, [.resumeUnresolved s], ?_, ?_⟩
        · intro next published
          simp [deliverSignal, capability?, hl, Surroundings.host, Event.stampFrom, hr]
        · intro r hmem
          rw [List.mem_singleton.mp hmem]
          rfl
      | some c =>
        obtain ⟨e', reports, h⟩ := effect_signalWith S s c e₁
        refine ⟨e', reports, ?_, h.swallowed⟩
        intro next published
        have hresolved : (S.host.resolve s.job s.waiter.token).run ⟨next, e, published⟩ =
            pure (some c, ⟨next, e₁, published⟩) := by
          simp [Surroundings.host, hr]
        simp [deliverSignal, capability?, hl, hresolved, h.run]

/-- The signals of a call are delivered one by one, whatever becomes of them. -/
theorem effect_signals (S : Surroundings ε κ) (signals : List (Signal κ)) (e : ε) :
    ∃ e' reports, Effect (forM signals (deliverSignal S.host)) e e' reports := by
  induction signals generalizing e with
  | nil =>
    refine ⟨e, [], ?_, ?_⟩
    · intro next published
      simp [Event.stampFrom]
    · intro r hr
      cases hr
  | cons s signals ih =>
    obtain ⟨e₁, first, hs⟩ := effect_deliverSignal S s e
    obtain ⟨e', rest, hrest⟩ := ih e₁
    exact ⟨e', first ++ rest, hs.seq hrest⟩

/-! ## One call -/

/-- A gate at work on its store among executions. -/
structure Site (σ ε κ : Type) where
  session : Session σ κ
  executions : ε

/-- What is seen of a call. -/
structure Seen (κ : Type) where
  outcome : Outcome κ
  /-- The table after the call. -/
  table : Table κ
  /-- All that was published, in order, without the numbers. -/
  published : List Event

namespace Site

/-- All that a call produces is let out. -/
def letOut (k : Keeper σ κ) (S : Surroundings ε κ) (r : Request κ) (w : Site σ ε κ) : Outside ε :=
  let p := w.session.complete k r
  ((p.out.forM (SegmentGate.letOut S.host)).run ⟨p.state.next, w.executions, []⟩).run.2

/-- The site after a call. -/
def call (k : Keeper σ κ) (S : Surroundings ε κ) (r : Request κ) (w : Site σ ε κ) : Site σ ε κ :=
  let o := w.letOut k S r
  ⟨{ w.session.call k r with next := o.next }, o.executions⟩

def see (k : Keeper σ κ) (S : Surroundings ε κ) (r : Request κ) (w : Site σ ε κ) : Seen κ where
  outcome := w.session.tell k r
  table := (w.call k S r).session.table k
  published := (w.letOut k S r).published.map Stamped.event

/-- A new gate takes over, on the same store and among the same executions. -/
def restart (next : Nat) (w : Site σ ε κ) : Site σ ε κ :=
  { w with session := Session.start next w.session.store }

/-- What happens to a site. -/
inductive Move (κ : Type) where
  | call (r : Request κ)
  /-- A new gate takes over; its first event gets the number `next`. -/
  | restart (next : Nat)

/-- What is seen of the calls among the moves, in order. -/
def seen (k : Keeper σ κ) (S : Surroundings ε κ) (w : Site σ ε κ) : List (Move κ) → List (Seen κ)
  | [] => []
  | .call r :: ms => w.see k S r :: (w.call k S r).seen k S ms
  | .restart next :: ms => (w.restart next).seen k S ms

/-- What a call at a site does, next to what it does among nobody. -/
structure CallSpec (k : Keeper σ κ) (S : Surroundings ε κ) (r : Request κ) (w : Site σ ε κ)
    (reports : List Event) : Prop where
  session : ∃ next, (w.call k S r).session = { w.session.call k r with next }
  effect : Outside.Effect (forM (w.session.tell k r).signals (deliverSignal S.host))
    w.executions (w.call k S r).executions reports
  published : (w.see k S r).published = (w.session.announcement k).toList ++
    (w.session.saveReports k r ++ ((w.session.tell k r).events ++ reports))

/-- Events that have their numbers go out as they are. -/
theorem run_publish (S : Surroundings ε κ) (events : List Stamped) (o : Outside ε) :
    (forM events S.host.publish).run o =
      pure ((), { o with published := o.published ++ events }) := by
  induction events generalizing o with
  | nil => simp
  | cons e events ih =>
    have hfirst : (S.host.publish e).run o =
        pure ((), { o with published := o.published ++ [e] }) := by
      simp [Surroundings.host]
    simp [hfirst, ih]

theorem run_sent (S : Surroundings ε κ) (seq : Nat) (reports : List Event) (o : Outside ε) :
    (forM (Call.sent seq reports) (SegmentGate.letOut S.host)).run o =
      pure ((), { o with published := o.published ++ Event.stampFrom seq reports }) := by
  have hpublish := run_publish S (Event.stampFrom seq reports) o
  simpa [Call.sent, SegmentGate.letOut] using hpublish

theorem call_spec (k : Keeper σ κ) (S : Surroundings ε κ) (r : Request κ) (w : Site σ ε κ)
    (h : w.session.gate.locked = false) : ∃ reports, CallSpec k S r w reports := by
  have hspec := Session.call_spec k r w.session h
  obtain ⟨e', reports, heffect⟩ :=
    effect_signals S (w.session.tell k r).signals w.executions
  have hlet : w.letOut k S r =
      ⟨(w.session.complete k r).state.next + reports.length, e',
        Event.stampFrom w.session.next (w.session.announcement k).toList ++
          (Event.stampFrom (w.session.decisionSeq k + (w.session.tell k r).events.length)
              (w.session.saveReports k r) ++
            (Event.stampFrom (w.session.decisionSeq k) (w.session.tell k r).events ++
              Event.stampFrom (w.session.complete k r).state.next reports))⟩ := by
    rw [letOut, hspec.out]
    simp [run_sent, run_publish, SegmentGate.letOut, deliver, heffect.run]
  refine ⟨reports, ⟨_, rfl⟩, ?_, ?_⟩
  · rw [call, hlet]
    exact heffect
  · rw [see, hlet]
    simp [Event.map_event_stampFrom]

/-- After a call the gate has its table in memory, as decided. -/
theorem gate_call (k : Keeper σ κ) (S : Surroundings ε κ) (r : Request κ) (w : Site σ ε κ)
    (h : w.session.gate.locked = false) :
    (w.call k S r).session.gate = ⟨some (r.decide (w.session.table k)).table, false⟩ := by
  obtain ⟨reports, hspec⟩ := call_spec k S r w h
  obtain ⟨next, hsession⟩ := hspec.session
  rw [hsession]
  exact (Session.call_spec k r w.session h).gate

theorem unlocked_call (k : Keeper σ κ) (S : Surroundings ε κ) (r : Request κ) (w : Site σ ε κ)
    (h : w.session.gate.locked = false) : (w.call k S r).session.gate.locked = false := by
  rw [gate_call k S r w h]

theorem table_call (k : Keeper σ κ) (S : Surroundings ε κ) (r : Request κ) (w : Site σ ε κ)
    (h : w.session.gate.locked = false) :
    (w.call k S r).session.table k = (r.decide (w.session.table k)).table := by
  rw [Session.table, gate_call k S r w h]
  rfl

/-- Every call at a site is answered. -/
theorem answered_of_mem_seen {k : Keeper σ κ} {S : Surroundings ε κ} {w : Site σ ε κ}
    {moves : List (Move κ)} (h : w.session.gate.locked = false) {v : Seen κ}
    (hv : v ∈ w.seen k S moves) : v.outcome.reply.isSome = true := by
  induction moves generalizing w with
  | nil => cases hv
  | cons move moves ih =>
    cases move with
    | restart next => exact ih rfl hv
    | call r =>
      rcases List.mem_cons.mp hv with rfl | hv
      · exact Session.reply_tell k r h
      · exact ih (unlocked_call k S r w h) hv

end Site

/-! ## Surroundings for examples -/

/-- Executions that do as they are told, and a resolver that finds them. -/
def Surroundings.obedient : Surroundings Unit Nat where
  proceed _ _ := ()
  abort _ _ _ := (.ok (), ())
  resolve _ _ _ := (some 0, ())

/-- Executions that are all gone, with no resolver. -/
def Surroundings.deserted : Surroundings Unit Nat where
  proceed _ _ := ()
  abort _ _ _ := (.error .gone, ())
  resolve _ _ _ := (none, ())

end SegmentGate
