import SegmentGate.Proofs.Run
import SegmentGate.Proofs.SnapshotText

/-!
# A gate at work on its store

A `Keeper` is a store as a gate uses it, with the one law that the gate relies
on: what was saved is what is loaded. A `Session` is a gate and its store
between two calls, and `Session.call` is a whole call: the steps of `Call.step`
with a lock that is free, a store that answers, and nobody who gives the call
up. Its `Outcome` is what the caller and the rest of the world get to know of
it.

`Session.call_spec` says what a call does to the session and what its outcome
is, in terms of the decision that it takes (`Request.decide`) on the table that
it finds (`Session.table`). It rests on `Session.complete_eq_advance`, which
walks through the steps once; the numbers of events are known from that too.
-/
namespace SegmentGate

variable {σ κ : Type}

/-- A store of state `σ` that a gate reads its table from and writes it to. A
save that succeeds is what is loaded next, as it is stored. -/
structure Keeper (σ κ : Type) where
  name : String
  load : σ → Except StoreError (Option (Table κ))
  save : Table κ → σ → σ × Except StoreError Unit
  load_of_save : ∀ {t : Table κ} {s s' : σ}, save t s = (s', .ok ()) →
    load s' = .ok (some t.stored)

/-! ## Whole calls -/

/-- What is known of a call once it is over. -/
structure Outcome (κ : Type) where
  reply : Option (Reply κ)
  /-- The events of the decision, without their numbers. -/
  events : List Event
  signals : List (Signal κ)
  /-- What the store answered when the table was saved. -/
  saves : List (Except StoreError Unit)

/-- What the call itself has decided, the store left aside. -/
def Outcome.decided (o : Outcome κ) : Outcome κ := { o with saves := [] }

namespace Call

/-- The reply of a call that is over. -/
def Phase.reply? : Phase κ → Option (Reply κ)
  | .finished reply => some reply
  | _ => none

def Output.decided : Output κ → List Event
  | .deliver events _ => events.map Stamped.event
  | _ => []

def Output.signals : Output κ → List (Signal κ)
  | .deliver _ signals => signals
  | _ => []

/-- The report of a save, if it has failed. -/
def saveReport (job : String) : Except StoreError Unit → Option Event
  | .ok _ => none
  | .error e => some (persistFailed job e)

/-- Reports go out under their numbers. -/
def sent (seq : Nat) (reports : List Event) : List (Output κ) :=
  (Event.stampFrom seq reports).map .publish

/-- A call on its way through its steps. -/
structure Progress (σ κ : Type) where
  store : σ
  state : State κ
  saves : List (Except StoreError Unit) := []
  out : List (Output κ) := []

namespace Progress

/-- The call takes a step. -/
def take (name : String) (r : Request κ) (p : Progress σ κ) (i : Input κ) : Progress σ κ :=
  match step name r p.state i with
  | some (state, out) => { p with state, out := p.out ++ out }
  | none => p

/-- The next step of a call that nothing interrupts. -/
def advance (k : Keeper σ κ) (r : Request κ) (p : Progress σ κ) : Progress σ κ :=
  match p.state.phase with
  | .waiting => p.take k.name r .lock
  | .loading => p.take k.name r (.loaded (k.load p.store))
  | .saving .. =>
    let saved := k.save (p.state.gate.table.getD {}) p.store
    { p with store := saved.1, saves := p.saves ++ [saved.2] }.take k.name r (.saved saved.2)
  | _ => p

def outcome (p : Progress σ κ) : Outcome κ where
  reply := p.state.phase.reply?
  events := p.out.flatMap Output.decided
  signals := p.out.flatMap Output.signals
  saves := p.saves

end Progress
end Call

/-- A gate and its store between two calls. -/
structure Session (σ κ : Type) where
  /-- The number of the next event made. -/
  next : Nat
  gate : GateState κ
  store : σ

namespace Session

/-- A new gate on a store. -/
def start (next : Nat) (store : σ) : Session σ κ := ⟨next, {}, store⟩

/-- A call before its first step. -/
def begin (s : Session σ κ) : Call.Progress σ κ :=
  { store := s.store, state := ⟨s.next, s.gate, .waiting⟩ }

/-- A call after its last step; it takes three at most. -/
def complete (k : Keeper σ κ) (r : Request κ) (s : Session σ κ) : Call.Progress σ κ :=
  ((s.begin.advance k r).advance k r).advance k r

/-- The session after a call. -/
def call (k : Keeper σ κ) (r : Request κ) (s : Session σ κ) : Session σ κ :=
  let p := s.complete k r
  ⟨p.state.next, p.state.gate, p.store⟩

/-- What a call comes to. -/
def tell (k : Keeper σ κ) (r : Request κ) (s : Session σ κ) : Outcome κ := (s.complete k r).outcome

/-- The session after the calls `rs`, one after the other. -/
def after (k : Keeper σ κ) (s : Session σ κ) : List (Request κ) → Session σ κ
  | [] => s
  | r :: rs => (s.call k r).after k rs

/-- What the calls `rs` come to. -/
def outcomes (k : Keeper σ κ) (s : Session σ κ) : List (Request κ) → List (Outcome κ)
  | [] => []
  | r :: rs => s.tell k r :: (s.call k r).outcomes k rs

/-- The table that a new gate finds in the store. -/
def loaded (k : Keeper σ κ) (store : σ) : Table κ := (Call.loadedTable k.name (k.load store)).1

/-- The table that the next call finds. -/
def table (k : Keeper σ κ) (s : Session σ κ) : Table κ := s.gate.table.getD (loaded k s.store)

/-- What the next call reports of the table that it finds: how it was loaded, if
it is the first call. -/
def announcement (k : Keeper σ κ) (s : Session σ κ) : Option Event :=
  match s.gate.table with
  | some _ => none
  | none => (Call.loadedTable k.name (k.load s.store)).2

/-- What the next call reports of its save, if that has failed. -/
def saveReports (k : Keeper σ κ) (r : Request κ) (s : Session σ κ) : List Event :=
  (s.tell k r).saves.filterMap (Call.saveReport r.job)

/-- The number of the first event of the decision of the next call. -/
def decisionSeq (k : Keeper σ κ) (s : Session σ κ) : Nat :=
  s.next + (s.announcement k).toList.length

/-- A call decides on the table that it finds and saves the table if it has
changed it. The report of the load goes out before the lock is given up and so
does the report of the save; the events and signals of the decision go out after
that. The decision is numbered before the save. -/
structure CallSpec (k : Keeper σ κ) (r : Request κ) (s : Session σ κ) : Prop where
  gate : (s.call k r).gate = ⟨some (r.decide (s.table k)).table, false⟩
  tell : s.tell k r =
    { reply := some (r.decide (s.table k)).answer
      events := (r.decide (s.table k)).consequences.events
      signals := (r.decide (s.table k)).consequences.signals
      saves := if (r.decide (s.table k)).consequences.changed then
        [(k.save (r.decide (s.table k)).table s.store).2] else [] }
  store : (s.call k r).store = if (r.decide (s.table k)).consequences.changed then
    (k.save (r.decide (s.table k)).table s.store).1 else s.store
  out : (s.complete k r).out =
    Call.sent s.next (s.announcement k).toList ++
      (Call.sent (s.decisionSeq k + (s.tell k r).events.length) (s.saveReports k r) ++
        [.unlock, .deliver (Event.stampFrom (s.decisionSeq k) (s.tell k r).events)
          (s.tell k r).signals])
  next : (s.call k r).next =
    s.decisionSeq k + (s.tell k r).events.length + (s.saveReports k r).length

/-- A call that is over takes no further step. -/
theorem advance_finished {k : Keeper σ κ} {r : Request κ} {p : Call.Progress σ κ} {a : Reply κ}
    (h : p.state.phase = .finished a) : p.advance k r = p := by
  rw [Call.Progress.advance, h]

/-- A call whose step before decided on the table `t` is over after the next
one. The first event of the decision has the number `seq`. -/
structure Over (k : Keeper σ κ) (r : Request κ) (t : Table κ) (store : σ) (seq : Nat)
    (before : List (Call.Output κ)) (p : Call.Progress σ κ) : Prop where
  phase : p.state.phase = .finished (r.decide t).answer
  gate : p.state.gate = ⟨some (r.decide t).table, false⟩
  saves : p.saves = if (r.decide t).consequences.changed then
    [(k.save (r.decide t).table store).2] else []
  store : p.store = if (r.decide t).consequences.changed then
    (k.save (r.decide t).table store).1 else store
  out : p.out = before ++
    (Call.sent (seq + (r.decide t).consequences.events.length)
        (p.saves.filterMap (Call.saveReport r.job)) ++
      [.unlock, .deliver (Event.stampFrom seq (r.decide t).consequences.events)
        (r.decide t).consequences.signals])
  next : p.state.next = seq + (r.decide t).consequences.events.length +
    (p.saves.filterMap (Call.saveReport r.job)).length

theorem over_of_decided (k : Keeper σ κ) (r : Request κ) (t : Table κ) (store : σ)
    (c : Call.State κ) (before : List (Call.Output κ)) :
    Over k r t store c.next before (Call.Progress.advance k r
      { store, state := (Call.decideOn r c t).1, out := before ++ (Call.decideOn r c t).2 }) := by
  cases hc : (r.decide t).consequences.changed with
  | false =>
    have hdecided : Call.decideOn r c t = _ := if_neg (by simp [hc])
    rw [hdecided, advance_finished rfl]
    constructor <;> simp [hc, Call.finish, Call.sent, Event.length_stampFrom, Event.stampFrom]
  | true =>
    have hdecided : Call.decideOn r c t = _ := if_pos hc
    rw [hdecided]
    cases hsave : k.save (r.decide t).table store with
    | mk store' result =>
      cases result <;> constructor <;>
        simp [hc, hsave, Call.Progress.advance, Call.Progress.take, Call.step, Call.announce,
          Call.finish, Call.sent, List.filterMap_cons, Call.saveReport, Event.length_stampFrom,
          Event.stampFrom]

/-- A call decides on the table that it finds, after the report of the load if
it is the first one; and one step later, at most, it is over. -/
theorem complete_eq_advance (k : Keeper σ κ) (r : Request κ) (s : Session σ κ)
    (h : s.gate.locked = false) : ∃ c : Call.State κ, c.next = s.decisionSeq k ∧
      s.complete k r = Call.Progress.advance k r
        { store := s.store, state := (Call.decideOn r c (s.table k)).1,
          out := Call.sent s.next (s.announcement k).toList ++
            (Call.decideOn r c (s.table k)).2 } := by
  obtain ⟨next, ⟨table, locked⟩, store⟩ := s
  cases h
  cases table with
  | some t =>
    refine ⟨⟨next, ⟨some t, false⟩, .waiting⟩, rfl, ?_⟩
    have hfirst : (begin ⟨next, ⟨some t, false⟩, store⟩).advance k r =
        { store, state := (Call.decideOn r ⟨next, ⟨some t, false⟩, .waiting⟩ t).1,
          out := [] ++ (Call.decideOn r ⟨next, ⟨some t, false⟩, .waiting⟩ t).2 } := rfl
    have hover := over_of_decided k r t store ⟨next, ⟨some t, false⟩, .waiting⟩ []
    rw [complete, hfirst, advance_finished hover.phase]
    rfl
  | none =>
    refine ⟨(Call.announce ⟨next, ⟨none, true⟩, .loading⟩
      (Call.loadedTable k.name (k.load store)).2).1, ?_, ?_⟩
    · cases hl : (Call.loadedTable k.name (k.load store)).2 <;>
        simp [Call.announce, decisionSeq, announcement, hl]
    · have hsent : (Call.announce ⟨next, ⟨none, true⟩, .loading⟩
          (Call.loadedTable k.name (k.load store)).2).2 =
          (Call.sent next (Call.loadedTable k.name (k.load store)).2.toList :
            List (Call.Output κ)) := by
        cases (Call.loadedTable k.name (k.load store)).2 <;> rfl
      show _ = Call.Progress.advance k r
        { store, state := _,
          out := Call.sent next (Call.loadedTable k.name (k.load store)).2.toList ++ _ }
      rw [← hsent]
      rfl

theorem call_spec (k : Keeper σ κ) (r : Request κ) (s : Session σ κ)
    (h : s.gate.locked = false) : CallSpec k r s := by
  obtain ⟨c, hnext, hcomplete⟩ := complete_eq_advance k r s h
  have hover := over_of_decided k r (s.table k) s.store c (Call.sent s.next
    (s.announcement k).toList)
  rw [← hcomplete, hnext] at hover
  have hquiet (seq : Nat) (reports : List Event) :
      (Call.sent seq reports : List (Call.Output κ)).flatMap Call.Output.decided = [] ∧
        (Call.sent seq reports : List (Call.Output κ)).flatMap Call.Output.signals = [] := by
    constructor <;>
      simp [Call.sent, List.flatMap_map, Call.Output.decided, Call.Output.signals]
  have htell : s.tell k r =
      { reply := some (r.decide (s.table k)).answer
        events := (r.decide (s.table k)).consequences.events
        signals := (r.decide (s.table k)).consequences.signals
        saves := if (r.decide (s.table k)).consequences.changed then
          [(k.save (r.decide (s.table k)).table s.store).2] else [] } := by
    rw [tell, Call.Progress.outcome, hover.phase, hover.out, hover.saves]
    simp [hquiet, Call.Phase.reply?, Call.Output.decided, Call.Output.signals,
      Event.map_event_stampFrom]
  have hsaves : (s.complete k r).saves = (s.tell k r).saves := rfl
  have hout := hover.out
  have hlast := hover.next
  rw [hsaves] at hout hlast
  refine ⟨hover.gate, htell, hover.store, ?_, ?_⟩
  · rw [hout, saveReports, htell]
  · rw [call, hlast, saveReports, htell]

/-! ## Runs -/

variable {s : Session σ κ}

/-- After a call the gate has its table in memory. -/
theorem table_call (k : Keeper σ κ) (r : Request κ) (h : s.gate.locked = false) :
    (s.call k r).table k = (r.decide (s.table k)).table := by
  rw [table, (call_spec k r s h).gate]
  rfl

theorem unlocked_call (k : Keeper σ κ) (r : Request κ) (h : s.gate.locked = false) :
    (s.call k r).gate.locked = false := by
  rw [(call_spec k r s h).gate]

/-- Every call is answered. -/
theorem reply_tell (k : Keeper σ κ) (r : Request κ) (h : s.gate.locked = false) :
    (s.tell k r).reply.isSome = true := by
  rw [(call_spec k r s h).tell]
  rfl

theorem unlocked_after (k : Keeper σ κ) (h : s.gate.locked = false) (rs : List (Request κ)) :
    (s.after k rs).gate.locked = false := by
  induction rs generalizing s with
  | nil => exact h
  | cons r rs ih => exact ih (unlocked_call k r h)

/-- What is known of runs of decisions holds of a gate at work. -/
theorem table_after (k : Keeper σ κ) (h : s.gate.locked = false) (rs : List (Request κ)) :
    (s.after k rs).table k = (s.table k).after rs := by
  induction rs generalizing s with
  | nil => rfl
  | cons r rs ih =>
    rw [after, ih (unlocked_call k r h), table_call k r h]
    rfl

/-- What a new gate would find after a call whose save succeeds. -/
theorem loaded_call {k : Keeper σ κ} {r : Request κ} (h : s.gate.locked = false)
    (hsaved : ∀ x ∈ (s.tell k r).saves, x = .ok ()) :
    loaded k (s.call k r).store = if (r.decide (s.table k)).consequences.changed then
      (r.decide (s.table k)).table.stored else loaded k s.store := by
  have hspec := call_spec k r s h
  rw [hspec.store]
  rw [hspec.tell] at hsaved
  split
  · rename_i hc
    simp only [hc, if_true] at hsaved
    have hok : k.save (r.decide (s.table k)).table s.store = (_, .ok ()) :=
      Prod.ext rfl (hsaved _ (List.mem_singleton_self _))
    rw [loaded, k.load_of_save hok]
    rfl
  · rfl

/-- Saves that succeed are not reported. -/
theorem saveReports_eq_nil {k : Keeper σ κ} {r : Request κ}
    (hok : ∀ x ∈ (s.tell k r).saves, x = .ok ()) : s.saveReports k r = [] := by
  rw [saveReports, List.filterMap_eq_nil_iff]
  intro x hx
  rw [hok x hx]
  rfl

/-- With a store that saves whatever it is given, no call fails to save. -/
theorem saves_ok {k : Keeper σ κ} (hk : ∀ t store, (k.save t store).2 = .ok ())
    (h : s.gate.locked = false) (rs : List (Request κ)) :
    ∀ o ∈ s.outcomes k rs, ∀ x ∈ o.saves, x = .ok () := by
  induction rs generalizing s with
  | nil =>
    intro o ho
    cases ho
  | cons r rs ih =>
    intro o ho x hx
    rcases List.mem_cons.mp ho with rfl | ho
    · rw [(call_spec k r s h).tell] at hx
      split at hx
      · rw [List.mem_singleton.mp hx, hk]
      · cases hx
    · exact ih (unlocked_call k r h) o ho x hx

end Session

end SegmentGate
