import SegmentGate.Proofs.Stores
import SegmentGate.Proofs.Surroundings

/-!
# Failures that nobody is told of

A save that fails, an execution that cannot be aborted and a token that leads
nowhere are reported as events, and the gate goes on. None of them has a part in
what it decides: what is seen of a gate at work, apart from these reports, can
be told from the table that it begins with and from the calls
(`Site.seen_decided`). Hence two gates that begin with the same table, on
different stores and among different executions, are told apart by those
reports only (`failures_do_not_influence_decisions`).

The failures strike in the middle of a call: a save fails after the decision,
and an abort fails between two signals. What is published of a call is known in
its order from `Site.call_spec`, and the reports are filtered out of that.
-/
namespace SegmentGate

variable {σ σ' ε ε' κ : Type}

/-! ## What is reported of failures -/

theorem Event.isSwallowed_of_isDecision {e : Event} (h : e.isDecision = true) :
    e.isSwallowed = false := by
  obtain ⟨kind, job, segment, ordinal, other, reason⟩ := e
  cases kind <;> first | rfl | cases h

theorem Call.isSwallowed_loadedTable (store : String)
    (result : Except StoreError (Option (Table κ))) :
    ∀ e ∈ (loadedTable store result).2, e.isSwallowed = false := by
  intro e he
  cases result with
  | error x => cases he; rfl
  | ok found => cases found <;> cases he; rfl

namespace Session

variable {s : Session σ κ}

theorem isSwallowed_announcement (k : Keeper σ κ) (s : Session σ κ) :
    ∀ e ∈ s.announcement k, e.isSwallowed = false := by
  intro e he
  exact Call.isSwallowed_loadedTable k.name _ e (mem_loadedTable_of_mem_announcement he)

theorem isSwallowed_saveReports (k : Keeper σ κ) (r : Request κ) (s : Session σ κ) :
    ∀ e ∈ s.saveReports k r, e.isSwallowed = true := by
  intro e he
  obtain ⟨saved, -, hreport⟩ := List.mem_filterMap.mp he
  cases saved with
  | ok => cases hreport
  | error x =>
    cases hreport
    rfl

theorem isSwallowed_events (k : Keeper σ κ) (r : Request κ) (h : s.gate.locked = false) :
    ∀ e ∈ (s.tell k r).events, e.isSwallowed = false := by
  intro e he
  rw [(call_spec k r s h).tell] at he
  exact Event.isSwallowed_of_isDecision (isDecision_of_mem he)

end Session

/-! ## What is seen in spite of failures -/

namespace Seen

/-- What is seen, less what the store answered and less the reports of failures
that nobody is told of. -/
def decided (v : Seen κ) : Seen κ where
  outcome := v.outcome.decided
  table := v.table
  published := v.published.filter fun e => !e.isSwallowed

/-- What is seen of a decision if nothing fails. -/
def ofDecision (announced : Option Event) (d : Decision κ (Reply κ)) : Seen κ where
  outcome := ⟨some d.answer, d.consequences.events, d.consequences.signals, []⟩
  table := d.table
  published := announced.toList ++ d.consequences.events

/-- What is seen of the calls `rs` on the table `t` if nothing fails. -/
def ofRun (announced : Option Event) (t : Table κ) : List (Request κ) → List (Seen κ)
  | [] => []
  | r :: rs => ofDecision announced (r.decide t) :: ofRun none (r.decide t).table rs

end Seen

namespace Site

theorem see_decided (k : Keeper σ κ) (S : Surroundings ε κ) (r : Request κ) (w : Site σ ε κ)
    (h : w.session.gate.locked = false) :
    (w.see k S r).decided =
      Seen.ofDecision (w.session.announcement k) (r.decide (w.session.table k)) := by
  obtain ⟨reports, hspec⟩ := call_spec k S r w h
  have htell := (Session.call_spec k r w.session h).tell
  have houtcome : (w.see k S r).outcome = w.session.tell k r := rfl
  have htable : (w.see k S r).table = (r.decide (w.session.table k)).table :=
    table_call k S r w h
  have hannounced : (w.session.announcement k).toList.filter (fun e => !e.isSwallowed) =
      (w.session.announcement k).toList := by
    refine List.filter_eq_self.mpr fun e he => ?_
    simp [Session.isSwallowed_announcement k w.session e (by simpa using he)]
  have hsaves : (w.session.saveReports k r).filter (fun e => !e.isSwallowed) = [] := by
    refine List.filter_eq_nil_iff.mpr fun e he => ?_
    simp [Session.isSwallowed_saveReports k r w.session e he]
  have hevents : (w.session.tell k r).events.filter (fun e => !e.isSwallowed) =
      (w.session.tell k r).events := by
    refine List.filter_eq_self.mpr fun e he => ?_
    simp [Session.isSwallowed_events k r h e he]
  have hreports : reports.filter (fun e => !e.isSwallowed) = [] := by
    refine List.filter_eq_nil_iff.mpr fun e he => ?_
    simp [hspec.effect.swallowed e he]
  rw [Seen.decided, houtcome, htable, hspec.published, List.filter_append, List.filter_append,
    List.filter_append, hannounced, hsaves, hevents, hreports, htell]
  simp [Seen.ofDecision, Outcome.decided]

/-- What is decided along a run comes from the table that the first call finds,
and from the calls. The induction is on the calls: after each of them the gate
has in memory what it has decided, whatever has failed. -/
theorem seen_decided (k : Keeper σ κ) (S : Surroundings ε κ) (w : Site σ ε κ)
    (h : w.session.gate.locked = false) (rs : List (Request κ)) :
    (w.seen k S (rs.map .call)).map Seen.decided =
      Seen.ofRun (w.session.announcement k) (w.session.table k) rs := by
  induction rs generalizing w with
  | nil => rfl
  | cons r rs ih =>
    have hannouncement : (w.call k S r).session.announcement k = none := by
      rw [Session.announcement, gate_call k S r w h]
    have hrest := ih (w.call k S r) (unlocked_call k S r w h)
    rw [table_call k S r w h, hannouncement] at hrest
    rw [List.map_cons, seen, List.map_cons, see_decided k S r w h, hrest, Seen.ofRun]

end Site

/-- **Failures that are swallowed do not influence decisions.** Two gates that
find the same table in the same way take the same calls, each on a store that
saves or fails to save as it likes, and among executions that can be aborted,
refuse it or are gone, and that a resolver finds or does not find. All calls are
answered, and the same; the tables after every call are the same, the signals
are the same, and so are the events in their order, but for the reports that a
save or an abort has failed or that a token leads nowhere. -/
theorem failures_do_not_influence_decisions (k : Keeper σ κ) (k' : Keeper σ' κ)
    (S : Surroundings ε κ) (S' : Surroundings ε' κ) (w : Site σ ε κ) (w' : Site σ' ε' κ)
    (hw : w.session.gate.locked = false) (hw' : w'.session.gate.locked = false)
    (htable : w.session.table k = w'.session.table k')
    (hannouncement : w.session.announcement k = w'.session.announcement k')
    (rs : List (Request κ)) :
    (w.seen k S (rs.map .call)).map Seen.decided = (w'.seen k' S' (rs.map .call)).map Seen.decided
      ∧ ∀ v ∈ w.seen k S (rs.map .call), v.outcome.reply.isSome = true := by
  refine ⟨?_, fun v hv => Site.answered_of_mem_seen hw hv⟩
  rw [Site.seen_decided k S w hw rs, Site.seen_decided k' S' w' hw' rs, htable, hannouncement]

/-- A store that nothing can be written to. -/
def Keeper.full : Keeper Unit κ where
  name := SnapshotMemory.name
  load _ := .ok none
  save _ _ := ((), .error (.io "No space left on device (os error 28)"))
  load_of_save := by
    intro t s s' h
    cases h

/-- Where everything fails that can, each of four calls reports a save that has
failed, the third one an abort, and the fourth a waiter that only a resolver
could find. -/
theorem failures_do_not_influence_decisions_where_all_fails :
    let one := ask 1 "build"
    let two := ask 2 "build"
    let three := Request.enter "app" ⟨3, ⟨"3"⟩, none⟩ ⟨"build", .atMost 1⟩
    let rs := [one, two, three, .exit "app" 1]
    let w : Site SnapshotMemory Unit Nat := ⟨.start 0 {}, ()⟩
    let w' : Site Unit Unit Nat := ⟨.start 0 (), ()⟩
    let spared := w.seen SnapshotMemory.keeper .obedient (rs.map .call)
    let struck := w'.seen Keeper.full .deserted (rs.map .call)
    spared.map Seen.decided = struck.map Seen.decided
      ∧ (spared.flatMap Seen.published).map Event.kind =
        [.admitted, .parked, .superseded, .parked, .released, .promoted]
      ∧ (struck.flatMap Seen.published).map Event.kind =
        [.persistFailed, .admitted, .persistFailed, .parked, .persistFailed, .superseded, .parked,
          .cancelFailed, .persistFailed, .released, .promoted, .resumeUnresolved] := by
  intro one two three rs w w' spared struck
  have h := failures_do_not_influence_decisions SnapshotMemory.keeper Keeper.full .obedient
    .deserted w w' rfl rfl rfl rfl rs
  exact ⟨h.1, by decide +kernel, by decide +kernel⟩

end SegmentGate
