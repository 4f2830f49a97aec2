import Mathlib.Data.List.Forall2
import SegmentGate.Proofs.Outline
import SegmentGate.Proofs.Stores

/-!
# A restart goes unnoticed

After a restart, a new gate reads the table from the store. It does not get
what the old gate had: live capabilities are gone, and so is a limit that a
refused call wrote and nobody saved. But the two tables have one outline
(`UpToDate`, kept by every call whose save succeeds), and gates whose tables
have one outline act alike from then on (`Alike`, kept by every call, whatever
becomes of its save).
-/
namespace SegmentGate

variable {σ κ : Type}

/-- A snapshot keeps who holds and who waits. -/
theorem Table.outline_stored (t : Table κ) : t.stored.outline = t.outline := by
  have hsegment : Segment.outline ∘ Segment.stored = (Segment.outline : Segment κ → Segment κ) := by
    funext s
    cases hw : s.waiting <;>
      simp [Segment.outline, Segment.stored, Segment.forget, Segment.unlimited, Waiter.forget, hw]
  calc
    t.stored.outline = t.map (Segment.outline ∘ Segment.stored) := t.map_map _ _
    _ = t.outline := by rw [hsegment]; rfl

/-- Both calls are answered, and what they come to is the same but for limits
and live capabilities. -/
structure Outcome.Alike (a b : Outcome κ) : Prop where
  answered : a.reply.isSome = true
  reply : a.reply.map Reply.outline = b.reply.map Reply.outline
  events : a.events = b.events
  signals : a.signals.map Signal.forget = b.signals.map Signal.forget

namespace Session

variable {k : Keeper σ κ} {s s' : Session σ κ}

/-! ## Gates that act alike -/

/-- The next calls of the two gates find tables of one outline. -/
structure Alike (k : Keeper σ κ) (s s' : Session σ κ) : Prop where
  unlocked : s.gate.locked = false
  unlocked' : s'.gate.locked = false
  outline : (s.table k).outline = (s'.table k).outline

theorem Alike.tell (h : Alike k s s') (r : Request κ) : (s.tell k r).Alike (s'.tell k r) := by
  have hd := decide_outline_congr r h.outline
  rw [(call_spec k r s h.unlocked).tell, (call_spec k r s' h.unlocked').tell]
  constructor
  · rfl
  · exact congrArg (fun d => some d.answer) hd
  · exact congrArg (fun d => d.consequences.events) hd
  · exact congrArg (fun d => d.consequences.signals) hd

theorem Alike.call (h : Alike k s s') (r : Request κ) : Alike k (s.call k r) (s'.call k r) where
  unlocked := unlocked_call k r h.unlocked
  unlocked' := unlocked_call k r h.unlocked'
  outline := by
    rw [table_call k r h.unlocked, table_call k r h.unlocked']
    exact congrArg Decision.table (decide_outline_congr r h.outline)

theorem Alike.outcomes (h : Alike k s s') (rs : List (Request κ)) :
    List.Forall₂ Outcome.Alike (s.outcomes k rs) (s'.outcomes k rs) := by
  induction rs generalizing s s' with
  | nil => exact .nil
  | cons r rs ih => exact .cons (h.tell r) (ih (h.call r))

theorem Alike.after (h : Alike k s s') (rs : List (Request κ)) :
    Alike k (s.after k rs) (s'.after k rs) := by
  induction rs generalizing s s' with
  | nil => exact h
  | cons r rs ih => exact ih (h.call r)

/-! ## Stores that are up to date -/

/-- A new gate would find a table of the outline that this gate has. -/
structure UpToDate (k : Keeper σ κ) (s : Session σ κ) : Prop where
  unlocked : s.gate.locked = false
  outline : (loaded k s.store).outline = (s.table k).outline

theorem upToDate_start (k : Keeper σ κ) (n : Nat) (store : σ) : UpToDate k (start n store) :=
  ⟨rfl, rfl⟩

theorem UpToDate.call (h : UpToDate k s) {r : Request κ}
    (hsaved : ∀ x ∈ (s.tell k r).saves, x = .ok ()) : UpToDate k (s.call k r) where
  unlocked := unlocked_call k r h.unlocked
  outline := by
    rw [table_call k r h.unlocked, loaded_call h.unlocked hsaved]
    cases hc : (r.decide (s.table k)).consequences.changed with
    | false =>
      -- Nothing was saved, and a limit at most was changed.
      exact h.outline.trans (outline_eq_of_unchanged hc).symm
    | true => exact (r.decide (s.table k)).table.outline_stored

theorem UpToDate.after (h : UpToDate k s) {rs : List (Request κ)}
    (hsaved : ∀ o ∈ s.outcomes k rs, ∀ x ∈ o.saves, x = .ok ()) : UpToDate k (s.after k rs) := by
  induction rs generalizing s with
  | nil => exact h
  | cons r rs ih =>
    have hcall := h.call (hsaved _ List.mem_cons_self)
    exact ih hcall fun o ho => hsaved o (List.mem_cons_of_mem _ ho)

/-- A new gate on a store that is up to date. -/
theorem UpToDate.restart (h : UpToDate k s) (n : Nat) : Alike k (start n s.store) s where
  unlocked := rfl
  unlocked' := h.unlocked
  outline := h.outline

end Session

/-- **A restart goes unnoticed.** A gate works on a store, whatever that holds
in the beginning, and every save succeeds. Then a new gate on the store and
the old gate come to the same with all later calls, limits and live
capabilities aside: both answer, with the same results, the same events and the
same signals, and the same executions hold and wait in the same segments. -/
theorem restart_unnoticed (k : Keeper σ κ) (store : σ) (n m : Nat) (pre post : List (Request κ))
    (hsaved : ∀ o ∈ (Session.start n store).outcomes k pre, ∀ x ∈ o.saves, x = .ok ()) :
    let old := (Session.start n store).after k pre
    let new : Session σ κ := Session.start m old.store
    List.Forall₂ Outcome.Alike (new.outcomes k post) (old.outcomes k post) ∧
      ∀ job name, (((new.after k post).table k).segment? job name).map Segment.outline =
        (((old.after k post).table k).segment? job name).map Segment.outline := by
  intro old new
  have halike : Session.Alike k new old :=
    ((Session.upToDate_start k n store).after hsaved).restart m
  refine ⟨halike.outcomes post, fun job name => ?_⟩
  have houtline := (halike.after post).outline
  rw [← Table.segment?_map, ← Table.segment?_map]
  exact congrArg (Table.segment? · job name) houtline

/-- #1 builds and #3 waits. #3 asks again, for a segment that takes two, and is
refused; the new limit is in the table and not in the store. A new gate on the
store lets #3 in when #1 leaves, as the old one does. -/
theorem restart_unnoticed_of_refused :
    let k : Keeper SnapshotMemory Nat := SnapshotMemory.keeper
    let pre := [ask 1 "build", ask 3 "build", .enter "app" (asker 3) ⟨"build", .atMost 2⟩]
    let old := (Session.start 0 {}).after k pre
    let new : Session SnapshotMemory Nat := Session.start 0 old.store
    (∀ o ∈ (Session.start 0 {}).outcomes k pre, ∀ x ∈ o.saves, x = .ok ()) ∧
      ((old.table k).segment "app" "build").limit = .atMost 2 ∧
      ∃ o, new.outcomes k [.exit "app" 1] = [o] ∧ o.reply.map Reply.outline = some (.exited 1) ∧
        o.signals.map Signal.forget = [⟨"app", "build", (asker 3).forget, .proceed⟩] := by
  intro k pre old new
  have hsaved : ∀ o ∈ (Session.start 0 {}).outcomes k pre, ∀ x ∈ o.saves, x = .ok () :=
    Session.saves_ok (fun _ _ => rfl) rfl pre
  have halike : List.Forall₂ Outcome.Alike [new.tell k (.exit "app" 1)]
      [old.tell k (.exit "app" 1)] :=
    (restart_unnoticed k {} 0 0 pre [.exit "app" 1] hsaved).1
  obtain ⟨h, -⟩ := List.forall₂_cons.mp halike
  have htable : old.table k = ({} : Table Nat).after pre := Session.table_after k rfl pre
  have htell := (Session.call_spec k (.exit "app" 1) old (Session.unlocked_after k rfl pre)).tell
  rw [htable] at htell ⊢
  refine ⟨hsaved, by decide, new.tell k (.exit "app" 1), rfl, ?_⟩
  rw [h.reply, h.signals, htell]
  exact ⟨rfl, by decide⟩

end SegmentGate
