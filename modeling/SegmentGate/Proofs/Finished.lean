import Mathlib.Data.List.Induction
import SegmentGate.Proofs.Capability
import SegmentGate.Proofs.Places

/-!
# Finished executions stay out

An execution that exits has no place in the job any more, neither as a holder
nor in a seat, and the same walk that takes it out does not signal it: whoever
is promoted in its place waited for a segment that it held, and nobody waits
for a segment that it holds (`Table.not_has_of_exit`, `ne_of_signal_of_exit`).
Later calls give a place to the caller and keep the places of others, and
signal none but these (`has_before`, `waiter_of_signal`). So whoever has a
place in a job, or is signalled there, has asked to enter a segment of that
job since it last exited (`EnteredSinceExit`), by induction on the last call
of the run.
-/
namespace SegmentGate

variable {κ : Type}

/-- `o` has asked to enter a segment of the job, and has not exited since. -/
def EnteredSinceExit (job : String) (o : Ordinal) (rs : List (Request κ)) : Prop :=
  ∃ pre w target post, rs = pre ++ .enter job w target :: post ∧ w.ordinal = o ∧
    .exit job o ∉ post

section History
variable {rs : List (Request κ)} {r : Request κ} {job : String} {o : Ordinal}

/-- The caller of an `enter` is known from the call itself. -/
theorem enteredSinceExit_caller {w : Waiter κ} {target : Target} (ho : w.ordinal = o) :
    EnteredSinceExit job o (rs ++ [.enter job w target]) :=
  ⟨rs, w, target, [], rfl, ho, List.not_mem_nil⟩

/-- Only an exit of the execution itself ends what its `enter` has begun. -/
theorem EnteredSinceExit.append (h : EnteredSinceExit job o rs) (hr : r ≠ .exit job o) :
    EnteredSinceExit job o (rs ++ [r]) := by
  obtain ⟨pre, w, target, post, rfl, ho, hpost⟩ := h
  refine ⟨pre, w, target, post ++ [r], by simp, ho, fun hmem => ?_⟩
  rcases List.mem_append.mp hmem with hmem | hmem
  · exact hpost hmem
  · exact hr (List.mem_singleton.mp hmem).symm

end History

/-! ## One call -/

section Call
variable {r : Request κ} {t : Table κ} {job : String} {o : Ordinal}

/-- Who has a place after a call had one before, or is the caller. -/
theorem has_before (hs : t.Apart) {p : Table.Place} (h : (r.decide t).table.Has job o p) :
    (∃ q, t.Has job o q) ∨ ∃ w target, r = .enter job w target ∧ w.ordinal = o := by
  rcases Table.has_of_decide hs h with ⟨q, -, hq, -⟩ | ⟨he, hm⟩
  · exact .inl ⟨q, hq⟩
  · cases r with
    | exit => cases he
    | snapshot => cases he
    | segment => cases he
    | enter j w target =>
      obtain ⟨rfl, -⟩ := Prod.mk.inj (Option.some.inj he)
      rcases Request.mover_enter hm with rfl | hw
      · exact .inr ⟨w, target, rfl, rfl⟩
      · exact .inl ⟨.seat target.name, hw⟩

/-- Whoever exits has no place in the job afterwards. -/
theorem Table.not_has_of_exit (hs : t.Apart) (p : Table.Place) :
    ¬ ((Request.exit job o).decide t).table.Has job o p := by
  have hstep := stepAt (.exit job o) t job p.name
  have hapart : (t.segment job p.name).waitingOrdinal = some o →
      o ∉ (t.segment job p.name).holding := hs.not_mem
  suffices hout : o ∉ (((Request.exit job o).decide t).table.segment job p.name).holding ∧
      (((Request.exit job o).decide t).table.segment job p.name).waitingOrdinal ≠ some o by
    cases p with
    | holder name => exact hout.1
    | seat name => exact hout.2
  generalize ((Request.exit job o).decide t).table.segment job p.name = s' at hstep ⊢
  generalize ((Request.exit job o).decide t).consequences.signalsAt job p.name = sig at hstep
  cases hstep with
  | idle he hm hx => exact ⟨hm o rfl, hx o rfl⟩
  | left x he hm ho =>
    cases hm
    refine ⟨fun h => ?_, by simp [Segment.waitingOrdinal]⟩
    rcases Segment.mem_holding_depart.mp h with hw | ⟨hne, -⟩
    · exact hapart hw ho
    · exact hne rfl
  | unseated x hr ho hw =>
    cases hr
    exact ⟨ho, by simp [Segment.waitingOrdinal]⟩
  | refused w target hr => cases hr
  | entered w target c l hr => cases hr
  | parked w target c l hr => cases hr

/-- Whoever exits is not signalled by its exit. -/
theorem ne_of_signal_of_exit (hs : t.Apart) {x : Signal κ}
    (hx : x ∈ ((Request.exit job o).decide t).consequences.signals) :
    Request.exit x.job x.waiter.ordinal ≠ (.exit job o : Request κ) := by
  intro he
  obtain ⟨hjob, ho⟩ := Request.exit.inj he
  have hstep := stepAt (.exit job o) t x.job x.segment
  have hmem := Consequences.mem_signalsAt.mpr ⟨hx, rfl, rfl⟩
  generalize ((Request.exit job o).decide t).table.segment x.job x.segment = s' at hstep
  generalize ((Request.exit job o).decide t).consequences.signalsAt x.job x.segment = sig
    at hstep hmem
  cases hstep with
  | idle => cases hmem
  | left y hen hm hy =>
    -- The waiter takes the place of a holder, and is not that holder.
    obtain ⟨v, hv, hxv⟩ := mem_proceedOf.mp hmem
    have hwaiter : v = x.waiter := by rw [hxv]
    have hyo : y = o := by
      rw [Request.mover, hjob] at hm
      exact ((Prod.mk.inj (Option.some.inj hm)).2).symm
    refine hs x.job x.segment v hv ?_
    rw [hwaiter, ho, ← hyo]
    exact hy
  | unseated => cases hmem
  | refused w target hr => cases hr
  | entered w target c l hr => cases hr
  | parked w target c l hr => cases hr

end Call

/-! ## Runs -/

variable {rs : List (Request κ)} {job : String} {o : Ordinal}

/-- Who has a place has entered since it last exited. -/
theorem enteredSinceExit_of_has {p : Table.Place} (h : (({} : Table κ).after rs).Has job o p) :
    EnteredSinceExit job o rs := by
  induction rs using List.reverseRecOn generalizing p with
  | nil => cases p <;> cases h
  | append_singleton rs r ih =>
    have hs := Table.apart_after rs
    have h : (r.decide (({} : Table κ).after rs)).table.Has job o p := by
      rwa [Table.after_append] at h
    rcases has_before hs h with ⟨q, hq⟩ | ⟨w, target, rfl, ho⟩
    · refine (ih hq).append fun he => ?_
      subst he
      exact Table.not_has_of_exit hs p h
    · exact enteredSinceExit_caller ho

/-- Who is signalled has entered since it last exited, this call included. -/
theorem enteredSinceExit_of_signal {r : Request κ} {x : Signal κ}
    (hx : x ∈ (r.decide (({} : Table κ).after rs)).consequences.signals) :
    EnteredSinceExit x.job x.waiter.ordinal (rs ++ [r]) := by
  rcases waiter_of_signal hx with hw | ⟨target, rfl, -⟩
  · have hseat : (({} : Table κ).after rs).Has x.job x.waiter.ordinal (.seat x.segment) :=
      Segment.waitingOrdinal_eq_some_iff.mpr ⟨x.waiter, hw, rfl⟩
    refine (enteredSinceExit_of_has hseat).append fun he => ?_
    subst he
    exact ne_of_signal_of_exit (Table.apart_after rs) hx rfl
  · exact enteredSinceExit_caller rfl

/-- **Finished executions stay out.** In every table that calls reach from the
empty one, whoever holds a segment of a job or waits for one has asked to enter
a segment of that job since it last exited. So has whoever a next call signals,
where an `enter` is an enter already and an exit is an exit already. -/
theorem finished_stay_out (rs : List (Request κ)) :
    let t := ({} : Table κ).after rs
    (∀ job name o, o ∈ (t.segment job name).holding ∨ (t.segment job name).waitingOrdinal = some o →
      EnteredSinceExit job o rs) ∧
    ∀ (r : Request κ) (x : Signal κ), x ∈ (r.decide t).consequences.signals →
      EnteredSinceExit x.job x.waiter.ordinal (rs ++ [r]) := by
  intro t
  refine ⟨fun job name o h => ?_, fun r x hx => enteredSinceExit_of_signal hx⟩
  rcases h with h | h
  · exact enteredSinceExit_of_has (p := .holder name) h
  · exact enteredSinceExit_of_has (p := .seat name) h

end SegmentGate
