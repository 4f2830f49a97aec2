import SegmentGate.Proofs.Answers
import SegmentGate.Proofs.HandOver
import SegmentGate.Proofs.Newest

/-!
# A holder that asks again

An execution may ask for a segment that it holds. It is not asked first whether
it holds the segment: as for any other caller, the conflict about the seat comes
first, and whoever wins it is let in if it is a holder. So it depends on the
seat what the holder is told, and for all that it stays a holder
(`holder_asks_again`). If the seat is empty, or taken by an older execution that
is aborted, the holder is let in once more (`Readmits`). If a newer execution
has the seat, the holder is aborted in its own segment, and the newer one goes
on in its place (`GivesWay`); `holder_aborted` shows that both do happen.

The holder does not have the seat of the segment as well: that is so in all
tables that a gate comes to (`Table.Reached`), over calls and restarts.
-/
namespace SegmentGate

variable {κ : Type}

/-! ## The tables that a gate comes to -/

/-- The tables that gates come to on a store that was empty in the beginning. A
gate that takes over reads a snapshot of one of them, or nothing. -/
inductive Table.Reached : Table κ → Prop
  | empty : Reached {}
  | call {t : Table κ} (h : Reached t) (r : Request κ) : Reached (r.decide t).table
  | restart {t : Table κ} (h : Reached t) : Reached t.stored

theorem Segment.Apart.stored {s : Segment κ} (h : s.Apart) : s.stored.Apart := by
  intro w hw
  obtain ⟨v, hv, rfl⟩ := Option.map_eq_some_iff.mp hw
  exact h v hv

theorem Table.Apart.stored {t : Table κ} (h : t.Apart) : t.stored.Apart := by
  intro job name
  rw [Table.stored, Table.segment_map rfl]
  exact (h job name).stored

theorem Table.Reached.apart {t : Table κ} (h : t.Reached) : t.Apart := by
  induction h with
  | empty => exact Table.apart_after []
  | call _ r ih => exact Table.apart_decide r ih
  | restart _ ih => exact ih.stored

theorem Table.reached_after {t : Table κ} (h : t.Reached) (rs : List (Request κ)) :
    (t.after rs).Reached :=
  Table.after_induction (fun _ r h _ => h.call r) h
    (Table.along_of_forall (fun _ _ _ => trivial) _)

/-! ## The two outcomes -/

section Outcome
variable (job : String) (w : Waiter κ) (target : Target) (t : Table κ)
  (d : Decision κ (Except GateError Admission))

/-- The holder `w` is let in again, and the seat is empty. Whoever had it is
aborted, and nobody else is; the only other signals let in those who wait for
segments that the holder has left. -/
structure Readmits : Prop where
  answer : d.answer = .ok .admitted
  segment : d.table.segment job target.name =
    { t.segment job target.name with limit := target.limit, waiting := none }
  signals : ∃ promoted : List (Signal κ), d.consequences.signals =
      abortOf job target.name w.ordinal (t.segment job target.name).waiting ++ promoted ++
        [⟨job, target.name, w, .proceed⟩] ∧
    ∀ x, x ∈ promoted ↔ t.Promotes job w.ordinal x ∧ x.segment ≠ target.name
  aborts : d.consequences.aborts =
    abortOf job target.name w.ordinal (t.segment job target.name).waiting

/-- The holder `w` is aborted for the newer `v`, which is let in if the limit
that the holder has brought has room for it, and keeps the seat if not. The only
other signals let in those who wait for segments that `v` has left. -/
structure GivesWay (v : Waiter κ) : Prop where
  answer : d.answer = .ok .superseded
  segment : d.table.segment job target.name =
    if target.limit.admits (t.segment job target.name).holding.size then
      { holding := (t.segment job target.name).holding.insert v.ordinal
        limit := target.limit, waiting := none }
    else { t.segment job target.name with limit := target.limit }
  signals : ∃ promoted : List (Signal κ), d.consequences.signals =
      ⟨job, target.name, w, .abort v.ordinal⟩ :: promoted ++
        (if target.limit.admits (t.segment job target.name).holding.size then
          [⟨job, target.name, v, .proceed⟩] else []) ∧
    ∀ x, x ∈ promoted ↔ t.Promotes job v.ordinal x ∧ x.segment ≠ target.name
  aborts : d.consequences.aborts = [⟨job, target.name, w, .abort v.ordinal⟩]

end Outcome

/-! ## The call -/

theorem place_of_holds {job name : String} {c : Waiter κ} {s : Segment κ} {l : Limit}
    (h : c.ordinal ∈ s.holding) : place job name c { s with limit := l, waiting := none } =
      ({ s with limit := l, waiting := none }, .admitted, .admitted job name c) := by
  have hsame : s.holding.insert c.ordinal = s.holding := SortedSet.insert_eq_self h
  rw [place, if_pos (by simp [h]), Segment.grant, hsame]

theorem place_of_not_holds {job name : String} {c : Waiter κ} {s : Segment κ} {l : Limit}
    (h : c.ordinal ∉ s.holding) : place job name c { s with limit := l, waiting := none } =
      if l.admits s.holding.size then
        ({ holding := s.holding.insert c.ordinal, limit := l, waiting := none }, .admitted,
          .admitted job name c)
      else ({ s with limit := l, waiting := some c }, .parked, .parked job name c) := by
  simp only [place, Segment.hasRoom, Segment.holds_iff, Bool.or_eq_true, h, or_false]
  rfl

section Call
variable {job : String} {w : Waiter κ} {target : Target} {t : Table κ}

/-- Those who are let in on the way are not aborted. -/
theorem aborts_promoted {o : Ordinal} {promoted : List (Signal κ)}
    (h : ∀ x, x ∈ promoted ↔ t.Promotes job o x ∧ x.segment ≠ target.name) :
    promoted.filter (fun x => decide (x.verdict ≠ .proceed)) = [] :=
  List.filter_eq_nil_iff.mpr fun x hx => by simp [((h x).mp hx).1.verdict]

theorem readmits_of_yields (ho : w.ordinal ∈ (t.segment job target.name).holding)
    (hseat : (t.segment job target.name).Yields w.ordinal) :
    Readmits job w target t (enter t job w target) := by
  have hwon := hseat.contest
  have hsignals := signals_enter_of_won hwon
  rw [place_of_holds ho] at hsignals
  refine ⟨?_, ?_, ⟨_, hsignals, fun x => mem_signals_leaveOthers⟩, ?_⟩
  · rw [answer_enter hwon, if_pos rfl, if_pos (.inr ho)]
  · rw [segment_enter hwon, if_pos rfl, if_pos rfl, place_of_holds ho]
  · rw [Consequences.aborts, hsignals, List.filter_append, List.filter_append,
      aborts_promoted fun x => mem_signals_leaveOthers]
    cases (t.segment job target.name).waiting <;> simp [abortOf, Consequences.admitted]

theorem givesWay_of_newer (ht : t.Apart) {v : Waiter κ}
    (hv : (t.segment job target.name).waiting = some v) (hnewer : w.ordinal < v.ordinal) :
    GivesWay job w target t (enter t job w target) v := by
  have hwon : contest (t.segment job target.name).waiting w = .won v (some w) := by
    rw [hv, contest_of_newer hnewer]
  have hout : v.ordinal ∉ (t.segment job target.name).holding := ht job target.name v hv
  have hsignals := signals_enter_of_won hwon
  rw [place_of_not_holds hout] at hsignals
  refine ⟨?_, ?_, ⟨_, ?_, fun x => mem_signals_leaveOthers⟩, ?_⟩
  · rw [answer_enter hwon, if_neg (UInt64.ne_of_lt hnewer).symm]
  · rw [segment_enter hwon, if_pos rfl, if_pos rfl, place_of_not_holds hout]
    split
    · rfl
    · simp only [← hv]
  · rw [hsignals]
    split <;> rfl
  · rw [Consequences.aborts, hsignals, List.filter_append, List.filter_append,
      aborts_promoted fun x => mem_signals_leaveOthers]
    split <;> simp [abortOf, Consequences.admitted, Consequences.parked]

end Call

/-- **A holder that asks again stays a holder.** In every table that a gate comes
to, whoever holds a segment and asks for it again, with whatever limit, holds it
afterwards. It is let in again if nobody or an older execution has the seat;
then it is told to proceed, and the older execution is the only one that is
aborted. It is superseded if a newer execution has the seat; then it is the only
one that is aborted. There is no third case. -/
theorem holder_asks_again {t : Table κ} (ht : t.Reached) (job : String) (w : Waiter κ)
    (target : Target) (ho : w.ordinal ∈ (t.segment job target.name).holding) :
    let s := t.segment job target.name
    let d := enter t job w target
    w.ordinal ∈ (d.table.segment job target.name).holding ∧
      (s.Yields w.ordinal ∧ Readmits job w target t d ∨
        ∃ v, s.waiting = some v ∧ w.ordinal < v.ordinal ∧ GivesWay job w target t d v) := by
  intro s d
  rcases s.seat_cases w.ordinal with hseat | hseat | ⟨v, hv, hnewer⟩
  · exact absurd ho ((ht.apart job target.name).not_mem hseat)
  · have hreadmits : Readmits job w target t d := readmits_of_yields ho hseat
    refine ⟨?_, .inl ⟨hseat, hreadmits⟩⟩
    rw [hreadmits.segment]
    exact ho
  · have hgives : GivesWay job w target t d v := givesWay_of_newer ht.apart hv hnewer
    refine ⟨?_, .inr ⟨v, hv, hnewer, hgives⟩⟩
    rw [hgives.segment]
    split
    · exact SortedSet.mem_insert.mpr (.inr ho)
    · exact ho

/-- #3 waits for the segment that #2 holds. A new gate takes over, and #2 asks
again, for room for two: #2 is aborted, and they both hold the segment. -/
theorem holder_asks_again_after_restart :
    let t := (({} : Table Nat).after [ask 2 "build", ask 3 "build"]).stored
    let target : Target := ⟨"build", .atMost 2⟩
    let d := enter t "app" (asker 2) target
    t.Reached ∧ (asker 2).ordinal ∈ (t.segment "app" target.name).holding ∧
      (asker 2).ordinal ∈ (d.table.segment "app" target.name).holding ∧
      GivesWay "app" (asker 2) target t d (asker 3).forget ∧
      (asker 3).ordinal ∈ (d.table.segment "app" target.name).holding := by
  intro t target d
  have ht : t.Reached := (Table.reached_after .empty _).restart
  have ho : (asker 2).ordinal ∈ (t.segment "app" target.name).holding := by decide
  have hseat : (t.segment "app" target.name).waiting = some (asker 3).forget := by decide
  obtain ⟨hstays, ⟨hyields, -⟩ | ⟨v, hv, -, hgives⟩⟩ :=
    holder_asks_again ht "app" (asker 2) target ho
  · exact absurd (hyields _ hseat) (by decide)
  · cases hseat.symm.trans hv
    refine ⟨ht, ho, hstays, hgives, ?_⟩
    rw [hgives.segment]
    decide

/-- #2 holds a segment and asks for it again. If #1 waits for it, #1 is aborted;
if #3 waits for it, #2 is aborted itself and not let in again. -/
theorem holder_aborted :
    let older := ({} : Table Nat).after [ask 2 "build", ask 1 "build"]
    let newer := ({} : Table Nat).after [ask 2 "build", ask 3 "build"]
    let d := enter older "app" (asker 2) ⟨"build", .atMost 1⟩
    let d' := enter newer "app" (asker 2) ⟨"build", .atMost 1⟩
    (older.Reached ∧ 2 ∈ (older.segment "app" "build").holding ∧
        d.answer = .ok .admitted ∧ d.consequences.aborts = [⟨"app", "build", asker 1, .abort 2⟩]) ∧
      newer.Reached ∧ 2 ∈ (newer.segment "app" "build").holding ∧
        d'.answer = .ok .superseded ∧
        d'.consequences.signals = [⟨"app", "build", asker 2, .abort 3⟩] := by
  intro older newer d d'
  have hreached : older.Reached := Table.reached_after .empty _
  have hnewer : newer.Reached := Table.reached_after .empty _
  exact ⟨⟨hreached, by decide, rfl, by decide⟩, hnewer, by decide, rfl, by decide⟩

end SegmentGate
