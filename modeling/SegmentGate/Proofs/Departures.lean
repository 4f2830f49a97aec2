import SegmentGate.Proofs.Seat

/-!
# Exits in any order

Executions of a job finish in any order, and the gate is told of them in yet
another. It makes no difference to the table in the end: what becomes of a
segment depends on who has exited and not on the order.

On the way the tables differ. If #1 holds a segment for which #2 waits, #2
comes in when #1 exits first and goes when it exits itself, and it never comes
in if its own exit is first. So exits do not commute in what they answer or
signal; they do in what they leave, and `Segment.Vacated` says what that is.
It is the same for all lists of the same executions (`Vacated.eq`), each exit
leaves it (`vacated_leave`), and one list after another leaves what both
together do (`Vacated.append`). The invariant under all this is that a waiter
is not a holder (`Table.Apart`).
-/
namespace SegmentGate

variable {κ : Type}

/-! ## What exits leave of a segment -/

/-- The segment `s'` is what is left of `s` when the executions `os` are gone. -/
structure Segment.Vacated (os : List Ordinal) (s s' : Segment κ) : Prop where
  limit : s'.limit = s.limit
  /-- Holders that are not gone still hold; so does the waiter, if it is not
  gone and a holder is. -/
  holding : ∀ o, o ∈ s'.holding ↔ o ∉ os ∧
    (o ∈ s.holding ∨ s.waitingOrdinal = some o ∧ ∃ x ∈ os, x ∈ s.holding)
  /-- The waiter still waits if neither it nor any holder is gone. -/
  waiting : ∀ w, s'.waiting = some w ↔
    s.waiting = some w ∧ w.ordinal ∉ os ∧ ∀ x ∈ os, x ∉ s.holding

namespace Segment.Vacated

variable {os os' : List Ordinal} {s s' s'' : Segment κ}

/-- What is left does not depend on the order, nor on repetitions. -/
theorem eq (h : s.Vacated os s') (h' : s.Vacated os' s'') (hos : ∀ o, o ∈ os' ↔ o ∈ os) :
    s' = s'' := by
  have hholding : s'.holding = s''.holding := by
    refine SortedSet.ext_mem fun o => ?_
    rw [h.holding, h'.holding]
    simp only [hos]
  have hwaiting : s'.waiting = s''.waiting := by
    refine Option.ext fun w => ?_
    rw [h.waiting, h'.waiting]
    simp only [hos]
  have hlimit : s'.limit = s''.limit := h.limit.trans h'.limit.symm
  cases s'
  cases s''
  simp only at hholding hwaiting hlimit
  rw [hholding, hwaiting, hlimit]

theorem nil (s : Segment κ) : s.Vacated [] s := ⟨rfl, by simp, by simp⟩

theorem append (h : s.Vacated os s') (h' : s'.Vacated os' s'') : s.Vacated (os ++ os') s'' := by
  refine ⟨h'.limit.trans h.limit, fun o => ?_, fun w => ?_⟩
  · have hseat : s'.waitingOrdinal = some o ↔
        s.waitingOrdinal = some o ∧ o ∉ os ∧ ∀ x ∈ os, x ∉ s.holding := by
      simp only [waitingOrdinal_eq_some_iff, h.waiting]
      constructor
      · rintro ⟨w, ⟨hw, ho, hkept⟩, rfl⟩
        exact ⟨⟨w, hw, rfl⟩, ho, hkept⟩
      · rintro ⟨⟨w, hw, rfl⟩, ho, hkept⟩
        exact ⟨w, ⟨hw, ho, hkept⟩, rfl⟩
    rw [h'.holding, hseat]
    simp only [h.holding, List.mem_append]
    by_cases hgone : ∃ x ∈ os, x ∈ s.holding
    · -- The seat is empty already, and the waiter holds unless it is gone.
      obtain ⟨x, hx, hxs⟩ := hgone
      have hleft : ∃ x, (x ∈ os ∨ x ∈ os') ∧ x ∈ s.holding := ⟨x, .inl hx, hxs⟩
      have hseated : ¬ ∀ x ∈ os, x ∉ s.holding := fun hkept => hkept x hx hxs
      simp only [hleft, hseated, and_false, false_and, or_false, and_true, not_or]
      grind
    · -- Nothing but a waiter can have gone from the segment so far.
      have hkept : ∀ x ∈ os, x ∉ s.holding := fun x hx hxs => hgone ⟨x, hx, hxs⟩
      grind
  · rw [h'.waiting, h.waiting]
    simp only [h.holding, List.mem_append]
    grind

end Segment.Vacated

/-! ## One exit -/

section Segment
variable {job name : String} {o : Ordinal} {s : Segment κ}

theorem vacated_depart (hs : s.Apart) (ho : o ∈ s.holding) : s.Vacated [o] (s.depart o) := by
  refine ⟨Segment.limit_depart s o, fun x => ?_, fun w => ?_⟩
  · have hseat : s.waitingOrdinal = some x → x ≠ o := by
      rintro hx rfl
      exact hs.not_mem hx ho
    rw [Segment.mem_holding_depart]
    simp only [List.mem_singleton, exists_eq_left, ho, and_true]
    grind
  · simp [ho]

/-- One exit, of a holder, of the waiter or of neither. -/
theorem vacated_leave (hs : s.Apart) : s.Vacated [o] (leave job o name s).1 := by
  unfold leave
  split
  · rename_i ho
    rw [Segment.holds_iff] at ho
    rw [(departFrom_of_mem job name ho).1]
    exact vacated_depart hs ho
  · rename_i ho
    rw [Segment.holds_iff] at ho
    -- Without a departure nobody comes in, so the holders stay.
    have hholding (x : Ordinal) : x ∈ s.holding ↔
        x ∉ [o] ∧ (x ∈ s.holding ∨ s.waitingOrdinal = some x ∧ ∃ y ∈ [o], y ∈ s.holding) := by
      simp only [List.mem_singleton, exists_eq_left, ho, and_false, or_false]
      exact ⟨fun hx => ⟨fun e => ho (e ▸ hx), hx⟩, And.right⟩
    split
    · rename_i hw
      obtain ⟨v, hv, hvo⟩ := Segment.waitingOrdinal_eq_some_iff.mp hw
      refine ⟨rfl, hholding, fun w => ⟨fun h => (by cases h), ?_⟩⟩
      rintro ⟨hw', hne, -⟩
      rw [hv] at hw'
      cases hw'
      exact absurd (List.mem_singleton.mpr hvo) hne
    · rename_i hw
      refine ⟨rfl, hholding, fun w => ⟨fun h => ⟨h, fun hwo => hw ?_, ?_⟩, And.left⟩⟩
      · exact Segment.waitingOrdinal_eq_some_iff.mpr ⟨w, h, List.mem_singleton.mp hwo⟩
      · simpa using ho

end Segment

/-! ## What exits leave of a table -/

/-- The table `t'` is what is left of `t` when the executions `os` of the job
are gone. No segment and no job goes with them. -/
structure Table.Vacated (job : String) (os : List Ordinal) (t t' : Table κ) : Prop where
  segments : ∀ name, (t.segment job name).Vacated os (t'.segment job name)
  named : ∀ name, (t'.segment? job name).isSome = (t.segment? job name).isSome
  known : (t'.job? job).isSome = (t.job? job).isSome
  others : ∀ j, j ≠ job → t'.job? j = t.job? j

namespace Table.Vacated

variable {job : String} {os os' : List Ordinal} {t t' t'' : Table κ}

/-- What is left does not depend on the order. -/
theorem eq (h : t.Vacated job os t') (h' : t.Vacated job os' t'')
    (hos : ∀ o, o ∈ os' ↔ o ∈ os) : t' = t'' := by
  refine Table.ext_segment? (fun j => ?_) (fun j n => ?_)
  · by_cases hj : j = job
    · subst hj
      rw [h.known, h'.known]
    · rw [h.others j hj, h'.others j hj]
  · by_cases hj : j = job
    · subst hj
      have hnamed : (t'.segment? j n).isSome = (t''.segment? j n).isSome := by
        rw [h.named, h'.named]
      have hsame : t'.segment j n = t''.segment j n := (h.segments n).eq (h'.segments n) hos
      simp only [Table.segment] at hsame
      cases hs' : t'.segment? j n <;> cases hs'' : t''.segment? j n <;> simp_all
    · simp only [Table.segment?, Table.job, h.others j hj, h'.others j hj]

theorem nil (job : String) (t : Table κ) : t.Vacated job [] t :=
  ⟨fun _ => .nil _, fun _ => rfl, rfl, fun _ _ => rfl⟩

theorem append (h : t.Vacated job os t') (h' : t'.Vacated job os' t'') :
    t.Vacated job (os ++ os') t'' where
  segments name := (h.segments name).append (h'.segments name)
  named name := (h'.named name).trans (h.named name)
  known := h'.known.trans h.known
  others j hj := (h'.others j hj).trans (h.others j hj)

end Table.Vacated

section Table
variable {job : String} {t : Table κ}

theorem vacated_exit (ht : t.Apart) (o : Ordinal) : t.Vacated job [o] (exit t job o).table := by
  refine ⟨fun name => ?_, fun name => ?_, ?_, fun j hj => ?_⟩
  · rw [segment_exit, if_pos rfl]
    exact vacated_leave (ht job name)
  all_goals
    unfold exit
    cases h : t.job? job
  · rfl
  · simp [Table.segment?, Table.job, h, JobSegments.forEach]
  · rw [h]
  · simp
  · rfl
  · simp [hj]

/-- One exit after the other. -/
theorem vacated_exits (ht : t.Apart) (os : List Ordinal) :
    t.Vacated job os (t.after (os.map (Request.exit job))) := by
  induction os generalizing t with
  | nil => exact .nil job t
  | cons o os ih =>
    have hnext : ((Request.exit job o).decide t).table.Apart := Table.apart_decide _ ht
    exact (vacated_exit ht o).append (ih hnext)

end Table

/-- **Exits in any order.** In every reachable table, exits of the same
executions of a job leave the same table, in whatever order they come and
however often each does. In a segment of the job those who exited are neither
holders nor wait; the waiter, if it is not among them, is a holder if one of
them held the segment, and still waits if none did; who else held the segment
does so still, and the limit stays. Other jobs do not change at all. -/
theorem exits_in_any_order (rs : List (Request κ)) (job : String) (os : List Ordinal) :
    let t := ({} : Table κ).after rs
    let t' := t.after (os.map (Request.exit job))
    (∀ os' : List Ordinal, (∀ o, o ∈ os' ↔ o ∈ os) →
      t.after (os'.map (Request.exit job)) = t') ∧
    (∀ name, (t.segment job name).Vacated os (t'.segment job name)) ∧
    ∀ j, j ≠ job → t'.job? j = t.job? j := by
  intro t t'
  have ht : t.Apart := Table.apart_after rs
  have hleft : t.Vacated job os t' := vacated_exits ht os
  exact ⟨fun os' hos => (vacated_exits ht os').eq hleft fun o => (hos o).symm, hleft.segments,
    hleft.others⟩

/-- #1 builds and #2 waits. If #1 exits first, #2 is let in before it exits; if
#2 exits first, it is told nothing. The table is the same in the end, and #2 is
in no segment of it. -/
theorem exits_in_any_order_of_two :
    let t := ({} : Table Nat).after [ask 1 "build", ask 2 "build"]
    t.signalsOf [.exit "app" 1, .exit "app" 2] 0 = [⟨"app", "build", asker 2, .proceed⟩] ∧
    t.signalsOf [.exit "app" 2, .exit "app" 1] 0 = [] ∧
    t.after [.exit "app" 2, .exit "app" 1] = t.after [.exit "app" 1, .exit "app" 2] ∧
    2 ∉ ((t.after [.exit "app" 1, .exit "app" 2]).segment "app" "build").holding := by
  have h := exits_in_any_order [ask 1 "build", ask 2 "build"] "app" [1, 2]
  refine ⟨by decide, by decide, h.1 [2, 1] fun o => ?_, fun hmem => ?_⟩
  · simp [or_comm]
  · exact ((h.2.1 "build").holding 2 |>.mp hmem).1 (by decide)

end SegmentGate
