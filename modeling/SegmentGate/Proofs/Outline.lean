import SegmentGate.Proofs.Relabel

/-!
# The outline of a table

The gate decides by who holds and who waits. It never reads the limit that a
call finds in a segment: a waiter follows whoever leaves whatever the limit is,
and an execution that asks for a segment brings a limit that is written before
any is read. What is left of a table without limits and live capabilities is
its `outline`; a table without limits only is `unlimited`.

`decide_outline`: on tables of one outline, a call gets decisions of one
outline, that is, with the same answer, the same events, and the same signals
but for live capabilities. `outline_eq_of_unchanged`: a call that leaves
nothing to save leaves the outline as it was, even where it was refused and has
overwritten a limit.
-/
namespace SegmentGate

variable {κ : Type}

/-! ## Outlines -/

/-- What a restart does to waiters. -/
def forgetting : Relabelling κ κ := ⟨Waiter.forget, fun _ => rfl⟩

def Segment.unlimited (s : Segment κ) : Segment κ := { s with limit := .unbounded }

def Segment.outline (s : Segment κ) : Segment κ := s.forget.unlimited

def Table.unlimited (t : Table κ) : Table κ := t.map Segment.unlimited

/-- Who holds and who waits. -/
def Table.outline (t : Table κ) : Table κ := t.map Segment.outline

def Signal.forget (s : Signal κ) : Signal κ := { s with waiter := s.waiter.forget }

/-- Limits and capabilities are seen only in what is shown of a table. -/
def Reply.outline : Reply κ → Reply κ
  | .entered result => .entered result
  | .exited n => .exited n
  | .snapshot t => .snapshot t.outline
  | .segment s => .segment (s.map Segment.outline)

def Reply.unlimited : Reply κ → Reply κ
  | .entered result => .entered result
  | .exited n => .exited n
  | .snapshot t => .snapshot t.unlimited
  | .segment s => .segment (s.map Segment.unlimited)

def Decision.unlimited (d : Decision κ (Reply κ)) : Decision κ (Reply κ) :=
  ⟨d.table.unlimited, d.answer.unlimited, d.consequences⟩

def Decision.outline (d : Decision κ (Reply κ)) : Decision κ (Reply κ) :=
  ⟨d.table.outline, d.answer.outline, d.consequences.relabel forgetting⟩

theorem Table.unlimited_relabel (t : Table κ) : (t.relabel forgetting).unlimited = t.outline :=
  t.map_map _ _

theorem Table.unlimited_unlimited (t : Table κ) : t.unlimited.unlimited = t.unlimited :=
  t.map_map _ _

theorem JobSegments.unlimited_unlimited (ss : JobSegments κ) :
    JobSegments.map Segment.unlimited (JobSegments.map Segment.unlimited ss) =
      JobSegments.map Segment.unlimited ss :=
  SortedMap.mapValues_mapValues _ _ ss

theorem Reply.unlimited_relabel (a : Reply κ) :
    (a.relabel forgetting).unlimited = a.outline := by
  cases a with
  | entered => rfl
  | exited => rfl
  | snapshot t => exact congrArg Reply.snapshot t.unlimited_relabel
  | segment s => cases s <;> rfl

theorem Decision.unlimited_relabel (d : Decision κ (Reply κ)) :
    (d.relabel forgetting).unlimited = d.outline := by
  simp only [unlimited, relabel, outline, d.table.unlimited_relabel, d.answer.unlimited_relabel]

/-! ## Limits are not read -/

theorem departFrom_unlimited (job : String) (o : Ordinal) (name : String) (s : Segment κ) :
    departFrom job o name s.unlimited =
      ((departFrom job o name s).1.unlimited, (departFrom job o name s).2) := by
  unfold departFrom
  rw [show s.unlimited.holds o = s.holds o from rfl,
    show s.unlimited.waiting = s.waiting from rfl]
  split
  · cases h : s.waiting with
    | none => simp [Segment.depart, Segment.unlimited, h]
    | some w => simp [Segment.depart, Segment.unlimited, Segment.grant, h]
  · rfl

theorem leave_unlimited (job : String) (o : Ordinal) (name : String) (s : Segment κ) :
    leave job o name s.unlimited =
      ((leave job o name s).1.unlimited, (leave job o name s).2) := by
  unfold leave
  rw [show s.unlimited.holds o = s.holds o from rfl,
    show s.unlimited.waitingOrdinal = s.waitingOrdinal from rfl]
  split
  · exact departFrom_unlimited job o name s
  · split <;> rfl

theorem forEach_unlimited {g : String → Segment κ → Segment κ × Consequences κ}
    (h : ∀ n s, g n s.unlimited = ((g n s).1.unlimited, (g n s).2)) (ss : JobSegments κ) :
    (JobSegments.map Segment.unlimited ss).forEach g =
      (JobSegments.map Segment.unlimited (ss.forEach g).1, (ss.forEach g).2) :=
  JobSegments.forEach_map (c := id) (fun cs => by simp) h ss

theorem leaveOthers_unlimited (job except : String) (o : Ordinal) (ss : JobSegments κ) :
    leaveOthers job except o (JobSegments.map Segment.unlimited ss) =
      (JobSegments.map Segment.unlimited (leaveOthers job except o ss).1,
        (leaveOthers job except o ss).2) := by
  refine forEach_unlimited (fun n s => ?_) ss
  split
  · rfl
  · exact departFrom_unlimited job o n s

theorem exit_unlimited (t : Table κ) (job : String) (o : Ordinal) :
    exit t.unlimited job o =
      ⟨(exit t job o).table.unlimited, (exit t job o).answer, (exit t job o).consequences⟩ := by
  unfold exit
  rw [Table.unlimited, Table.job?_map]
  cases t.job? job with
  | none => rfl
  | some ss =>
    simp only [Option.map_some, forEach_unlimited (leave_unlimited job o), Table.unlimited,
      Table.map_putJob]
    congr 1
    simp only [JobSegments.map, SortedMap.mapValues, List.countP_map]
    rfl

/-- The limit that the call brings is the only one that is read. -/
theorem enter_unlimited (t : Table κ) (job : String) (w : Waiter κ) (target : Target) :
    (enter t.unlimited job w target).table.unlimited = (enter t job w target).table.unlimited ∧
      (enter t.unlimited job w target).answer = (enter t job w target).answer ∧
      (enter t.unlimited job w target).consequences = (enter t job w target).consequences := by
  have hs : t.unlimited.segment job target.name = (t.segment job target.name).unlimited :=
    t.segment_map rfl job target.name
  have hw : (t.unlimited.segment job target.name).waiting =
      (t.segment job target.name).waiting := by rw [hs]; rfl
  cases h : contest (t.segment job target.name).waiting w with
  | same =>
    rw [enter_of_same h, enter_of_same (hw ▸ h), hs]
    refine ⟨?_, rfl, rfl⟩
    simp only [Table.unlimited, Table.map_put]
    rw [← Table.unlimited, ← Table.unlimited, Table.unlimited_unlimited]
    rfl
  | won c l =>
    have hjob : t.unlimited.job job = JobSegments.map Segment.unlimited (t.job job) :=
      t.job_map _ job
    rw [enter_of_won h, enter_of_won (hw ▸ h), hs, hjob, leaveOthers_unlimited]
    refine ⟨?_, rfl, rfl⟩
    simp only [Table.unlimited, Table.map_putJob, JobSegments.map_insert]
    rw [← Table.unlimited, ← Table.unlimited, Table.unlimited_unlimited,
      JobSegments.unlimited_unlimited]
    rfl

/-- **Limits are not read.** What a call decides does not depend on the limits
that it finds. -/
theorem decide_unlimited (r : Request κ) (t : Table κ) :
    (r.decide t.unlimited).unlimited = (r.decide t).unlimited := by
  cases r with
  | enter job w target =>
    obtain ⟨htable, hanswer, hcons⟩ := enter_unlimited t job w target
    simp only [Request.decide, Decision.unlimited, htable, hanswer, hcons]
  | exit job o =>
    simp only [Request.decide, Decision.unlimited, exit_unlimited, Table.unlimited_unlimited]
  | snapshot =>
    simp only [Request.decide, Decision.unlimited, Reply.unlimited, Table.unlimited_unlimited]
  | segment job name =>
    simp only [Request.decide, Decision.unlimited, Reply.unlimited, Table.unlimited_unlimited]
    rw [Table.unlimited, Table.segment?_map, Option.map_map]
    rfl

/-- **The gate decides by the outline.** -/
theorem decide_outline (r : Request κ) (t : Table κ) :
    (r.decide t).outline = ((r.relabel forgetting).decide t.outline).unlimited := by
  rw [← Decision.unlimited_relabel, ← decide_relabel, ← t.unlimited_relabel, decide_unlimited]

theorem decide_outline_congr (r : Request κ) {t t' : Table κ} (h : t.outline = t'.outline) :
    (r.decide t).outline = (r.decide t').outline := by
  rw [decide_outline, decide_outline, h]

/-! ## Calls that leave nothing to save -/

theorem leave_eq_self {job : String} {o : Ordinal} {name : String} {s : Segment κ}
    (h : (leave job o name s).2.changed = false) : leave job o name s = (s, ∅) := by
  unfold leave departFrom at *
  split at h
  · simp [Consequences.released] at h
  · split at h
    · cases h
    · rename_i hh hw
      rw [if_neg hh, if_neg hw]

theorem exit_eq_self {t : Table κ} {job : String} {o : Ordinal}
    (h : (exit t job o).consequences.changed = false) : (exit t job o).table = t := by
  unfold exit at *
  cases hj : t.job? job with
  | none => rfl
  | some ss =>
    simp only [hj, JobSegments.forEach, Consequences.changed_join, List.any_map,
      List.any_eq_false, Function.comp_apply, Bool.not_eq_true] at h
    have hself : ss.forEach (leave job o) = (ss, ∅) :=
      JobSegments.forEach_eq_self fun n s hs =>
        leave_eq_self (h (n, s) (SortedMap.get?_eq_some_iff.mp hs))
    simp only [hself]
    exact Table.putJob_eq_self hj

/-- An execution that is not refused changes the table. -/
theorem enter_changed {t : Table κ} {job : String} {w c : Waiter κ} {l : Option (Waiter κ)}
    {target : Target} (h : contest (t.segment job target.name).waiting w = .won c l) :
    (enter t job w target).consequences.changed = true := by
  have hplace (s : Segment κ) : (place job target.name c s).2.2.changed = true := by
    unfold place
    split <;> rfl
  rw [enter_of_won h]
  simp [hplace]

/-- A call that leaves nothing to save changes a limit at most. -/
theorem unlimited_eq_of_unchanged {r : Request κ} {t : Table κ}
    (h : (r.decide t).consequences.changed = false) :
    (r.decide t).table.unlimited = t.unlimited := by
  cases r with
  | enter job w target =>
    cases hc : contest (t.segment job target.name).waiting w with
    | same =>
      -- Only the limit was overwritten, in a segment that was there.
      obtain ⟨s, hs⟩ : ∃ s, t.segment? job target.name = some s := by
        cases hs : t.segment? job target.name with
        | none =>
          rw [Table.segment, hs] at hc
          cases hc
        | some s => exact ⟨s, rfl⟩
      have hsegment : t.segment job target.name = s := by rw [Table.segment, hs]; rfl
      have hunlimited : t.unlimited.segment? job target.name = some s.unlimited := by
        rw [Table.unlimited, Table.segment?_map, hs]
        rfl
      simp only [Request.decide, enter_of_same hc, hsegment]
      exact (t.map_put _ _ _ _).trans (Table.put_eq_self hunlimited)
    | won c l =>
      rw [show ((Request.enter job w target).decide t).consequences.changed = true from
        enter_changed hc] at h
      cases h
  | exit job o => exact congrArg Table.unlimited (exit_eq_self h)
  | snapshot => rfl
  | segment job name => rfl

/-- **What is not saved is not seen.** A call that leaves nothing to save keeps
the outline of the table. -/
theorem outline_eq_of_unchanged {r : Request κ} {t : Table κ}
    (h : (r.decide t).consequences.changed = false) :
    (r.decide t).table.outline = t.outline := by
  have houtline (u : Table κ) : u.outline = u.unlimited.map Segment.forget :=
    (u.map_map Segment.unlimited Segment.forget).symm
  rw [houtline, houtline, unlimited_eq_of_unchanged h]

end SegmentGate
