import SegmentGate.Gate.ReportQueue

/-!
# Slots for reports

The queue of completion reports has a number of slots. A queued report takes
one, and so does the promise to a caller who waits. `Sound` is what holds of
the slots at any time: there are not more taken than there are, callers wait
only while all are taken, and a closed queue is empty. Every operation keeps
it, and says what it makes of the queued reports: they leave at the front and
come at the end, whoever has waited meanwhile (`Becomes`).
-/
namespace SegmentGate.ReportQueue

/-! ## What holds of the slots -/

/-- A queue that was made for `n` reports. -/
structure Sound (n : Nat) (q : ReportQueue) : Prop where
  capacity : q.capacity = max 1 n
  bounded : q.load ≤ q.capacity
  waited : q.blocked ≠ [] → q.load = q.capacity
  drained : q.closed = true → q.queued = [] ∧ q.promised = [] ∧ q.blocked = []
  ended : q.loop = .ended → q.closed = true

theorem sound_new (n : Nat) : (new n).Sound n :=
  ⟨rfl, Nat.zero_le _, fun h => absurd rfl h, fun h => (by cases h), fun h => (by cases h)⟩

/-- After an operation on `q` the reports `rs` are queued; who waits, and who
was promised a slot, may have changed. -/
structure Becomes (q : ReportQueue) (rs : List Report) (q' : ReportQueue) : Prop where
  queued : q'.queued = rs
  loop : q'.loop = q.loop
  closed : q'.closed = q.closed
  sound : ∀ n, q.Sound n → q'.Sound n

section
variable {n : Nat} {q q' : ReportQueue} {r : Report}

/-- Free slots are promised until there is none or nobody waits. -/
theorem sound_promise (hcapacity : q.capacity = max 1 n) (hbounded : q.load ≤ q.capacity)
    (hdrained : q.closed = true → q.queued = [] ∧ q.promised = [] ∧ q.blocked = [])
    (hended : q.loop = .ended → q.closed = true) : q.promise.Sound n := by
  have hload : q.promise.load = q.load + min (q.capacity - q.load) q.blocked.length := by
    simp only [promise, load, List.length_append, List.length_take]
    omega
  refine ⟨hcapacity, ?_, fun hwait => ?_, fun hclosed => ?_, hended⟩
  · rw [hload]
    show _ ≤ q.capacity
    omega
  · have hmore : q.capacity - q.load < q.blocked.length := by
      simpa [promise] using hwait
    rw [hload]
    show _ = q.capacity
    omega
  · obtain ⟨hqueued, hpromised, hblocked⟩ := hdrained hclosed
    simp [promise, hqueued, hpromised, hblocked]

/-! ## Reporting -/

/-- The three answers to a report that does not wait. -/
theorem tryReport_cases (q : ReportQueue) (r : Report) :
    (q.closed = true ∧ q.tryReport r = .error .closed) ∨
    (q.closed = false ∧ q.capacity ≤ q.load ∧ q.tryReport r = .error .full) ∨
    (q.closed = false ∧ q.load < q.capacity ∧
      q.tryReport r = .ok { q with queued := q.queued ++ [r] }) := by
  unfold tryReport
  cases hclosed : q.closed with
  | true => exact .inl ⟨rfl, rfl⟩
  | false =>
    by_cases hfull : q.capacity ≤ q.load
    · exact .inr (.inl ⟨rfl, hfull, by simp [hfull]⟩)
    · exact .inr (.inr ⟨rfl, Nat.lt_of_not_le hfull, by simp [hfull]⟩)

theorem becomes_tryReport (h : q.tryReport r = .ok q') : q.Becomes (q.queued ++ [r]) q' := by
  rcases tryReport_cases q r with ⟨-, e⟩ | ⟨-, -, e⟩ | ⟨hopen, hroom, e⟩ <;> rw [e] at h <;> cases h
  refine ⟨rfl, rfl, rfl, fun n hs => ⟨hs.capacity, ?_, fun hwait => ?_, fun hclosed => ?_,
    hs.ended⟩⟩
  · simp only [load, List.length_append, List.length_singleton] at hroom ⊢
    omega
  · -- Nobody waits for a slot while one is free.
    have hfull := hs.waited hwait
    omega
  · rw [hopen] at hclosed
    cases hclosed

theorem tryReport_eq_closed_iff : q.tryReport r = .error .closed ↔ q.closed = true := by
  rcases tryReport_cases q r with ⟨h, e⟩ | ⟨h, -, e⟩ | ⟨h, -, e⟩ <;> simp [h, e]

/-- A caller is told that the queue is full exactly if all slots are taken. -/
theorem tryReport_eq_full_iff (hs : q.Sound n) :
    q.tryReport r = .error .full ↔ q.load = max 1 n := by
  have hcapacity := hs.capacity
  have hbounded := hs.bounded
  rcases tryReport_cases q r with ⟨h, e⟩ | ⟨h, hfull, e⟩ | ⟨h, hroom, e⟩
  · obtain ⟨hqueued, hpromised, -⟩ := hs.drained h
    refine iff_of_false (by simp [e]) ?_
    simp only [load, hqueued, hpromised, List.length_nil]
    omega
  · exact iff_of_true e (by omega)
  · exact iff_of_false (by simp [e]) (by omega)

theorem becomes_report_accepted (h : q.report r = (q', .accepted)) :
    q.Becomes (q.queued ++ [r]) q' := by
  unfold report at h
  split at h
  · rename_i hok
    cases h
    exact becomes_tryReport hok
  · cases h
  · cases h

/-- A caller who is not accepted at once waits, or is turned away. -/
theorem becomes_report_of_ne {a : Reported} (h : q.report r = (q', a)) (ha : a ≠ .accepted) :
    q.Becomes q.queued q' := by
  unfold report at h
  rcases tryReport_cases q r with ⟨-, e⟩ | ⟨hopen, hfull, e⟩ | ⟨-, -, e⟩ <;> rw [e] at h <;> cases h
  · exact ⟨rfl, rfl, rfl, fun n hs => hs⟩
  · refine ⟨rfl, rfl, rfl, fun n hs => ⟨hs.capacity, hs.bounded, fun _ => ?_, fun hclosed => ?_,
      hs.ended⟩⟩
    · exact Nat.le_antisymm hs.bounded hfull
    · rw [hopen] at hclosed
      cases hclosed
  · exact absurd rfl ha

/-! ## Callers who wait -/

theorem becomes_redeem {k : Nat} (h : q.redeem k = some (r, q')) :
    q.Becomes (q.queued ++ [r]) q' := by
  unfold redeem at h
  split at h
  · rename_i hk
    cases h
    obtain ⟨hlt, -⟩ := List.getElem?_eq_some_iff.mp hk
    -- The slot that was promised is the one that the report takes.
    have hload : ({ q with
        promised := q.promised.eraseIdx k, queued := q.queued ++ [r] } : ReportQueue).load =
        q.load := by
      simp only [load, List.length_append, List.length_singleton, List.length_eraseIdx_of_lt hlt]
      omega
    refine ⟨rfl, rfl, rfl, fun n hs => ⟨hs.capacity, ?_, fun hwait => ?_, fun hclosed => ?_,
      hs.ended⟩⟩
    · rw [hload]
      exact hs.bounded
    · rw [hload]
      exact hs.waited hwait
    · rw [(hs.drained hclosed).2.1] at hlt
      exact absurd hlt (Nat.not_lt_zero k)
  · cases h

/-- Who waits may go away. -/
theorem becomes_withdraw (q : ReportQueue) (k : Nat) : q.Becomes q.queued (q.withdraw k) := by
  refine ⟨rfl, rfl, rfl, fun n hs => ⟨hs.capacity, hs.bounded, fun hwait => ?_, fun hclosed => ?_,
    hs.ended⟩⟩
  · refine hs.waited fun hnone => hwait ?_
    simp [withdraw, hnone]
  · obtain ⟨hqueued, hpromised, hblocked⟩ := hs.drained hclosed
    exact ⟨hqueued, hpromised, by simp [withdraw, hblocked]⟩

/-- So may a caller who was promised a slot, which is then promised to another. -/
theorem becomes_forgo (q : ReportQueue) (k : Nat) : q.Becomes q.queued (q.forgo k) := by
  refine ⟨rfl, rfl, rfl, fun n hs => sound_promise hs.capacity ?_ ?_ hs.ended⟩
  · have hbounded := hs.bounded
    have hle := List.length_eraseIdx_le q.promised k
    simp only [load] at hbounded ⊢
    omega
  · intro hclosed
    obtain ⟨hqueued, hpromised, hblocked⟩ := hs.drained hclosed
    exact ⟨hqueued, by simp [hpromised], hblocked⟩

/-! ## The loop -/

/-- Only the first loop that starts has the reports. -/
theorem start_cases (q : ReportQueue) :
    (q.loop = .unstarted ∧ q.start = some { q with loop := .running }) ∨
      (q.loop ≠ .unstarted ∧ q.start = none) := by
  unfold start
  split
  · rename_i h
    exact .inl ⟨h, rfl⟩
  · rename_i h
    exact .inr ⟨h, rfl⟩

theorem Sound.run (hs : q.Sound n) : ({ q with loop := .running } : ReportQueue).Sound n :=
  { hs with ended := fun h => by cases h }

/-- The loop takes the report at the front. -/
theorem becomes_take (h : q.take = some (r, q')) :
    q.loop = .running ∧ ∃ rest, q.queued = r :: rest ∧ q.Becomes rest q' := by
  unfold take at h
  split at h
  · rename_i hloop
    split at h
    · rename_i front rest hqueued
      cases h
      refine ⟨hloop, rest, hqueued, rfl, rfl, rfl, fun n hs =>
        sound_promise hs.capacity ?_ ?_ hs.ended⟩
      · have hbounded := hs.bounded
        simp only [load, hqueued, List.length_cons] at hbounded ⊢
        omega
      · intro hclosed
        rw [(hs.drained hclosed).1] at hqueued
        cases hqueued
    · cases h
  · cases h

theorem Sound.close (hs : q.Sound n) : q.close.Sound n where
  capacity := hs.capacity
  bounded := Nat.zero_le _
  waited h := absurd rfl h
  drained _ := ⟨rfl, rfl, rfl⟩
  ended _ := rfl

theorem Sound.stop (hs : q.Sound n) : q.stop.Sound n := by
  unfold ReportQueue.stop
  split
  · exact { hs.close with ended := fun _ => rfl }
  · exact hs

end

end SegmentGate.ReportQueue
