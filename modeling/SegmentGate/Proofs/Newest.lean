import Mathlib.Data.List.Induction
import SegmentGate.Proofs.Run

/-!
# The newest contender

The seat of a segment goes to the newest contender. While the seat is taken,
each call for the segment is a contest between the caller and the seated one,
and the newer of the two goes on (`contest_won`): it stays seated, takes the
seat, or enters. So in every reachable table a waiter is at least as new as
all who asked for its segment since the seat was last empty, and it is one of
them (`newest_run`, by induction on the last call of the run).

The loser of a contest is aborted in the name of the winner. An abort is
queued in no other case, so a call queues at most one, and the winner has the
seat or the segment after it (`StepAt.abort`).
-/
namespace SegmentGate

variable {κ : Type}

/-! ## Contests -/

theorem contest_loser_older {seated : Option (Waiter κ)} {w c v : Waiter κ}
    (h : contest seated w = .won c (some v)) : v.ordinal < c.ordinal := by
  rcases contest_won h with ⟨-, -, e⟩ | ⟨s, -, hlt, rfl, e⟩ | ⟨s, -, hlt, rfl, e⟩
  · cases e
  · cases e
    exact hlt
  · cases e
    exact hlt

/-- The winner is the caller, and the seat was empty or its waiter is older; or
it is the seated one, and the caller is older. -/
theorem contest_winner_newest {seated : Option (Waiter κ)} {w c : Waiter κ} {l : Option (Waiter κ)}
    (h : contest seated w = .won c l) :
    (c = w ∧ ∀ v, seated = some v → v.ordinal < c.ordinal) ∨
    (seated = some c ∧ w.ordinal < c.ordinal) := by
  rcases contest_won h with ⟨rfl, rfl, -⟩ | ⟨s, rfl, hlt, rfl, -⟩ | ⟨s, rfl, hlt, rfl, -⟩
  · exact .inl ⟨rfl, fun v hv => by cases hv⟩
  · refine .inl ⟨rfl, fun v hv => ?_⟩
    cases hv
    exact hlt
  · exact .inr ⟨rfl, hlt⟩

/-! ## One call -/

section Step
variable {r : Request κ} {t : Table κ} {job name : String} {s s' : Segment κ}
  {sig : List (Signal κ)}

/-- A waiter after a call was seated before it, and is at least as new as the
caller if that asked for the segment; or it is the caller, and is newer than
who was seated. -/
theorem StepAt.waiter_newest (h : StepAt r t job name s sig s') {w : Waiter κ}
    (hw : s'.waiting = some w) :
    (s.waiting = some w ∧ ∀ e, r.asks? job name = some e → e.1.ordinal ≤ w.ordinal) ∨
    (∃ l, r.asks? job name = some (w, l)) ∧ ∀ v, s.waiting = some v → v.ordinal < w.ordinal := by
  cases h with
  | idle he =>
    refine .inl ⟨hw, fun e hask => ?_⟩
    rw [Request.asks?_eq_none he] at hask
    cases hask
  | left => simp at hw
  | unseated => cases hw
  | refused u target hr hn hwo =>
    subst hr hn
    refine .inl ⟨hw, fun e hask => ?_⟩
    rw [Request.asks?_enter] at hask
    cases hask
    obtain ⟨v, hv, ho⟩ := Segment.waitingOrdinal_eq_some_iff.mp hwo
    have hw : s.waiting = some w := hw
    rw [hw] at hv
    cases hv
    exact ho ▸ UInt64.le_refl _
  | entered => cases hw
  | parked u target c l hr hn hc =>
    subst hr hn
    cases hw
    rcases contest_winner_newest hc with ⟨rfl, hnew⟩ | ⟨hs, hlt⟩
    · exact .inr ⟨⟨target.limit, Request.asks?_enter job w target⟩, hnew⟩
    · refine .inl ⟨hs, fun e hask => ?_⟩
      rw [Request.asks?_enter] at hask
      cases hask
      exact UInt64.le_of_lt hlt

/-- An abort comes from a contest in a call for the segment: the victim is
older than the displacer, which has the seat or the segment afterwards. -/
theorem StepAt.abort (h : StepAt r t job name s sig s') {x : Signal κ} (hx : x ∈ sig) {o : Ordinal}
    (hv : x.verdict = .abort o) :
    r.entering = some (job, name) ∧ x.waiter.ordinal < o ∧
      (s'.waitingOrdinal = some o ∨ o ∈ s'.holding) ∧
      s'.waitingOrdinal ≠ some x.waiter.ordinal := by
  cases h with
  | idle => cases hx
  | left =>
    obtain ⟨v, -, rfl⟩ := mem_proceedOf.mp hx
    cases hv
  | unseated => cases hx
  | refused => cases hx
  | entered w target c l hr hn hc =>
    subst hr hn
    rcases List.mem_append.mp hx with hx | hx
    · obtain ⟨v, rfl, rfl⟩ := mem_abortOf.mp hx
      cases hv
      have hlt := contest_loser_older hc
      exact ⟨rfl, hlt, .inr (SortedSet.mem_insert.mpr (.inl rfl)), fun e => by cases e⟩
    · obtain ⟨v, -, rfl⟩ := mem_proceedOf.mp hx
      cases hv
  | parked w target c l hr hn hc =>
    subst hr hn
    obtain ⟨v, rfl, rfl⟩ := mem_abortOf.mp hx
    cases hv
    have hlt := contest_loser_older hc
    refine ⟨rfl, hlt, .inl rfl, fun e => ?_⟩
    rw [show c.ordinal = v.ordinal from Option.some.inj e] at hlt
    exact UInt64.lt_irrefl _ hlt

/-- The aborts among the signals of a call. -/
def Consequences.aborts (c : Consequences κ) : List (Signal κ) :=
  c.signals.filter fun x => decide (x.verdict ≠ .proceed)

theorem StepAt.aborts_le_one (h : StepAt r t job name s sig s') :
    (sig.filter fun x => decide (x.verdict ≠ .proceed)).length ≤ 1 := by
  cases h with
  | idle => simp
  | left => cases s.waiting <;> simp [proceedOf]
  | unseated => simp
  | refused => simp
  | entered w target c l => cases l <;> simp [abortOf, proceedOf]
  | parked w target c l => cases l <;> simp [abortOf]

/-- All aborts of a call are about the segment that it asks for. -/
theorem entering_of_abort {x : Signal κ} (hx : x ∈ (r.decide t).consequences.signals)
    (hv : x.verdict ≠ .proceed) : r.entering = some (x.job, x.segment) := by
  have hstep := stepAt r t x.job x.segment
  cases hd : x.verdict with
  | proceed => exact absurd hd hv
  | abort o => exact (hstep.abort (Consequences.mem_signalsAt.mpr ⟨hx, rfl, rfl⟩) hd).1

theorem aborts_eq_nil (h : r.entering = none) : (r.decide t).consequences.aborts = [] := by
  refine List.filter_eq_nil_iff.mpr fun x hx hv => ?_
  rw [entering_of_abort hx (by simpa using hv)] at h
  cases h

theorem aborts_length_le_one (r : Request κ) (t : Table κ) :
    (r.decide t).consequences.aborts.length ≤ 1 := by
  cases he : r.entering with
  | none => simp [aborts_eq_nil he]
  | some jn =>
    have hat : (r.decide t).consequences.aborts =
        ((r.decide t).consequences.signalsAt jn.1 jn.2).filter
          fun x => decide (x.verdict ≠ .proceed) := by
      refine Consequences.filter_signals fun x hx hv => ?_
      have := entering_of_abort hx (by simpa using hv)
      rw [he] at this
      cases this
      exact ⟨rfl, rfl⟩
    rw [hat]
    exact (stepAt r t jn.1 jn.2).aborts_le_one

end Step

/-! ## Runs -/

/-- After `k` calls of the run the seat of the segment is empty, and from the
next call on it is taken. -/
structure Table.TakenSince (t : Table κ) (rs : List (Request κ)) (job name : String)
    (k : Nat) : Prop where
  lt : k < rs.length
  empty : ((t.after (rs.take k)).segment job name).waiting = none
  taken : ∀ m, k < m → m ≤ rs.length → ((t.after (rs.take m)).segment job name).waiting ≠ none

section Run
variable {t : Table κ} {rs : List (Request κ)} {r : Request κ} {job name : String}

/-- A further call that leaves the seat taken. -/
theorem Table.TakenSince.append {k : Nat} (h : t.TakenSince rs job name k)
    (hw : ((t.after (rs ++ [r])).segment job name).waiting ≠ none) :
    t.TakenSince (rs ++ [r]) job name k where
  lt := by
    have := h.lt
    rw [List.length_append]
    omega
  empty := by
    rw [after_take_append_left t rs [r] (Nat.le_of_lt h.lt)]
    exact h.empty
  taken m hk hm := by
    rw [List.length_append, List.length_singleton] at hm
    rcases Nat.lt_or_eq_of_le hm with hm | rfl
    · rw [after_take_append_left t rs [r] (by omega)]
      exact h.taken m hk (by omega)
    · rwa [List.take_of_length_le (by simp)]

/-- The call that takes the empty seat. -/
theorem Table.takenSince_length (h0 : ((t.after rs).segment job name).waiting = none)
    (hw : ((t.after (rs ++ [r])).segment job name).waiting ≠ none) :
    t.TakenSince (rs ++ [r]) job name rs.length where
  lt := by simp
  empty := by rwa [List.take_left]
  taken m hk hm := by
    rw [List.length_append, List.length_singleton] at hm
    obtain rfl : m = rs.length + 1 := by omega
    rwa [List.take_of_length_le (by simp)]

theorem asked_drop_append {k : Nat} (hk : k ≤ rs.length) :
    asked job name ((rs ++ [r]).drop k) = asked job name (rs.drop k) ++ asked job name [r] := by
  rw [List.drop_append_of_le_length hk, asked_append]

theorem mem_asked_singleton {e : Waiter κ × Limit} :
    e ∈ asked job name [r] ↔ r.asks? job name = some e := by
  simp [asked, List.mem_filterMap]

/-- A waiter is the newest of those who asked for the segment since its seat
was last empty. -/
theorem newest_run (h0 : (t.segment job name).waiting = none) {w : Waiter κ}
    (hw : ((t.after rs).segment job name).waiting = some w) :
    ∃ k, t.TakenSince rs job name k ∧ (∃ l, (w, l) ∈ asked job name (rs.drop k)) ∧
      ∀ e ∈ asked job name (rs.drop k), e.1.ordinal ≤ w.ordinal := by
  induction rs using List.reverseRecOn generalizing w with
  | nil =>
    rw [show ((t.after []).segment job name).waiting = none from h0] at hw
    cases hw
  | append_singleton rs r ih =>
    have hstep := stepAt r (t.after rs) job name
    have hw' : ((r.decide (t.after rs)).table.segment job name).waiting = some w := by
      rwa [Table.after_append] at hw
    have hne : ((t.after (rs ++ [r])).segment job name).waiting ≠ none := by simp [hw]
    rcases hstep.waiter_newest hw' with ⟨hs, hle⟩ | ⟨⟨l, hask⟩, hnew⟩
    · -- The waiter was there before, and the caller does not surpass it.
      obtain ⟨k, hk, ⟨l, hmem⟩, hmax⟩ := ih hs
      refine ⟨k, hk.append hne, ⟨l, ?_⟩, fun e he => ?_⟩
      · rw [asked_drop_append (Nat.le_of_lt hk.lt)]
        exact List.mem_append_left _ hmem
      · rw [asked_drop_append (Nat.le_of_lt hk.lt)] at he
        rcases List.mem_append.mp he with he | he
        · exact hmax e he
        · exact hle e (mem_asked_singleton.mp he)
    · have hlast : ∀ e ∈ asked job name [r], e.1.ordinal ≤ w.ordinal := by
        intro e he
        rw [mem_asked_singleton, hask] at he
        cases he
        exact UInt64.le_refl _
      cases hs : ((t.after rs).segment job name).waiting with
      | none =>
        refine ⟨rs.length, Table.takenSince_length hs hne, ⟨l, ?_⟩, ?_⟩
        · rw [List.drop_left]
          exact mem_asked_singleton.mpr hask
        · rw [List.drop_left]
          exact hlast
      | some v =>
        -- The caller surpasses the one that was the newest so far.
        obtain ⟨k, hk, -, hmax⟩ := ih hs
        refine ⟨k, hk.append hne, ⟨l, ?_⟩, fun e he => ?_⟩
        · rw [asked_drop_append (Nat.le_of_lt hk.lt)]
          exact List.mem_append_right _ (mem_asked_singleton.mpr hask)
        · rw [asked_drop_append (Nat.le_of_lt hk.lt)] at he
          rcases List.mem_append.mp he with he | he
          · exact UInt64.le_trans (hmax e he) (UInt64.le_of_lt (hnew v hs))
          · exact hlast e he

end Run

/-- **The newest contender.** In every table that calls reach from the empty
one, a waiter is the newest of those who asked for its segment since the seat
was last empty. On every table, a call queues at most one abort, and an exit
none; who is aborted is older than who displaces it, has not got the seat
after the call, and the displacer has the seat or the segment. -/
theorem newest_contender :
    (∀ (rs : List (Request κ)) (job name : String) (w : Waiter κ),
      ((({} : Table κ).after rs).segment job name).waiting = some w →
      ∃ k, ({} : Table κ).TakenSince rs job name k ∧
        (∃ l, (w, l) ∈ asked job name (rs.drop k)) ∧
        ∀ e ∈ asked job name (rs.drop k), e.1.ordinal ≤ w.ordinal) ∧
    (∀ (t : Table κ) (r : Request κ), (r.decide t).consequences.aborts.length ≤ 1 ∧
      ∀ (x : Signal κ) (o : Ordinal), x ∈ (r.decide t).consequences.signals →
        x.verdict = .abort o →
        let s' := (r.decide t).table.segment x.job x.segment
        x.waiter.ordinal < o ∧ (s'.waitingOrdinal = some o ∨ o ∈ s'.holding) ∧
          s'.waitingOrdinal ≠ some x.waiter.ordinal) ∧
    (∀ (t : Table κ) (job : String) (o : Ordinal),
      ((Request.exit job o).decide t).consequences.aborts = []) := by
  refine ⟨fun rs job name w hw => newest_run rfl hw, fun t r => ?_, fun t job o => ?_⟩
  · refine ⟨aborts_length_le_one r t, fun x o hx hv => ?_⟩
    exact ((stepAt r t x.job x.segment).abort
      (Consequences.mem_signalsAt.mpr ⟨hx, rfl, rfl⟩) hv).2
  · exact aborts_eq_nil rfl

/-- #1 builds and #3 waits. #2 asks to build and gives way to #3, which is
still the newest since the seat was empty. -/
theorem newest_contender_of_three :
    let t := ({} : Table Nat).after [ask 1 "build", ask 3 "build"]
    let d := (ask 2 "build").decide t
    (d.table.segment "app" "build").waiting = some (asker 3) ∧
    (∃ k, ({} : Table Nat).TakenSince [ask 1 "build", ask 3 "build", ask 2 "build"]
        "app" "build" k ∧
      (∃ l, (asker 3, l) ∈
        asked "app" "build" ([ask 1 "build", ask 3 "build", ask 2 "build"].drop k)) ∧
      ∀ e ∈ asked "app" "build" ([ask 1 "build", ask 3 "build", ask 2 "build"].drop k),
        e.1.ordinal ≤ 3) ∧
    d.consequences.signals = [⟨"app", "build", asker 2, .abort 3⟩] ∧ (2 : Ordinal) < 3 := by
  intro t d
  have hsig : d.consequences.signals = [⟨"app", "build", asker 2, .abort 3⟩] := by decide
  have hmem : ⟨"app", "build", asker 2, .abort 3⟩ ∈ d.consequences.signals := by
    rw [hsig]
    exact List.mem_singleton_self _
  refine ⟨by decide, ?_, hsig, ?_⟩
  · exact newest_contender.1 [ask 1 "build", ask 3 "build", ask 2 "build"] "app" "build"
      (asker 3) (by decide)
  · exact ((newest_contender.2.1 t (ask 2 "build")).2 _ 3 hmem rfl).1

end SegmentGate
