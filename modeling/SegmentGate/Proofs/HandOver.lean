import SegmentGate.Proofs.Departures
import SegmentGate.Proofs.Isolation
import SegmentGate.Proofs.Outline

/-!
# Leaving segments

An execution leaves segments in two calls: when it enters a segment, or takes
the seat there, it leaves all others of the job (`entering_leaves_others`), and
when it exits it leaves all of them and the seats too (`exit_leaves_all`). Both
calls are one walk over the segments of the job in the order of their names. At
a segment that the execution holds, the walk takes it out and lets the waiter
in (`Segment.HandedOn`), with one `proceed` queued for the waiter; everything
else stays.

The signals of a walk are told by what is in them (`Table.Promotes`) and by
their order (`InNameOrder`), which leaves no room for a second signal to the
same segment.
-/
namespace SegmentGate

open KeyOrder (before)

variable {σ κ : Type}

/-! ## One segment -/

/-- The holder `o` has left, and the waiter, if there was one, has its place. -/
structure Segment.HandedOn (o : Ordinal) (s s' : Segment κ) : Prop where
  gone : o ∉ s'.holding
  holding : ∀ x, x ∈ s'.holding ↔ (x ≠ o ∧ x ∈ s.holding) ∨ s.waitingOrdinal = some x
  free : s'.waiting = none
  limit : s'.limit = s.limit

theorem Segment.Apart.handedOn {s : Segment κ} {o : Ordinal} (hs : s.Apart) (ho : o ∈ s.holding) :
    s.HandedOn o (s.depart o) := by
  have hholding (x : Ordinal) : x ∈ (s.depart o).holding ↔
      (x ≠ o ∧ x ∈ s.holding) ∨ s.waitingOrdinal = some x :=
    mem_holding_depart.trans or_comm
  refine ⟨fun h => ?_, hholding, s.waiting_depart o, s.limit_depart o⟩
  rcases (hholding o).mp h with ⟨hne, -⟩ | hw
  · exact hne rfl
  · exact hs.not_mem hw ho

section Walk
variable {job name : String} {o : Ordinal} {s : Segment κ}

theorem mem_signals_departFrom {x : Signal κ} : x ∈ (departFrom job o name s).2.signals ↔
    o ∈ s.holding ∧ ∃ v, s.waiting = some v ∧ x = ⟨job, name, v, .proceed⟩ := by
  by_cases ho : o ∈ s.holding
  · rw [(departFrom_of_mem job name ho).2, mem_proceedOf]
    simp [ho]
  · rw [departFrom_of_not_mem ho]
    simp [ho]

/-- A seat is cleared silently. -/
theorem signals_leave :
    (leave job o name s).2.signals = (departFrom job o name s).2.signals := by
  unfold leave
  split
  · rfl
  · rename_i ho
    rw [departFrom_of_not_mem (by simpa using ho)]
    split <;> rfl

theorem length_signals_departFrom : (departFrom job o name s).2.signals.length ≤ 1 := by
  unfold departFrom
  split
  · cases s.waiting <;> simp [Consequences.released, Consequences.promoted]
  · simp

theorem leave_of_neither (ho : o ∉ s.holding) (hw : s.waitingOrdinal ≠ some o) :
    leave job o name s = (s, ∅) := by
  rw [leave, if_neg (by simpa using ho), if_neg hw]

end Walk

/-! ## The signals of a walk -/

/-- The signals are about different segments, in the order of their names. -/
def InNameOrder (xs : List (Signal κ)) : Prop :=
  xs.Pairwise fun a b => before a.segment b.segment = true

/-- The signal lets in who waits for a segment that `o` holds. -/
structure Table.Promotes (t : Table κ) (job : String) (o : Ordinal) (x : Signal κ) : Prop where
  about : x.job = job
  verdict : x.verdict = .proceed
  held : o ∈ (t.segment job x.segment).holding
  waiter : (t.segment job x.segment).waiting = some x.waiter

/-- A walk that says one thing at most at each segment speaks in the order of
their names. -/
theorem JobSegments.inNameOrder_forEach {f : String → Segment κ → Segment κ × Consequences κ}
    (job : String) (habout : ∀ n s, (f n s).2.About job n)
    (hone : ∀ n s, (f n s).2.signals.length ≤ 1) (ss : JobSegments κ) :
    InNameOrder (ss.forEach f).2.signals := by
  simp only [InNameOrder, JobSegments.forEach, Consequences.signals_join, List.flatMap_map]
  refine List.pairwise_flatMap.mpr ⟨fun e _ => ?_, ss.sorted.imp fun {a b} hab x hx y hy => ?_⟩
  · have hone := hone e.1 e.2
    generalize (f e.1 e.2).2.signals = xs at hone ⊢
    rcases xs with _ | ⟨x, _ | ⟨y, xs⟩⟩
    · exact .nil
    · exact List.pairwise_singleton _ x
    · simp at hone
  · rw [(habout _ _ x hx).2, (habout _ _ y hy).2]
    exact hab

theorem Consequences.mem_signalsAt_self {c : Consequences κ} {x : Signal κ} :
    x ∈ c.signalsAt x.job x.segment ↔ x ∈ c.signals := by
  simp [mem_signalsAt]

section Table
variable {t : Table κ} {job : String} {o : Ordinal}

theorem Table.promotes_iff {x : Signal κ} : t.Promotes job o x ↔
    x.job = job ∧ x ∈ (departFrom job o x.segment (t.segment job x.segment)).2.signals := by
  rw [mem_signals_departFrom]
  constructor
  · rintro ⟨rfl, hverdict, hheld, hwaiter⟩
    refine ⟨rfl, hheld, _, hwaiter, ?_⟩
    cases x
    cases hverdict
    rfl
  · rintro ⟨hjob, hheld, v, hv, hx⟩
    refine ⟨hjob, by rw [hx], hheld, ?_⟩
    rw [hv, hx]

theorem mem_signals_leaveOthers {except : String} {x : Signal κ} :
    x ∈ (leaveOthers job except o (t.job job)).2.signals ↔
      t.Promotes job o x ∧ x.segment ≠ except := by
  rw [← Consequences.mem_signalsAt_self, signalsAt_leaveOthers, Table.promotes_iff]
  split
  · rename_i h
    obtain ⟨rfl, hne⟩ := h
    simp [hne]
  · rename_i h
    simp only [List.not_mem_nil, false_iff]
    exact fun hx => h ⟨hx.1.1, hx.2⟩

theorem inNameOrder_leaveOthers (except : String) (ss : JobSegments κ) :
    InNameOrder (leaveOthers job except o ss).2.signals := by
  refine JobSegments.inNameOrder_forEach job (fun n s => ?_) (fun n s => ?_) ss
  · split
    · simp [Consequences.About]
    · exact about_departFrom job o n s
  · split
    · simp
    · exact length_signals_departFrom

theorem mem_signals_exit {x : Signal κ} :
    x ∈ (exit t job o).consequences.signals ↔ t.Promotes job o x := by
  rw [← Consequences.mem_signalsAt_self, signalsAt_exit, Table.promotes_iff, signals_leave]
  split
  · rename_i hjob
    subst hjob
    simp
  · rename_i hjob
    simp [hjob]

theorem inNameOrder_exit : InNameOrder (exit t job o).consequences.signals := by
  unfold exit
  cases t.job? job with
  | none => exact List.Pairwise.nil
  | some ss =>
    refine JobSegments.inNameOrder_forEach job (about_leave job o) (fun n s => ?_) ss
    rw [signals_leave]
    exact length_signals_departFrom

end Table

/-! ## Entering leaves all others -/

/-- What becomes of the rest of the table when `o` leaves all segments of the
job but one. -/
structure Table.OthersLeft (t : Table κ) (job except : String) (o : Ordinal) (t' : Table κ) :
    Prop where
  gone : ∀ n, n ≠ except → o ∉ (t'.segment job n).holding
  handed : ∀ n, n ≠ except → o ∈ (t.segment job n).holding → ∃ s s',
    t.segment? job n = some s ∧ t'.segment? job n = some s' ∧ s.HandedOn o s'
  kept : ∀ n, n ≠ except → o ∉ (t.segment job n).holding →
    t'.segment? job n = t.segment? job n
  limits : ∀ j n, ¬ (j = job ∧ n = except) → (t'.segment j n).limit = (t.segment j n).limit
  jobs : ∀ j, j ≠ job → t'.job? j = t.job? j

/-- A segment that is not as a new one is known. -/
theorem Table.segment?_of_ne {t : Table κ} {job n : String} (h : t.segment job n ≠ {}) :
    t.segment? job n = some (t.segment job n) := by
  cases hs : t.segment? job n with
  | none => exact absurd (by rw [segment, hs, Option.getD_none]) h
  | some s => rw [segment, hs, Option.getD_some]

theorem Table.segment?_of_mem {t : Table κ} {job n : String} {o : Ordinal}
    (h : o ∈ (t.segment job n).holding) : t.segment? job n = some (t.segment job n) :=
  segment?_of_ne fun e => by
    rw [e] at h
    cases h

/-- A change that does nothing to a segment does nothing, be it known or not. -/
theorem Table.map_segment?_eq_self {t : Table κ} {job n : String} {f : Segment κ → Segment κ}
    (h : f (t.segment job n) = t.segment job n) :
    (t.segment? job n).map f = t.segment? job n := by
  cases hs : t.segment? job n with
  | none => rfl
  | some s =>
    rw [segment, hs, Option.getD_some] at h
    rw [Option.map_some, h]

theorem Table.othersLeft {t t' : Table κ} {job except : String} {o : Ordinal} (ht : t.Apart)
    (hsegments : ∀ n, n ≠ except →
      t'.segment? job n = (t.segment? job n).map fun s => (departFrom job o n s).1)
    (hjobs : ∀ j, j ≠ job → t'.job? j = t.job? j) : t.OthersLeft job except o t' := by
  have hheld {n : String} (hn : n ≠ except) (ho : o ∈ (t.segment job n).holding) :
      t'.segment? job n = some ((t.segment job n).depart o) := by
    rw [hsegments n hn, segment?_of_mem ho, Option.map_some, (departFrom_of_mem job n ho).1]
  have hkept {n : String} (hn : n ≠ except) (ho : o ∉ (t.segment job n).holding) :
      t'.segment? job n = t.segment? job n := by
    rw [hsegments n hn, map_segment?_eq_self (by rw [departFrom_of_not_mem ho])]
  constructor
  · intro n hn
    by_cases ho : o ∈ (t.segment job n).holding
    · rw [segment, hheld hn ho]
      exact ((ht job n).handedOn ho).gone
    · rwa [segment, hkept hn ho]
  · exact fun n hn ho => ⟨_, _, segment?_of_mem ho, hheld hn ho, (ht job n).handedOn ho⟩
  · exact fun n => hkept
  · intro j n hjn
    by_cases hj : j = job
    · subst hj
      have hn : n ≠ except := fun hn => hjn ⟨rfl, hn⟩
      by_cases ho : o ∈ (t.segment j n).holding
      · rw [segment, hheld hn ho]
        exact (t.segment j n).limit_depart o
      · rw [segment, hkept hn ho, segment]
    · rw [segment, segment, segment?_congr (hjobs j hj)]
  · exact hjobs

section Enter
variable {t : Table κ} {job : String} {w : Waiter κ} {target : Target}

/-- The caller is told that it is in, or that it waits, if it has won the seat. -/
theorem won_of_answer {a : Admission} (ha : a ≠ .superseded)
    (h : (enter t job w target).answer = .ok a) :
    contest (t.segment job target.name).waiting w =
      .won w (t.segment job target.name).waiting := by
  cases hc : contest (t.segment job target.name).waiting w with
  | same =>
    rw [enter_of_same hc] at h
    cases h
  | won c l =>
    rcases contest_won hc with ⟨hw, rfl, rfl⟩ | ⟨v, hw, -, rfl, rfl⟩ | ⟨v, -, hlt, rfl, -⟩
    · rw [hw]
    · rw [hw]
    · rw [answer_enter hc, if_neg (UInt64.ne_of_lt hlt).symm] at h
      exact absurd (Except.ok.inj h).symm ha

theorem segment?_enter {c : Waiter κ} {l : Option (Waiter κ)}
    (h : contest (t.segment job target.name).waiting w = .won c l) {n : String}
    (hn : n ≠ target.name) : (enter t job w target).table.segment? job n =
      (t.segment? job n).map fun s => (departFrom job c.ordinal n s).1 := by
  rw [enter_of_won h]
  simp [Table.segment?, hn, leaveOthers, JobSegments.forEach]

theorem signals_place (name : String) (c : Waiter κ) (s : Segment κ) :
    (place job name c s).2.2.signals =
      if (place job name c s).2.1 = .admitted then [⟨job, name, c, .proceed⟩] else [] := by
  unfold place
  split <;> rfl

/-- The signals to the loser of the contest, to those let in elsewhere, and to
the winner. -/
theorem signals_enter_of_won {c : Waiter κ} {l : Option (Waiter κ)}
    (h : contest (t.segment job target.name).waiting w = .won c l) :
    (enter t job w target).consequences.signals =
      abortOf job target.name c.ordinal l ++
        (leaveOthers job target.name c.ordinal (t.job job)).2.signals ++
        (place job target.name c { t.segment job target.name with
          limit := target.limit, waiting := none }).2.2.signals := by
  rw [enter_of_won h]
  simp only [Consequences.signals_append]
  cases l <;> rfl

/-- The winner is told so if it is let in. -/
theorem signals_enter {c : Waiter κ} {l : Option (Waiter κ)} {a : Admission}
    (h : contest (t.segment job target.name).waiting w = .won c l) (hc : c.ordinal = w.ordinal)
    (hanswer : (enter t job w target).answer = .ok a) :
    (enter t job w target).consequences.signals =
      abortOf job target.name c.ordinal l ++
        (leaveOthers job target.name c.ordinal (t.job job)).2.signals ++
        (if a = .admitted then [⟨job, target.name, c, .proceed⟩] else []) := by
  rw [enter_of_won h] at hanswer
  simp only [hc, if_true] at hanswer
  rw [signals_enter_of_won h, signals_place, Except.ok.inj hanswer]

end Enter

/-- **Entering a segment leaves all others.** An execution that is let into a
segment, or takes its seat, holds no other segment of the job afterwards. Each
one that it held has been handed on; no other segment has changed, and no job.
The signals come in this order: the abort of whoever had the seat, one `proceed`
for each waiter let in elsewhere, and the caller's own. -/
theorem entering_leaves_others (k : Keeper σ κ) (s : Session σ κ) (hs : s.gate.locked = false)
    (ht : (s.table k).Apart) (job : String) (w : Waiter κ) (target : Target) {a : Admission}
    (ha : a = .admitted ∨ a = .parked)
    (h : (s.tell k (.enter job w target)).reply = some (.entered (.ok a))) :
    let t := s.table k
    t.OthersLeft job target.name w.ordinal ((s.call k (.enter job w target)).table k) ∧
    ∃ promoted : List (Signal κ), (s.tell k (.enter job w target)).signals =
        abortOf job target.name w.ordinal (t.segment job target.name).waiting ++ promoted ++
          (if a = .admitted then [⟨job, target.name, w, .proceed⟩] else []) ∧
      InNameOrder promoted ∧
      ∀ x, x ∈ promoted ↔ t.Promotes job w.ordinal x ∧ x.segment ≠ target.name := by
  intro t
  have hspec := Session.call_spec k (.enter job w target) s hs
  rw [hspec.tell] at h
  have hanswer : (enter t job w target).answer = .ok a := Reply.entered.inj (Option.some.inj h)
  have hwon := won_of_answer (by rcases ha with rfl | rfl <;> nofun) hanswer
  constructor
  · rw [Session.table_call k _ hs]
    refine Table.othersLeft ht (fun n hn => segment?_enter hwon hn) fun j hj => ?_
    exact job?_decide (by simpa [Request.isAbout] using hj.symm) _
  · refine ⟨(leaveOthers job target.name w.ordinal (t.job job)).2.signals, ?_,
      inNameOrder_leaveOthers _ _, fun x => mem_signals_leaveOthers⟩
    rw [hspec.tell]
    exact signals_enter hwon rfl hanswer

/-- #1 holds `build`, for which #2 waits, and asks for `test`, which #5 holds
and #0 waits for. It gets the seat of #0, and #2 gets its place. -/
theorem entering_leaves_others_of_parked :
    let k : Keeper SnapshotMemory Nat := SnapshotMemory.keeper
    let s := (Session.start 0 {}).after k
      [ask 1 "build", ask 2 "build", ask 5 "test", ask 0 "test"]
    s.gate.locked = false ∧ (s.table k).Apart ∧
      (s.tell k (ask 1 "test")).reply = some (.entered (.ok .parked)) ∧
      (s.tell k (ask 1 "test")).signals =
        [⟨"app", "test", asker 0, .abort 1⟩, ⟨"app", "build", asker 2, .proceed⟩] ∧
      ∃ b b', (s.table k).segment? "app" "build" = some b ∧
        ((s.call k (ask 1 "test")).table k).segment? "app" "build" = some b' ∧
        b.HandedOn 1 b' := by
  intro k s
  have hs : s.gate.locked = false := Session.unlocked_after k rfl _
  have htable : s.table k = ({} : Table Nat).after
      [ask 1 "build", ask 2 "build", ask 5 "test", ask 0 "test"] := Session.table_after k rfl _
  have ht : (s.table k).Apart := by
    rw [htable]
    exact Table.apart_after _
  have htell := (Session.call_spec k (ask 1 "test") s hs).tell
  rw [htable] at htell
  have hreply : (s.tell k (ask 1 "test")).reply = some (.entered (.ok .parked)) := by
    rw [htell]
    rfl
  obtain ⟨hleft, -⟩ := entering_leaves_others k s hs ht "app" (asker 1) ⟨"test", .atMost 1⟩
    (.inr rfl) hreply
  refine ⟨hs, ht, hreply, ?_, hleft.handed "build" (by decide) ?_⟩
  · rw [htell]
    decide
  · rw [htable]
    decide

/-! ## Exiting leaves everything -/

section Exit
variable {t : Table κ} {job : String} {o : Ordinal}

/-- Neither a holder nor the waiter of any segment of the job. -/
def Table.Lacks (t : Table κ) (job : String) (o : Ordinal) : Prop :=
  ∀ n, o ∉ (t.segment job n).holding ∧ (t.segment job n).waitingOrdinal ≠ some o

theorem exit_of_lacks (h : t.Lacks job o) : exit t job o = ⟨t, 0, ∅⟩ := by
  unfold exit
  cases hj : t.job? job with
  | none => rfl
  | some ss =>
    have hout (n : String) (s : Segment κ) (hs : ss.get? n = some s) :
        o ∉ s.holding ∧ s.waitingOrdinal ≠ some o := by
      have hlacks := h n
      rwa [Table.segment_of_job? hj, hs] at hlacks
    have hself : ss.forEach (leave job o) = (ss, ∅) :=
      JobSegments.forEach_eq_self fun n s hs => leave_of_neither (hout n s hs).1 (hout n s hs).2
    have hcount : ss.entries.countP (fun e => e.2.holds o) = 0 :=
      List.countP_eq_zero.mpr fun e he => by
        simpa using (hout e.1 e.2 (SortedMap.get?_eq_some_iff.mpr he)).1
    simp only [hself, hcount, Table.putJob_eq_self hj]

theorem lacks_exit (ht : t.Apart) : (exit t job o).table.Lacks job o := by
  intro n
  have hleft : (t.segment job n).Vacated [o] ((exit t job o).table.segment job n) :=
    (vacated_exit ht o).segments n
  refine ⟨fun h => ((hleft.holding o).mp h).1 (List.mem_singleton_self o), fun h => ?_⟩
  obtain ⟨w, hw, rfl⟩ := Segment.waitingOrdinal_eq_some_iff.mp h
  exact ((hleft.waiting w).mp hw).2.1 (List.mem_singleton_self _)

/-- An exit that leaves the table as it is finds nothing of the execution. -/
theorem exit_changed_iff (ht : t.Apart) :
    (exit t job o).consequences.changed = true ↔ (exit t job o).table ≠ t := by
  constructor
  · intro hc hsame
    have hlacks : (exit t job o).table.Lacks job o := lacks_exit ht
    rw [hsame] at hlacks
    rw [exit_of_lacks hlacks] at hc
    cases hc
  · exact fun hne => by
      cases hc : (exit t job o).consequences.changed with
      | true => rfl
      | false => exact absurd (exit_eq_self hc) hne

theorem segment?_exit (n : String) : (exit t job o).table.segment? job n =
    (t.segment? job n).map fun s => (leave job o n s).1 := by
  unfold exit
  cases hj : t.job? job with
  | none => simp [Table.segment?, Table.job, hj]
  | some ss => simp [Table.segment?, Table.job, hj, JobSegments.forEach]

/-- The answer of an exit is the number of segments that it has found held. -/
theorem answer_exit (t : Table κ) (job : String) (o : Ordinal) : ∃ held : List String, held.Nodup ∧
    (∀ n, n ∈ held ↔ o ∈ (t.segment job n).holding) ∧ (exit t job o).answer = held.length := by
  refine ⟨((t.job job).entries.filter fun e => e.2.holds o).map Prod.fst, ?_, fun n => ?_, ?_⟩
  · refine List.pairwise_map.mpr ((t.job job).sorted.filter _ |>.imp fun h => ?_)
    exact KeyOrder.ne_of_before h
  · simp only [List.mem_map, List.mem_filter, Segment.holds_iff]
    constructor
    · rintro ⟨⟨n, x⟩, ⟨hx, ho⟩, rfl⟩
      rwa [Table.segment, Table.segment?, SortedMap.get?_eq_some_iff.mpr hx]
    · exact fun ho => ⟨(n, t.segment job n),
        ⟨SortedMap.get?_eq_some_iff.mp (Table.segment?_of_mem ho), ho⟩, rfl⟩
  · unfold exit
    cases hj : t.job? job with
    | none =>
      rw [Table.job, hj]
      rfl
    | some ss => simp [Table.job, hj, List.countP_eq_length_filter]

/-- What an exit leaves of a table. -/
structure Table.Left (t : Table κ) (job : String) (o : Ordinal) (t' : Table κ) : Prop where
  gone : t'.Lacks job o
  handed : ∀ n, o ∈ (t.segment job n).holding → ∃ s s',
    t.segment? job n = some s ∧ t'.segment? job n = some s' ∧ s.HandedOn o s'
  unseated : ∀ n, (t.segment job n).waitingOrdinal = some o →
    t'.segment? job n = some { t.segment job n with waiting := none }
  kept : ∀ n, o ∉ (t.segment job n).holding → (t.segment job n).waitingOrdinal ≠ some o →
    t'.segment? job n = t.segment? job n
  limits : ∀ j n, (t'.segment j n).limit = (t.segment j n).limit
  jobs : ∀ j, j ≠ job → t'.job? j = t.job? j

theorem left_exit (ht : t.Apart) : t.Left job o (exit t job o).table := by
  have hjobs (j : String) (hj : j ≠ job) : (exit t job o).table.job? j = t.job? j :=
    (vacated_exit ht o).others j hj
  constructor
  · exact lacks_exit ht
  · intro n ho
    refine ⟨_, _, Table.segment?_of_mem ho, ?_, (ht job n).handedOn ho⟩
    rw [segment?_exit, Table.segment?_of_mem ho, Option.map_some, leave,
      if_pos (Segment.holds_iff.mpr ho), (departFrom_of_mem job n ho).1]
  · intro n hw
    have hknown : t.segment? job n = some (t.segment job n) := Table.segment?_of_ne fun e => by
      rw [e] at hw
      cases hw
    have ho : ¬ (t.segment job n).holds o = true := by simpa using (ht job n).not_mem hw
    rw [segment?_exit, hknown, Option.map_some, leave, if_neg ho, if_pos hw]
  · intro n ho hw
    rw [segment?_exit, Table.map_segment?_eq_self (by rw [leave_of_neither ho hw])]
  · intro j n
    by_cases hj : j = job
    · subst hj
      exact ((vacated_exit ht o).segments n).limit
    · rw [Table.segment, Table.segment, Table.segment?_congr (hjobs j hj)]
  · exact hjobs

end Exit

/-- A call that decides nothing leaves the gate and its store as they were. -/
theorem Session.call_eq_self {k : Keeper σ κ} {s : Session σ κ} {r : Request κ} {t : Table κ}
    {a : Reply κ} (hgate : s.gate = ⟨some t, false⟩) (hr : r.decide t = ⟨t, a, ∅⟩) :
    s.call k r = s ∧
      s.tell k r = { reply := some a, events := [], signals := [], saves := [] } := by
  have hspec := call_spec k r s (by rw [hgate])
  have htable : s.table k = t := by rw [table, hgate, Option.getD_some]
  have htell : s.tell k r = { reply := some a, events := [], signals := [], saves := [] } := by
    rw [hspec.tell, htable, hr]
    rfl
  have hnext : (s.call k r).next = s.next := by
    rw [hspec.next, decisionSeq, saveReports, htell, announcement, hgate]
    rfl
  have hstore : (s.call k r).store = s.store := by
    rw [hspec.store, htable, hr]
    rfl
  have hsame : (s.call k r).gate = s.gate := by rw [hspec.gate, htable, hr, hgate]
  refine ⟨?_, htell⟩
  show Session.mk (s.call k r).next (s.call k r).gate (s.call k r).store = s
  rw [hnext, hsame, hstore]

/-- **Exiting leaves everything.** After an exit the execution has no place in
any segment of the job, and the answer is the number of segments that it held.
Each of these has been handed on, with one `proceed` queued for its waiter and
no other signal; a seat that it had is empty; nothing else has changed. The
table is saved if the exit has changed it, and only then. To exit once more is
answered with 0 and does nothing at all. -/
theorem exit_leaves_all (k : Keeper σ κ) (s : Session σ κ) (hs : s.gate.locked = false)
    (ht : (s.table k).Apart) (job : String) (o : Ordinal) :
    let r : Request κ := .exit job o
    let t := s.table k
    let s' := s.call k r
    let t' := s'.table k
    let out := s.tell k r
    t.Left job o t' ∧
    (∃ held : List String, held.Nodup ∧ (∀ n, n ∈ held ↔ o ∈ (t.segment job n).holding) ∧
      out.reply = some (.exited held.length)) ∧
    (InNameOrder out.signals ∧ (∀ x, x ∈ out.signals ↔ t.Promotes job o x) ∧
      ∀ x ∈ out.signals, x.waiter.ordinal ≠ o) ∧
    ((t' = t → out.saves = [] ∧ s'.store = s.store) ∧
      (t' ≠ t → out.saves = [(k.save t' s.store).2] ∧ s'.store = (k.save t' s.store).1)) ∧
    s'.call k r = s' ∧
      s'.tell k r = { reply := some (.exited 0), events := [], signals := [], saves := [] } := by
  intro r t s' t' out
  have hspec := Session.call_spec k r s hs
  have ht' : t' = (exit t job o).table := Session.table_call k r hs
  have hout : out = _ := hspec.tell
  have hchanged : (r.decide t).consequences.changed = true ↔ t' ≠ t := by
    rw [ht']
    exact exit_changed_iff ht
  have hmem (x : Signal κ) : x ∈ out.signals ↔ t.Promotes job o x := by
    rw [hout]
    exact mem_signals_exit
  refine ⟨ht' ▸ left_exit ht, ?_, ⟨?_, hmem, fun x hx => ?_⟩, ⟨fun h => ?_, fun h => ?_⟩, ?_⟩
  · obtain ⟨held, hnodup, hheld, hanswer⟩ := answer_exit t job o
    exact ⟨held, hnodup, hheld, by rw [hout, ← hanswer]; rfl⟩
  · rw [hout]
    exact inNameOrder_exit
  · -- Who is let in had waited for a segment that the execution holds.
    have hx := (hmem x).mp hx
    exact fun e => ht job x.segment x.waiter hx.waiter (e ▸ hx.held)
  · have hc : ¬ (r.decide t).consequences.changed = true := fun hc => hchanged.mp hc h
    exact ⟨by rw [hout, if_neg hc], by rw [hspec.store, if_neg hc]⟩
  · have hc : (r.decide t).consequences.changed = true := hchanged.mpr h
    rw [hout, hspec.store, if_pos hc, if_pos hc, ht']
    exact ⟨rfl, rfl⟩
  · refine Session.call_eq_self (t := t') (by rw [hspec.gate, ht']; rfl) ?_
    have hlacks : t'.Lacks job o := ht' ▸ lacks_exit ht
    simp only [r, Request.decide, exit_of_lacks hlacks]

/-- #1 holds `build`, for which #2 waits. When #1 exits, #2 is let in. -/
theorem exit_leaves_all_of_one :
    let k : Keeper SnapshotMemory Nat := SnapshotMemory.keeper
    let s := (Session.start 0 {}).after k [ask 1 "build", ask 2 "build"]
    let s' := s.call k (.exit "app" 1)
    s.gate.locked = false ∧ (s.table k).Apart ∧ (s'.table k).Lacks "app" 1 ∧
      (s.tell k (.exit "app" 1)).signals = [⟨"app", "build", asker 2, .proceed⟩] ∧
      (s.tell k (.exit "app" 1)).saves = [.ok ()] ∧
      s'.tell k (.exit "app" 1) =
        { reply := some (.exited 0), events := [], signals := [], saves := [] } := by
  intro k s s'
  have hs : s.gate.locked = false := Session.unlocked_after k rfl _
  have htable : s.table k = ({} : Table Nat).after [ask 1 "build", ask 2 "build"] :=
    Session.table_after k rfl _
  have ht : (s.table k).Apart := by
    rw [htable]
    exact Table.apart_after _
  obtain ⟨hleft, -, -, ⟨-, hsaved⟩, -, hagain⟩ := exit_leaves_all k s hs ht "app" 1
  refine ⟨hs, ht, hleft.gone, ?_, (hsaved ?_).1, hagain⟩
  · rw [(Session.call_spec k _ s hs).tell, htable]
    decide
  · rw [Session.table_call k _ hs, htable]
    decide

end SegmentGate
