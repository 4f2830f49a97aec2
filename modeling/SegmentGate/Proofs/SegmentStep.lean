import SegmentGate.Gate.Call

/-!
# What one call does to one segment

A call of the gate decides about all segments of a job at once: it walks
them in the order of their names, and the signals of the walk come out in one
list. `stepAt` takes a call apart by segment. For every table, call, job and
name, one of six things happens to the segment of that name (`StepAt`), and
its constructor gives the segment after the call and exactly the signals
queued for it:

* `idle`: nothing;
* `left`: the mover of the call was a holder and has left, and the waiter, if
  there is one, has its place;
* `unseated`: the waiter has exited;
* `refused`: the waiter asked for the segment again and only the limit is new;
* `entered`, `parked`: the call asked for the segment, and the winner of the
  contest for the seat is now a holder, or the waiter.

The *mover* of a call (`Request.mover`) is the execution that leaves segments
in it: the one that exits, or the winner of the contest, which is not always
the caller. One call has one mover for all segments of the job.

Everything proved about calls and runs rests on `stepAt`; the functions that
decide are unfolded here and nowhere else.
-/
namespace SegmentGate

variable {κ : Type}

/-! ## Signals of one segment -/

/-- The signals about one segment, in order. -/
def Consequences.signalsAt (c : Consequences κ) (job name : String) : List (Signal κ) :=
  c.signals.filter fun s => decide (s.job = job ∧ s.segment = name)

theorem Consequences.signalsAt_append (a b : Consequences κ) (job name : String) :
    (a ++ b).signalsAt job name = a.signalsAt job name ++ b.signalsAt job name := by
  simp [signalsAt]

@[simp] theorem Consequences.signals_empty : (∅ : Consequences κ).signals = [] := rfl

@[simp] theorem Consequences.signalsAt_empty (job name : String) :
    (∅ : Consequences κ).signalsAt job name = [] := rfl

theorem Consequences.mem_signalsAt {c : Consequences κ} {job name : String} {s : Signal κ} :
    s ∈ c.signalsAt job name ↔ s ∈ c.signals ∧ s.job = job ∧ s.segment = name := by
  simp [signalsAt]

/-- Signals that can only be about one segment are found among those about it. -/
theorem Consequences.filter_signals {c : Consequences κ} {p : Signal κ → Bool} {job name : String}
    (h : ∀ x ∈ c.signals, p x = true → x.job = job ∧ x.segment = name) :
    c.signals.filter p = (c.signalsAt job name).filter p := by
  rw [signalsAt, List.filter_filter]
  refine List.filter_congr fun x hx => ?_
  cases hp : p x with
  | false => rfl
  | true => simp [h x hx hp]

/-- All signals of `c` are about the segment `name` of `job`. -/
def Consequences.About (job name : String) (c : Consequences κ) : Prop :=
  ∀ s ∈ c.signals, s.job = job ∧ s.segment = name

theorem Consequences.About.signalsAt {c : Consequences κ} {job name : String}
    (h : c.About job name) (j n : String) :
    c.signalsAt j n = if j = job ∧ n = name then c.signals else [] := by
  unfold Consequences.signalsAt
  split
  · rename_i e
    obtain ⟨rfl, rfl⟩ := e
    exact List.filter_eq_self.mpr fun s hs => by simpa using h s hs
  · rename_i e
    refine List.filter_eq_nil_iff.mpr fun s hs => ?_
    obtain ⟨rfl, rfl⟩ := h s hs
    simpa using fun hj hn => e ⟨hj.symm, hn.symm⟩

theorem about_departFrom (job : String) (o : Ordinal) (name : String) (s : Segment κ) :
    (departFrom job o name s).2.About job name := by
  unfold departFrom
  split
  · cases s.waiting <;> simp [Consequences.About, Consequences.released, Consequences.promoted]
  · simp [Consequences.About]

theorem about_leave (job : String) (o : Ordinal) (name : String) (s : Segment κ) :
    (leave job o name s).2.About job name := by
  unfold leave
  split
  · exact about_departFrom job o name s
  · split <;> simp [Consequences.About, Consequences.seatCleared]

theorem about_place (job name : String) (c : Waiter κ) (s : Segment κ) :
    (place job name c s).2.2.About job name := by
  unfold place
  split <;> simp [Consequences.About, Consequences.admitted, Consequences.parked]

/-! ## Walks over the segments of a job -/

section Walk
variable {f : String → Segment κ → Segment κ × Consequences κ} {job : String}

theorem JobSegments.getD_forEach (h : ∀ n, (f n {}).1 = {}) (ss : JobSegments κ) (n : String) :
    ((ss.forEach f).1.get? n).getD {} = (f n ((ss.get? n).getD {})).1 := by
  simp only [JobSegments.forEach, SortedMap.get?_mapValues]
  cases ss.get? n with
  | none => exact (h n).symm
  | some s => rfl

/-- A walk that speaks about each segment as it passes it: the signals about
one segment are those made there. -/
theorem JobSegments.signalsAt_forEach (h : ∀ n s, (f n s).2.About job n)
    (hempty : ∀ n, (f n {}).2.signals = []) (ss : JobSegments κ) (j n : String) :
    (ss.forEach f).2.signalsAt j n =
      if j = job then (f n ((ss.get? n).getD {})).2.signals else [] := by
  simp only [Consequences.signalsAt, JobSegments.forEach, Consequences.signals_join,
    List.flatMap_map]
  split
  · rename_i hj
    rw [SortedMap.filter_flatMap_entries ss n (fun n s => (f n s).2.signals) _
      (fun k s x hx => by obtain ⟨rfl, rfl⟩ := h k s x hx; simp [hj])]
    cases ss.get? n with
    | none => exact (hempty n).symm
    | some s => rfl
  · rename_i hj
    refine List.filter_eq_nil_iff.mpr fun x hx => ?_
    obtain ⟨e, -, he⟩ := List.mem_flatMap.mp hx
    obtain ⟨rfl, -⟩ := h e.1 e.2 x he
    simpa using fun hj' => absurd hj'.symm hj

theorem Consequences.join_map_empty {α : Type} (l : List α) :
    join (l.map fun _ => (∅ : Consequences κ)) = ∅ := by
  induction l with
  | nil => rfl
  | cons a l ih =>
    rw [List.map_cons, join, List.foldr_cons, ← join, ih]
    rfl

/-- A walk that does nothing at the segments it passes does nothing. -/
theorem JobSegments.forEach_eq_self {ss : JobSegments κ}
    (h : ∀ n s, ss.get? n = some s → f n s = (s, ∅)) : ss.forEach f = (ss, ∅) := by
  refine Prod.ext (SortedMap.ext_get? fun n => ?_) ?_
  · simp only [JobSegments.forEach, SortedMap.get?_mapValues]
    cases hs : ss.get? n with
    | none => rfl
    | some s => rw [Option.map_some, h n s hs]
  · have hc : ∀ e ∈ ss.entries, (f e.1 e.2).2 = ∅ := fun e he => by
      rw [h e.1 e.2 (SortedMap.get?_eq_some_iff.mpr he)]
    show Consequences.join (ss.entries.map fun e => (f e.1 e.2).2) = ∅
    rw [List.map_congr_left hc]
    exact Consequences.join_map_empty ss.entries

end Walk

theorem leave_unknown (job : String) (o : Ordinal) (name : String) :
    leave job o name ({} : Segment κ) = ({}, ∅) := by
  rfl

/-! ## Exit, one segment at a time -/

theorem segment_exit (t : Table κ) (job : String) (o : Ordinal) (j n : String) :
    (exit t job o).table.segment j n =
      if j = job then (leave job o n (t.segment j n)).1 else t.segment j n := by
  unfold exit
  cases h : t.job? job with
  | none =>
    simp only
    split
    · rename_i hj
      subst hj
      simp [Table.segment, Table.segment?, Table.job, h, leave_unknown]
    · rfl
  | some ss =>
    simp only [Table.segment_putJob]
    split
    · rename_i hj
      subst hj
      rw [JobSegments.getD_forEach (fun n => by rw [leave_unknown]), Table.segment_of_job? h]
    · rfl

theorem signalsAt_exit (t : Table κ) (job : String) (o : Ordinal) (j n : String) :
    (exit t job o).consequences.signalsAt j n =
      if j = job then (leave job o n (t.segment j n)).2.signals else [] := by
  unfold exit
  cases h : t.job? job with
  | none =>
    simp only
    split
    · rename_i hj
      subst hj
      simp [Table.segment, Table.segment?, Table.job, h, leave_unknown, Consequences.signalsAt]
    · rfl
  | some ss =>
    simp only
    rw [JobSegments.signalsAt_forEach (about_leave job o) (fun n => by rw [leave_unknown]; rfl)]
    split
    · rename_i hj
      subst hj
      rw [Table.segment_of_job? h]
    · rfl

/-! ## Enter, one segment at a time -/

theorem contest_eq_same_iff {seated : Option (Waiter κ)} {w : Waiter κ} :
    contest seated w = .same ↔ seated.map Waiter.ordinal = some w.ordinal := by
  cases seated with
  | none => simp [contest]
  | some s =>
    simp only [contest, Option.map_some, Option.some.injEq]
    split
    · simp [*]
    · split <;> simp [*]

/-- The seat goes to the newer of the two. -/
theorem contest_won {seated : Option (Waiter κ)} {w c : Waiter κ} {l : Option (Waiter κ)}
    (h : contest seated w = .won c l) :
    (seated = none ∧ c = w ∧ l = none) ∨
    (∃ s, seated = some s ∧ s.ordinal < w.ordinal ∧ c = w ∧ l = some s) ∨
    (∃ s, seated = some s ∧ w.ordinal < s.ordinal ∧ c = s ∧ l = some w) := by
  cases seated with
  | none =>
    simp only [contest, Contest.won.injEq] at h
    exact .inl ⟨rfl, h.1.symm, h.2.symm⟩
  | some s =>
    simp only [contest] at h
    split at h
    · cases h
    · rename_i hne
      split at h
      · rename_i hlt
        cases h
        exact .inr (.inl ⟨s, rfl, UInt64.lt_iff_toNat_lt.mpr hlt, rfl, rfl⟩)
      · rename_i hge
        cases h
        have hne' : c.ordinal.toNat ≠ w.ordinal.toNat := fun e => hne (UInt64.toNat_inj.mp e)
        exact .inr (.inr ⟨c, rfl, UInt64.lt_iff_toNat_lt.mpr (by omega), rfl, rfl⟩)

/-- The segment that a call asks to enter. -/
def Request.entering : Request κ → Option (String × String)
  | .enter job _ target => some (job, target.name)
  | _ => none

/-- The execution that leaves segments in a call, with its job: the one that
exits, or the winner of the contest for the seat. -/
def Request.mover (t : Table κ) : Request κ → Option (String × Ordinal)
  | .enter job incoming target =>
    match contest (t.segment job target.name).waiting incoming with
    | .same => none
    | .won contender _ => some (job, contender.ordinal)
  | .exit job o => some (job, o)
  | _ => none

/-- The abort of the loser of a contest. -/
def abortOf (job name : String) (displacer : Ordinal) (loser : Option (Waiter κ)) :
    List (Signal κ) :=
  loser.toList.map fun w => ⟨job, name, w, .abort displacer⟩

/-- The signal that lets a waiter in. -/
def proceedOf (job name : String) (waiter : Option (Waiter κ)) : List (Signal κ) :=
  waiter.toList.map fun w => ⟨job, name, w, .proceed⟩

theorem mem_abortOf {job name : String} {o : Ordinal} {l : Option (Waiter κ)} {x : Signal κ} :
    x ∈ abortOf job name o l ↔ ∃ v, l = some v ∧ x = ⟨job, name, v, .abort o⟩ := by
  simp [abortOf, eq_comm]

theorem mem_proceedOf {job name : String} {l : Option (Waiter κ)} {x : Signal κ} :
    x ∈ proceedOf job name l ↔ ∃ v, l = some v ∧ x = ⟨job, name, v, .proceed⟩ := by
  simp [proceedOf, eq_comm]

theorem enter_of_same {t : Table κ} {job : String} {w : Waiter κ} {target : Target}
    (h : contest (t.segment job target.name).waiting w = .same) :
    enter t job w target =
      ⟨t.put job target.name { t.segment job target.name with limit := target.limit },
        .error (.reentered job target.name w.ordinal), .reentered job target.name w.ordinal⟩ := by
  simp only [enter, h]

theorem enter_of_won {t : Table κ} {job : String} {w c : Waiter κ} {l : Option (Waiter κ)}
    {target : Target} (h : contest (t.segment job target.name).waiting w = .won c l) :
    enter t job w target =
      let left := leaveOthers job target.name c.ordinal (t.job job)
      let placed := place job target.name c
        { t.segment job target.name with limit := target.limit, waiting := none }
      ⟨t.putJob job (left.1.insert target.name placed.1),
        .ok (if c.ordinal = w.ordinal then placed.2.1 else .superseded),
        l.elim ∅ (Consequences.superseded job target.name · c.ordinal) ++ left.2 ++
          placed.2.2⟩ := by
  cases l <;> simp only [enter, h, Option.elim]

theorem segment_enter {t : Table κ} {job : String} {w c : Waiter κ} {l : Option (Waiter κ)}
    {target : Target} (h : contest (t.segment job target.name).waiting w = .won c l)
    (j n : String) :
    (enter t job w target).table.segment j n =
      if j = job then
        if n = target.name then
          (place job n c { t.segment j n with limit := target.limit, waiting := none }).1
        else (departFrom job c.ordinal n (t.segment j n)).1
      else t.segment j n := by
  simp only [enter_of_won h, Table.segment_putJob]
  split
  · rename_i hj
    subst hj
    rw [SortedMap.get?_insert]
    split
    · rename_i hn
      subst hn
      rfl
    · rename_i hn
      rw [leaveOthers, JobSegments.getD_forEach (fun n => by split <;> rfl), if_neg hn]
      rfl
  · rfl

theorem signalsAt_leaveOthers (t : Table κ) (job except : String) (o : Ordinal) (j n : String) :
    (leaveOthers job except o (t.job job)).2.signalsAt j n =
      if j = job ∧ n ≠ except then (departFrom job o n (t.segment j n)).2.signals else [] := by
  have habout : ∀ (m : String) (s : Segment κ),
      (if m = except then (s, ∅) else departFrom job o m s).2.About job m := by
    intro m s
    split
    · simp [Consequences.About]
    · exact about_departFrom job o m s
  rw [leaveOthers, JobSegments.signalsAt_forEach habout (fun n => by split <;> rfl)]
  by_cases hj : j = job
  · subst hj
    by_cases hn : n = except
    · simp [hn]
    · simp [hn, Table.segment, Table.segment?]
  · simp [hj]

theorem signalsAt_enter {t : Table κ} {job : String} {w c : Waiter κ} {l : Option (Waiter κ)}
    {target : Target} (h : contest (t.segment job target.name).waiting w = .won c l)
    (j n : String) :
    (enter t job w target).consequences.signalsAt j n =
      if j = job then
        if n = target.name then
          abortOf j n c.ordinal l ++
            (place job n c
              { t.segment j n with limit := target.limit, waiting := none }).2.2.signals
        else (departFrom job c.ordinal n (t.segment j n)).2.signals
      else [] := by
  have hloser : ∀ v : Waiter κ,
      (Consequences.superseded job target.name v c.ordinal).signalsAt j n =
      if j = job ∧ n = target.name then abortOf j n c.ordinal (some v) else [] := by
    intro v
    have habout : (Consequences.superseded job target.name v c.ordinal).About job target.name := by
      simp [Consequences.About, Consequences.superseded]
    rw [habout.signalsAt]
    split
    · rename_i e
      obtain ⟨rfl, rfl⟩ := e
      rfl
    · rfl
  simp only [enter_of_won h, Consequences.signalsAt_append, signalsAt_leaveOthers,
    (about_place _ _ _ _).signalsAt]
  by_cases hj : j = job
  · subst hj
    by_cases hn : n = target.name
    · subst hn
      cases l <;> simp [hloser, abortOf]
    · cases l <;> simp [hloser, hn]
  · cases l <;> simp [hloser, hj]

/-- The answer of `enter`: the winner of the contest is let in if there is room
or if it holds the segment; the caller is told so if it is the winner. -/
theorem answer_enter {t : Table κ} {job : String} {w c : Waiter κ} {l : Option (Waiter κ)}
    {target : Target} (h : contest (t.segment job target.name).waiting w = .won c l) :
    (enter t job w target).answer = .ok (if c.ordinal = w.ordinal then
      if target.limit.admits (t.segment job target.name).holding.size = true ∨
          c.ordinal ∈ (t.segment job target.name).holding then .admitted
      else .parked
    else .superseded) := by
  simp only [enter_of_won h, place, Segment.hasRoom, Segment.holds, SortedSet.contains]
  congr 1
  split
  · simp only [Bool.or_eq_true, decide_eq_true_eq]
    split <;> rfl
  · rfl

/-! ## The step of a segment -/

/-- What the call `r` on the table `t` does to the segment `s`, which is the
segment `name` of `job`: the signals queued for it and the segment after. -/
inductive StepAt (r : Request κ) (t : Table κ) (job name : String) (s : Segment κ) :
    List (Signal κ) → Segment κ → Prop
  /-- The mover does not hold the segment, nor does its waiter exit. -/
  | idle (he : r.entering ≠ some (job, name))
      (hm : ∀ o, r.mover t = some (job, o) → o ∉ s.holding)
      (hx : ∀ o, r = .exit job o → s.waitingOrdinal ≠ some o) : StepAt r t job name s [] s
  /-- The mover leaves and the waiter has its place. -/
  | left (o : Ordinal) (he : r.entering ≠ some (job, name)) (hm : r.mover t = some (job, o))
      (ho : o ∈ s.holding) : StepAt r t job name s (proceedOf job name s.waiting) (s.depart o)
  /-- The waiter exits. -/
  | unseated (o : Ordinal) (hr : r = .exit job o) (ho : o ∉ s.holding)
      (hw : s.waitingOrdinal = some o) : StepAt r t job name s [] { s with waiting := none }
  /-- The waiter asks for the segment again. -/
  | refused (w : Waiter κ) (target : Target) (hr : r = .enter job w target)
      (hn : target.name = name) (hw : s.waitingOrdinal = some w.ordinal) :
      StepAt r t job name s [] { s with limit := target.limit }
  /-- The winner of the contest has room, or holds the segment already. -/
  | entered (w : Waiter κ) (target : Target) (c : Waiter κ) (l : Option (Waiter κ))
      (hr : r = .enter job w target) (hn : target.name = name)
      (hc : contest s.waiting w = .won c l) (hm : r.mover t = some (job, c.ordinal))
      (hroom : target.limit.admits s.holding.size = true ∨ c.ordinal ∈ s.holding) :
      StepAt r t job name s (abortOf job name c.ordinal l ++ proceedOf job name (some c))
        { holding := s.holding.insert c.ordinal, limit := target.limit, waiting := none }
  /-- The winner of the contest takes the seat. -/
  | parked (w : Waiter κ) (target : Target) (c : Waiter κ) (l : Option (Waiter κ))
      (hr : r = .enter job w target) (hn : target.name = name)
      (hc : contest s.waiting w = .won c l) (hm : r.mover t = some (job, c.ordinal))
      (hfull : target.limit.admits s.holding.size = false) (ho : c.ordinal ∉ s.holding) :
      StepAt r t job name s (abortOf job name c.ordinal l)
        { s with limit := target.limit, waiting := some c }

theorem departFrom_of_mem (job name : String) {o : Ordinal} {s : Segment κ} (h : o ∈ s.holding) :
    (departFrom job o name s).1 = s.depart o ∧
      (departFrom job o name s).2.signals = proceedOf job name s.waiting := by
  unfold departFrom
  rw [if_pos (Segment.holds_iff.mpr h)]
  cases s.waiting <;> simp [Consequences.released, Consequences.promoted, proceedOf]

theorem departFrom_of_not_mem {job name : String} {o : Ordinal} {s : Segment κ}
    (h : o ∉ s.holding) : departFrom job o name s = (s, ∅) := by
  unfold departFrom
  rw [if_neg (by simpa using h)]

/-- Who holds no other segment has none to leave. -/
theorem leaveOthers_of_not_mem {t : Table κ} {job except : String} {o : Ordinal}
    (h : ∀ n, n ≠ except → o ∉ (t.segment job n).holding) :
    leaveOthers job except o (t.job job) = (t.job job, ∅) := by
  refine JobSegments.forEach_eq_self fun n s hs => ?_
  split
  · rfl
  · rename_i hn
    have hnot := h n hn
    rw [Table.segment, Table.segment?, hs] at hnot
    exact departFrom_of_not_mem hnot

/-- The step of a segment that the mover passes on its way out. -/
theorem stepAt_departFrom {r : Request κ} {t : Table κ} {job name : String} {o : Ordinal}
    (s : Segment κ) (he : r.entering ≠ some (job, name)) (hm : r.mover t = some (job, o))
    (hx : ∀ o, r ≠ .exit job o) :
    StepAt r t job name s (departFrom job o name s).2.signals (departFrom job o name s).1 := by
  by_cases ho : o ∈ s.holding
  · obtain ⟨h1, h2⟩ := departFrom_of_mem job name ho
    rw [h1, h2]
    exact .left o he hm ho
  · rw [departFrom_of_not_mem ho]
    refine .idle he (fun o' ho' => ?_) (fun o' ho' => absurd ho' (hx o'))
    rw [hm] at ho'
    cases ho'
    exact ho

theorem stepAt_leave {t : Table κ} {job name : String} {o : Ordinal} (s : Segment κ) :
    StepAt (.exit job o) t job name s (leave job o name s).2.signals (leave job o name s).1 := by
  unfold leave
  split
  · rename_i ho
    rw [Segment.holds_iff] at ho
    obtain ⟨h1, h2⟩ := departFrom_of_mem job name ho
    rw [h1, h2]
    exact .left o (by simp [Request.entering]) rfl ho
  · rename_i ho
    rw [Segment.holds_iff] at ho
    split
    · rename_i hw
      exact .unseated o rfl ho hw
    · rename_i hw
      refine .idle (by simp [Request.entering]) (fun o' ho' => ?_) (fun o' ho' => ?_)
      · cases ho'
        exact ho
      · cases ho'
        exact hw

theorem stepAt_place {r : Request κ} {t : Table κ} {job : String} {w c : Waiter κ}
    {target : Target} {l : Option (Waiter κ)} (s : Segment κ) (hr : r = .enter job w target)
    (hc : contest s.waiting w = .won c l) (hm : r.mover t = some (job, c.ordinal)) :
    StepAt r t job target.name s
      (abortOf job target.name c.ordinal l ++
        (place job target.name c { s with limit := target.limit, waiting := none }).2.2.signals)
      (place job target.name c { s with limit := target.limit, waiting := none }).1 := by
  unfold place
  split
  · rename_i h
    exact .entered w target c l hr rfl hc hm
      (by simpa [Segment.hasRoom, Segment.holds] using h)
  · rename_i h
    simp only [Bool.or_eq_true, not_or, Bool.not_eq_true] at h
    simp only [Consequences.parked, List.append_nil]
    have ho : c.ordinal ∉ s.holding := by simpa [Segment.holds, SortedSet.contains] using h.2
    exact .parked w target c l hr rfl hc hm h.1 ho

/-- A call that is not about the job leaves its segments alone. -/
theorem stepAt_other {r : Request κ} {t : Table κ} {job name : String} (s : Segment κ)
    (h : ∀ j n, r.entering = some (j, n) → j ≠ job) (hm : ∀ o, r.mover t ≠ some (job, o)) :
    StepAt r t job name s [] s := by
  refine .idle (fun e => h _ _ e rfl) (fun o ho => absurd ho (hm o)) (fun o ho => ?_)
  subst ho
  exact absurd rfl (hm o)

/-- **One call, one segment.** Every call does one of six things to every
segment, and queues exactly the signals that go with it. -/
theorem stepAt (r : Request κ) (t : Table κ) (job name : String) :
    StepAt r t job name (t.segment job name) ((r.decide t).consequences.signalsAt job name)
      ((r.decide t).table.segment job name) := by
  cases r with
  | snapshot => exact stepAt_other _ (by simp [Request.entering]) (by simp [Request.mover])
  | segment j n => exact stepAt_other _ (by simp [Request.entering]) (by simp [Request.mover])
  | exit j o =>
    simp only [Request.decide, segment_exit, signalsAt_exit]
    split
    · rename_i hj
      subst hj
      exact stepAt_leave _
    · rename_i hj
      exact stepAt_other _ (by simp [Request.entering])
        (by simpa [Request.mover] using fun e => absurd e.symm hj)
  | enter j w target =>
    simp only [Request.decide]
    cases hc : contest (t.segment j target.name).waiting w with
    | same =>
      rw [enter_of_same hc]
      simp only [Table.segment_put]
      have hsig : (Consequences.reentered j target.name w.ordinal : Consequences κ).signalsAt
          job name = [] := rfl
      rw [hsig]
      split
      · rename_i h
        obtain ⟨rfl, rfl⟩ := h
        exact .refused w target rfl rfl (contest_eq_same_iff.mp hc)
      · rename_i h
        refine .idle (fun e => ?_) (fun o ho => ?_) (fun o ho => by cases ho)
        · simp only [Request.entering, Option.some.injEq, Prod.mk.injEq] at e
          exact h ⟨e.1.symm, e.2.symm⟩
        · simp [Request.mover, hc] at ho
    | won c l =>
      rw [segment_enter hc, signalsAt_enter hc]
      have hm : (Request.enter j w target).mover t = some (j, c.ordinal) := by
        simp [Request.mover, hc]
      by_cases hj : job = j
      · subst hj
        by_cases hn : name = target.name
        · subst hn
          simp only [if_true]
          exact stepAt_place _ rfl hc hm
        · simp only [if_true, if_neg hn]
          exact stepAt_departFrom _ (by simpa [Request.entering] using fun e => hn e.symm) hm
            (by simp)
      · simp only [if_neg hj]
        refine stepAt_other _ (fun j' n' e => ?_) (fun o ho => ?_)
        · simp only [Request.entering, Option.some.injEq, Prod.mk.injEq] at e
          exact fun e' => hj (e'.symm.trans e.1.symm)
        · rw [hm] at ho
          cases ho
          exact hj rfl

end SegmentGate
