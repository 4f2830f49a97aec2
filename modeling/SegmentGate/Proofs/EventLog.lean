import SegmentGate.Proofs.Session

/-!
# The event log tells everything

Whoever reads the events of a gate in the order of their numbers knows who
holds each segment and who waits for it. A `Roster` is that knowledge, and
`Roster.note` is what a reader makes of one event: it only looks at the kind of
the event, at the execution and the segment that it names, and, where an
execution is released, at the reason.

**One call.** A decision tells of each segment by itself: the events about a
segment turn what was known of it into what is true of it after the call
(`Recorded`, one lemma for each building block of a decision). So reading all
events of a call turns the roster of the table before it into the roster of the
table after it (`replay_decide`). The signals of a call can be read off as
well: events and signals of every building block match one by one
(`Consequences.Matched`).

**A gate at work.** What a gate publishes are the events of its decisions, and
between them reports of loading and saving (`Session.log`). The numbers of the
decisions increase (`Session.decisions_log`), so that the order of the numbers
is the order in which the calls took effect.
-/
namespace SegmentGate

variable {κ : Type}

/-! ## Reading events -/

/-- Who holds a segment and who waits for it. -/
structure Occupancy where
  holders : SortedSet Ordinal := ∅
  waiter : Option Ordinal := none
  deriving DecidableEq

/-- What an event says of the segment that it names. -/
def Occupancy.note (x : Occupancy) (e : Event) : Occupancy :=
  match e.kind, e.ordinal with
  | .admitted, some o => { holders := x.holders.insert o, waiter := none }
  | .promoted, some o => { holders := x.holders.insert o, waiter := none }
  | .parked, some o => { x with waiter := some o }
  | .superseded, some o => if x.waiter = some o then { x with waiter := none } else x
  | .released, some o =>
    if e.reason = some "waiting" then { x with waiter := none }
    else { x with holders := x.holders.erase o }
  | _, _ => x

def Event.isAbout (job name : String) (e : Event) : Bool :=
  decide (e.job = some job ∧ e.segment = some name)

/-- The event tells of a decision. -/
def Event.isDecision (e : Event) : Bool :=
  e.kind = .admitted || e.kind = .parked || e.kind = .promoted || e.kind = .superseded ||
    e.kind = .released || e.kind = .reentered

/-- Who is where, by job and segment. -/
def Roster := String → String → Occupancy

namespace Roster

def note (m : Roster) (e : Event) : Roster := fun job name =>
  if e.isAbout job name then (m job name).note e else m job name

def replay (m : Roster) (es : List Event) : Roster := es.foldl note m

theorem replay_append (m : Roster) (es es' : List Event) :
    m.replay (es ++ es') = (m.replay es).replay es' := by
  simp [replay]

/-- Of each segment one learns from the events about it. -/
theorem replay_at (m : Roster) (es : List Event) (job name : String) :
    m.replay es job name =
      (es.filter (Event.isAbout job name)).foldl Occupancy.note (m job name) := by
  induction es generalizing m with
  | nil => rfl
  | cons e es ih =>
    rw [replay, List.foldl_cons, ← replay, ih, note, List.filter_cons]
    split <;> rfl

end Roster

def Segment.occupancy (s : Segment κ) : Occupancy := ⟨s.holding, s.waitingOrdinal⟩

def Table.roster (t : Table κ) : Roster := fun job name => (t.segment job name).occupancy

/-! ## One segment in one call -/

/-- The events of `c` are decisions about the segment `name` of `job`, and tell
what made `s'` of it. -/
structure Recorded (job name : String) (s s' : Segment κ) (c : Consequences κ) : Prop where
  decision : ∀ e ∈ c.events, e.isDecision = true
  about : ∀ e ∈ c.events, e.job = some job ∧ e.segment = some name
  noted : c.events.foldl Occupancy.note s.occupancy = s'.occupancy

theorem recorded_nothing (job name : String) (s : Segment κ) : Recorded job name s s ∅ :=
  ⟨fun _ he => (by cases he), fun _ he => (by cases he), rfl⟩

theorem recorded_departFrom (job : String) (o : Ordinal) (name : String) (s : Segment κ) :
    Recorded job name s (departFrom job o name s).1 (departFrom job o name s).2 := by
  unfold departFrom
  split
  · cases hw : s.waiting with
    | none =>
      constructor <;>
        simp [Consequences.released, Event.about, Event.isDecision, Occupancy.note,
          Segment.occupancy, Segment.waitingOrdinal, Segment.depart_of_waiting_none hw, hw,
          show (∅ : Consequences κ).events = [] from rfl]
    | some w =>
      constructor <;>
        simp [Consequences.released, Consequences.promoted, Event.about, Event.isDecision,
          Occupancy.note, Segment.occupancy, Segment.waitingOrdinal, Segment.depart_of_waiting hw]
  · exact recorded_nothing job name s

theorem recorded_leave (job : String) (o : Ordinal) (name : String) (s : Segment κ) :
    Recorded job name s (leave job o name s).1 (leave job o name s).2 := by
  unfold leave
  split
  · exact recorded_departFrom job o name s
  · split
    · constructor <;>
        simp [Consequences.seatCleared, Event.about, Event.isDecision, Occupancy.note,
          Segment.occupancy, Segment.waitingOrdinal]
    · exact recorded_nothing job name s

/-- A refused waiter stays where it is; the limit is not part of the occupancy. -/
theorem recorded_reentered (job name : String) (s : Segment κ) (limit : Limit) (o : Ordinal) :
    Recorded job name s { s with limit } (.reentered job name o) := by
  constructor <;>
    simp [Consequences.reentered, Event.about, Event.isDecision, Occupancy.note,
      Segment.occupancy, Segment.waitingOrdinal]

/-- The loser of a contest gives the seat up if it has it. -/
theorem recorded_superseded (job name : String) (s : Segment κ) (l : Option (Waiter κ))
    (displacer : Ordinal) : ∃ seat, Recorded job name s { s with waiting := seat }
      (l.elim ∅ (Consequences.superseded job name · displacer)) := by
  cases l with
  | none => exact ⟨s.waiting, recorded_nothing job name s⟩
  | some w =>
    by_cases hw : s.waitingOrdinal = some w.ordinal
    · obtain ⟨v, hv, ho⟩ := Segment.waitingOrdinal_eq_some_iff.mp hw
      refine ⟨none, ?_⟩
      constructor <;>
        simp [Consequences.superseded, Event.about, Event.isDecision, Occupancy.note,
          Segment.occupancy, Segment.waitingOrdinal, hv, ho]
    · refine ⟨s.waiting, ?_⟩
      constructor <;>
        simp [Consequences.superseded, Event.about, Event.isDecision, Occupancy.note,
          Segment.occupancy, hw]

/-- Who is placed has one place afterwards, whatever was known of the seat and
the limit. -/
theorem recorded_place (job name : String) (c : Waiter κ) (s : Segment κ) (limit : Limit)
    (seat : Option (Waiter κ)) :
    let placed := place job name c { s with limit, waiting := none }
    Recorded job name { s with waiting := seat } placed.1 placed.2.2 := by
  intro placed
  simp only [placed, place]
  split <;> constructor <;>
    simp [Consequences.admitted, Consequences.parked, Event.about, Event.isDecision,
      Occupancy.note, Segment.occupancy, Segment.grant, Segment.park, Segment.waitingOrdinal]

/-! ## Walks over the segments of a job -/

/-- The events about one segment. -/
def Consequences.eventsAt (c : Consequences κ) (job name : String) : List Event :=
  c.events.filter (Event.isAbout job name)

theorem Consequences.eventsAt_append (a b : Consequences κ) (job name : String) :
    (a ++ b).eventsAt job name = a.eventsAt job name ++ b.eventsAt job name :=
  List.filter_append _ _

section Recorded
variable {job name : String} {s s' : Segment κ} {c : Consequences κ}

theorem Recorded.eventsAt (h : Recorded job name s s' c) : c.eventsAt job name = c.events :=
  List.filter_eq_self.mpr fun e he => decide_eq_true (h.about e he)

theorem Recorded.eventsAt_other (h : Recorded job name s s' c) {j n : String}
    (hjn : ¬ (j = job ∧ n = name)) : c.eventsAt j n = [] := by
  refine List.filter_eq_nil_iff.mpr fun e he => ?_
  obtain ⟨hj, hn⟩ := h.about e he
  rw [Event.isAbout, hj, hn, decide_eq_true_iff]
  rintro ⟨hj', hn'⟩
  exact hjn ⟨(Option.some.inj hj').symm, (Option.some.inj hn').symm⟩

end Recorded

section Walk
variable {f : String → Segment κ → Segment κ × Consequences κ} {job : String}

theorem JobSegments.mem_events_forEach {ss : JobSegments κ} {e : Event}
    (he : e ∈ (ss.forEach f).2.events) : ∃ n s, e ∈ (f n s).2.events := by
  simp only [JobSegments.forEach, Consequences.events_join, List.flatMap_map] at he
  obtain ⟨⟨n, s⟩, -, he⟩ := List.mem_flatMap.mp he
  exact ⟨n, s, he⟩

/-- A walk that tells of each segment as it passes it: about one segment it
tells what happened there. -/
theorem JobSegments.eventsAt_forEach (h : ∀ n s, Recorded job n s (f n s).1 (f n s).2)
    (hempty : ∀ n, f n {} = ({}, ∅)) (ss : JobSegments κ) (n : String) :
    (ss.forEach f).2.eventsAt job n = (f n ((ss.get? n).getD {})).2.events := by
  simp only [Consequences.eventsAt, JobSegments.forEach, Consequences.events_join,
    List.flatMap_map]
  rw [SortedMap.filter_flatMap_entries ss n (fun n s => (f n s).2.events) _ fun k s e he => by
    obtain ⟨hj, hn⟩ := (h k s).about e he
    simp [Event.isAbout, hj, hn]]
  cases ss.get? n with
  | none => rw [Option.getD_none, hempty]; rfl
  | some s => rfl

theorem JobSegments.eventsAt_forEach_other (h : ∀ n s, Recorded job n s (f n s).1 (f n s).2)
    (ss : JobSegments κ) {j : String} (hj : j ≠ job) (n : String) :
    (ss.forEach f).2.eventsAt j n = [] := by
  refine List.filter_eq_nil_iff.mpr fun e he => ?_
  obtain ⟨k, s, he⟩ := JobSegments.mem_events_forEach he
  obtain ⟨hjob, -⟩ := (h k s).about e he
  simp [Event.isAbout, hjob, hj.symm]

end Walk

/-- What a walk does at a segment that a contender leaves, if it is not the one
that it asks for. -/
theorem recorded_passing (job except : String) (o : Ordinal) (name : String) (s : Segment κ) :
    let passed := if name = except then (s, ∅) else departFrom job o name s
    Recorded job name s passed.1 passed.2 := by
  intro passed
  simp only [passed]
  split
  · exact recorded_nothing job name s
  · exact recorded_departFrom job o name s

/-! ## One call -/

/-- The events about a segment tell what the call made of it. -/
theorem noted_exit (t : Table κ) (job : String) (o : Ordinal) (j n : String) :
    ((exit t job o).consequences.eventsAt j n).foldl Occupancy.note (t.segment j n).occupancy =
      ((exit t job o).table.segment j n).occupancy := by
  rw [segment_exit]
  unfold exit
  cases h : t.job? job with
  | none =>
    simp only
    split
    · rename_i hj
      subst hj
      have hsegment : t.segment j n = {} := by simp [Table.segment, Table.segment?, Table.job, h]
      rw [hsegment, leave_unknown]
      rfl
    · rfl
  | some ss =>
    simp only
    split
    · rename_i hj
      subst hj
      rw [JobSegments.eventsAt_forEach (recorded_leave j o) (leave_unknown j o),
        Table.segment_of_job? h]
      exact (recorded_leave j o n _).noted
    · rename_i hj
      rw [JobSegments.eventsAt_forEach_other (recorded_leave job o) ss hj]
      rfl

theorem noted_enter (t : Table κ) (job : String) (w : Waiter κ) (target : Target) (j n : String) :
    ((enter t job w target).consequences.eventsAt j n).foldl Occupancy.note
        (t.segment j n).occupancy = ((enter t job w target).table.segment j n).occupancy := by
  cases hc : contest (t.segment job target.name).waiting w with
  | same =>
    have hrefused := recorded_reentered job target.name (t.segment job target.name) target.limit
      w.ordinal
    rw [enter_of_same hc, Table.segment_put]
    split
    · rename_i h
      obtain ⟨rfl, rfl⟩ := h
      rw [hrefused.eventsAt]
      exact hrefused.noted
    · rename_i h
      rw [hrefused.eventsAt_other h]
      rfl
  | won c l =>
    obtain ⟨seat, hlost⟩ :=
      recorded_superseded job target.name (t.segment job target.name) l c.ordinal
    have hplaced := recorded_place job target.name c (t.segment job target.name) target.limit seat
    have hpassing := recorded_passing (κ := κ) job target.name c.ordinal
    rw [segment_enter hc, enter_of_won hc]
    simp only [Consequences.eventsAt_append, List.foldl_append]
    by_cases hj : j = job
    · subst hj
      have hleft : (leaveOthers j target.name c.ordinal (t.job j)).2.eventsAt j n =
          (if n = target.name then (t.segment j n, ∅)
            else departFrom j c.ordinal n (t.segment j n)).2.events :=
        JobSegments.eventsAt_forEach hpassing (fun n => by split <;> rfl) (t.job j) n
      rw [hleft]
      by_cases hn : n = target.name
      · subst hn
        simp only [if_true, hlost.eventsAt, hplaced.eventsAt]
        exact (congrArg (fun x => List.foldl Occupancy.note x _) hlost.noted).trans hplaced.noted
      · have hjn : ¬ (j = j ∧ n = target.name) := fun h => hn h.2
        simp only [if_true, if_neg hn, hlost.eventsAt_other hjn, hplaced.eventsAt_other hjn]
        exact (recorded_departFrom j c.ordinal n _).noted
    · have hjn : ¬ (j = job ∧ n = target.name) := fun h => hj h.1
      have hleft : (leaveOthers job target.name c.ordinal (t.job job)).2.eventsAt j n = [] :=
        JobSegments.eventsAt_forEach_other hpassing (t.job job) hj n
      rw [hleft, hlost.eventsAt_other hjn, hplaced.eventsAt_other hjn, if_neg hj]
      rfl

/-- **One call.** Reading the events of a call turns the roster of the table
that it finds into the roster of the table that it leaves. -/
theorem replay_decide (r : Request κ) (t : Table κ) :
    t.roster.replay (r.decide t).consequences.events = (r.decide t).table.roster := by
  funext job name
  rw [Roster.replay_at]
  cases r with
  | enter j w target => exact noted_enter t j w target job name
  | exit j o => exact noted_exit t j o job name
  | snapshot => rfl
  | segment j n => rfl

/-- Each event of a call tells what became of a segment of its job. -/
theorem exists_recorded_of_mem {r : Request κ} {t : Table κ} {e : Event}
    (he : e ∈ (r.decide t).consequences.events) :
    ∃ (name : String) (s s' : Segment κ) (c : Consequences κ),
      Recorded r.job name s s' c ∧ e ∈ c.events := by
  cases r with
  | snapshot => cases he
  | segment => cases he
  | exit job o =>
    simp only [Request.decide, exit] at he
    split at he
    · cases he
    · obtain ⟨n, s, he⟩ := JobSegments.mem_events_forEach he
      exact ⟨n, s, _, _, recorded_leave job o n s, he⟩
  | enter job w target =>
    simp only [Request.decide] at he
    cases hc : contest (t.segment job target.name).waiting w with
    | same =>
      rw [enter_of_same hc] at he
      exact ⟨_, _, _, _, recorded_reentered job target.name (t.segment job target.name)
        target.limit w.ordinal, he⟩
    | won c l =>
      obtain ⟨seat, hlost⟩ :=
        recorded_superseded job target.name (t.segment job target.name) l c.ordinal
      rw [enter_of_won hc] at he
      rcases List.mem_append.mp he with he | he
      · rcases List.mem_append.mp he with he | he
        · exact ⟨_, _, _, _, hlost, he⟩
        · obtain ⟨n, s, he⟩ := JobSegments.mem_events_forEach he
          exact ⟨n, s, _, _, recorded_passing job target.name c.ordinal n s, he⟩
      · exact ⟨_, _, _, _, recorded_place job target.name c _ target.limit seat, he⟩

/-- A call makes no other events than decisions. -/
theorem isDecision_of_mem {r : Request κ} {t : Table κ} {e : Event}
    (he : e ∈ (r.decide t).consequences.events) : e.isDecision = true := by
  obtain ⟨name, s, s', c, h, he⟩ := exists_recorded_of_mem he
  exact h.decision e he

theorem job_of_mem_events {r : Request κ} {t : Table κ} {e : Event}
    (he : e ∈ (r.decide t).consequences.events) : e.job = some r.job := by
  obtain ⟨name, s, s', c, h, he⟩ := exists_recorded_of_mem he
  exact (h.about e he).1

/-! ## Signals are told as events -/

/-- Who is told what, and where. -/
structure Told where
  job : String
  segment : String
  ordinal : Ordinal
  verdict : Verdict
  deriving DecidableEq

def Signal.told (s : Signal κ) : Told := ⟨s.job, s.segment, s.waiter.ordinal, s.verdict⟩

/-- The signal that an event tells of: whoever is admitted or promoted may
proceed, and whoever is superseded is aborted. -/
def Event.told? (e : Event) : Option Told :=
  match e.kind, e.job, e.segment, e.ordinal with
  | .admitted, some job, some name, some o => some ⟨job, name, o, .proceed⟩
  | .promoted, some job, some name, some o => some ⟨job, name, o, .proceed⟩
  | .superseded, some job, some name, some o =>
    e.other.map fun displacer => ⟨job, name, o, .abort displacer⟩
  | _, _, _, _ => none

/-- The signals are those that the events tell of, in the same order. -/
def Consequences.Matched (c : Consequences κ) : Prop :=
  c.signals.map Signal.told = c.events.filterMap Event.told?

theorem Consequences.Matched.append {a b : Consequences κ} (ha : a.Matched) (hb : b.Matched) :
    (a ++ b).Matched := by
  rw [Matched, signals_append, events_append, List.map_append, List.filterMap_append, ha, hb]

theorem Consequences.Matched.join {cs : List (Consequences κ)} (h : ∀ c ∈ cs, c.Matched) :
    (join cs).Matched := by
  induction cs with
  | nil => rfl
  | cons c cs ih =>
    exact (h c List.mem_cons_self).append (ih fun c hc => h c (List.mem_cons_of_mem _ hc))

theorem matched_departFrom (job : String) (o : Ordinal) (name : String) (s : Segment κ) :
    (departFrom job o name s).2.Matched := by
  unfold departFrom
  split
  · cases s.waiting <;> rfl
  · rfl

theorem matched_leave (job : String) (o : Ordinal) (name : String) (s : Segment κ) :
    (leave job o name s).2.Matched := by
  unfold leave
  split
  · exact matched_departFrom job o name s
  · split <;> rfl

theorem matched_place (job name : String) (c : Waiter κ) (s : Segment κ) :
    (place job name c s).2.2.Matched := by
  unfold place
  split <;> rfl

theorem matched_forEach {f : String → Segment κ → Segment κ × Consequences κ}
    (h : ∀ n s, (f n s).2.Matched) (ss : JobSegments κ) : (ss.forEach f).2.Matched := by
  refine Consequences.Matched.join fun c hc => ?_
  obtain ⟨e, -, rfl⟩ := List.mem_map.mp hc
  exact h e.1 e.2

/-- The signals of a call are those that its events tell of. -/
theorem matched_decide (r : Request κ) (t : Table κ) : (r.decide t).consequences.Matched := by
  cases r with
  | snapshot => rfl
  | segment => rfl
  | exit job o =>
    simp only [Request.decide, exit]
    split
    · rfl
    · exact matched_forEach (matched_leave job o) _
  | enter job w target =>
    simp only [Request.decide]
    cases hc : contest (t.segment job target.name).waiting w with
    | same =>
      rw [enter_of_same hc]
      rfl
    | won c l =>
      have hlost : (l.elim ∅ (Consequences.superseded job target.name · c.ordinal)).Matched := by
        cases l <;> rfl
      have hleft : (leaveOthers job target.name c.ordinal (t.job job)).2.Matched := by
        refine matched_forEach (fun n s => ?_) (t.job job)
        split
        · rfl
        · exact matched_departFrom job c.ordinal n s
      rw [enter_of_won hc]
      exact (hlost.append hleft).append (matched_place job target.name c _)

theorem Event.job_of_told? {e : Event} {x : Told} (h : e.told? = some x) : e.job = some x.job := by
  unfold told? at h
  split at h
  · rename_i hj _ _
    cases h
    exact hj
  · rename_i hj _ _
    cases h
    exact hj
  · rename_i hj _ _
    obtain ⟨displacer, -, rfl⟩ := Option.map_eq_some_iff.mp h
    exact hj
  · cases h

theorem job_of_mem_signals {r : Request κ} {t : Table κ} {x : Signal κ}
    (hx : x ∈ (r.decide t).consequences.signals) : x.job = r.job := by
  have htold : x.told ∈ (r.decide t).consequences.events.filterMap Event.told? := by
    rw [← matched_decide r t]
    exact List.mem_map_of_mem hx
  obtain ⟨e, he, hte⟩ := List.mem_filterMap.mp htold
  have hjob := Event.job_of_told? hte
  rw [job_of_mem_events he] at hjob
  exact (Option.some.inj hjob).symm

/-! ## A gate at work -/

theorem Event.seq_stampFrom {seq : Nat} {es : List Event} {e : Stamped}
    (he : e ∈ stampFrom seq es) : seq ≤ e.seq ∧ e.seq < seq + es.length := by
  induction es generalizing seq with
  | nil => cases he
  | cons a es ih =>
    rw [List.length_cons]
    rcases List.mem_cons.mp he with rfl | he
    · exact ⟨Nat.le_refl _, Nat.lt_add_of_pos_right (Nat.succ_pos _)⟩
    · have := ih he
      omega

theorem Event.pairwise_stampFrom (seq : Nat) (es : List Event) :
    (stampFrom seq es).Pairwise fun a b => a.seq < b.seq := by
  induction es generalizing seq with
  | nil => exact .nil
  | cons e es ih => exact .cons (fun b hb => (seq_stampFrom hb).1) (ih (seq + 1))

/-- The report of a load is no decision. -/
theorem Call.isDecision_loadedTable (store : String)
    (result : Except StoreError (Option (Table κ))) :
    ∀ e ∈ (loadedTable store result).2, e.isDecision = false := by
  intro e he
  cases result with
  | error x => cases he; rfl
  | ok found => cases found <;> cases he; rfl

/-- What goes to the bus. -/
def Call.Output.published : Call.Output κ → List Stamped
  | .publish e => [e]
  | .unlock => []
  | .deliver events _ => events

namespace Session

variable {σ : Type} {s : Session σ κ}

/-- What a call reports of the table that it finds is the report of a load. -/
theorem mem_loadedTable_of_mem_announcement {k : Keeper σ κ} {e : Event}
    (he : e ∈ s.announcement k) : e ∈ (Call.loadedTable k.name (k.load s.store)).2 := by
  unfold announcement at he
  split at he
  · cases he
  · exact he

theorem isDecision_announcement (k : Keeper σ κ) (s : Session σ κ) :
    ∀ e ∈ s.announcement k, e.isDecision = false := by
  intro e he
  exact Call.isDecision_loadedTable k.name _ e (mem_loadedTable_of_mem_announcement he)

/-- What a call publishes, in order. -/
def published (k : Keeper σ κ) (r : Request κ) (s : Session σ κ) : List Stamped :=
  (s.complete k r).out.flatMap Call.Output.published

/-- What the calls `rs` publish, in order. -/
def log (k : Keeper σ κ) (s : Session σ κ) : List (Request κ) → List Stamped
  | [] => []
  | r :: rs => s.published k r ++ (s.call k r).log k rs

/-- The decisions among events. -/
def decisions (es : List Stamped) : List Stamped := es.filter fun e => e.event.isDecision

theorem decisions_append (es es' : List Stamped) :
    decisions (es ++ es') = decisions es ++ decisions es' :=
  List.filter_append _ _

theorem decisions_eq_nil {seq : Nat} {es : List Event} (h : ∀ e ∈ es, e.isDecision = false) :
    decisions (Event.stampFrom seq es) = [] := by
  refine List.filter_eq_nil_iff.mpr fun e he => ?_
  rw [h e.event]
  · exact Bool.false_ne_true
  · rw [← Event.map_event_stampFrom seq es]
    exact List.mem_map_of_mem he

theorem decisions_stampFrom {seq : Nat} {es : List Event} (h : ∀ e ∈ es, e.isDecision = true) :
    decisions (Event.stampFrom seq es) = Event.stampFrom seq es := by
  refine List.filter_eq_self.mpr fun e he => h e.event ?_
  rw [← Event.map_event_stampFrom seq es]
  exact List.mem_map_of_mem he

/-- Of what a call publishes, the reports about the store come first. -/
theorem published_eq (k : Keeper σ κ) (r : Request κ) (h : s.gate.locked = false) :
    s.published k r = Event.stampFrom s.next (s.announcement k).toList ++
      (Event.stampFrom (s.decisionSeq k + (s.tell k r).events.length) (s.saveReports k r) ++
        Event.stampFrom (s.decisionSeq k) (s.tell k r).events) := by
  have hsent (seq : Nat) (reports : List Event) :
      (Call.sent seq reports : List (Call.Output κ)).flatMap Call.Output.published =
        Event.stampFrom seq reports := by
    simp [Call.sent, List.flatMap_map, Call.Output.published]
  rw [published, (call_spec k r s h).out]
  simp [hsent, Call.Output.published]

/-- The events of a decision are the only decisions that a call publishes. -/
theorem decisions_published (k : Keeper σ κ) (r : Request κ) (h : s.gate.locked = false) :
    decisions (s.published k r) = Event.stampFrom (s.decisionSeq k) (s.tell k r).events := by
  have hevents : ∀ e ∈ (s.tell k r).events, e.isDecision = true := by
    intro e he
    rw [(call_spec k r s h).tell] at he
    exact isDecision_of_mem he
  have hload : decisions (Event.stampFrom s.next (s.announcement k).toList) = [] := by
    refine decisions_eq_nil fun e he => isDecision_announcement k s e ?_
    exact Option.mem_toList.mp he
  have hsave (seq : Nat) : decisions (Event.stampFrom seq (s.saveReports k r)) = [] := by
    refine decisions_eq_nil fun e he => ?_
    obtain ⟨result, -, he⟩ := List.mem_filterMap.mp he
    cases result <;> cases he
    rfl
  rw [published_eq k r h, decisions_append, decisions_append, hload, hsave,
    decisions_stampFrom hevents]
  rfl

/-- The log of a run: the decisions of its calls in the order in which they
took effect, and their numbers increase. -/
theorem decisions_log (k : Keeper σ κ) (h : s.gate.locked = false) (rs : List (Request κ)) :
    (∀ e ∈ decisions (s.log k rs), s.next ≤ e.seq) ∧
      (decisions (s.log k rs)).Pairwise (fun a b => a.seq < b.seq) ∧
      (decisions (s.log k rs)).map Stamped.event = (s.outcomes k rs).flatMap Outcome.events := by
  induction rs generalizing s with
  | nil => exact ⟨fun _ he => (by cases he), .nil, rfl⟩
  | cons r rs ih =>
    obtain ⟨hlater, hsorted, hevents⟩ := ih (unlocked_call k r h)
    have hfirst : s.next ≤ s.decisionSeq k := Nat.le_add_right _ _
    have hroom : s.decisionSeq k + (s.tell k r).events.length ≤ (s.call k r).next := by
      rw [(call_spec k r s h).next]
      omega
    have hsplit : decisions (s.log k (r :: rs)) =
        Event.stampFrom (s.decisionSeq k) (s.tell k r).events ++
          decisions ((s.call k r).log k rs) := by
      rw [log, decisions_append, decisions_published k r h]
    rw [hsplit]
    refine ⟨fun e he => ?_, ?_, ?_⟩
    · rcases List.mem_append.mp he with he | he
      · exact Nat.le_trans hfirst (Event.seq_stampFrom he).1
      · have := hlater e he
        omega
    · refine List.pairwise_append.mpr ⟨Event.pairwise_stampFrom _ _, hsorted, fun a ha b hb => ?_⟩
      have hlow := (Event.seq_stampFrom ha).2
      have hhigh := hlater b hb
      omega
    · rw [List.map_append, Event.map_event_stampFrom, hevents, outcomes, List.flatMap_cons]

/-- Reading the decisions of a run turns the roster that it starts from into
the roster that it ends with. -/
theorem replay_outcomes (k : Keeper σ κ) (h : s.gate.locked = false) (rs : List (Request κ)) :
    (s.table k).roster.replay ((s.outcomes k rs).flatMap Outcome.events) =
      ((s.after k rs).table k).roster := by
  induction rs generalizing s with
  | nil => rfl
  | cons r rs ih =>
    rw [outcomes, List.flatMap_cons, Roster.replay_append, (call_spec k r s h).tell,
      replay_decide, ← table_call k r h]
    exact ih (unlocked_call k r h)

theorem matched_outcomes (k : Keeper σ κ) (h : s.gate.locked = false) (rs : List (Request κ)) :
    ∀ o ∈ s.outcomes k rs, o.signals.map Signal.told = o.events.filterMap Event.told? := by
  induction rs generalizing s with
  | nil =>
    intro o ho
    cases ho
  | cons r rs ih =>
    intro o ho
    rcases List.mem_cons.mp ho with rfl | ho
    · rw [(call_spec k r s h).tell]
      exact matched_decide r (s.table k)
    · exact ih (unlocked_call k r h) o ho

end Session

/-- **The event log is complete.** A gate works on a store, whatever that holds
and whatever becomes of the saves. The decisions that it publishes, in the
order of their numbers, are the decisions of its calls one after the other;
reading them from what was there in the beginning gives exactly who holds each
segment and who waits for it after the last call, and the signals of each call
are those that its events tell of, in the same order. -/
theorem event_log_complete {σ : Type} (k : Keeper σ κ) (store : σ) (n : Nat)
    (rs : List (Request κ)) :
    let start : Session σ κ := Session.start n store
    let log := (start.log k rs).filter fun e => e.event.isDecision
    log.Pairwise (fun a b => a.seq < b.seq) ∧
      log.map Stamped.event = (start.outcomes k rs).flatMap Outcome.events ∧
      (Session.loaded k store).roster.replay (log.map Stamped.event) =
        ((start.after k rs).table k).roster ∧
      ∀ o ∈ start.outcomes k rs, o.signals.map Signal.told = o.events.filterMap Event.told? := by
  intro start log
  obtain ⟨-, hsorted, hevents⟩ := Session.decisions_log k (s := start) rfl rs
  refine ⟨hsorted, hevents, ?_, Session.matched_outcomes k rfl rs⟩
  rw [show log.map Stamped.event = _ from hevents]
  exact Session.replay_outcomes k (s := start) rfl rs

end SegmentGate
