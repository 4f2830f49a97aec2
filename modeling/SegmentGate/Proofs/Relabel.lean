import SegmentGate.Proofs.Run

/-!
# What the gate does not look at

The gate compares ordinals and passes tokens and capabilities on. A
`Relabelling` changes what is known of every waiter but its ordinal: it may
forget the capability, as a restart does, or replace it by another one, or
write down who handed it over. `decide_relabel` says that the gate does not
notice: it decides on a relabelled table and call what it would have decided
without, relabelled. `after_relabel` says the same of runs.
-/
namespace SegmentGate

/-- A change of waiters that keeps their ordinals. -/
structure Relabelling (κ κ' : Type) where
  apply : Waiter κ → Waiter κ'
  ordinal_apply : ∀ w, (apply w).ordinal = w.ordinal

attribute [simp] Relabelling.ordinal_apply

variable {κ κ' : Type}

/-! ## Relabelled data -/

def Segment.relabel (f : Relabelling κ κ') (s : Segment κ) : Segment κ' :=
  { holding := s.holding, limit := s.limit, waiting := s.waiting.map f.apply }

def JobSegments.relabel (f : Relabelling κ κ') (ss : JobSegments κ) : JobSegments κ' :=
  ss.mapValues fun _ s => s.relabel f

def Table.relabel (f : Relabelling κ κ') (t : Table κ) : Table κ' :=
  ⟨t.jobs.mapValues fun _ ss => JobSegments.relabel f ss⟩

def Signal.relabel (f : Relabelling κ κ') (s : Signal κ) : Signal κ' :=
  ⟨s.job, s.segment, f.apply s.waiter, s.verdict⟩

def Consequences.relabel (f : Relabelling κ κ') (c : Consequences κ) : Consequences κ' :=
  ⟨c.events, c.signals.map (Signal.relabel f), c.changed⟩

def Contest.relabel (f : Relabelling κ κ') : Contest κ → Contest κ'
  | .same => .same
  | .won c l => .won (f.apply c) (l.map f.apply)

def Request.relabel (f : Relabelling κ κ') : Request κ → Request κ'
  | .enter job w target => .enter job (f.apply w) target
  | .exit job o => .exit job o
  | .snapshot => .snapshot
  | .segment job name => .segment job name

def Reply.relabel (f : Relabelling κ κ') : Reply κ → Reply κ'
  | .entered result => .entered result
  | .exited n => .exited n
  | .snapshot t => .snapshot (t.relabel f)
  | .segment s => .segment (s.map (Segment.relabel f))

def Decision.relabel (f : Relabelling κ κ') (d : Decision κ (Reply κ)) : Decision κ' (Reply κ') :=
  ⟨d.table.relabel f, d.answer.relabel f, d.consequences.relabel f⟩

section Lookup
variable (f : Relabelling κ κ')

@[simp] theorem Consequences.relabel_append (a b : Consequences κ) :
    (a ++ b).relabel f = a.relabel f ++ b.relabel f := by
  show Consequences.mk _ _ _ = Consequences.mk _ _ _
  simp [Consequences.relabel]

theorem Consequences.relabel_join (cs : List (Consequences κ)) :
    (join cs).relabel f = join (cs.map (Consequences.relabel f)) := by
  induction cs with
  | nil => rfl
  | cons c cs ih => exact (relabel_append f c (join cs)).trans (by rw [ih]; rfl)

theorem Table.job?_relabel (t : Table κ) (job : String) :
    (t.relabel f).job? job = (t.job? job).map (JobSegments.relabel f) :=
  t.job?_map _ job

theorem Table.job_relabel (t : Table κ) (job : String) :
    (t.relabel f).job job = JobSegments.relabel f (t.job job) :=
  t.job_map _ job

theorem Table.segment?_relabel (t : Table κ) (job name : String) :
    (t.relabel f).segment? job name = (t.segment? job name).map (Segment.relabel f) :=
  t.segment?_map _ job name

@[simp] theorem Table.segment_relabel (t : Table κ) (job name : String) :
    (t.relabel f).segment job name = (t.segment job name).relabel f :=
  t.segment_map rfl job name

theorem JobSegments.relabel_insert (ss : JobSegments κ) (name : String) (s : Segment κ) :
    JobSegments.relabel f (ss.insert name s) =
      (JobSegments.relabel f ss).insert name (s.relabel f) :=
  SortedMap.mapValues_insert _ ss name s

theorem Table.relabel_putJob (t : Table κ) (job : String) (ss : JobSegments κ) :
    (t.putJob job ss).relabel f = (t.relabel f).putJob job (JobSegments.relabel f ss) :=
  t.map_putJob _ job ss

theorem Table.relabel_put (t : Table κ) (job name : String) (s : Segment κ) :
    (t.put job name s).relabel f = (t.relabel f).put job name (s.relabel f) :=
  t.map_put _ job name s

theorem Segment.relabel_relabel {g : Relabelling κ' κ} (h : ∀ w, g.apply (f.apply w) = w)
    (s : Segment κ) : (s.relabel f).relabel g = s := by
  cases s with
  | mk holding limit waiting => cases waiting <;> simp [relabel, h]

/-- What one relabelling wrote another one can take back. -/
theorem Table.relabel_relabel {g : Relabelling κ' κ} (h : ∀ w, g.apply (f.apply w) = w)
    (t : Table κ) : (t.relabel f).relabel g = t :=
  (t.map_map _ _).trans (t.map_eq_self (Segment.relabel_relabel f h))

theorem Request.relabel_relabel {g : Relabelling κ' κ} (h : ∀ w, g.apply (f.apply w) = w)
    (r : Request κ) : (r.relabel f).relabel g = r := by
  cases r <;> simp [relabel, h]

end Lookup

/-! ## Relabelled decisions -/

section Decide
variable (f : Relabelling κ κ')

theorem departFrom_relabel (job : String) (o : Ordinal) (name : String) (s : Segment κ) :
    departFrom job o name (s.relabel f) =
      ((departFrom job o name s).1.relabel f, (departFrom job o name s).2.relabel f) := by
  unfold departFrom
  rw [show (s.relabel f).holds o = s.holds o from rfl]
  split
  · cases h : s.waiting with
    | none =>
      simp [Segment.relabel, h, Segment.depart]
      rfl
    | some w =>
      simp [Segment.relabel, h, Segment.depart, Segment.grant, Consequences.promoted,
        Consequences.relabel, Signal.relabel]
      rfl
  · rfl

theorem leave_relabel (job : String) (o : Ordinal) (name : String) (s : Segment κ) :
    leave job o name (s.relabel f) =
      ((leave job o name s).1.relabel f, (leave job o name s).2.relabel f) := by
  have hw : (s.relabel f).waitingOrdinal = s.waitingOrdinal := by
    cases h : s.waiting <;> simp [Segment.relabel, Segment.waitingOrdinal, h]
  unfold leave
  rw [show (s.relabel f).holds o = s.holds o from rfl, hw]
  split
  · exact departFrom_relabel f job o name s
  · split <;> rfl

/-- A change of segments that what is done to each segment commutes with. -/
theorem JobSegments.forEach_map {m : Segment κ → Segment κ'} {c : Consequences κ → Consequences κ'}
    (hc : ∀ cs, c (Consequences.join cs) = Consequences.join (cs.map c))
    {g : String → Segment κ → Segment κ × Consequences κ}
    {g' : String → Segment κ' → Segment κ' × Consequences κ'}
    (h : ∀ n s, g' n (m s) = (m (g n s).1, c (g n s).2)) (ss : JobSegments κ) :
    (JobSegments.map m ss).forEach g' =
      (JobSegments.map m (ss.forEach g).1, c (ss.forEach g).2) := by
  simp only [forEach, map, SortedMap.mapValues_mapValues, h, hc, List.map_map, Prod.mk.injEq,
    true_and]
  simp [SortedMap.mapValues, Function.comp_def, h]

theorem forEach_relabel {g : String → Segment κ → Segment κ × Consequences κ}
    {g' : String → Segment κ' → Segment κ' × Consequences κ'}
    (h : ∀ n s, g' n (s.relabel f) = ((g n s).1.relabel f, (g n s).2.relabel f))
    (ss : JobSegments κ) :
    (JobSegments.relabel f ss).forEach g' =
      (JobSegments.relabel f (ss.forEach g).1, (ss.forEach g).2.relabel f) :=
  JobSegments.forEach_map (Consequences.relabel_join f) h ss

theorem contest_relabel (seated : Option (Waiter κ)) (w : Waiter κ) :
    contest (seated.map f.apply) (f.apply w) = (contest seated w).relabel f := by
  cases seated with
  | none => rfl
  | some s =>
    simp only [contest, Option.map_some, f.ordinal_apply]
    split
    · rfl
    · split <;> rfl

theorem leaveOthers_relabel (job except : String) (o : Ordinal) (ss : JobSegments κ) :
    leaveOthers job except o (JobSegments.relabel f ss) =
      (JobSegments.relabel f (leaveOthers job except o ss).1,
        (leaveOthers job except o ss).2.relabel f) := by
  refine forEach_relabel f (fun n s => ?_) ss
  split
  · rfl
  · exact departFrom_relabel f job o n s

theorem place_relabel (job name : String) (c : Waiter κ) (s : Segment κ) :
    place job name (f.apply c) (s.relabel f) =
      ((place job name c s).1.relabel f, (place job name c s).2.1,
        (place job name c s).2.2.relabel f) := by
  simp only [place, f.ordinal_apply]
  rw [show (s.relabel f).hasRoom = s.hasRoom from rfl,
    show (s.relabel f).holds c.ordinal = s.holds c.ordinal from rfl]
  split <;>
    simp [Segment.relabel, Segment.grant, Segment.park, Consequences.relabel,
      Consequences.admitted, Consequences.parked, Signal.relabel]

theorem superseded_relabel (job name : String) (w : Waiter κ) (displacer : Ordinal) :
    Consequences.superseded job name (f.apply w) displacer =
      (Consequences.superseded job name w displacer).relabel f := by
  simp [Consequences.superseded, Consequences.relabel, Signal.relabel]

theorem exit_relabel (t : Table κ) (job : String) (o : Ordinal) :
    exit (t.relabel f) job o =
      ⟨(exit t job o).table.relabel f, (exit t job o).answer,
        (exit t job o).consequences.relabel f⟩ := by
  unfold exit
  rw [Table.job?_relabel]
  cases t.job? job with
  | none => rfl
  | some ss =>
    simp only [Option.map_some, forEach_relabel f (leave_relabel f job o), Table.relabel_putJob]
    congr 1
    simp only [JobSegments.relabel, SortedMap.mapValues, List.countP_map]
    rfl

theorem enter_relabel (t : Table κ) (job : String) (w : Waiter κ) (target : Target) :
    enter (t.relabel f) job (f.apply w) target =
      ⟨(enter t job w target).table.relabel f, (enter t job w target).answer,
        (enter t job w target).consequences.relabel f⟩ := by
  have hc := contest_relabel f (t.segment job target.name).waiting w
  rw [show (t.segment job target.name).waiting.map f.apply =
    ((t.relabel f).segment job target.name).waiting by rw [Table.segment_relabel]; rfl] at hc
  cases h : contest (t.segment job target.name).waiting w with
  | same =>
    rw [h] at hc
    rw [enter_of_same h, enter_of_same hc]
    simp only [Table.relabel_put, Table.segment_relabel, f.ordinal_apply]
    rfl
  | won c l =>
    rw [h] at hc
    have hs : ({ (t.relabel f).segment job target.name with
          limit := target.limit, waiting := none } : Segment κ') =
        Segment.relabel f { t.segment job target.name with
          limit := target.limit, waiting := none } := by
      rw [Table.segment_relabel]
      rfl
    simp only [enter_of_won h, enter_of_won hc, Table.job_relabel, f.ordinal_apply,
      leaveOthers_relabel, hs, place_relabel, Table.relabel_putJob, JobSegments.relabel_insert,
      Consequences.relabel_append]
    cases l with
    | none => rfl
    | some v => simp only [Option.map_some, Option.elim_some, superseded_relabel]

/-- **The gate looks at ordinals only.** On a relabelled table, a relabelled
call gets the relabelled decision. -/
theorem decide_relabel (r : Request κ) (t : Table κ) :
    (r.relabel f).decide (t.relabel f) = (r.decide t).relabel f := by
  cases r with
  | enter job w target =>
    simp only [Request.relabel, Request.decide, enter_relabel]
    rfl
  | exit job o =>
    simp only [Request.relabel, Request.decide, exit_relabel]
    rfl
  | snapshot => rfl
  | segment job name =>
    simp only [Request.relabel, Request.decide, Table.segment?_relabel]
    rfl

theorem Table.after_relabel (t : Table κ) (rs : List (Request κ)) :
    (t.relabel f).after (rs.map (Request.relabel f)) = (t.after rs).relabel f := by
  induction rs generalizing t with
  | nil => rfl
  | cons r rs ih =>
    simp only [List.map_cons, Table.after, decide_relabel, Decision.relabel]
    exact ih _

theorem Table.signalsOf_relabel (t : Table κ) (rs : List (Request κ)) (k : Nat) :
    (t.relabel f).signalsOf (rs.map (Request.relabel f)) k =
      (t.signalsOf rs k).map (Signal.relabel f) := by
  simp only [signalsOf, List.getElem?_map, ← List.map_take, after_relabel]
  cases rs[k]? with
  | none => rfl
  | some r => simp [decide_relabel, Decision.relabel, Consequences.relabel]

theorem mover_relabel (r : Request κ) (t : Table κ) :
    (r.relabel f).mover (t.relabel f) = r.mover t := by
  cases r with
  | enter job w target =>
    have hc := contest_relabel f (t.segment job target.name).waiting w
    simp only [Request.relabel, Request.mover, Table.segment_relabel, Segment.relabel, hc]
    cases contest (t.segment job target.name).waiting w with
    | same => rfl
    | won c l => simp [Contest.relabel]
  | exit => rfl
  | snapshot => rfl
  | segment => rfl

end Decide

end SegmentGate
