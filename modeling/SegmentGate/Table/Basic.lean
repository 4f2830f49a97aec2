import SegmentGate.Data.SortedMap
import SegmentGate.Segment.Basic
/-!
# The table of a gate

All segments by job and name. Jobs and segments come into being when they are first named and never
go away. `segment?_put` says what writing one segment does to the others: nothing. `Table.map`
changes all segments in the same way, as a restart or a snapshot does.
-/
namespace SegmentGate

/-- The segments of one job by name. -/
abbrev JobSegments (κ : Type) := SortedMap String (Segment κ)

/-- The durable table (`SegmentTable`). -/
structure Table (κ : Type) where
  jobs : SortedMap String (JobSegments κ) := ∅
  deriving DecidableEq

namespace Table

variable {κ : Type}

instance : Inhabited (Table κ) := ⟨{}⟩

def isEmpty (t : Table κ) : Bool := t.jobs.isEmpty

def job? (t : Table κ) (job : String) : Option (JobSegments κ) := t.jobs.get? job

/-- The segments of a job; none for a job that is not known. -/
def job (t : Table κ) (job : String) : JobSegments κ := (t.job? job).getD ∅

def segment? (t : Table κ) (job name : String) : Option (Segment κ) := (t.job job).get? name

/-- The segment of that name; one that is not known has no holders and no limit. -/
def segment (t : Table κ) (job name : String) : Segment κ := (t.segment? job name).getD {}

/-- The job has these segments from now on. -/
def putJob (t : Table κ) (job : String) (segments : JobSegments κ) : Table κ :=
  ⟨t.jobs.insert job segments⟩

/-- The segment is `s` from now on; job and segment are made if need be (`segment_or_insert`). -/
def put (t : Table κ) (job name : String) (s : Segment κ) : Table κ :=
  t.putJob job ((t.job job).insert name s)

/-- The table as another process sees it: no live capabilities. -/
def forget (t : Table κ) : Table κ :=
  ⟨t.jobs.mapValues fun _ segments => segments.mapValues fun _ s => s.forget⟩

/-- Every segment with its job and name, in order. -/
def segments (t : Table κ) : List (String × String × Segment κ) :=
  t.jobs.entries.flatMap fun j => j.2.entries.map fun s => (j.1, s.1, s.2)

/-- The waiters of all segments. -/
def waiters (t : Table κ) : List (Waiter κ) := t.segments.filterMap fun s => s.2.2.waiting

@[simp] theorem job?_putJob (t : Table κ) (j j' : String) (ss : JobSegments κ) :
    (t.putJob j ss).job? j' = if j' = j then some ss else t.job? j' := by
  simp [job?, putJob]

@[simp] theorem job_putJob (t : Table κ) (j j' : String) (ss : JobSegments κ) :
    (t.putJob j ss).job j' = if j' = j then ss else t.job j' := by
  simp only [job, job?_putJob]
  split <;> rfl

@[simp] theorem segment?_put (t : Table κ) (j n j' n' : String) (s : Segment κ) :
    (t.put j n s).segment? j' n' = if j' = j ∧ n' = n then some s else t.segment? j' n' := by
  by_cases hj : j' = j
  · subst hj
    simp [segment?, put]
  · simp [segment?, put, hj]

theorem segment_of_job? {t : Table κ} {j : String} {ss : JobSegments κ} (h : t.job? j = some ss)
    (n : String) : t.segment j n = (ss.get? n).getD {} := by
  simp [segment, segment?, job, h]

@[simp] theorem segment_putJob (t : Table κ) (j j' n : String) (ss : JobSegments κ) :
    (t.putJob j ss).segment j' n = if j' = j then (ss.get? n).getD {} else t.segment j' n := by
  simp only [segment, segment?, job_putJob]
  split <;> rfl

@[simp] theorem segment_put (t : Table κ) (j n j' n' : String) (s : Segment κ) :
    (t.put j n s).segment j' n' = if j' = j ∧ n' = n then s else t.segment j' n' := by
  simp only [segment, segment?_put]
  split <;> rfl

/-- A table is what it says of its jobs and segments. -/
theorem ext_segment? {t t' : Table κ} (hjobs : ∀ j, (t.job? j).isSome = (t'.job? j).isSome)
    (hsegments : ∀ j n, t.segment? j n = t'.segment? j n) : t = t' := by
  have hjob (j : String) : t.job j = t'.job j := SortedMap.ext_get? (hsegments j)
  have hmap : t.jobs = t'.jobs := by
    refine SortedMap.ext_get? fun j => ?_
    have hknown := hjobs j
    have hsame := hjob j
    simp only [job, job?] at hknown hsame
    cases h : t.jobs.get? j <;> cases h' : t'.jobs.get? j <;> simp_all
  cases t
  cases t'
  simp only at hmap
  rw [hmap]

/-- The second of two writes of a segment is the one that counts. -/
theorem put_put (t : Table κ) (job name : String) (s s' : Segment κ) :
    (t.put job name s).put job name s' = t.put job name s' := by
  refine ext_segment? (fun j => ?_) (fun j n => ?_)
  · simp only [put, job?_putJob]
    split <;> rfl
  · simp only [segment?_put]
    split <;> rfl

/-! ## Writing back what is there -/

theorem putJob_eq_self {t : Table κ} {job : String} {ss : JobSegments κ}
    (h : t.job? job = some ss) : t.putJob job ss = t := by
  have hjobs : t.jobs.insert job ss = t.jobs := SortedMap.insert_eq_self h
  rw [putJob, hjobs]

theorem put_eq_self {t : Table κ} {job name : String} {s : Segment κ}
    (h : t.segment? job name = some s) : t.put job name s = t := by
  have hss : (t.job job).insert name s = t.job job := SortedMap.insert_eq_self h
  rw [put, hss]
  refine putJob_eq_self ?_
  cases hj : t.job? job with
  | none => simp [segment?, Table.job, hj] at h
  | some ss => simp [Table.job, hj]

end Table

/-! ## Every segment changed in the same way -/

section Map
variable {κ κ' : Type} (m : Segment κ → Segment κ')

def JobSegments.map (ss : JobSegments κ) : JobSegments κ' := ss.mapValues fun _ s => m s

def Table.map (t : Table κ) : Table κ' := ⟨t.jobs.mapValues fun _ ss => JobSegments.map m ss⟩

theorem JobSegments.map_insert (ss : JobSegments κ) (name : String) (s : Segment κ) :
    JobSegments.map m (ss.insert name s) = (JobSegments.map m ss).insert name (m s) :=
  SortedMap.mapValues_insert _ ss name s

namespace Table

theorem job?_map (t : Table κ) (job : String) :
    (t.map m).job? job = (t.job? job).map (JobSegments.map m) := by
  simp [job?, map]

theorem job_map (t : Table κ) (job : String) :
    (t.map m).job job = JobSegments.map m (t.job job) := by
  simp only [Table.job, job?_map]
  cases t.job? job <;> rfl

theorem segment?_map (t : Table κ) (job name : String) :
    (t.map m).segment? job name = (t.segment? job name).map m := by
  simp [segment?, job_map, JobSegments.map]

theorem segment_map {m : Segment κ → Segment κ'} (hm : m {} = {}) (t : Table κ)
    (job name : String) : (t.map m).segment job name = m (t.segment job name) := by
  simp only [Table.segment, segment?_map]
  cases t.segment? job name with
  | none => exact hm.symm
  | some s => rfl

theorem map_putJob (t : Table κ) (job : String) (ss : JobSegments κ) :
    (t.putJob job ss).map m = (t.map m).putJob job (JobSegments.map m ss) := by
  simp [map, putJob, SortedMap.mapValues_insert]

theorem map_put (t : Table κ) (job name : String) (s : Segment κ) :
    (t.put job name s).map m = (t.map m).put job name (m s) := by
  simp [put, map_putJob, job_map, JobSegments.map_insert]

theorem map_map {κ'' : Type} (m' : Segment κ' → Segment κ'') (t : Table κ) :
    (t.map m).map m' = t.map (m' ∘ m) := by
  simp [map, JobSegments.map, SortedMap.mapValues_mapValues]

theorem map_eq_self {m : Segment κ → Segment κ} (h : ∀ s, m s = s) (t : Table κ) :
    t.map m = t := by
  have hjob (ss : JobSegments κ) : JobSegments.map m ss = ss :=
    SortedMap.mapValues_eq_self (fun _ => h) ss
  show Table.mk _ = _
  rw [SortedMap.mapValues_eq_self (fun _ => hjob) t.jobs]

end Table
end Map
end SegmentGate
