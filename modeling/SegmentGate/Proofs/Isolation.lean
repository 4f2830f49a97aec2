import SegmentGate.Proofs.EventLog
import SegmentGate.Proofs.Stores

/-!
# Jobs do not interfere

The executions of all jobs go through one gate, one table and one lock. A call
about a job sees and changes the job's part of the table only, even where
segments and executions of other jobs go by the same names and numbers.

**One call.** On two tables with the same part of a job, a call about the job
gets the same decision, and the tables still have that part in common
(`alike_decide`). A call about anything else leaves the part as it was
(`job?_decide`). What a call tells and signals is about its own job
(`job_of_mem_events`, `job_of_mem_signals`).

**Runs.** `Session.Shares` says that two gates have the same part of a job in
their tables. One of them takes calls of many jobs and the other those of the
one job only; by the three facts above each call keeps `Shares`, and the calls
of the job come to the same on both (`Session.Shares.undisturbed`).
-/
namespace SegmentGate

variable {σ κ : Type}

/-! ## One call -/

/-- The call is about the job: somebody asks to enter a segment of it, exits
from it, or looks at a segment of it. -/
def Request.isAbout (job : String) : Request κ → Bool
  | .enter j _ _ => j = job
  | .exit j _ => j = job
  | .segment j _ => j = job
  | .snapshot => false

theorem Request.job_of_isAbout {r : Request κ} {job : String} (h : r.isAbout job = true) :
    r.job = job := by
  cases r with
  | enter j w target => exact of_decide_eq_true h
  | exit j o => exact of_decide_eq_true h
  | segment j n => exact of_decide_eq_true h
  | snapshot => cases h

theorem Table.job_congr {t t' : Table κ} {job : String} (h : t.job? job = t'.job? job) :
    t.job job = t'.job job := by
  rw [Table.job, Table.job, h]

theorem Table.segment?_congr {t t' : Table κ} {job : String} (h : t.job? job = t'.job? job)
    (name : String) : t.segment? job name = t'.segment? job name := by
  rw [segment?, segment?, job_congr h]

/-- Two decisions that differ in what becomes of other jobs only. -/
structure Decision.Alike {α : Type} (job : String) (d d' : Decision κ α) : Prop where
  table : d.table.job? job = d'.table.job? job
  answer : d.answer = d'.answer
  consequences : d.consequences = d'.consequences

theorem alike_enter {t t' : Table κ} {job : String} (h : t.job? job = t'.job? job)
    (w : Waiter κ) (target : Target) :
    (enter t job w target).Alike job (enter t' job w target) := by
  have hjob := Table.job_congr h
  have hsegment : t.segment job target.name = t'.segment job target.name := by
    rw [Table.segment, Table.segment, Table.segment?_congr h]
  cases hc : contest (t.segment job target.name).waiting w with
  | same =>
    have hc' := hc
    rw [hsegment] at hc'
    rw [enter_of_same hc, enter_of_same hc']
    constructor <;> simp [Table.put, hjob, hsegment]
  | won c l =>
    have hc' := hc
    rw [hsegment] at hc'
    rw [enter_of_won hc, enter_of_won hc']
    constructor <;> simp [hjob, hsegment]

theorem alike_exit {t t' : Table κ} {job : String} (h : t.job? job = t'.job? job) (o : Ordinal) :
    (exit t job o).Alike job (exit t' job o) := by
  unfold exit
  rw [← h]
  cases hj : t.job? job with
  | none =>
    constructor
    · simp only [← h]
    · rfl
    · rfl
  | some ss => constructor <;> simp

/-- A call about a job decides by the job's part of the table. -/
theorem alike_decide {r : Request κ} {job : String} (hr : r.isAbout job = true)
    {t t' : Table κ} (h : t.job? job = t'.job? job) :
    (r.decide t).Alike job (r.decide t') := by
  obtain rfl := Request.job_of_isAbout hr
  cases r with
  | enter j w target =>
    have henter := alike_enter h w target
    exact ⟨henter.table, congrArg Reply.entered henter.answer, henter.consequences⟩
  | exit j o =>
    have hexit := alike_exit h o
    exact ⟨hexit.table, congrArg Reply.exited hexit.answer, hexit.consequences⟩
  | segment j n => exact ⟨h, congrArg Reply.segment (Table.segment?_congr h n), rfl⟩
  | snapshot => cases hr

/-- A call that is not about a job leaves the job's part of the table as it was. -/
theorem job?_decide {r : Request κ} {job : String} (hr : r.isAbout job = false) (t : Table κ) :
    (r.decide t).table.job? job = t.job? job := by
  cases r with
  | snapshot => rfl
  | segment j n => rfl
  | exit j o =>
    have hj : job ≠ j := by
      rintro rfl
      simp [Request.isAbout] at hr
    simp only [Request.decide, exit]
    split
    · rfl
    · simp [hj]
  | enter j w target =>
    have hj : job ≠ j := by
      rintro rfl
      simp [Request.isAbout] at hr
    simp only [Request.decide]
    cases hc : contest (t.segment j target.name).waiting w with
    | same => simp [enter_of_same hc, Table.put, hj]
    | won c l => simp [enter_of_won hc, hj]

/-- The events of a call are about the job that the call is about. -/
theorem isAbout_of_mem_events {r : Request κ} {t : Table κ} {e : Event} (job : String)
    (he : e ∈ (r.decide t).consequences.events) :
    decide (e.job = some job) = r.isAbout job := by
  rw [job_of_mem_events he]
  cases r with
  | enter j w target => simp [Request.job, Request.isAbout]
  | exit j o => simp [Request.job, Request.isAbout]
  | segment j n => cases he
  | snapshot => cases he

theorem isAbout_of_mem_signals {r : Request κ} {t : Table κ} {x : Signal κ} (job : String)
    (hx : x ∈ (r.decide t).consequences.signals) : decide (x.job = job) = r.isAbout job := by
  rw [job_of_mem_signals hx]
  cases r with
  | enter j w target => rfl
  | exit j o => rfl
  | segment j n => cases hx
  | snapshot => cases hx

theorem filter_eq_of_forall {α : Type} {p : α → Bool} {b : Bool} {l : List α}
    (h : ∀ x ∈ l, p x = b) : l.filter p = if b then l else [] := by
  cases b with
  | true => exact List.filter_eq_self.mpr h
  | false => exact List.filter_eq_nil_iff.mpr fun x hx => by simp [h x hx]

/-! ## Runs -/

namespace Session

variable {k : Keeper σ κ} {s s' : Session σ κ} {job : String}

/-- What those of the calls `rs` that are about the job come to. -/
def outcomesAbout (k : Keeper σ κ) (job : String) (s : Session σ κ) (rs : List (Request κ)) :
    List (Outcome κ) :=
  ((rs.zip (s.outcomes k rs)).filter fun x => x.1.isAbout job).map Prod.snd

/-- What the calls `rs` publish about the job, apart from the numbers and from
what is told of the store. -/
def eventsAbout (k : Keeper σ κ) (job : String) (s : Session σ κ) (rs : List (Request κ)) :
    List Event :=
  ((decisions (s.log k rs)).map Stamped.event).filter fun e => decide (e.job = some job)

/-- The signals about the job that the calls `rs` queue. -/
def signalsAbout (k : Keeper σ κ) (job : String) (s : Session σ κ) (rs : List (Request κ)) :
    List (Signal κ) :=
  ((s.outcomes k rs).flatMap Outcome.signals).filter fun x => decide (x.job = job)

/-- The job fares with the calls `zs` of one gate as it does with the calls
`rs` of the other: the same is left of it, each call about it gets the same
answer and comes to the same, and the same is told and signalled, in order. -/
structure Undisturbed (k : Keeper σ κ) (job : String) (s : Session σ κ) (zs : List (Request κ))
    (s' : Session σ κ) (rs : List (Request κ)) : Prop where
  table : ((s.after k zs).table k).job? job = ((s'.after k rs).table k).job? job
  answered : ∀ o ∈ s'.outcomes k rs, o.reply.isSome = true
  outcomes : (s.outcomesAbout k job zs).map Outcome.decided =
    (s'.outcomes k rs).map Outcome.decided
  events : s.eventsAbout k job zs = (decisions (s'.log k rs)).map Stamped.event
  signals : s.signalsAbout k job zs = (s'.outcomes k rs).flatMap Outcome.signals

/-- The next calls of the two gates find the same part of the job. -/
structure Shares (k : Keeper σ κ) (job : String) (s s' : Session σ κ) : Prop where
  unlocked : s.gate.locked = false
  unlocked' : s'.gate.locked = false
  part : (s.table k).job? job = (s'.table k).job? job

/-- Both gates take a call about the job. -/
theorem Shares.call (h : Shares k job s s') {r : Request κ} (hr : r.isAbout job = true) :
    Shares k job (s.call k r) (s'.call k r) where
  unlocked := unlocked_call k r h.unlocked
  unlocked' := unlocked_call k r h.unlocked'
  part := by
    rw [table_call k r h.unlocked, table_call k r h.unlocked']
    exact (alike_decide hr h.part).table

/-- One of the gates takes a call that is not about the job. -/
theorem Shares.skip (h : Shares k job s s') {r : Request κ} (hr : r.isAbout job = false) :
    Shares k job (s.call k r) s' where
  unlocked := unlocked_call k r h.unlocked
  unlocked' := h.unlocked'
  part := by
    rw [table_call k r h.unlocked, job?_decide hr, h.part]

theorem Shares.tell (h : Shares k job s s') {r : Request κ} (hr : r.isAbout job = true) :
    (s.tell k r).decided = (s'.tell k r).decided := by
  have hd := alike_decide hr h.part
  rw [(call_spec k r s h.unlocked).tell, (call_spec k r s' h.unlocked').tell]
  simp only [Outcome.decided, hd.answer, hd.consequences]

theorem outcomesAbout_cons (k : Keeper σ κ) (job : String) (s : Session σ κ) (r : Request κ)
    (rs : List (Request κ)) : s.outcomesAbout k job (r :: rs) =
      (if r.isAbout job then [s.tell k r] else []) ++ (s.call k r).outcomesAbout k job rs := by
  simp only [outcomesAbout, outcomes, List.zip_cons_cons, List.filter_cons]
  split <;> rfl

theorem eventsAbout_cons (h : s.gate.locked = false) (job : String) (r : Request κ)
    (rs : List (Request κ)) : s.eventsAbout k job (r :: rs) =
      (if r.isAbout job then (s.tell k r).events else []) ++
        (s.call k r).eventsAbout k job rs := by
  have hevents : (s.tell k r).events.filter (fun e => decide (e.job = some job)) =
      if r.isAbout job then (s.tell k r).events else [] := by
    rw [(call_spec k r s h).tell]
    exact filter_eq_of_forall fun e he => isAbout_of_mem_events job he
  rw [eventsAbout, eventsAbout, (decisions_log k h (r :: rs)).2.2,
    (decisions_log k (unlocked_call k r h) rs).2.2, outcomes, List.flatMap_cons,
    List.filter_append, hevents]

theorem signalsAbout_cons (h : s.gate.locked = false) (job : String) (r : Request κ)
    (rs : List (Request κ)) : s.signalsAbout k job (r :: rs) =
      (if r.isAbout job then (s.tell k r).signals else []) ++
        (s.call k r).signalsAbout k job rs := by
  have hsignals : (s.tell k r).signals.filter (fun x => decide (x.job = job)) =
      if r.isAbout job then (s.tell k r).signals else [] := by
    rw [(call_spec k r s h).tell]
    exact filter_eq_of_forall fun x hx => isAbout_of_mem_signals job hx
  rw [signalsAbout, signalsAbout, outcomes, List.flatMap_cons, List.filter_append, hsignals]

/-- Of the calls of one gate, the other takes those that are about the job. The
induction is on the calls: a call about the job is a step of both gates, and
any other call a step of the first one only. -/
theorem Shares.undisturbed (h : Shares k job s s') (zs : List (Request κ)) :
    Undisturbed k job s zs s' (zs.filter (Request.isAbout job)) := by
  induction zs generalizing s s' with
  | nil => exact ⟨h.part, fun o ho => (by cases ho), rfl, rfl, rfl⟩
  | cons r zs ih =>
    have houtcomes := outcomesAbout_cons k job s r zs
    have hevents := eventsAbout_cons (k := k) h.unlocked job r zs
    have hsignals := signalsAbout_cons (k := k) h.unlocked job r zs
    cases hr : r.isAbout job with
    | false =>
      obtain ⟨htable, hanswered, ho, he, hx⟩ := ih (h.skip hr)
      rw [hr, if_neg Bool.false_ne_true, List.nil_append] at houtcomes hevents hsignals
      rw [List.filter_cons_of_neg (by simp [hr])]
      exact ⟨htable, hanswered, houtcomes ▸ ho, hevents ▸ he, hsignals ▸ hx⟩
    | true =>
      obtain ⟨htable, hanswered, ho, he, hx⟩ := ih (h.call hr)
      have htell := h.tell hr
      rw [hr, if_pos rfl] at houtcomes hevents hsignals
      rw [List.filter_cons_of_pos hr]
      refine ⟨htable, ?_, ?_, ?_, ?_⟩
      · intro o hmem
        rcases List.mem_cons.mp hmem with rfl | hmem
        · exact reply_tell k r h.unlocked'
        · exact hanswered o hmem
      · rw [houtcomes, List.map_append, ho]
        exact congrArg (· :: _) htell
      · have hfirst : (s.tell k r).events = (s'.tell k r).events := by
          simpa [Outcome.decided] using congrArg Outcome.events htell
        rw [(decisions_log k h.unlocked' _).2.2, outcomes, List.flatMap_cons, hevents, he, hfirst,
          (decisions_log k (unlocked_call k r h.unlocked') _).2.2]
      · have hfirst : (s.tell k r).signals = (s'.tell k r).signals := by
          simpa [Outcome.decided] using congrArg Outcome.signals htell
        rw [hsignals, hx, hfirst]
        rfl

end Session

/-! ## Two sequences of calls, interleaved -/

/-- `zs` are the elements of `xs` and of `ys`, each in their order. -/
inductive Interleaved {α : Type} : List α → List α → List α → Prop
  | nil : Interleaved [] [] []
  | left {xs ys zs : List α} (x : α) (h : Interleaved xs ys zs) : Interleaved (x :: xs) ys (x :: zs)
  | right {xs ys zs : List α} (y : α) (h : Interleaved xs ys zs) :
      Interleaved xs (y :: ys) (y :: zs)

theorem Interleaved.filter_eq_left {α : Type} {p : α → Bool} {xs ys zs : List α}
    (h : Interleaved xs ys zs) (hxs : ∀ x ∈ xs, p x = true) (hys : ∀ y ∈ ys, p y = false) :
    zs.filter p = xs := by
  induction h with
  | nil => rfl
  | left x h ih =>
    rw [List.filter_cons_of_pos (hxs x List.mem_cons_self),
      ih (fun x hx => hxs x (List.mem_cons_of_mem _ hx)) hys]
  | right y h ih =>
    rw [List.filter_cons_of_neg (by simp [hys y List.mem_cons_self]),
      ih hxs fun y hy => hys y (List.mem_cons_of_mem _ hy)]

theorem Interleaved.symm {α : Type} {xs ys zs : List α} (h : Interleaved xs ys zs) :
    Interleaved ys xs zs := by
  induction h with
  | nil => exact .nil
  | left x h ih => exact .right x ih
  | right y h ih => exact .left y ih

theorem Request.isAbout_other {r : Request κ} {a b : String} (hab : a ≠ b)
    (h : r.isAbout a = true) : r.isAbout b = false := by
  cases r with
  | snapshot => cases h
  | enter j w target =>
    obtain rfl := of_decide_eq_true h
    exact decide_eq_false hab
  | exit j o =>
    obtain rfl := of_decide_eq_true h
    exact decide_eq_false hab
  | segment j n =>
    obtain rfl := of_decide_eq_true h
    exact decide_eq_false hab

/-- **Jobs do not interfere.** A gate, whatever its table and whatever its store
does, takes calls `xs` about one job and calls `ys` about another, interleaved
in any way. Then each of the jobs fares as if the gate had taken its calls
alone. -/
theorem jobs_do_not_interfere (k : Keeper σ κ) (s : Session σ κ) (hs : s.gate.locked = false)
    {a b : String} (hab : a ≠ b) {xs ys zs : List (Request κ)}
    (hxs : ∀ r ∈ xs, r.isAbout a = true) (hys : ∀ r ∈ ys, r.isAbout b = true)
    (hzs : Interleaved xs ys zs) :
    Session.Undisturbed k a s zs s xs ∧ Session.Undisturbed k b s zs s ys := by
  have hshares (job : String) : Session.Shares k job s s := ⟨hs, hs, rfl⟩
  have hleft : zs.filter (Request.isAbout a) = xs :=
    hzs.filter_eq_left hxs fun r hr => Request.isAbout_other hab.symm (hys r hr)
  have hright : zs.filter (Request.isAbout b) = ys :=
    hzs.symm.filter_eq_left hys fun r hr => Request.isAbout_other hab (hxs r hr)
  constructor
  · have h := (hshares a).undisturbed zs
    rwa [hleft] at h
  · have h := (hshares b).undisturbed zs
    rwa [hright] at h

/-- Two jobs have a segment of the same name and executions of the same numbers.
When #1 of one job leaves, #2 of that job enters, and #2 of the other goes on
waiting. -/
theorem jobs_do_not_interfere_of_same_names :
    let k : Keeper SnapshotMemory Nat := SnapshotMemory.keeper
    let s : Session SnapshotMemory Nat := Session.start 0 {}
    let other (o : Ordinal) : Request Nat := .enter "web" (asker o) ⟨"build", .atMost 1⟩
    let app := [ask 1 "build", ask 2 "build", .exit "app" 1]
    let web := [other 1, other 2]
    let zs := [ask 1 "build", other 1, other 2, ask 2 "build", .exit "app" 1]
    Interleaved app web zs ∧
      s.signalsAbout k "app" zs =
        [⟨"app", "build", asker 1, .proceed⟩, ⟨"app", "build", asker 2, .proceed⟩] ∧
      s.signalsAbout k "web" zs = [⟨"web", "build", asker 1, .proceed⟩] := by
  intro k s other app web zs
  have hzs : Interleaved app web zs := .left _ (.right _ (.right _ (.left _ (.left _ .nil))))
  obtain ⟨happ, hweb⟩ := jobs_do_not_interfere k s rfl (show "app" ≠ "web" by decide)
    (show ∀ r ∈ app, r.isAbout "app" = true by decide)
    (show ∀ r ∈ web, r.isAbout "web" = true by decide) hzs
  refine ⟨hzs, ?_, ?_⟩
  · rw [happ.signals]
    decide +kernel
  · rw [hweb.signals]
    decide +kernel

end SegmentGate
