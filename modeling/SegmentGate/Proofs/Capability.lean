import SegmentGate.Proofs.Run

/-!
# What happens to a capability

Every `enter` hands a capability over to the gate, and the gate uses it at
most once: to let the execution go on, or to abort it. The capability moves
from the call to the seat, or wins or loses a contest, or goes out with a
signal; it never is in two places.

Whose capability is followed is said by a test `p` on waiters. At first none
that `p` picks out has a seat (`Table.Absent`), and one of them may get one
(`Table.SeatsOnly`). `stepAt` says what happens at the segment where a waiter
sits; `absent_step`, `seated_step` and `own_step` make of it what one call
does to the capability, and `absent_run` and `seated_run` what a run of calls
from others does. A seated capability hears nothing until it loses the seat,
and then what goes with the way out (`LeavesSeat`).
-/
namespace SegmentGate

variable {κ : Type}

/-! ## The ways out of a seat -/

/-- How the waiter `w` of a segment loses its seat in the call `r` on the
table `t`, and what it is told. -/
inductive LeavesSeat (r : Request κ) (t : Table κ) (job name : String) (w : Waiter κ) :
    List Verdict → Prop
  /-- A holder departs. -/
  | promoted (o : Ordinal) (hm : r.mover t = some (job, o)) (he : r.entering ≠ some (job, name))
      (ho : o ∈ (t.segment job name).holding) : LeavesSeat r t job name w [.proceed]
  /-- An older contender brings a limit that makes room. -/
  | admitted (v : Waiter κ) (target : Target) (hr : r = .enter job v target)
      (hn : target.name = name) (older : v.ordinal < w.ordinal)
      (room : w.ordinal ∉ (t.segment job name).holding →
        target.limit.admits (t.segment job name).holding.size = true) :
      LeavesSeat r t job name w [.proceed]
  /-- A newer contender displaces it. -/
  | displaced (v : Waiter κ) (target : Target) (hr : r = .enter job v target)
      (hn : target.name = name) (newer : w.ordinal < v.ordinal) :
      LeavesSeat r t job name w [.abort v.ordinal]
  /-- It exits. -/
  | exited (hr : r = .exit job w.ordinal) : LeavesSeat r t job name w []

/-- Nobody whom `p` picks out has a seat. -/
def Table.Absent (p : Waiter κ → Bool) (t : Table κ) : Prop :=
  ∀ job name w, (t.segment job name).waiting = some w → p w = false

/-- Of those whom `p` picks out, `w` has a seat and no other has one. -/
structure Table.SeatsOnly (p : Waiter κ → Bool) (t : Table κ) (job name : String)
    (w : Waiter κ) : Prop where
  seated : (t.segment job name).waiting = some w
  only : ∀ j n v, (t.segment j n).waiting = some v → p v = true → j = job ∧ n = name

/-- The call does not come from anybody whom `p` picks out. -/
def Request.Without (p : Waiter κ → Bool) : Request κ → Prop
  | .enter _ w _ => p w = false
  | _ => True

/-- The signals for those whom `p` picks out. -/
def Consequences.signalsTo (p : Waiter κ → Bool) (c : Consequences κ) : List (Signal κ) :=
  c.signals.filter fun s => p s.waiter

variable {p : Waiter κ → Bool} {r : Request κ} {t : Table κ} {job name : String}
  {s s' : Segment κ} {sig : List (Signal κ)}

theorem Consequences.signalsTo_eq {c : Consequences κ}
    (h : ∀ x ∈ c.signals, p x.waiter = true → x.job = job ∧ x.segment = name) :
    c.signalsTo p = (c.signalsAt job name).filter fun x => p x.waiter :=
  Consequences.filter_signals h

/-! ## One call -/

/-- Both sides of a contest are the caller and the seated one. -/
theorem contest_won_mem {seated : Option (Waiter κ)} {w c : Waiter κ} {l : Option (Waiter κ)}
    (h : contest seated w = .won c l) :
    (c = w ∨ seated = some c) ∧ ∀ v, l = some v → v = w ∨ seated = some v := by
  rcases contest_won h with ⟨-, rfl, rfl⟩ | ⟨s, rfl, -, rfl, rfl⟩ | ⟨s, rfl, -, rfl, rfl⟩
  · exact ⟨.inl rfl, fun v hv => by cases hv⟩
  · exact ⟨.inl rfl, fun v hv => .inr hv⟩
  · exact ⟨.inr rfl, fun v hv => .inl (Option.some.inj hv).symm⟩

/-- A signal goes to whoever was seated, or to the caller. -/
theorem StepAt.waiter_of_signal (h : StepAt r t job name s sig s') {x : Signal κ} (hx : x ∈ sig) :
    s.waiting = some x.waiter ∨ ∃ target, r = .enter job x.waiter target ∧ target.name = name := by
  cases h with
  | idle => cases hx
  | left =>
    obtain ⟨v, hv, rfl⟩ := mem_proceedOf.mp hx
    exact .inl hv
  | unseated => cases hx
  | refused => cases hx
  | entered w target c l hr hn hc =>
    obtain ⟨hcw, hl⟩ := contest_won_mem hc
    rcases List.mem_append.mp hx with hx | hx
    · obtain ⟨v, hv, rfl⟩ := mem_abortOf.mp hx
      rcases hl v hv with rfl | hs
      · exact .inr ⟨target, hr, hn⟩
      · exact .inl hs
    · obtain ⟨v, hv, rfl⟩ := mem_proceedOf.mp hx
      cases hv
      rcases hcw with rfl | hs
      · exact .inr ⟨target, hr, hn⟩
      · exact .inl hs
  | parked w target c l hr hn hc =>
    obtain ⟨v, hv, rfl⟩ := mem_abortOf.mp hx
    rcases (contest_won_mem hc).2 v hv with rfl | hs
    · exact .inr ⟨target, hr, hn⟩
    · exact .inl hs

/-- Whoever is seated after a call was seated before, or is the caller. -/
theorem StepAt.waiting_before (h : StepAt r t job name s sig s') {v : Waiter κ}
    (hv : s'.waiting = some v) :
    s.waiting = some v ∨ ∃ target, r = .enter job v target ∧ target.name = name := by
  cases h with
  | idle => exact .inl hv
  | left => simp at hv
  | unseated => cases hv
  | refused => exact .inl hv
  | entered => cases hv
  | parked w target c l hr hn hc =>
    cases hv
    rcases (contest_won_mem hc).1 with rfl | hs
    · exact .inr ⟨target, hr, hn⟩
    · exact .inl hs

theorem waiter_of_signal {x : Signal κ} (hx : x ∈ (r.decide t).consequences.signals) :
    (t.segment x.job x.segment).waiting = some x.waiter ∨
      ∃ target, r = .enter x.job x.waiter target ∧ target.name = x.segment :=
  (stepAt r t x.job x.segment).waiter_of_signal
    (Consequences.mem_signalsAt.mpr ⟨hx, rfl, rfl⟩)

/-- If those whom `p` picks out can only have one seat, and have not got it,
they have none. -/
theorem Table.absent_of_only
    (honly : ∀ j n v, (t.segment j n).waiting = some v → p v = true → j = job ∧ n = name)
    (hout : ∀ v, (t.segment job name).waiting = some v → p v = false) : t.Absent p := by
  intro j n v hv
  cases hpv : p v with
  | false => rfl
  | true =>
    obtain ⟨rfl, rfl⟩ := honly j n v hv hpv
    rw [hout v hv] at hpv
    cases hpv

theorem Request.Without.not_picked {w : Waiter κ} {target : Target} (h : r.Without p)
    (hr : r = .enter job w target) : p w = false := by
  subst hr
  exact h

/-- A call from somebody else does nothing to those who have no seat. -/
theorem absent_step (ha : t.Absent p) (hr : r.Without p) :
    (r.decide t).consequences.signalsTo p = [] ∧ (r.decide t).table.Absent p := by
  refine ⟨List.filter_eq_nil_iff.mpr fun x hx => ?_, fun j n w hw => ?_⟩
  · rcases waiter_of_signal hx with hs | ⟨target, he, -⟩
    · simp [ha _ _ _ hs]
    · simp [hr.not_picked he]
  · rcases (stepAt r t j n).waiting_before hw with hs | ⟨target, he, -⟩
    · exact ha _ _ _ hs
    · exact hr.not_picked he

/-- A call from somebody else leaves the waiter of a segment in its seat and
tells it nothing, or the waiter loses the seat and is told what goes with it. -/
theorem StepAt.seated (h : StepAt r t job name (t.segment job name) sig s') {w : Waiter κ}
    (hw : (t.segment job name).waiting = some w) (hp : p w = true) (hr : r.Without p) :
    (s'.waiting = some w ∧ (sig.filter fun x => p x.waiter) = []) ∨
    ((∀ v, s'.waiting = some v → p v = false) ∧ ∃ vs, LeavesSeat r t job name w vs ∧
      (sig.filter fun x => p x.waiter) = vs.map fun v => ⟨job, name, w, v⟩) := by
  cases h with
  | idle => exact .inl ⟨hw, rfl⟩
  | left o he hm ho =>
    refine .inr ⟨fun v hv => (by simp at hv), _, .promoted o hm he ho, ?_⟩
    simp [hw, proceedOf, hp]
  | unseated o he ho hwo =>
    have ho : w.ordinal = o := by
      rw [Segment.waitingOrdinal, hw] at hwo
      exact Option.some.inj hwo
    subst ho
    exact .inr ⟨fun v hv => (by cases hv), _, .exited he, rfl⟩
  | refused => exact .inl ⟨hw, rfl⟩
  | entered u target c l he hn hc hm hroom =>
    have hu := hr.not_picked he
    rcases contest_won hc with ⟨hs, -, -⟩ | ⟨v, hs, hlt, rfl, rfl⟩ | ⟨v, hs, hlt, rfl, rfl⟩ <;>
      rw [hw] at hs <;> cases hs
    · refine .inr ⟨fun v hv => (by cases hv), _, .displaced c target he hn hlt, ?_⟩
      simp [abortOf, proceedOf, hp, hu]
    · refine .inr ⟨fun v hv => (by cases hv), _, .admitted u target he hn hlt ?_, ?_⟩
      · exact fun ho => hroom.resolve_right ho
      · simp [abortOf, proceedOf, hp, hu]
  | parked u target c l he hn hc hm hfull ho =>
    have hu := hr.not_picked he
    rcases contest_won hc with ⟨hs, -, -⟩ | ⟨v, hs, hlt, rfl, rfl⟩ | ⟨v, hs, hlt, rfl, rfl⟩ <;>
      rw [hw] at hs <;> cases hs
    · refine .inr ⟨fun v hv => ?_, _, .displaced c target he hn hlt, ?_⟩
      · cases hv
        exact hu
      · simp [abortOf, hp]
    · exact .inl ⟨rfl, by simp [abortOf, hu]⟩

/-- A call from somebody else, seen by the one whom `p` picks out in a seat. -/
theorem seated_step {w : Waiter κ} (hs : t.SeatsOnly p job name w) (hp : p w = true)
    (hr : r.Without p) :
    ((r.decide t).table.SeatsOnly p job name w ∧ (r.decide t).consequences.signalsTo p = []) ∨
    ((r.decide t).table.Absent p ∧ ∃ vs, LeavesSeat r t job name w vs ∧
      (r.decide t).consequences.signalsTo p = vs.map fun v => ⟨job, name, w, v⟩) := by
  have hsig : (r.decide t).consequences.signalsTo p =
      ((r.decide t).consequences.signalsAt job name).filter fun x => p x.waiter := by
    refine Consequences.signalsTo_eq fun x hx hpx => ?_
    rcases waiter_of_signal hx with hx' | ⟨target, he, -⟩
    · exact hs.only _ _ _ hx' hpx
    · rw [hr.not_picked he] at hpx
      cases hpx
  have honly : ∀ j n v, ((r.decide t).table.segment j n).waiting = some v → p v = true →
      j = job ∧ n = name := by
    intro j n v hv hpv
    rcases (stepAt r t j n).waiting_before hv with hv' | ⟨target, he, -⟩
    · exact hs.only _ _ _ hv' hpv
    · rw [hr.not_picked he] at hpv
      cases hpv
  rw [hsig]
  rcases (stepAt r t job name).seated hs.seated hp hr with ⟨hw, hnil⟩ | ⟨hout, hvs⟩
  · exact .inl ⟨⟨hw, honly⟩, hnil⟩
  · exact .inr ⟨Table.absent_of_only honly hout, hvs⟩

/-- What an `enter` does at its segment, seen by the caller, whom `p` picks
out and who has no seat before. -/
theorem StepAt.own {w : Waiter κ} {target : Target}
    (h : StepAt (.enter job w target) t job target.name (t.segment job target.name) sig s')
    (ha : ∀ v, (t.segment job target.name).waiting = some v → p v = false) (hp : p w = true) :
    ((∃ e, (enter t job w target).answer = .error e) ∧ (∀ v, s'.waiting = some v → p v = false) ∧
      (sig.filter fun x => p x.waiter) = []) ∨
    ((enter t job w target).answer = .ok .admitted ∧ (∀ v, s'.waiting = some v → p v = false) ∧
      (sig.filter fun x => p x.waiter) = [⟨job, target.name, w, .proceed⟩]) ∨
    ((enter t job w target).answer = .ok .superseded ∧
      (∀ v, s'.waiting = some v → p v = false) ∧
      ∃ v, (t.segment job target.name).waiting = some v ∧ w.ordinal < v.ordinal ∧
        (sig.filter fun x => p x.waiter) = [⟨job, target.name, w, .abort v.ordinal⟩]) ∨
    ((enter t job w target).answer = .ok .parked ∧ s'.waiting = some w ∧
      (sig.filter fun x => p x.waiter) = []) := by
  cases h with
  | idle he => exact absurd rfl he
  | left _ he => exact absurd rfl he
  | unseated _ hr => cases hr
  | refused u target' hr hn hw =>
    cases hr
    refine .inl ⟨⟨.reentered job target.name w.ordinal, ?_⟩, ha, rfl⟩
    rw [enter_of_same (contest_eq_same_iff.mpr hw)]
  | entered u target' c l hr hn hc hm hroom =>
    cases hr
    have hans := answer_enter hc
    rcases contest_won hc with ⟨hs, rfl, rfl⟩ | ⟨v, hs, hlt, rfl, rfl⟩ | ⟨v, hs, hlt, rfl, rfl⟩
    · rw [if_pos rfl, if_pos hroom] at hans
      exact .inr (.inl ⟨hans, fun v hv => (by cases hv), by simp [abortOf, proceedOf, hp]⟩)
    · rw [if_pos rfl, if_pos hroom] at hans
      exact .inr (.inl ⟨hans, fun v hv => (by cases hv),
        by simp [abortOf, proceedOf, hp, ha v hs]⟩)
    · rw [if_neg (fun e => by rw [e] at hlt; exact UInt64.lt_irrefl _ hlt)] at hans
      exact .inr (.inr (.inl ⟨hans, fun v hv => (by cases hv), c, hs, hlt,
        by simp [abortOf, proceedOf, hp, ha c hs]⟩))
  | parked u target' c l hr hn hc hm hfull ho =>
    cases hr
    have hans := answer_enter hc
    have hroom : ¬(target.limit.admits (t.segment job target.name).holding.size = true ∨
        c.ordinal ∈ (t.segment job target.name).holding) := by
      simp [hfull, ho]
    rcases contest_won hc with ⟨hs, rfl, rfl⟩ | ⟨v, hs, hlt, rfl, rfl⟩ | ⟨v, hs, hlt, rfl, rfl⟩
    · rw [if_pos rfl, if_neg hroom] at hans
      exact .inr (.inr (.inr ⟨hans, rfl, by simp [abortOf]⟩))
    · rw [if_pos rfl, if_neg hroom] at hans
      exact .inr (.inr (.inr ⟨hans, rfl, by simp [abortOf, ha v hs]⟩))
    · rw [if_neg (fun e => by rw [e] at hlt; exact UInt64.lt_irrefl _ hlt)] at hans
      refine .inr (.inr (.inl ⟨hans, fun v hv => ?_, c, hs, hlt, by simp [abortOf, hp]⟩))
      cases hv
      exact ha c hs

/-- What an `enter` does, seen by the caller, whom `p` picks out and who has no
seat before. -/
theorem own_step {w : Waiter κ} {target : Target} (ha : t.Absent p) (hp : p w = true) :
    let d := (Request.enter job w target).decide t
    ((∃ e, (enter t job w target).answer = .error e) ∧ d.table.Absent p ∧
      d.consequences.signalsTo p = []) ∨
    ((enter t job w target).answer = .ok .admitted ∧ d.table.Absent p ∧
      d.consequences.signalsTo p = [⟨job, target.name, w, .proceed⟩]) ∨
    ((enter t job w target).answer = .ok .superseded ∧ d.table.Absent p ∧
      ∃ v, (t.segment job target.name).waiting = some v ∧ w.ordinal < v.ordinal ∧
        d.consequences.signalsTo p = [⟨job, target.name, w, .abort v.ordinal⟩]) ∨
    ((enter t job w target).answer = .ok .parked ∧ d.table.SeatsOnly p job target.name w ∧
      d.consequences.signalsTo p = []) := by
  intro d
  have hsig : d.consequences.signalsTo p =
      (d.consequences.signalsAt job target.name).filter fun x => p x.waiter := by
    refine Consequences.signalsTo_eq fun x hx hpx => ?_
    rcases waiter_of_signal hx with hx' | ⟨target', he, hn⟩
    · rw [ha _ _ _ hx'] at hpx
      cases hpx
    · cases he
      exact ⟨rfl, hn.symm⟩
  have honly : ∀ j n v, (d.table.segment j n).waiting = some v → p v = true →
      j = job ∧ n = target.name := by
    intro j n v hv hpv
    rcases (stepAt _ t j n).waiting_before hv with hv' | ⟨target', he, hn⟩
    · rw [ha _ _ _ hv'] at hpv
      cases hpv
    · cases he
      exact ⟨rfl, hn.symm⟩
  rw [hsig]
  rcases (stepAt (.enter job w target) t job target.name).own (ha job target.name) hp with
    ⟨hans, hout, hx⟩ | ⟨hans, hout, hx⟩ | ⟨hans, hout, hx⟩ | ⟨hans, hw, hx⟩
  · exact .inl ⟨hans, Table.absent_of_only honly hout, hx⟩
  · exact .inr (.inl ⟨hans, Table.absent_of_only honly hout, hx⟩)
  · exact .inr (.inr (.inl ⟨hans, Table.absent_of_only honly hout, hx⟩))
  · exact .inr (.inr (.inr ⟨hans, ⟨hw, honly⟩, hx⟩))

/-! ## Runs -/

/-- The signals that call `k` of a run queues for those whom `p` picks out. -/
def Table.queued (p : Waiter κ → Bool) (t : Table κ) (rs : List (Request κ)) (k : Nat) :
    List (Signal κ) :=
  (t.signalsOf rs k).filter fun x => p x.waiter

theorem absent_run (ha : t.Absent p) {rs : List (Request κ)} (hrs : ∀ r ∈ rs, r.Without p)
    (k : Nat) : t.queued p rs k = [] ∧ (t.after (rs.take k)).Absent p := by
  induction rs generalizing t k with
  | nil => exact ⟨by simp [Table.queued, Table.signalsOf], by simpa [Table.after] using ha⟩
  | cons r rs ih =>
    obtain ⟨hnil, ha'⟩ := absent_step ha (hrs r List.mem_cons_self)
    cases k with
    | zero => exact ⟨hnil, ha⟩
    | succ k => exact ih ha' (fun r hr => hrs r (List.mem_cons_of_mem _ hr)) k

/-- A seated waiter keeps its seat and hears nothing, or there is one call in
which it loses it and hears what goes with it, and nothing before or after. -/
theorem seated_run {w : Waiter κ} (hs : t.SeatsOnly p job name w) (hp : p w = true)
    {rs : List (Request κ)} (hrs : ∀ r ∈ rs, r.Without p) :
    (∀ k, (t.after (rs.take k)).SeatsOnly p job name w ∧ t.queued p rs k = []) ∨
    ∃ m r vs, rs[m]? = some r ∧ LeavesSeat r (t.after (rs.take m)) job name w vs ∧
      t.queued p rs m = vs.map (fun v => ⟨job, name, w, v⟩) ∧
      (∀ k, k ≤ m → (t.after (rs.take k)).SeatsOnly p job name w) ∧
      (∀ k, m < k → (t.after (rs.take k)).Absent p) ∧
      ∀ k, k ≠ m → t.queued p rs k = [] := by
  induction rs generalizing t with
  | nil =>
    refine .inl fun k => ⟨?_, ?_⟩
    · simpa [Table.after] using hs
    · simp [Table.queued, Table.signalsOf]
  | cons r rs ih =>
    have hrs' : ∀ r ∈ rs, r.Without p := fun r hr => hrs r (List.mem_cons_of_mem _ hr)
    rcases seated_step hs hp (hrs r List.mem_cons_self) with ⟨hs', hnil⟩ | ⟨ha, vs, hl, hq⟩
    · rcases ih hs' hrs' with hstay | ⟨m, r', vs, hr', hl, hq, hk, hk', ho⟩
      · refine .inl fun k => ?_
        cases k with
        | zero => exact ⟨hs, hnil⟩
        | succ k => exact hstay k
      · refine .inr ⟨m + 1, r', vs, hr', hl, hq, fun k h => ?_, fun k h => ?_, fun k h => ?_⟩
        · cases k with
          | zero => exact hs
          | succ k => exact hk k (by omega)
        · obtain ⟨k, rfl⟩ : ∃ k', k = k' + 1 := ⟨k - 1, by omega⟩
          exact hk' k (by omega)
        · cases k with
          | zero => exact hnil
          | succ k => exact ho k (by omega)
    · refine .inr ⟨0, r, vs, rfl, hl, hq, fun k h => ?_, fun k h => ?_, fun k h => ?_⟩
      · obtain rfl : k = 0 := by omega
        exact hs
      · obtain ⟨k, rfl⟩ : ∃ k', k = k' + 1 := ⟨k - 1, by omega⟩
        exact (absent_run ha hrs' k).2
      · obtain ⟨k, rfl⟩ : ∃ k', k = k' + 1 := ⟨k - 1, by omega⟩
        exact (absent_run ha hrs' k).1

end SegmentGate
