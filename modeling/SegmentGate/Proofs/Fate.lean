import SegmentGate.Proofs.Capability
import SegmentGate.Proofs.Relabel

/-!
# One signal for each capability

What becomes of the capability that an `enter` hands over is fixed by the
answer of that call (`Fate`): one `proceed` in the call that is admitted, one
`abort` in the call that is superseded, nothing after a refusal. A parked
capability gets nothing while it is seated, and when it loses the seat one
`proceed`, one `abort` or, at its own exit, nothing. There is never a second
signal (`capability_fate`, for every table, run and `enter` in it).

**Which signals.** The same capability may be handed over by several calls, so
signals are told apart by the call whose waiter they carry. `Table.traced`
runs the gate on waiters that carry the number of their call beside what they
have (`Handed`); since the gate looks at ordinals only (`decide_relabel`), the
signals are those of the plain run, each with its call.
-/
namespace SegmentGate

/-! ## The fate of a capability -/

section
variable {κ : Type} {p : Waiter κ → Bool} {r : Request κ} {t : Table κ} {job name : String}

/-- What becomes of the capability that `w` hands over with call `i` of the
run `rs` on the table `t`, an `enter` into the segment `name` of `job`, by the
answer of that call. `q k` are the signals that call `k` queues for the
capability, and `seated k` says that it is in the seat of the segment after `k`
calls. -/
inductive Fate (t : Table κ) (rs : List (Request κ)) (i : Nat) (job name : String) (w : Waiter κ)
    (q : Nat → List (Signal κ)) (seated : Nat → Prop) : Except GateError Admission → Prop
  | refused (e : GateError) (hs : ∀ k, ¬seated k) (hq : ∀ k, q k = []) :
      Fate t rs i job name w q seated (.error e)
  | admitted (hs : ∀ k, ¬seated k) (hq : q i = [⟨job, name, w, .proceed⟩])
      (ho : ∀ k, k ≠ i → q k = []) : Fate t rs i job name w q seated (.ok .admitted)
  /-- The seat is taken by the newer `v`. -/
  | superseded (v : Waiter κ) (hv : ((t.after (rs.take i)).segment job name).waiting = some v)
      (newer : w.ordinal < v.ordinal) (hs : ∀ k, ¬seated k)
      (hq : q i = [⟨job, name, w, .abort v.ordinal⟩]) (ho : ∀ k, k ≠ i → q k = []) :
      Fate t rs i job name w q seated (.ok .superseded)
  /-- It waits to the end of the run. -/
  | waiting (hs : ∀ k, seated k ↔ i < k) (hq : ∀ k, q k = []) :
      Fate t rs i job name w q seated (.ok .parked)
  /-- It waits until call `m`. -/
  | left (m : Nat) (r : Request κ) (vs : List Verdict) (hr : rs[m]? = some r)
      (hl : LeavesSeat r (t.after (rs.take m)) job name w vs)
      (hs : ∀ k, seated k ↔ i < k ∧ k ≤ m) (hq : q m = vs.map fun v => ⟨job, name, w, v⟩)
      (ho : ∀ k, k ≠ m → q k = []) : Fate t rs i job name w q seated (.ok .parked)

/-- One of those whom `p` picks out has the seat. -/
def Table.Seats (p : Waiter κ → Bool) (t : Table κ) (job name : String) : Prop :=
  ∃ w, (t.segment job name).waiting = some w ∧ p w = true

theorem Table.Absent.not_seats (h : t.Absent p) : ¬t.Seats p job name := by
  rintro ⟨w, hw, hp⟩
  rw [h _ _ _ hw] at hp
  cases hp

section Around
variable {pre post : List (Request κ)} {w : Waiter κ} {target : Target}

/-- A place in a run is at most that of a call, or it comes later. -/
theorem le_or_later (n k : Nat) : k ≤ n ∨ ∃ k', k = n + (k' + 1) := by
  rcases Nat.lt_or_ge n k with h | h
  · exact .inr ⟨k - n - 1, by omega⟩
  · exact .inl h

/-- Before they call for the first time, those whom `p` picks out have no seat. -/
theorem not_seats_before (ha : t.Absent p) (hpre : ∀ r ∈ pre, r.Without p) {k : Nat}
    (hk : k ≤ pre.length) : ¬(t.after ((pre ++ post).take k)).Seats p job name := by
  rw [Table.after_take_append_left t pre _ hk]
  exact (absent_run ha hpre k).2.not_seats

theorem queued_before (ha : t.Absent p) (hpre : ∀ r ∈ pre, r.Without p) {k : Nat}
    (hk : k < pre.length) : t.queued p (pre ++ post) k = [] := by
  rw [Table.queued, Table.signalsOf_append_left t pre _ hk]
  exact (absent_run ha hpre k).1

theorem queued_call : t.queued p (pre ++ r :: post) pre.length =
    (r.decide (t.after pre)).consequences.signalsTo p := by
  rw [Table.queued, Table.signalsOf_call]
  rfl

theorem queued_later (k : Nat) : t.queued p (pre ++ r :: post) (pre.length + (k + 1)) =
    (r.decide (t.after pre)).table.queued p post k := by
  rw [Table.queued, Table.signalsOf_later]
  rfl

/-- Those who have no seat after the one call that is theirs never have one,
and hear nothing in other calls. -/
theorem absent_around (ha : t.Absent p) (hpre : ∀ r ∈ pre, r.Without p)
    (hd : (r.decide (t.after pre)).table.Absent p) (hpost : ∀ r ∈ post, r.Without p) :
    (∀ k, ¬(t.after ((pre ++ r :: post).take k)).Seats p job name) ∧
      ∀ k, k ≠ pre.length → t.queued p (pre ++ r :: post) k = [] := by
  refine ⟨fun k => ?_, fun k hne => ?_⟩
  · rcases le_or_later pre.length k with h | ⟨k, rfl⟩
    · exact not_seats_before ha hpre h
    · rw [Table.after_take_later]
      exact (absent_run hd hpost k).2.not_seats
  · rcases le_or_later pre.length k with h | ⟨k, rfl⟩
    · exact queued_before ha hpre (by omega)
    · rw [queued_later]
      exact (absent_run hd hpost k).1

/-- Who has the seat after its call waits to the end of the run, or until it
loses the seat. -/
theorem fate_of_parked (ha : t.Absent p) (hp : p w = true) (hpre : ∀ r ∈ pre, r.Without p)
    (hpost : ∀ r ∈ post, r.Without p) (hd : (r.decide (t.after pre)).table.SeatsOnly p job name w)
    (hcall : t.queued p (pre ++ r :: post) pre.length = []) :
    Fate t (pre ++ r :: post) pre.length job name w (t.queued p (pre ++ r :: post))
      (fun k => (t.after ((pre ++ r :: post).take k)).Seats p job name) (.ok .parked) := by
  have hq : ∀ k, k ≤ pre.length → t.queued p (pre ++ r :: post) k = [] := by
    intro k hk
    rcases Nat.lt_or_eq_of_le hk with h | rfl
    · exact queued_before ha hpre h
    · exact hcall
  rcases seated_run hd hp hpost with hstay | ⟨m, r', vs, hr, hl, hqm, hin, hafter, ho⟩
  · refine .waiting (fun k => ?_) (fun k => ?_)
    · rcases le_or_later pre.length k with h | ⟨k, rfl⟩
      · exact iff_of_false (not_seats_before ha hpre h) (by omega)
      · rw [Table.after_take_later]
        exact iff_of_true ⟨w, (hstay k).1.seated, hp⟩ (by omega)
    · rcases le_or_later pre.length k with h | ⟨k, rfl⟩
      · exact hq k h
      · rw [queued_later]
        exact (hstay k).2
  · refine .left (pre.length + (m + 1)) r' vs ?_ (by rwa [Table.after_take_later]) (fun k => ?_)
      ((queued_later m).trans hqm) (fun k hne => ?_)
    · rw [List.getElem?_append_right (Nat.le_add_right _ _), Nat.add_sub_cancel_left]
      exact hr
    · rcases le_or_later pre.length k with h | ⟨k, rfl⟩
      · exact iff_of_false (not_seats_before ha hpre h) (by omega)
      · rw [Table.after_take_later]
        by_cases hk : k ≤ m
        · exact iff_of_true ⟨w, (hin k hk).seated, hp⟩ (by omega)
        · exact iff_of_false (hafter k (by omega)).not_seats (by omega)
    · rcases le_or_later pre.length k with h | ⟨k, rfl⟩
      · exact hq k h
      · rw [queued_later]
        exact ho k (by omega)

/-- A run in which only the call after `pre` is from somebody whom `p` picks
out. -/
theorem fate_run (job : String) (target : Target) (ha : t.Absent p) (hp : p w = true)
    (hpre : ∀ r ∈ pre, r.Without p) (hpost : ∀ r ∈ post, r.Without p) :
    let rs := pre ++ .enter job w target :: post
    Fate t rs pre.length job target.name w (t.queued p rs)
      (fun k => (t.after (rs.take k)).Seats p job target.name)
      (enter (t.after pre) job w target).answer := by
  intro rs
  have ha' : (t.after pre).Absent p := by
    have h := (absent_run ha hpre pre.length).2
    rwa [List.take_length] at h
  have htake : t.after (rs.take pre.length) = t.after pre := by
    rw [Table.after_take_append_left t pre _ (Nat.le_refl _), List.take_length]
  have hcall : t.queued p rs pre.length = _ := queued_call
  rcases own_step ha' hp with ⟨⟨e, hans⟩, hd, hx⟩ | ⟨hans, hd, hx⟩ |
      ⟨hans, hd, v, hv, hlt, hx⟩ | ⟨hans, hd, hx⟩ <;>
    rw [hans]
  · obtain ⟨hseats, hother⟩ := absent_around ha hpre hd hpost
    refine .refused e hseats fun k => ?_
    by_cases hk : k = pre.length
    · rw [hk, hcall, hx]
    · exact hother k hk
  · obtain ⟨hseats, hother⟩ := absent_around ha hpre hd hpost
    exact .admitted hseats (hcall.trans hx) hother
  · obtain ⟨hseats, hother⟩ := absent_around ha hpre hd hpost
    exact .superseded v (by rw [htake]; exact hv) hlt hseats (hcall.trans hx) hother
  · exact fate_of_parked ha hp hpre hpost hd (hcall.trans hx)

end Around

/-- In every fate there is at most one signal. -/
theorem Fate.once {rs : List (Request κ)} {i : Nat} {w : Waiter κ} {q : Nat → List (Signal κ)}
    {seated : Nat → Prop} {a : Except GateError Admission} (h : Fate t rs i job name w q seated a) :
    (∀ k, (q k).length ≤ 1) ∧ ∀ k k', q k ≠ [] → q k' ≠ [] → k = k' := by
  have key : ∀ m, (q m).length ≤ 1 → (∀ k, k ≠ m → q k = []) →
      (∀ k, (q k).length ≤ 1) ∧ ∀ k k', q k ≠ [] → q k' ≠ [] → k = k' := by
    intro m hm ho
    refine ⟨fun k => ?_, fun k k' hk hk' => ?_⟩
    · by_cases e : k = m
      · rw [e]
        exact hm
      · simp [ho k e]
    · have e : k = m := Decidable.byContradiction fun e => hk (ho k e)
      have e' : k' = m := Decidable.byContradiction fun e => hk' (ho k' e)
      rw [e, e']
  cases h with
  | refused e hs hq => exact key i (by simp [hq]) (fun k _ => hq k)
  | admitted hs hq ho => exact key i (by simp [hq]) ho
  | superseded v hv newer hs hq ho => exact key i (by simp [hq]) ho
  | waiting hs hq => exact key i (by simp [hq]) (fun k _ => hq k)
  | left m r vs hr hl hs hq ho =>
    refine key m ?_ ho
    rw [hq]
    cases hl <;> simp

end

/-! ## Fates of relabelled capabilities -/

section Relabel
variable {κ κ' : Type} (f : Relabelling κ κ') {r : Request κ} {t : Table κ} {job name : String}
  {w : Waiter κ}

theorem LeavesSeat.relabel {vs : List Verdict} (h : LeavesSeat r t job name w vs) :
    LeavesSeat (r.relabel f) (t.relabel f) job name (f.apply w) vs := by
  have hentering : (r.relabel f).entering = r.entering := by cases r <;> rfl
  have hholding : ((t.relabel f).segment job name).holding = (t.segment job name).holding := by
    rw [Table.segment_relabel]
    rfl
  cases h with
  | promoted o hm he ho =>
    exact .promoted o (by rwa [mover_relabel]) (by rwa [hentering]) (by rwa [hholding])
  | admitted v target hr hn older room =>
    refine .admitted (f.apply v) target (by rw [hr]; rfl) hn (by simpa using older) ?_
    rwa [hholding, f.ordinal_apply]
  | displaced v target hr hn newer =>
    rw [← f.ordinal_apply v]
    exact .displaced (f.apply v) target (by rw [hr]; rfl) hn (by simpa using newer)
  | exited hr => exact .exited (by rw [hr, f.ordinal_apply]; rfl)

theorem Fate.relabel {rs : List (Request κ)} {i : Nat} {q : Nat → List (Signal κ)}
    {seated : Nat → Prop} {a : Except GateError Admission} (h : Fate t rs i job name w q seated a) :
    Fate (t.relabel f) (rs.map (Request.relabel f)) i job name (f.apply w)
      (fun k => (q k).map (Signal.relabel f)) seated a := by
  have htake : ∀ k, (t.relabel f).after ((rs.map (Request.relabel f)).take k) =
      (t.after (rs.take k)).relabel f := by
    intro k
    rw [← List.map_take, Table.after_relabel]
  have hnil : ∀ {m}, (∀ k, k ≠ m → q k = []) →
      ∀ k, k ≠ m → (q k).map (Signal.relabel f) = [] := by
    intro m ho k hk
    rw [ho k hk, List.map_nil]
  cases h with
  | refused e hs hq => exact .refused e hs (by simp [hq])
  | admitted hs hq ho => exact .admitted hs (by simp [hq, Signal.relabel]) (hnil ho)
  | superseded v hv newer hs hq ho =>
    refine .superseded (f.apply v) ?_ (by simpa using newer) hs (by simp [hq, Signal.relabel])
      (hnil ho)
    rw [htake, Table.segment_relabel, Segment.relabel, hv]
    rfl
  | waiting hs hq => exact .waiting hs (by simp [hq])
  | left m r vs hr hl hs hq ho =>
    refine .left m (r.relabel f) vs ?_ ?_ hs ?_ (hnil ho)
    · rw [List.getElem?_map, hr]
      rfl
    · rw [htake]
      exact hl.relabel f
    · simp [hq, Signal.relabel]

end Relabel

/-! ## Whose capability it is -/

/-- What a waiter has, with the call of the run that handed it over; none for
what was there before the run. -/
structure Handed (κ : Type) where
  call : Option Nat
  live : Option κ

namespace Handed

variable {κ : Type}

/-- Marks what a waiter has as handed over by a call. -/
def mark (call : Option Nat) : Relabelling κ (Handed κ) where
  apply w := ⟨w.ordinal, w.token, some ⟨call, w.live⟩⟩
  ordinal_apply _ := rfl

/-- Takes the marks off. -/
def unmark : Relabelling (Handed κ) κ where
  apply w := ⟨w.ordinal, w.token, w.live.bind Handed.live⟩
  ordinal_apply _ := rfl

theorem unmark_mark (call : Option Nat) (w : Waiter κ) :
    unmark.apply ((mark call).apply w) = w := rfl

/-- The call that handed over what the waiter has. -/
def origin (w : Waiter (Handed κ)) : Option Nat := w.live.bind Handed.call

/-- The calls of a run, marked with their numbers from `i` on. -/
def markFrom (i : Nat) : List (Request κ) → List (Request (Handed κ))
  | [] => []
  | r :: rs => r.relabel (mark (some i)) :: markFrom (i + 1) rs

theorem length_markFrom (i : Nat) (rs : List (Request κ)) : (markFrom i rs).length = rs.length := by
  induction rs generalizing i with
  | nil => rfl
  | cons r rs ih => simp [markFrom, ih]

theorem markFrom_append (i : Nat) (rs rs' : List (Request κ)) :
    markFrom i (rs ++ rs') = markFrom i rs ++ markFrom (i + rs.length) rs' := by
  induction rs generalizing i with
  | nil => rfl
  | cons r rs ih => simp [markFrom, ih, Nat.add_assoc, Nat.add_comm 1]

theorem map_unmark_markFrom (i : Nat) (rs : List (Request κ)) :
    (markFrom i rs).map (Request.relabel unmark) = rs := by
  induction rs generalizing i with
  | nil => rfl
  | cons r rs ih =>
    simp only [markFrom, List.map_cons, ih, Request.relabel_relabel _ (unmark_mark _)]

/-- The waiters that call `i` handed over. -/
def isFrom (i : Nat) (w : Waiter (Handed κ)) : Bool := decide (origin w = some i)

theorem without_of_mem_markFrom {i j : Nat} {rs : List (Request κ)}
    (h : i < j ∨ j + rs.length ≤ i) : ∀ r ∈ markFrom j rs, r.Without (isFrom i) := by
  induction rs generalizing j with
  | nil => intro r hr; cases hr
  | cons r rs ih =>
    intro r' hr'
    simp only [List.length_cons] at h
    rcases List.mem_cons.mp hr' with rfl | hr'
    · cases r with
      | enter job w target =>
        show decide (some j = some i) = false
        simp
        omega
      | exit => trivial
      | snapshot => trivial
      | segment => trivial
    · exact ih (by omega) r' hr'

theorem absent_mark (i : Nat) (t : Table κ) : (t.relabel (mark none)).Absent (isFrom i) := by
  intro job name w hw
  rw [Table.segment_relabel] at hw
  obtain ⟨v, -, rfl⟩ := Option.map_eq_some_iff.mp hw
  rfl

end Handed

open Handed

section
variable {κ : Type}

/-- The signals that call `k` of a run queues, each with the call that handed
its capability over. -/
def Table.traced (t : Table κ) (rs : List (Request κ)) (k : Nat) :
    List (Option Nat × Signal κ) :=
  ((t.relabel (mark none)).signalsOf (markFrom 0 rs) k).map fun s =>
    (origin s.waiter, s.relabel unmark)

/-- The call that handed over the capability in the seat of a segment after `k`
calls of a run. -/
def Table.seatedCall (t : Table κ) (rs : List (Request κ)) (k : Nat) (job name : String) :
    Option Nat :=
  (((t.relabel (mark none)).after ((markFrom 0 rs).take k)).segment job name).waiting.bind origin

/-- The traced signals are the signals of the run. -/
theorem Table.map_traced (t : Table κ) (rs : List (Request κ)) (k : Nat) :
    (t.traced rs k).map Prod.snd = t.signalsOf rs k := by
  have h := signalsOf_relabel unmark (t.relabel (mark none)) (markFrom 0 rs) k
  rw [map_unmark_markFrom, relabel_relabel _ (unmark_mark none)] at h
  rw [h, traced, List.map_map]
  rfl

theorem Table.seats_isFrom_iff {t : Table (Handed κ)} {i : Nat} {job name : String} :
    t.Seats (isFrom i) job name ↔ (t.segment job name).waiting.bind origin = some i := by
  simp [Seats, isFrom, Option.bind_eq_some_iff]

theorem Table.queued_isFrom (t : Table κ) (rs : List (Request κ)) (i k : Nat) :
    ((t.relabel (mark none)).queued (isFrom i) (markFrom 0 rs) k).map (Signal.relabel unmark) =
      ((t.traced rs k).filter fun x => decide (x.1 = some i)).map Prod.snd := by
  rw [traced, List.filter_map, List.map_map]
  rfl

/-- The marks do not change what a call is answered. -/
theorem answer_enter_marked (t : Table κ) (pre : List (Request κ)) (job : String) (w : Waiter κ)
    (target : Target) (call : Option Nat) :
    (enter ((t.relabel (mark none)).after (markFrom 0 pre)) job ((mark call).apply w)
        target).answer = (enter (t.after pre) job w target).answer := by
  have htable : t.after pre = ((t.relabel (mark none)).after (markFrom 0 pre)).relabel unmark := by
    have h := Table.after_relabel unmark (t.relabel (mark none)) (markFrom 0 pre)
    rwa [map_unmark_markFrom, Table.relabel_relabel _ (unmark_mark none)] at h
  have h := enter_relabel unmark ((t.relabel (mark none)).after (markFrom 0 pre)) job
    ((mark call).apply w) target
  rw [← htable, unmark_mark] at h
  rw [h]

/-- The fate of what call `pre.length` hands over, in the traced signals. -/
theorem fate_traced (t : Table κ) (pre post : List (Request κ)) (job : String) (w : Waiter κ)
    (target : Target) :
    let rs := pre ++ .enter job w target :: post
    Fate t rs pre.length job target.name w
      (fun k => ((t.traced rs k).filter fun x => decide (x.1 = some pre.length)).map Prod.snd)
      (fun k => t.seatedCall rs k job target.name = some pre.length)
      (enter (t.after pre) job w target).answer := by
  intro rs
  let i := pre.length
  have hrs : markFrom 0 rs = markFrom 0 pre ++
      .enter job ((mark (some i)).apply w) target :: markFrom (i + 1) post := by
    rw [markFrom_append, Nat.zero_add]
    rfl
  have hpre : ∀ r ∈ markFrom 0 pre, r.Without (isFrom i) :=
    without_of_mem_markFrom (.inr (by omega))
  have hpost : ∀ r ∈ markFrom (i + 1) post, r.Without (isFrom i) :=
    without_of_mem_markFrom (.inl (by omega))
  have hmine : isFrom i ((mark (some i)).apply w) = true := by simp [isFrom, origin, mark]
  have hseated : (fun k => ((t.relabel (mark none)).after ((markFrom 0 rs).take k)).Seats
      (isFrom i) job target.name) = fun k => t.seatedCall rs k job target.name = some i := by
    funext k
    exact propext Table.seats_isFrom_iff
  -- the fate in the marked run, with the marks taken off
  have h := (fate_run job target (absent_mark i t) hmine hpre hpost).relabel unmark
  rw [← hrs, map_unmark_markFrom, Table.relabel_relabel _ (unmark_mark none), unmark_mark,
    length_markFrom] at h
  simpa only [Table.queued_isFrom, hseated, answer_enter_marked] using h

/-- **One signal for each capability.** For every table, every run on it and
every `enter` in the run: the signals queued for the capability that this call
hands over, and the calls after which it is in the seat, are those of the fate
that the answer of the call fixes. In particular the whole run queues at most
one signal for it. -/
theorem capability_fate (t : Table κ) (pre post : List (Request κ)) (job : String) (w : Waiter κ)
    (target : Target) :
    let rs := pre ++ .enter job w target :: post
    let i := pre.length
    let q := fun k => ((t.traced rs k).filter fun x => decide (x.1 = some i)).map Prod.snd
    (∀ k, (t.traced rs k).map Prod.snd = t.signalsOf rs k) ∧
    Fate t rs i job target.name w q (fun k => t.seatedCall rs k job target.name = some i)
      (enter (t.after pre) job w target).answer ∧
    (∀ k, (q k).length ≤ 1) ∧ ∀ k k', q k ≠ [] → q k' ≠ [] → k = k' := by
  intro rs i q
  have hfate : Fate t rs i job target.name w q
      (fun k => t.seatedCall rs k job target.name = some i)
      (enter (t.after pre) job w target).answer := fate_traced t pre post job w target
  exact ⟨t.map_traced rs, hfate, hfate.once⟩

end

end SegmentGate
