import SegmentGate.Proofs.Seat

/-!
# The places of an execution

An execution is meant to have one place in a job: it holds one segment, or it
waits for one. Two results about this.

**Holding sets alone, any calls.** That nobody holds two segments of a job is
not an invariant. Entering takes the caller out of the segments that it holds,
and leaves the seats alone that it has elsewhere; the promotion from such a
seat later makes it a holder for the second time (`two_segments_held`).
Nothing else does: the tables of a run are free of it exactly if each call of
the run promotes only waiters that hold nothing in the job
(`held_once_iff`, call by call `Table.HeldOnce.decide_iff`).

**All places, callers that are suspended while they wait.** A suspended caller
makes no call for another segment (`Request.Disciplined`). In runs of such
calls an execution has at most one place in a job, seats included
(`single_place`). So the mover of a call, when it has a holding to give up, is
always the caller, and the winner of a contest that is not the caller has
nothing to leave.
-/
namespace SegmentGate

variable {κ : Type}

/-! ## Holding one segment at a time -/

/-- Nobody holds two segments of a job. -/
def Table.HeldOnce (t : Table κ) : Prop :=
  ∀ job o n m, o ∈ (t.segment job n).holding → o ∈ (t.segment job m).holding → n = m

/-- A holder leaves the segment in the call, and `w` waits for it. -/
def Request.Promotes (r : Request κ) (t : Table κ) (job name : String) (w : Waiter κ) : Prop :=
  (t.segment job name).waiting = some w ∧
    ∃ o, o ∈ (t.segment job name).holding ∧ o ∉ ((r.decide t).table.segment job name).holding

/-- Whom the call promotes, holds nothing in the job. -/
def Request.PromotesFree (r : Request κ) (t : Table κ) : Prop :=
  ∀ job name w, r.Promotes t job name w → ∀ m, w.ordinal ∉ (t.segment job m).holding

/-- How `o` comes to be a holder of the segment `name` after the call `r`. -/
inductive HolderAfter (r : Request κ) (t : Table κ) (job name : String) (o : Ordinal) : Prop
  /-- It was one, and it is not the mover on its way out. -/
  | kept (h : o ∈ (t.segment job name).holding)
      (hm : r.mover t = some (job, o) → r.entering = some (job, name))
  /-- It waited, and the mover has left. -/
  | promoted (w : Waiter κ) (x : Ordinal) (hw : w.ordinal = o) (hp : r.Promotes t job name w)
      (hm : r.mover t = some (job, x)) (hx : x ∈ (t.segment job name).holding)
  /-- It is the mover, and the call asks for the segment. -/
  | admitted (he : r.entering = some (job, name)) (hm : r.mover t = some (job, o))

section Call
variable {r : Request κ} {t : Table κ} {job name : String} {o : Ordinal}

/-- A departure promotes whoever waits. -/
theorem Request.promotes_of_left {x : Ordinal} {w : Waiter κ} (hs : t.Apart)
    (hw : (t.segment job name).waiting = some w) (hx : x ∈ (t.segment job name).holding)
    (h : (r.decide t).table.segment job name = (t.segment job name).depart x) :
    r.Promotes t job name w := by
  refine ⟨hw, x, hx, ?_⟩
  rw [h, Segment.mem_holding_depart, Segment.waitingOrdinal_eq_some_iff]
  rintro (⟨v, hv, e⟩ | ⟨hne, -⟩)
  · exact hs job name v hv (e ▸ hx)
  · exact hne rfl

theorem holderAfter_of_mem (hs : t.Apart)
    (h : o ∈ ((r.decide t).table.segment job name).holding) : HolderAfter r t job name o := by
  have hstep := stepAt r t job name
  generalize hs' : (r.decide t).table.segment job name = s' at h hstep
  generalize (r.decide t).consequences.signalsAt job name = sig at hstep
  cases hstep with
  | idle he hm hx => exact .kept h fun e => absurd h (hm o e)
  | left x he hm hx =>
    rcases Segment.mem_holding_depart.mp h with h | ⟨hne, h⟩
    · obtain ⟨w, hw, e⟩ := Segment.waitingOrdinal_eq_some_iff.mp h
      exact .promoted w x e (Request.promotes_of_left hs hw hx hs') hm hx
    · refine .kept h fun e => ?_
      rw [hm] at e
      cases e
      exact absurd rfl hne
  | unseated x hr hx hw =>
    subst hr
    refine .kept h fun e => ?_
    cases e
    exact absurd h hx
  | refused w target hr hn hw =>
    subst hr hn
    exact .kept h fun _ => rfl
  | entered w target c l hr hn hc hm hroom =>
    subst hr hn
    rcases SortedSet.mem_insert.mp h with rfl | h
    · exact .admitted rfl hm
    · exact .kept h fun _ => rfl
  | parked w target c l hr hn hc hm hfull ho =>
    subst hr hn
    exact .kept h fun _ => rfl

theorem Request.eq_of_entering {n m : String} (hn : r.entering = some (job, n))
    (hm : r.entering = some (job, m)) : n = m := by
  rw [hn] at hm
  cases hm
  rfl

theorem Request.eq_of_mover {x : Ordinal} (ho : r.mover t = some (job, o))
    (hx : r.mover t = some (job, x)) : o = x := by
  rw [ho] at hx
  cases hx
  rfl

/-- If nobody holds two segments after a call, whom it promotes holds nothing. -/
theorem Request.promotesFree_of_heldOnce (hs : t.Apart) (h : (r.decide t).table.HeldOnce) :
    r.PromotesFree t := by
  rintro job n w ⟨hw, x, hx, hx'⟩ m hm
  obtain ⟨hmov, -, hs', -⟩ := (stepAt r t job n).left_of_removed hx hx'
  have hwn : w.ordinal ∈ ((r.decide t).table.segment job n).holding := by
    rw [hs', Segment.mem_holding_depart]
    exact .inl (Segment.waitingOrdinal_eq_some_iff.mpr ⟨w, hw, rfl⟩)
  by_cases hwm : w.ordinal ∈ ((r.decide t).table.segment job m).holding
  · have e := h job w.ordinal n m hwn hwm
    subst e
    exact hs job n w hw hm
  · -- The waiter would be the mover, which is a holder.
    obtain ⟨hmov', -⟩ := (stepAt r t job m).left_of_removed hm hwm
    exact hs job n w hw (Request.eq_of_mover hmov hmov' ▸ hx)

theorem Table.HeldOnce.decide (h : t.HeldOnce) (hs : t.Apart) (hfree : r.PromotesFree t) :
    (r.decide t).table.HeldOnce := by
  intro job o n m hn hm
  cases holderAfter_of_mem hs hn with
  | kept hn hnm =>
    cases holderAfter_of_mem hs hm with
    | kept hm hmm => exact h job o n m hn hm
    | promoted w x hw hp => exact absurd hn (hw ▸ hfree job m w hp n)
    | admitted he hmov => exact Request.eq_of_entering (hnm hmov) he
  | promoted w x hw hp hmov hx =>
    cases holderAfter_of_mem hs hm with
    | kept hm hmm => exact absurd hm (hw ▸ hfree job n w hp m)
    | promoted w' x' hw' hp' hmov' hx' =>
      have e := Request.eq_of_mover hmov hmov'
      subst e
      exact h job x n m hx hx'
    | admitted he hmov' =>
      have e := hw.trans (Request.eq_of_mover hmov' hmov)
      exact absurd (e ▸ hx) (hs job n w hp.1)
  | admitted he hmov =>
    cases holderAfter_of_mem hs hm with
    | kept hm hmm => exact Request.eq_of_entering he (hmm hmov)
    | promoted w' x' hw' hp' hmov' hx' =>
      have e := hw'.trans (Request.eq_of_mover hmov hmov')
      exact absurd (e ▸ hx') (hs job m w' hp'.1)
    | admitted he' => exact Request.eq_of_entering he he'

/-- A call keeps everybody from holding two segments exactly if it promotes
nobody who holds one. -/
theorem Table.HeldOnce.decide_iff (h : t.HeldOnce) (hs : t.Apart) :
    (r.decide t).table.HeldOnce ↔ r.PromotesFree t :=
  ⟨Request.promotesFree_of_heldOnce hs, h.decide hs⟩

end Call

theorem Table.HeldOnce.prefixes_iff {t : Table κ} (hs : t.Apart) (h : t.HeldOnce)
    (rs : List (Request κ)) :
    (∀ pre, pre <+: rs → (t.after pre).HeldOnce) ↔ t.Along (fun t r => r.PromotesFree t) rs :=
  Table.prefixes_iff (fun _ r hs => Table.apart_decide r hs) (fun _ _ hs h => h.decide_iff hs)
    hs h rs

/-- **When nobody holds two segments.** In all tables that a run passes
through nobody holds two segments of a job, exactly if every call of the run
promotes only waiters that hold nothing in the job. -/
theorem held_once_iff (rs : List (Request κ)) :
    (∀ pre, pre <+: rs → (({} : Table κ).after pre).HeldOnce) ↔
      ({} : Table κ).Along (fun t r => r.PromotesFree t) rs :=
  Table.HeldOnce.prefixes_iff (Table.apart_after []) (fun _ _ _ _ h => (by cases h)) rs

/-- #2 waits to build and deploys all the same; when #1 exits, #2 does both. -/
theorem two_segments_held :
    let t := ({} : Table Nat).after
      [ask 1 "build", ask 2 "build", ask 2 "deploy", .exit "app" 1]
    2 ∈ (t.segment "app" "build").holding ∧ 2 ∈ (t.segment "app" "deploy").holding ∧
      ¬ t.HeldOnce := by
  intro t
  have hb : 2 ∈ (t.segment "app" "build").holding := by decide
  have hd : 2 ∈ (t.segment "app" "deploy").holding := by decide
  exact ⟨hb, hd, fun h => absurd (h "app" 2 "build" "deploy" hb hd) (by decide)⟩

/-! ## One place, seats included -/

/-- A suspended caller makes no call for another segment: the caller of an
`enter` waits for no segment of the job but, at most, the one it asks for. -/
def Request.Disciplined (t : Table κ) : Request κ → Prop
  | .enter job w target =>
    ∀ name, name ≠ target.name → (t.segment job name).waitingOrdinal ≠ some w.ordinal
  | _ => True

instance (t : Table κ) : (r : Request κ) → Decidable (r.Disciplined t)
  | .enter job w target =>
    decidable_of_iff (∀ e ∈ (t.job job).entries,
        e.1 ≠ target.name → e.2.waitingOrdinal ≠ some w.ordinal) <| by
      constructor
      · intro h name hn hw
        simp only [Table.segment, Table.segment?] at hw
        cases hs : (t.job job).get? name with
        | none =>
          rw [hs] at hw
          cases hw
        | some s =>
          rw [hs] at hw
          exact h (name, s) (SortedMap.get?_eq_some_iff.mp hs) hn hw
      · intro h e he hn hw
        have hs : (t.job job).get? e.1 = some e.2 := SortedMap.get?_eq_some_iff.mpr he
        exact h e.1 hn (by rw [Table.segment, Table.segment?, hs]; exact hw)
  | .exit _ _ => isTrue trivial
  | .snapshot => isTrue trivial
  | .segment _ _ => isTrue trivial

/-- The execution that a call is made for, with its job. -/
def Request.caller : Request κ → Option (String × Ordinal)
  | .enter job w _ => some (job, w.ordinal)
  | .exit job o => some (job, o)
  | _ => none

/-- A place in a job. -/
inductive Table.Place where
  /-- As a holder of the segment. -/
  | holder (name : String)
  /-- In the waiting seat of the segment. -/
  | seat (name : String)
  deriving DecidableEq, Repr

def Table.Place.name : Table.Place → String
  | .holder name => name
  | .seat name => name

/-- `o` has the place `p` in the job. -/
def Table.Has (t : Table κ) (job : String) (o : Ordinal) : Table.Place → Prop
  | .holder name => o ∈ (t.segment job name).holding
  | .seat name => (t.segment job name).waitingOrdinal = some o

/-- Nobody has two places in a job. -/
def Table.SinglePlace (t : Table κ) : Prop :=
  ∀ job o p q, t.Has job o p → t.Has job o q → p = q

section Call
variable {r : Request κ} {t : Table κ} {job : String} {o : Ordinal}

theorem Table.Apart.not_mem {name : String} (hs : t.Apart)
    (h : (t.segment job name).waitingOrdinal = some o) : o ∉ (t.segment job name).holding :=
  Segment.Apart.not_mem (hs job name) h

/-- Two places of one execution in one segment are the same place. -/
theorem Table.Apart.eq_of_name (hs : t.Apart) {p q : Table.Place} (hp : t.Has job o p)
    (hq : t.Has job o q) (h : p.name = q.name) : p = q := by
  cases p with
  | holder n =>
    cases q with
    | holder m => exact congrArg Table.Place.holder h
    | seat m =>
      obtain rfl : n = m := h
      exact absurd hp (hs.not_mem hq)
  | seat n =>
    cases q with
    | holder m =>
      obtain rfl : n = m := h
      exact absurd hq (hs.not_mem hp)
    | seat m => exact congrArg Table.Place.seat h

/-- Who has a place after a call had one in that segment before, and if it is
the mover then as the waiter, or it is the mover and the call asks for the
segment. -/
theorem Table.has_of_decide (hs : t.Apart) {p : Table.Place} (h : (r.decide t).table.Has job o p) :
    (∃ q, q.name = p.name ∧ t.Has job o q ∧
      (r.mover t = some (job, o) → r.entering ≠ some (job, p.name) → q = .seat p.name)) ∨
    (r.entering = some (job, p.name) ∧ r.mover t = some (job, o)) := by
  cases p with
  | holder n =>
    cases holderAfter_of_mem hs h with
    | kept ho hm => exact .inl ⟨.holder n, rfl, ho, fun e he => absurd (hm e) he⟩
    | promoted w x hw hp =>
      refine .inl ⟨.seat n, rfl, ?_, fun _ _ => rfl⟩
      exact Segment.waitingOrdinal_eq_some_iff.mpr ⟨w, hp.1, hw⟩
    | admitted he hm => exact .inr ⟨he, hm⟩
  | seat n =>
    have hstep := stepAt r t job n
    simp only [Table.Has] at h
    generalize (r.decide t).table.segment job n = s' at h hstep
    generalize (r.decide t).consequences.signalsAt job n = sig at hstep
    cases hstep with
    | idle => exact .inl ⟨.seat n, rfl, h, fun _ _ => rfl⟩
    | left => simp [Segment.waitingOrdinal] at h
    | unseated => cases h
    | refused => exact .inl ⟨.seat n, rfl, h, fun _ _ => rfl⟩
    | entered => cases h
    | parked w target c l hr hn hc hm hfull ho =>
      cases h
      subst hr hn
      exact .inr ⟨rfl, hm⟩

/-- The winner of a contest is the caller or has the seat. -/
theorem Request.mover_enter {w : Waiter κ} {target : Target}
    (h : (Request.enter job w target).mover t = some (job, o)) :
    o = w.ordinal ∨ (t.segment job target.name).waitingOrdinal = some o := by
  simp only [Request.mover] at h
  split at h
  · cases h
  · rename_i c l hc
    cases h
    rcases contest_won hc with ⟨-, rfl, -⟩ | ⟨s, -, -, rfl, -⟩ | ⟨s, hs, -, rfl, -⟩
    · exact .inl rfl
    · exact .inl rfl
    · exact .inr (Segment.waitingOrdinal_eq_some_iff.mpr ⟨c, hs, rfl⟩)

/-- A disciplined caller that has a place in one segment, and does not give it
up, does not come into another. -/
theorem Table.SinglePlace.name_eq_of_entering (h : t.SinglePlace) (hd : r.Disciplined t)
    {n m : String} (he : r.entering = some (job, m)) (hm : r.mover t = some (job, o))
    {q : Table.Place} (hqn : q.name = n) (hq : t.Has job o q)
    (hseat : r.entering ≠ some (job, n) → q = .seat n) : n = m := by
  refine Decidable.byContradiction fun hne => ?_
  have hq' : q = .seat n := hseat fun he' => hne (Request.eq_of_entering he' he)
  subst hq'
  cases r with
  | exit => cases he
  | snapshot => cases he
  | segment => cases he
  | enter j w target =>
    cases he
    rcases Request.mover_enter hm with rfl | hw
    · exact hd n hne hq
    · exact hne (congrArg Table.Place.name (h job o (.seat n) (.seat target.name) hq hw))

theorem Table.SinglePlace.decide (h : t.SinglePlace) (hs : t.Apart) (hd : r.Disciplined t) :
    (r.decide t).table.SinglePlace := by
  intro job o p q hp hq
  refine (Table.apart_decide r hs).eq_of_name hp hq ?_
  rcases Table.has_of_decide hs hp with ⟨p', hpn, hp', hpm⟩ | ⟨hpe, hpm⟩
  · rcases Table.has_of_decide hs hq with ⟨q', hqn, hq', -⟩ | ⟨hqe, hqm⟩
    · rw [← hpn, ← hqn, h job o p' q' hp' hq']
    · exact h.name_eq_of_entering hd hqe hqm hpn hp' (hpm hqm)
  · rcases Table.has_of_decide hs hq with ⟨q', hqn, hq', hqm⟩ | ⟨hqe, -⟩
    · exact (h.name_eq_of_entering hd hpe hpm hqn hq' (hqm hpm)).symm
    · exact Request.eq_of_entering hpe hqe

/-- Whoever leaves a segment is the caller. -/
theorem Table.SinglePlace.caller_of_removed (h : t.SinglePlace) {name : String}
    (ho : o ∈ (t.segment job name).holding)
    (ho' : o ∉ ((r.decide t).table.segment job name).holding) : r.caller = some (job, o) := by
  obtain ⟨hm, he, -⟩ := (stepAt r t job name).left_of_removed ho ho'
  rcases Request.cases_of_mover hm he with rfl | ⟨w, target, rfl, hn⟩
  · rfl
  · rcases Request.mover_enter hm with rfl | hw
    · rfl
    · exact absurd (congrArg Table.Place.name (h job o (.seat target.name) (.holder name) hw ho)) hn

/-- Whoever has a seat has no other segment to leave. -/
theorem Table.SinglePlace.leaveOthers_eq_self (h : t.SinglePlace) {name : String}
    (hw : (t.segment job name).waitingOrdinal = some o) :
    leaveOthers job name o (t.job job) = (t.job job, ∅) := by
  refine leaveOthers_of_not_mem fun n hn ho => hn ?_
  exact congrArg Table.Place.name (h job o (.holder n) (.seat name) ho hw)

theorem seated_of_superseded {w : Waiter κ} {target : Target}
    (h : (enter t job w target).answer = .ok .superseded) :
    ∃ v, (t.segment job target.name).waiting = some v ∧ w.ordinal < v.ordinal ∧
      contest (t.segment job target.name).waiting w = .won v (some w) := by
  cases hc : contest (t.segment job target.name).waiting w with
  | same =>
    rw [enter_of_same hc] at h
    cases h
  | won c l =>
    have hne : c ≠ w := by
      rintro rfl
      rw [answer_enter hc, if_pos rfl] at h
      split at h <;> cases h
    rcases contest_won hc with ⟨-, e, -⟩ | ⟨s, -, -, e, -⟩ | ⟨v, hv, hlt, rfl, rfl⟩
    · exact absurd e hne
    · exact absurd e hne
    · exact ⟨c, hv, hlt, rfl⟩

/-- A call that is superseded writes one segment. -/
theorem Table.SinglePlace.segment_of_superseded (h : t.SinglePlace) {w v : Waiter κ}
    {target : Target} (hv : (t.segment job target.name).waiting = some v)
    (hc : contest (t.segment job target.name).waiting w = .won v (some w)) {j n : String}
    (hjn : (j, n) ≠ (job, target.name)) :
    (enter t job w target).table.segment? j n = t.segment? j n := by
  have hself := h.leaveOthers_eq_self (Segment.waitingOrdinal_eq_some_iff.mpr ⟨v, hv, rfl⟩)
  simp only [enter_of_won hc, hself]
  by_cases hj : j = job
  · subst hj
    have hn : n ≠ target.name := fun e => hjn (by rw [e])
    simp [Table.segment?, hn]
  · simp [Table.segment?, hj]

end Call

/-- **One place for each execution.** In runs of calls whose callers are
suspended while they wait, every execution has at most one place in a job, be
it as a holder or in a seat. A next call takes nobody out of a segment but the
execution that it is made for; and one that is superseded finds nothing to
leave for the winner of the contest and changes no other segment. -/
theorem single_place (rs : List (Request κ))
    (hrs : ({} : Table κ).Along (fun t r => r.Disciplined t) rs) :
    let t := ({} : Table κ).after rs
    t.SinglePlace ∧
    (∀ (r : Request κ) job o name, o ∈ (t.segment job name).holding →
      o ∉ ((r.decide t).table.segment job name).holding → r.caller = some (job, o)) ∧
    ∀ job (w : Waiter κ) target, (enter t job w target).answer = .ok .superseded →
      (∃ v, (t.segment job target.name).waiting = some v ∧ w.ordinal < v.ordinal ∧
        leaveOthers job target.name v.ordinal (t.job job) = (t.job job, ∅)) ∧
      ∀ j n, (j, n) ≠ (job, target.name) →
        (enter t job w target).table.segment? j n = t.segment? j n := by
  intro t
  have hinv : t.Apart ∧ t.SinglePlace :=
    Table.after_induction (I := fun t => t.Apart ∧ t.SinglePlace)
      (fun t r h hr => ⟨Table.apart_decide r h.1, h.2.decide h.1 hr⟩)
      ⟨Table.apart_after [], fun job o p q hp _ => by cases p <;> cases hp⟩ hrs
  refine ⟨hinv.2, fun r job o name ho ho' => hinv.2.caller_of_removed ho ho', ?_⟩
  intro job w target hsup
  obtain ⟨v, hv, hlt, hc⟩ := seated_of_superseded hsup
  refine ⟨⟨v, hv, hlt, ?_⟩, fun j n hjn => hinv.2.segment_of_superseded hv hc hjn⟩
  exact hinv.2.leaveOthers_eq_self (Segment.waitingOrdinal_eq_some_iff.mpr ⟨v, hv, rfl⟩)

/-- #1 builds, #3 waits and #2 deploys; #2 asks to build, gives way to #3, and
still deploys. -/
theorem single_place_of_superseded :
    let rs := [ask 1 "build", ask 3 "build", ask 2 "deploy"]
    let t := ({} : Table Nat).after rs
    ({} : Table Nat).Along (fun t r => r.Disciplined t) rs ∧
    (enter t "app" (asker 2) ⟨"build", .atMost 1⟩).answer = .ok .superseded ∧
    (enter t "app" (asker 2) ⟨"build", .atMost 1⟩).table.segment? "app" "deploy" =
      some { holding := (∅ : SortedSet Ordinal).insert 2, limit := .atMost 1 } := by
  have hd : ({} : Table Nat).Along (fun t r => r.Disciplined t)
      [ask 1 "build", ask 3 "build", ask 2 "deploy"] := by decide
  have h := single_place [ask 1 "build", ask 3 "build", ask 2 "deploy"] hd
  refine ⟨hd, rfl, ?_⟩
  exact (h.2.2 "app" (asker 2) ⟨"build", .atMost 1⟩ rfl).2 "app" "deploy" (by decide)

end SegmentGate
