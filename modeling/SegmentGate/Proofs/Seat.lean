import SegmentGate.Proofs.Run

/-!
# The waiting seat

Whoever waits for a segment waits for somebody: in every reachable table a
segment with a waiter has a holder, and the waiter is not one of the holders
(`Segment.Served`). Nobody who could hand the segment over is lost, because a
departure and the promotion that it allows are one call: whenever a holder of
a segment with a waiter leaves, by its exit or by entering elsewhere, exactly
that waiter takes its place, the seat is empty afterwards, the number of
holders is what it was, and one `proceed` is queued for the waiter
(`no_stranded_waiter`).

**Limits.** A waiter is seated because a segment is full, and an empty segment
is full only under a limit of zero. Callers cannot ask for such a limit: the
constructors that take theirs from a script or an integer refuse it
(`Target.Made`). That is the one hypothesis on the calls of a run. Limits may
go up and down between calls, and calls may be refused.
-/
namespace SegmentGate

variable {κ : Type}

/-! ## Targets -/

/-- A target made by a constructor that checks the limit it is given. -/
def Target.Made (target : Target) : Prop :=
  (∃ name limit, Target.parse name limit = .ok target) ∨
  (∃ name n, Target.limited name n = .ok target) ∨
  (∃ name, Target.unbounded name = .ok target)

/-- A call whose target, if it has one, was made by such a constructor. -/
def Request.Made : Request κ → Prop
  | .enter _ _ target => target.Made
  | _ => True

theorem Limit.admits_zero_of_positive {n : UInt32} {l : Limit} (h : Limit.positive n = .ok l) :
    l.admits 0 = true := by
  unfold Limit.positive at h
  split at h
  · cases h
  · rename_i hn
    cases h
    unfold Limit.ofRaw
    split
    · rfl
    · have : n.toNat ≠ 0 := fun e => hn (UInt32.toNat_inj.mp e)
      simp only [Limit.admits, decide_eq_true_eq]
      omega

theorem Limit.admits_zero_of_parse {s : String} {l : Limit} (h : Limit.parse s = .ok l) :
    l.admits 0 = true := by
  simp only [Limit.parse] at h
  split at h
  · cases h
    rfl
  · split at h
    · exact Limit.admits_zero_of_positive h
    · cases h

theorem Target.limit_of_new {name : String} {l : Limit} {target : Target}
    (h : Target.new name l = .ok target) : target.limit = l := by
  unfold Target.new at h
  split at h
  · cases h
  · cases h
    rfl

/-- Under a limit that a caller can ask for, an empty segment has room. -/
theorem Target.Made.admits_zero {target : Target} (h : target.Made) :
    target.limit.admits 0 = true := by
  rcases h with ⟨name, limit, h⟩ | ⟨name, n, h⟩ | ⟨name, h⟩
  · unfold Target.parse at h
    split at h
    · cases h
    · split at h
      · cases h
      · rename_i hl
        rw [Target.limit_of_new h]
        exact Limit.admits_zero_of_parse hl
  · unfold Target.limited at h
    split at h
    · cases h
    · rename_i hl
      rw [Target.limit_of_new h]
      exact Limit.admits_zero_of_positive hl
  · rw [Target.limit_of_new h]
    rfl

/-! ## The invariant -/

/-- The waiter is not one of the holders. -/
def Segment.Apart (s : Segment κ) : Prop := ∀ w, s.waiting = some w → w.ordinal ∉ s.holding

theorem Segment.Apart.not_mem {s : Segment κ} (hs : s.Apart) {o : Ordinal}
    (ho : s.waitingOrdinal = some o) : o ∉ s.holding := by
  obtain ⟨w, hw, rfl⟩ := waitingOrdinal_eq_some_iff.mp ho
  exact hs w hw

/-- Whoever waits, waits for a holder. -/
structure Segment.Served (s : Segment κ) : Prop where
  apart : s.Apart
  held : ∀ w, s.waiting = some w → ∃ o, o ∈ s.holding

def Table.Apart (t : Table κ) : Prop := ∀ job name, (t.segment job name).Apart

def Table.Served (t : Table κ) : Prop := ∀ job name, (t.segment job name).Served

section Step
variable {r : Request κ} {t : Table κ} {job name : String} {s s' : Segment κ}
  {sig : List (Signal κ)}

theorem StepAt.apart (h : StepAt r t job name s sig s') (hs : s.Apart) : s'.Apart := by
  intro w hw
  cases h with
  | idle => exact hs w hw
  | left => simp at hw
  | unseated => cases hw
  | refused => exact hs w hw
  | entered => cases hw
  | parked _ _ _ _ _ _ _ _ _ ho =>
    cases hw
    exact ho

theorem StepAt.served (h : StepAt r t job name s sig s') (hr : r.Made) (hs : s.Served) :
    s'.Served := by
  refine ⟨h.apart hs.apart, fun w hw => ?_⟩
  cases h with
  | idle => exact hs.held w hw
  | left => simp at hw
  | unseated => cases hw
  | refused => exact hs.held w hw
  | entered => cases hw
  | parked w' target c l e hn hc hm hfull ho =>
    subst e
    have hroom := Target.Made.admits_zero hr
    refine SortedSet.exists_mem_of_size_ne_zero fun e => ?_
    rw [e, hroom] at hfull
    cases hfull

/-- A holder that is gone after a call was the mover of it and has left, and
the call did not ask for the segment. -/
theorem StepAt.left_of_removed (h : StepAt r t job name s sig s') {o : Ordinal}
    (ho : o ∈ s.holding) (ho' : o ∉ s'.holding) :
    r.mover t = some (job, o) ∧ r.entering ≠ some (job, name) ∧ s' = s.depart o ∧
      sig = proceedOf job name s.waiting := by
  cases h with
  | idle => exact absurd ho ho'
  | left o' he hm hmem =>
    rw [Segment.mem_holding_depart, not_or, not_and] at ho'
    have e : o = o' := Decidable.byContradiction fun e => ho'.2 e ho
    subst e
    exact ⟨hm, he, rfl, rfl⟩
  | unseated => exact absurd ho ho'
  | refused => exact absurd ho ho'
  | entered => exact absurd (SortedSet.mem_insert.mpr (.inr ho)) ho'
  | parked => exact absurd ho ho'

/-- A departure from a segment with a waiter leaves the number of holders as
it was. -/
theorem Segment.size_depart {w : Waiter κ} {o : Ordinal} (hs : s.Apart) (hw : s.waiting = some w)
    (ho : o ∈ s.holding) : (s.depart o).holding.size = s.holding.size := by
  rw [Segment.depart_of_waiting hw]
  have h1 := SortedSet.size_erase_of_mem ho
  have hnot : w.ordinal ∉ s.holding.erase o := fun h => hs w hw (SortedSet.mem_erase.mp h).2
  have h2 := SortedSet.size_insert_of_not_mem hnot
  show ((s.holding.erase o).insert w.ordinal).size = s.holding.size
  omega

end Step

/-! ## Reachable tables -/

theorem Table.apart_decide {t : Table κ} (r : Request κ) (h : t.Apart) :
    (r.decide t).table.Apart :=
  fun job name => (stepAt r t job name).apart (h job name)

theorem Table.apart_after (rs : List (Request κ)) : (({} : Table κ).after rs).Apart :=
  after_induction (fun _ r h _ => apart_decide r h) (fun _ _ _ hw => by cases hw)
    (along_of_forall (fun _ _ _ => trivial) _)

theorem Table.served_after {rs : List (Request κ)} (hrs : ∀ r ∈ rs, r.Made) :
    (({} : Table κ).after rs).Served :=
  after_induction (fun t r h hr job name => (stepAt r t job name).served hr (h job name))
    (fun _ _ => ⟨fun _ hw => (by cases hw), fun _ hw => (by cases hw)⟩)
    (along_of_forall (fun r hr _ => hrs r hr) _)

/-- The mover of a call that did not ask for the segment is the execution that
exits, or it enters another segment of the job. -/
theorem Request.cases_of_mover {r : Request κ} {t : Table κ} {job name : String} {o : Ordinal}
    (hm : r.mover t = some (job, o)) (he : r.entering ≠ some (job, name)) :
    r = .exit job o ∨ ∃ v target, r = .enter job v target ∧ target.name ≠ name := by
  cases r with
  | snapshot => cases hm
  | segment => cases hm
  | exit j o' =>
    cases hm
    exact .inl rfl
  | enter j v target =>
    have hj : j = job := by
      simp only [Request.mover] at hm
      split at hm
      · cases hm
      · cases hm
        rfl
    subst hj
    exact .inr ⟨v, target, rfl, fun hn => he (by rw [Request.entering, hn])⟩

/-- **Nobody is stranded and no hand-over is lost.** In every table that calls
reach from the empty one, a segment with a waiter has a holder and the waiter
is not one. A call that removes a holder of such a segment is an exit of that
holder or an enter into another segment; it puts exactly the waiter into the
holder's place, empties the seat, and queues one `proceed` for the waiter and
nothing else there. -/
theorem no_stranded_waiter (rs : List (Request κ)) (hrs : ∀ r ∈ rs, r.Made) (job name : String)
    (w : Waiter κ) (hw : ((({} : Table κ).after rs).segment job name).waiting = some w) :
    let t := ({} : Table κ).after rs
    let s := t.segment job name
    (∃ o, o ∈ s.holding) ∧ w.ordinal ∉ s.holding ∧
    ∀ (r : Request κ) (o : Ordinal), o ∈ s.holding →
      o ∉ ((r.decide t).table.segment job name).holding →
      let s' := (r.decide t).table.segment job name
      (r = .exit job o ∨ ∃ v target, r = .enter job v target ∧ target.name ≠ name) ∧
      (∀ x, x ∈ s'.holding ↔ x = w.ordinal ∨ (x ≠ o ∧ x ∈ s.holding)) ∧
      s'.waiting = none ∧ s'.holding.size = s.holding.size ∧
      (r.decide t).consequences.signalsAt job name = [⟨job, name, w, .proceed⟩] := by
  intro t s
  have hserved : s.Served := Table.served_after hrs job name
  refine ⟨hserved.held w hw, hserved.apart w hw, fun r o ho ho' => ?_⟩
  obtain ⟨hm, he, hs', hsig⟩ := (stepAt r t job name).left_of_removed ho ho'
  intro s'
  have hs' : s' = s.depart o := hs'
  refine ⟨Request.cases_of_mover hm he, fun x => ?_, ?_, ?_, ?_⟩
  · rw [hs', Segment.mem_holding_depart, Segment.waitingOrdinal, hw]
    simp [eq_comm]
  · rw [hs', Segment.waiting_depart]
  · rw [hs', Segment.size_depart hserved.apart hw ho]
  · rw [hsig, hw]
    rfl

/-- #1 builds and #2 waits; when #1 exits, #2 builds. -/
theorem no_stranded_waiter_of_two :
    let rs := [ask 1 "build", ask 2 "build"]
    let t := ({} : Table Nat).after rs
    (∀ r ∈ rs, r.Made) ∧ (t.segment "app" "build").waiting = some (asker 2) ∧
    1 ∈ (t.segment "app" "build").holding ∧
    ((Request.exit "app" 1).decide t).consequences.signalsAt "app" "build" =
      [⟨"app", "build", asker 2, .proceed⟩] := by
  have hmade : ∀ r ∈ [ask 1 "build", ask 2 "build"], r.Made := by
    intro r hr
    simp only [List.mem_cons, List.not_mem_nil, or_false] at hr
    rcases hr with rfl | rfl <;> exact .inl ⟨some "build", some "1", rfl⟩
  have h := no_stranded_waiter [ask 1 "build", ask 2 "build"] hmade "app" "build" (asker 2)
    (by decide)
  exact ⟨hmade, by decide, by decide, (h.2.2 (.exit "app" 1) 1 (by decide) (by decide)).2.2.2.2⟩

end SegmentGate
