import Mathlib.Data.ENat.Lattice
import SegmentGate.Proofs.Run

/-!
# Limits and holders

**How many hold a segment.** One call makes the holders of a segment at most
one more, and only if it asks for the segment and the limit that it brings has
room for them (`StepAt.size_le`). A promotion does not look at the limit, but
somebody has left in the same call. So over a run a segment never has more
holders than it had at the start or than the largest limit that the run gives
it (`Table.size_after_le`); the bounds of `holders_bounded` are its cases.

**Who waits for a free slot.** A waiter is seated because the segment is full,
and a departure promotes it at once, so as a rule it waits for a segment that
has no room (`Table.Packed`). There is one call that breaks the rule: when the
waiter asks for its segment again it is refused, but the limit that it brings
stands (`room_beside_waiter`). No other call does, so the tables of a run keep
the rule exactly if no call of it is refused under a limit with room
(`packed_iff`).
-/
namespace SegmentGate

variable {κ : Type}

/-! ## Limits as numbers -/

/-- The largest number of holders under the limit. -/
def Limit.most : Limit → ℕ∞
  | .atMost n => n.toNat
  | .unbounded => ⊤

theorem Limit.admits_iff {l : Limit} {n : Nat} : l.admits n = true ↔ (n : ℕ∞) < l.most := by
  cases l <;> simp [admits, most]

/-- The largest number of holders under any of the limits; 0 if there is none. -/
noncomputable def Limit.largest (ls : List Limit) : ℕ∞ := (ls.map Limit.most).foldr max 0

@[simp] theorem Limit.largest_cons (l : Limit) (ls : List Limit) :
    largest (l :: ls) = max l.most (largest ls) := rfl

theorem Limit.largest_append (ls ls' : List Limit) :
    largest (ls ++ ls') = max (largest ls) (largest ls') := by
  induction ls with
  | nil => exact (max_eq_right bot_le).symm
  | cons l ls ih => rw [List.cons_append, largest_cons, largest_cons, ih, max_assoc]

theorem Limit.largest_le {ls : List Limit} {n : ℕ∞} (h : ∀ l ∈ ls, l.most ≤ n) :
    largest ls ≤ n := by
  induction ls with
  | nil => exact bot_le
  | cons l ls ih =>
    rw [largest_cons]
    exact max_le (h l List.mem_cons_self) (ih fun l' hl => h l' (List.mem_cons_of_mem l hl))

/-- The limits that a run gives the segment, oldest first. -/
def limitsGiven (job name : String) (rs : List (Request κ)) : List Limit :=
  (asked job name rs).map Prod.snd

theorem limitsGiven_cons (job name : String) (r : Request κ) (rs : List (Request κ)) :
    limitsGiven job name (r :: rs) = limitsGiven job name [r] ++ limitsGiven job name rs := by
  simp only [limitsGiven, ← List.map_append, ← asked_append, List.singleton_append]

/-! ## The number of holders -/

section Step
variable {r : Request κ} {t : Table κ} {job name : String} {s s' : Segment κ}
  {sig : List (Signal κ)}

/-- Somebody leaves and at most one takes the place. -/
theorem Segment.size_depart_le {o : Ordinal} (ho : o ∈ s.holding) :
    (s.depart o).holding.size ≤ s.holding.size := by
  have herase := SortedSet.size_erase_of_mem ho
  cases hw : s.waiting with
  | none =>
    rw [depart_of_waiting_none hw]
    exact Nat.le_of_succ_le herase.le
  | some w =>
    rw [depart_of_waiting hw]
    exact (SortedSet.size_insert_le _ _).trans herase.le

theorem StepAt.limit_eq (h : StepAt r t job name s sig s') :
    s'.limit = ((r.asks? job name).map Prod.snd).getD s.limit := by
  cases h with
  | idle he => rw [Request.asks?_eq_none he]; rfl
  | left o he => rw [Request.asks?_eq_none he, Segment.limit_depart]; rfl
  | unseated o hr => subst hr; rfl
  | refused w target hr hn => subst hr hn; simp
  | entered w target c l hr hn => subst hr hn; simp
  | parked w target c l hr hn => subst hr hn; simp

/-- A call makes the holders more only under the limit that it brings. -/
theorem StepAt.size_le (h : StepAt r t job name s sig s') :
    (s'.holding.size : ℕ∞) ≤
      max (s.holding.size : ℕ∞) (Limit.largest (limitsGiven job name [r])) := by
  cases h with
  | idle => exact le_max_left _ _
  | left o he hm ho => exact le_max_of_le_left (by exact_mod_cast Segment.size_depart_le ho)
  | unseated => exact le_max_left _ _
  | refused => exact le_max_left _ _
  | entered w target c l hr hn hc hm hroom =>
    subst hr hn
    have hgiven : limitsGiven job target.name [Request.enter job w target] = [target.limit] := by
      simp [limitsGiven, asked]
    rcases hroom with hroom | ho
    · rw [Limit.admits_iff] at hroom
      have hsize := SortedSet.size_insert_le s.holding c.ordinal
      rw [hgiven]
      refine le_max_of_le_right (le_max_of_le_left ?_)
      exact (by exact_mod_cast hsize : _ ≤ ((s.holding.size + 1 : Nat) : ℕ∞)).trans
        (by simpa using Order.add_one_le_of_lt hroom)
    · rw [SortedSet.insert_eq_self ho]
      exact le_max_left _ _
  | parked => exact le_max_left _ _

end Step

/-! ## Runs -/

/-- Over a run a segment has no more holders than at the start, or than the
largest limit that the run gives it. -/
theorem Table.size_after_le (t : Table κ) (rs : List (Request κ)) (job name : String) :
    (((t.after rs).segment job name).holding.size : ℕ∞) ≤
      max ((t.segment job name).holding.size : ℕ∞) (Limit.largest (limitsGiven job name rs)) := by
  induction rs generalizing t with
  | nil => exact le_max_left _ _
  | cons r rs ih =>
    rw [limitsGiven_cons, Limit.largest_append, ← max_assoc]
    exact (ih (r.decide t).table).trans (max_le_max_right _ (stepAt r t job name).size_le)

/-- **Capacity.** After one call, on any table, a segment has no more holders
than before or than its limit after the call allows. In a run from the empty
table it has no more than the largest limit that it was given, hence no more
than a limit that is given to it always; and holders above a lowered limit do
not become more. -/
theorem holders_bounded (job name : String) :
    (∀ (t : Table κ) (r : Request κ),
      (((r.decide t).table.segment job name).holding.size : ℕ∞) ≤
        max ((t.segment job name).holding.size : ℕ∞)
          ((r.decide t).table.segment job name).limit.most) ∧
    (∀ rs : List (Request κ),
      (((({} : Table κ).after rs).segment job name).holding.size : ℕ∞) ≤
        Limit.largest (limitsGiven job name rs)) ∧
    (∀ (rs : List (Request κ)) (l : Limit), (∀ l' ∈ limitsGiven job name rs, l' = l) →
      (((({} : Table κ).after rs).segment job name).holding.size : ℕ∞) ≤ l.most) ∧
    (∀ (t : Table κ) (rs : List (Request κ)),
      (∀ l ∈ limitsGiven job name rs, l.most ≤ (t.segment job name).holding.size) →
      ((t.after rs).segment job name).holding.size ≤ (t.segment job name).holding.size) := by
  have hrun : ∀ rs : List (Request κ),
      (((({} : Table κ).after rs).segment job name).holding.size : ℕ∞) ≤
        Limit.largest (limitsGiven job name rs) := fun rs =>
    (Table.size_after_le {} rs job name).trans (max_le bot_le le_rfl)
  refine ⟨fun t r => ?_, hrun, fun rs l hl => ?_, fun t rs hlow => ?_⟩
  · have hstep := stepAt r t job name
    refine hstep.size_le.trans (max_le (le_max_left _ _) ?_)
    rw [hstep.limit_eq]
    cases he : r.asks? job name <;> simp [limitsGiven, asked, he, Limit.largest]
  · exact (hrun rs).trans (Limit.largest_le fun l' hl' => (hl l' hl').symm ▸ le_rfl)
  · have h := (Table.size_after_le t rs job name).trans (max_le le_rfl (Limit.largest_le hlow))
    exact_mod_cast h

/-- #1 and #2 build under a limit of two, #3 waits under a limit of one and
comes in for #1: two still build, and no more do. -/
theorem holders_bounded_of_lowered :
    let t := ({} : Table Nat).after [.enter "app" (asker 1) ⟨"build", .atMost 2⟩,
      .enter "app" (asker 2) ⟨"build", .atMost 2⟩]
    let rs := [ask 3 "build", .exit "app" 1]
    (∀ l ∈ limitsGiven "app" "build" rs, l.most ≤ (t.segment "app" "build").holding.size) ∧
    ((t.after rs).segment "app" "build").holding.elements = [2, 3] ∧
    ((t.after rs).segment "app" "build").holding.size ≤
      (t.segment "app" "build").holding.size := by
  intro t rs
  have hlow : ∀ l ∈ limitsGiven "app" "build" rs,
      l.most ≤ (t.segment "app" "build").holding.size := by
    intro l hl
    have hl : l ∈ [Limit.atMost 1] := hl
    rw [List.mem_singleton] at hl
    subst hl
    have h : (1 : UInt32).toNat ≤ (t.segment "app" "build").holding.size := by decide
    exact Nat.cast_le.mpr h
  exact ⟨hlow, by decide, (holders_bounded "app" "build").2.2.2 t rs hlow⟩

/-! ## Waiters and free slots -/

/-- A segment with a waiter has no room. -/
def Segment.Packed (s : Segment κ) : Prop := s.waiting ≠ none → s.hasRoom = false

def Table.Packed (t : Table κ) : Prop := ∀ job name, (t.segment job name).Packed

/-- The waiter of a segment asks for it again, with a limit under which it has
room. -/
def Request.RefusedWithRoom (t : Table κ) : Request κ → Prop
  | .enter job w target =>
    (t.segment job target.name).waitingOrdinal = some w.ordinal ∧
      target.limit.admits (t.segment job target.name).holding.size = true
  | _ => False

theorem StepAt.packed {r : Request κ} {t : Table κ} {job name : String} {s' : Segment κ}
    {sig : List (Signal κ)} (h : StepAt r t job name (t.segment job name) sig s')
    (hs : (t.segment job name).Packed) (hr : ¬r.RefusedWithRoom t) : s'.Packed := by
  intro hw
  cases h with
  | idle => exact hs hw
  | left => exact absurd (Segment.waiting_depart _ _) hw
  | unseated => exact absurd rfl hw
  | refused w target hr' hn hwo =>
    subst hr' hn
    exact Bool.eq_false_iff.mpr fun hroom => hr ⟨hwo, hroom⟩
  | entered => exact absurd rfl hw
  | parked w target c l hr' hn hc hm hfull => exact hfull

/-- A call that is refused with room leaves the waiter beside the room. -/
theorem Request.RefusedWithRoom.not_packed {r : Request κ} {t : Table κ}
    (h : r.RefusedWithRoom t) : ¬(r.decide t).table.Packed := by
  cases r with
  | enter job w target =>
    obtain ⟨hwo, hroom⟩ := h
    obtain ⟨v, hv, -⟩ := Segment.waitingOrdinal_eq_some_iff.mp hwo
    intro hp
    have hp := hp job target.name
    rw [Request.decide, enter_of_same (contest_eq_same_iff.mpr hwo)] at hp
    simp only [Table.segment_put, and_self, if_true] at hp
    have hfull := hp (by simp [hv])
    rw [Segment.hasRoom, hroom] at hfull
    cases hfull
  | exit => exact h.elim
  | snapshot => exact h.elim
  | segment => exact h.elim

/-- **Who waits, waits for room.** In all tables that a run passes through
every segment with a waiter is without room, exactly if no call of the run is
refused under a limit that makes room. -/
theorem packed_iff (rs : List (Request κ)) :
    (∀ pre, pre <+: rs → (({} : Table κ).after pre).Packed) ↔
      ({} : Table κ).Along (fun t r => ¬r.RefusedWithRoom t) rs :=
  Table.prefixes_iff (J := fun _ => True) (fun _ _ _ => trivial)
    (fun t r _ h => ⟨fun hp hr => hr.not_packed hp,
      fun hr job name => (stepAt r t job name).packed (h job name) hr⟩)
    trivial (fun _ _ hw => absurd rfl hw) rs

/-- #1 builds and #2 waits. #2 asks again, for a limit of two, and is refused:
there is room for it now, and it still waits. -/
theorem room_beside_waiter :
    let t := ({} : Table Nat).after
      [ask 1 "build", ask 2 "build", .enter "app" (asker 2) ⟨"build", .atMost 2⟩]
    (t.segment "app" "build").waiting = some (asker 2) ∧
      (t.segment "app" "build").hasRoom = true ∧ ¬t.Packed := by
  intro t
  have hw : (t.segment "app" "build").waiting = some (asker 2) := by decide
  have hroom : (t.segment "app" "build").hasRoom = true := by decide
  refine ⟨hw, hroom, fun hp => ?_⟩
  have hfull := hp "app" "build" (by simp [hw])
  rw [hroom] at hfull
  cases hfull

end SegmentGate
