import Mathlib.Data.List.Nodup
import SegmentGate.Proofs.Run

/-!
# Arrivals in any order

Executions ask for a segment that is full. One seat is there for all of them,
and in the end the newest has it, in whatever order they came: an older one is
either turned away because a newer one is seated already, or it gets the seat
and loses it to a newer one later. Who tells it, and when, depends on the
order; that it is told once does not.

`Settled` is what a run of arrivals comes to. The execution in the seat and the
ones that were told to give up are a rearrangement of all that came
(`Settled.perm`). So each is counted once, and a proof does not have to follow
one of them through the order of the arrivals.
-/
namespace SegmentGate

variable {κ : Type}

/-- Of a list without repetitions, what agrees with one member is that member. -/
theorem filter_eq_singleton_of_nodup {α β : Type} [DecidableEq β] {f : α → β} {l : List α} {a : α}
    (h : (l.map f).Nodup) (ha : a ∈ l) : (l.filter fun x => f x = f a) = [a] := by
  induction l with
  | nil => cases ha
  | cons b l ih =>
    rw [List.map_cons, List.nodup_cons] at h
    rcases List.mem_cons.mp ha with rfl | ha
    · have hrest : (l.filter fun x => f x = f a) = [] :=
        List.filter_eq_nil_iff.mpr fun x hx heq =>
          h.1 (List.mem_map.mpr ⟨x, hx, of_decide_eq_true heq⟩)
      simp [hrest]
    · have hne : f b ≠ f a := fun heq => h.1 (List.mem_map.mpr ⟨a, ha, heq.symm⟩)
      simp [hne, ih h.2 ha]

/-! ## One arrival -/

/-- The table `t` when `w` waits for the segment under the limit of `target`. -/
def Table.seat (t : Table κ) (job : String) (target : Target) (w : Waiter κ) : Table κ :=
  t.put job target.name
    { t.segment job target.name with limit := target.limit, waiting := some w }

section Arrival
variable {t : Table κ} {job : String} {target : Target}

@[simp] theorem Table.holding_seat (w : Waiter κ) (j n : String) :
    ((t.seat job target w).segment j n).holding = (t.segment j n).holding := by
  rw [Table.seat, Table.segment_put]
  split
  · rename_i h
    rw [h.1, h.2]
  · rfl

@[simp] theorem Table.waiting_seat (w : Waiter κ) :
    ((t.seat job target w).segment job target.name).waiting = some w := by
  simp [Table.seat]

theorem Table.seat_seat (w v : Waiter κ) :
    (t.seat job target w).seat job target v = t.seat job target v := by
  simp [Table.seat, Table.put_put]

theorem Table.after_enter (w : Waiter κ) (rs : List (Request κ)) :
    t.after (.enter job w target :: rs) = (enter t job w target).table.after rs := rfl

theorem Table.signalsDuring_enter (w : Waiter κ) (rs : List (Request κ)) :
    t.signalsDuring (.enter job w target :: rs) =
      (enter t job w target).consequences.signals ++
        (enter t job w target).table.signalsDuring rs :=
  signalsDuring_cons ..

/-- The winner of the contest takes the seat of a full segment. If it is in no
segment of the job, nothing else changes. -/
theorem enter_full {w c : Waiter κ} {l : Option (Waiter κ)}
    (hc : contest (t.segment job target.name).waiting w = .won c l)
    (hfull : target.limit.admits (t.segment job target.name).holding.size = false)
    (hfree : ∀ n, c.ordinal ∉ (t.segment job n).holding) :
    (enter t job w target).table = t.seat job target c ∧
      (enter t job w target).consequences.signals = abortOf job target.name c.ordinal l := by
  have hplace : (place job target.name c
      { t.segment job target.name with limit := target.limit, waiting := none }) =
      ({ t.segment job target.name with limit := target.limit, waiting := some c }, .parked,
        .parked job target.name c) := by
    unfold place
    rw [if_neg]
    · rfl
    · simp [Segment.hasRoom, Segment.holds, hfull, hfree]
  rw [enter_of_won hc, leaveOthers_of_not_mem fun n _ => hfree n, hplace]
  refine ⟨rfl, ?_⟩
  cases l <;> rfl

end Arrival

/-! ## What a run of arrivals comes to -/

/-- Of the executions `ws`, the newest has the seat, and `sig` are the aborts
of the others. -/
structure Settled (job name : String) (ws : List (Waiter κ)) (top : Waiter κ)
    (sig : List (Signal κ)) : Prop where
  perm : (top :: sig.map Signal.waiter).Perm ws
  newest : ∀ w ∈ ws, w.ordinal ≤ top.ordinal
  aborts : ∀ x ∈ sig, ∃ v ∈ ws, x.waiter.ordinal < v.ordinal ∧
    x = ⟨job, name, x.waiter, .abort v.ordinal⟩

namespace Settled

variable {job name : String} {ws : List (Waiter κ)} {top : Waiter κ} {sig : List (Signal κ)}

theorem singleton (w : Waiter κ) : Settled job name [w] w [] :=
  ⟨.refl _, by simp, by simp⟩

/-- One more execution has lost to one that is counted already. -/
theorem abort (h : Settled job name ws top sig) {l c : Waiter κ} (hc : c ∈ ws)
    (hlt : l.ordinal < c.ordinal) :
    Settled job name (l :: ws) top (⟨job, name, l, .abort c.ordinal⟩ :: sig) := by
  refine ⟨?_, fun w hw => ?_, fun x hx => ?_⟩
  · exact (List.Perm.swap l top _).trans (h.perm.cons l)
  · rcases List.mem_cons.mp hw with rfl | hw
    · exact UInt64.le_of_lt (UInt64.lt_of_lt_of_le hlt (h.newest c hc))
    · exact h.newest w hw
  · rcases List.mem_cons.mp hx with rfl | hx
    · exact ⟨c, List.mem_cons_of_mem l hc, hlt, rfl⟩
    · obtain ⟨v, hv, hx⟩ := h.aborts x hx
      exact ⟨v, List.mem_cons_of_mem l hv, hx⟩

theorem of_perm {ws' : List (Waiter κ)} (h : Settled job name ws top sig) (hws : ws.Perm ws') :
    Settled job name ws' top sig := by
  refine ⟨h.perm.trans hws, fun w hw => h.newest w (hws.mem_iff.mpr hw), fun x hx => ?_⟩
  obtain ⟨v, hv, hx⟩ := h.aborts x hx
  exact ⟨v, hws.mem_iff.mp hv, hx⟩

theorem top_mem (h : Settled job name ws top sig) : top ∈ ws :=
  h.perm.mem_iff.mp List.mem_cons_self

/-- The seat and the signals account for each execution once. -/
theorem nodup (h : Settled job name ws top sig) (hnodup : (ws.map Waiter.ordinal).Nodup) :
    (top.ordinal :: sig.map fun x => x.waiter.ordinal).Nodup := by
  have hperm := h.perm.map Waiter.ordinal
  rw [List.map_cons, List.map_map] at hperm
  exact hperm.nodup_iff.mpr hnodup

/-- The newest is told nothing. -/
theorem filter_top (h : Settled job name ws top sig) (hnodup : (ws.map Waiter.ordinal).Nodup) :
    (sig.filter fun x => x.waiter.ordinal = top.ordinal) = [] := by
  refine List.filter_eq_nil_iff.mpr fun x hx heq => ?_
  have hnot := (List.nodup_cons.mp (h.nodup hnodup)).1
  exact hnot (List.mem_map.mpr ⟨x, hx, of_decide_eq_true heq⟩)

/-- Each of the others is told once. -/
theorem filter_other (h : Settled job name ws top sig) (hnodup : (ws.map Waiter.ordinal).Nodup)
    {w : Waiter κ} (hw : w ∈ ws) (hne : w ≠ top) :
    ∃ v ∈ ws, w.ordinal < v.ordinal ∧
      (sig.filter fun x => x.waiter.ordinal = w.ordinal) =
        [⟨job, name, w, .abort v.ordinal⟩] := by
  have hmem : w ∈ sig.map Signal.waiter :=
    (List.mem_cons.mp (h.perm.mem_iff.mpr hw)).resolve_left hne
  obtain ⟨x, hx, rfl⟩ := List.mem_map.mp hmem
  obtain ⟨v, hv, hlt, heq⟩ := h.aborts x hx
  refine ⟨v, hv, hlt, ?_⟩
  rw [← heq]
  exact filter_eq_singleton_of_nodup (List.nodup_cons.mp (h.nodup hnodup)).2 hx

end Settled

section Arrivals
variable {t : Table κ} {job : String} {target : Target}

/-- Of two different executions the newer one has the seat and the older one
its abort. -/
theorem settled_arrival {x w : Waiter κ} (hne : x.ordinal ≠ w.ordinal)
    (hfull : target.limit.admits (t.segment job target.name).holding.size = false)
    (hx : ∀ n, x.ordinal ∉ (t.segment job n).holding)
    (hw : ∀ n, w.ordinal ∉ (t.segment job n).holding) :
    ∃ c l, [c, l].Perm [x, w] ∧ l.ordinal < c.ordinal ∧
      (enter (t.seat job target x) job w target).table = t.seat job target c ∧
      (enter (t.seat job target x) job w target).consequences.signals =
        [⟨job, target.name, l, .abort c.ordinal⟩] := by
  cases hc : contest (some x) w with
  | same =>
    have hsame := contest_eq_same_iff.mp hc
    simp only [Option.map_some, Option.some.injEq] at hsame
    exact absurd hsame hne
  | won c l =>
    have hseated : contest ((t.seat job target x).segment job target.name).waiting w =
        .won c l := by
      rw [Table.waiting_seat, hc]
    have hfull' : target.limit.admits
        ((t.seat job target x).segment job target.name).holding.size = false := by
      rw [Table.holding_seat, hfull]
    have hend (hfree : ∀ n, c.ordinal ∉ (t.segment job n).holding) :=
      enter_full hseated hfull' fun n => by
        rw [Table.holding_seat]
        exact hfree n
    rw [Table.seat_seat] at hend
    rcases contest_won hc with ⟨h, -⟩ | ⟨s, h, hlt, rfl, rfl⟩ | ⟨s, h, hlt, rfl, rfl⟩
    · cases h
    · cases h
      exact ⟨c, x, .swap x c [], hlt, hend hw⟩
    · cases h
      exact ⟨x, w, .refl _, hlt, hend hx⟩

/-- What a run of arrivals at a taken seat comes to. -/
theorem settled_run (x : Waiter κ) (ws : List (Waiter κ))
    (hnodup : ((x :: ws).map Waiter.ordinal).Nodup)
    (hfull : target.limit.admits (t.segment job target.name).holding.size = false)
    (hfree : ∀ w ∈ x :: ws, ∀ n, w.ordinal ∉ (t.segment job n).holding) :
    let rs := ws.map (Request.enter job · target)
    ∃ top, (t.seat job target x).after rs = t.seat job target top ∧
      Settled job target.name (x :: ws) top ((t.seat job target x).signalsDuring rs) := by
  induction ws generalizing x with
  | nil => exact ⟨x, rfl, .singleton x⟩
  | cons w ws ih =>
    have hne : x.ordinal ≠ w.ordinal := by
      simp only [List.map_cons, List.nodup_cons, List.mem_cons, not_or] at hnodup
      exact hnodup.1.1
    obtain ⟨c, l, hperm, hlt, htable, hsig⟩ := settled_arrival hne hfull
      (hfree x List.mem_cons_self) (hfree w (List.mem_cons_of_mem x List.mem_cons_self))
    have hall : (l :: c :: ws).Perm (x :: w :: ws) :=
      (List.Perm.swap c l ws).trans (hperm.append_right ws)
    have hrest : ((c :: ws).map Waiter.ordinal).Nodup :=
      ((hall.map Waiter.ordinal).nodup_iff.mpr hnodup).of_cons
    obtain ⟨top, hafter, hsettled⟩ := ih c hrest fun v hv =>
      hfree v (hall.mem_iff.mp (List.mem_cons_of_mem l hv))
    refine ⟨top, ?_, ?_⟩
    · rw [List.map_cons, Table.after_enter, htable, hafter]
    · rw [List.map_cons, Table.signalsDuring_enter, htable, hsig]
      exact (hsettled.abort List.mem_cons_self hlt).of_perm hall

/-- The newest of some executions is one execution. -/
theorem Settled.top_eq {job name : String} {ws ws' : List (Waiter κ)} {top top' : Waiter κ}
    {sig sig' : List (Signal κ)} (h : Settled job name ws top sig)
    (h' : Settled job name ws' top' sig') (hws : ws'.Perm ws)
    (hnodup : (ws.map Waiter.ordinal).Nodup) : top' = top := by
  have hmem : top' ∈ ws := hws.mem_iff.mp h'.top_mem
  have hle : top'.ordinal ≤ top.ordinal := h.newest top' hmem
  have hge : top.ordinal ≤ top'.ordinal := h'.newest top (hws.mem_iff.mpr h.top_mem)
  exact List.inj_on_of_nodup_map hnodup hmem h.top_mem (UInt64.le_antisymm hle hge)

/-- A run of arrivals at an empty seat. -/
theorem settled_after {ws : List (Waiter κ)} (hne : ws ≠ [])
    (hnodup : (ws.map Waiter.ordinal).Nodup)
    (hseat : (t.segment job target.name).waiting = none)
    (hfull : target.limit.admits (t.segment job target.name).holding.size = false)
    (hfree : ∀ w ∈ ws, ∀ n, w.ordinal ∉ (t.segment job n).holding) :
    let rs := ws.map (Request.enter job · target)
    ∃ top, t.after rs = t.seat job target top ∧
      Settled job target.name ws top (t.signalsDuring rs) := by
  cases ws with
  | nil => exact absurd rfl hne
  | cons w ws =>
    have hwon : contest (t.segment job target.name).waiting w = .won w none := by
      rw [hseat]
      rfl
    obtain ⟨htable, hsig⟩ := enter_full hwon hfull (hfree w List.mem_cons_self)
    obtain ⟨top, hafter, hsettled⟩ := settled_run w ws hnodup hfull hfree
    refine ⟨top, ?_, ?_⟩
    · rw [List.map_cons, Table.after_enter, htable, hafter]
    · rw [List.map_cons, Table.signalsDuring_enter, htable, hsig]
      exact hsettled

end Arrivals

/-- **Arrivals in any order.** Executions that hold no segment of the job ask for
one that has an empty seat and no room under the limit that they all
bring. In whatever order they come, the table in the end is the same: the
newest of them waits, under that limit, and nothing else has changed. Each of
the others has been told once to give up, because of one that is newer, and
has not been told to proceed; the newest has been told nothing. -/
theorem arrivals_in_any_order (t : Table κ) (job : String) (target : Target)
    (ws : List (Waiter κ)) (hne : ws ≠ []) (hnodup : (ws.map Waiter.ordinal).Nodup)
    (hseat : (t.segment job target.name).waiting = none)
    (hfull : target.limit.admits (t.segment job target.name).holding.size = false)
    (hfree : ∀ w ∈ ws, ∀ name, w.ordinal ∉ (t.segment job name).holding) :
    ∃ top ∈ ws, (∀ w ∈ ws, w.ordinal ≤ top.ordinal) ∧ ∀ ws' : List (Waiter κ), ws'.Perm ws →
      let rs := ws'.map (Request.enter job · target)
      t.after rs = t.put job target.name
        { t.segment job target.name with limit := target.limit, waiting := some top } ∧
      (∀ w ∈ ws, w ≠ top → ∃ v ∈ ws, w.ordinal < v.ordinal ∧
        ((t.signalsDuring rs).filter fun x => x.waiter.ordinal = w.ordinal) =
          [⟨job, target.name, w, .abort v.ordinal⟩]) ∧
      ((t.signalsDuring rs).filter fun x => x.waiter.ordinal = top.ordinal) = [] := by
  obtain ⟨top, -, hfirst⟩ := settled_after hne hnodup hseat hfull hfree
  refine ⟨top, hfirst.top_mem, hfirst.newest, fun ws' hws => ?_⟩
  have hnodup' : (ws'.map Waiter.ordinal).Nodup := (hws.map Waiter.ordinal).nodup_iff.mpr hnodup
  have hne' : ws' ≠ [] := fun h => hne (List.nil_perm.mp (h ▸ hws))
  obtain ⟨top', hafter, hsettled⟩ := settled_after hne' hnodup' hseat hfull fun w hw =>
    hfree w (hws.mem_iff.mp hw)
  have htop : top' = top := hfirst.top_eq hsettled hws hnodup
  subst htop
  have hall := hsettled.of_perm hws
  exact ⟨hafter, fun w hw hne => hall.filter_other hnodup hw hne, hall.filter_top hnodup⟩

/-- #1 builds, and #2, #3 and #4 ask to build. #2 loses its seat to #4 if that is
the next, else to #3; #4 waits in either case. -/
theorem arrivals_in_any_order_of_three :
    let t := ({} : Table Nat).after [ask 1 "build"]
    let after := t.put "app" "build"
      { t.segment "app" "build" with limit := .atMost 1, waiting := some (asker 4) }
    t.after [ask 2 "build", ask 4 "build", ask 3 "build"] = after ∧
    t.after [ask 2 "build", ask 3 "build", ask 4 "build"] = after ∧
    t.signalsDuring [ask 2 "build", ask 4 "build", ask 3 "build"] =
      [⟨"app", "build", asker 2, .abort 4⟩, ⟨"app", "build", asker 3, .abort 4⟩] ∧
    t.signalsDuring [ask 2 "build", ask 3 "build", ask 4 "build"] =
      [⟨"app", "build", asker 2, .abort 3⟩, ⟨"app", "build", asker 3, .abort 4⟩] := by
  intro t after
  have hfree : ∀ w ∈ [asker 2, asker 4, asker 3], ∀ name,
      w.ordinal ∉ (t.segment "app" name).holding := by
    have ht : t = ({} : Table Nat).put "app" "build"
        { holding := (∅ : SortedSet Ordinal).insert 1, limit := .atMost 1 } := by decide
    intro w hw name
    rw [ht, Table.segment_put]
    split
    · revert w
      decide
    · exact SortedSet.not_mem_empty _
  obtain ⟨top, htop, hnewest, hall⟩ := arrivals_in_any_order t "app" ⟨"build", .atMost 1⟩
    [asker 2, asker 4, asker 3] (by decide) (by decide) (by decide) (by decide) hfree
  have htop4 : top = asker 4 := by
    have h4 := hnewest (asker 4) (by decide)
    clear hall hnewest
    revert top
    decide
  subst htop4
  exact ⟨(hall _ (.refl _)).1, (hall [asker 2, asker 3, asker 4] (by decide)).1, by decide,
    by decide⟩

end SegmentGate
