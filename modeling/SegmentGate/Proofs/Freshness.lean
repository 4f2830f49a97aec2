import SegmentGate.Proofs.Capacity
import SegmentGate.Proofs.Outline
import SegmentGate.Proofs.Stores

/-!
# How far the store may lag behind

A gate saves its table after each call that changed it, and `changed` says so
of every call but one: an execution that asks for the segment it waits for is
refused, and the limit that it brings overwrites the old one all the same. So
the table in memory is the one that was saved last, but for limits that refused
calls have brought since (`snapshot_lags` is such a run).

`Session.Lags` splits the calls of a run at the last save: what the store holds
comes from the calls before, and the calls after it leave the table as it was
but for limits (`unlimited_after_unsaved`). What limit a segment has after any
calls is known from what they bring for it (`limit_after`).
-/
namespace SegmentGate

variable {σ κ : Type}

/-! ## Limits over a run -/

/-- The limit that a run leaves is the last one that it brings for the segment. -/
theorem limit_after (t : Table κ) (rs : List (Request κ)) (job name : String) :
    ((t.after rs).segment job name).limit =
      (limitsGiven job name rs).getLast?.getD (t.segment job name).limit := by
  induction rs generalizing t with
  | nil => rfl
  | cons r rs ih =>
    have hstep := (stepAt r t job name).limit_eq
    have hlast : limitsGiven job name [r] = ((r.asks? job name).map Prod.snd).toList := by
      cases h : r.asks? job name <;> simp [limitsGiven, asked, h]
    rw [Table.after, ih, hstep, limitsGiven_cons, List.getLast?_append, hlast]
    cases (limitsGiven job name rs).getLast? with
    | some l => rfl
    | none => cases (r.asks? job name).map Prod.snd <;> rfl

/-! ## Calls that are not saved -/

/-- A call after which the table is not saved; if it asks to enter, it is
refused. -/
structure Request.Unsaved (t : Table κ) (r : Request κ) : Prop where
  unchanged : (r.decide t).consequences.changed = false
  refused : ∀ job w target, r = .enter job w target →
    (r.decide t).answer = .entered (.error (.reentered job target.name w.ordinal))

theorem Request.unsaved_of_unchanged {t : Table κ} {r : Request κ}
    (h : (r.decide t).consequences.changed = false) : r.Unsaved t := by
  refine ⟨h, ?_⟩
  rintro job w target rfl
  cases hc : contest (t.segment job target.name).waiting w with
  | same => simp only [decide, enter_of_same hc]
  | won c l =>
    have hchanged : ((Request.enter job w target).decide t).consequences.changed = true :=
      enter_changed hc
    rw [h] at hchanged
    cases hchanged

theorem unlimited_after_unsaved {t : Table κ} {rs : List (Request κ)}
    (h : t.Along Request.Unsaved rs) : (t.after rs).unlimited = t.unlimited := by
  induction rs generalizing t with
  | nil => rfl
  | cons r rs ih => exact (ih h.2).trans (unlimited_eq_of_unchanged h.1.unchanged)

/-- Calls that are not saved leave every segment as it was, but for its limit. -/
theorem segment?_after_unsaved {t : Table κ} {rs : List (Request κ)}
    (h : t.Along Request.Unsaved rs) (job name : String) :
    (t.after rs).segment? job name = (t.segment? job name).map fun s =>
      { s with limit := (limitsGiven job name rs).getLast?.getD s.limit } := by
  have hlimit := limit_after t rs job name
  have hunlimited : ((t.after rs).segment? job name).map Segment.unlimited =
      (t.segment? job name).map Segment.unlimited := by
    rw [← Table.segment?_map, ← Table.segment?_map]
    exact congrArg (Table.segment? · job name) (unlimited_after_unsaved h)
  rw [Table.segment, Table.segment] at hlimit
  cases hs : t.segment? job name with
  | none => simpa [hs] using hunlimited
  | some s =>
    cases hs' : (t.after rs).segment? job name with
    | none => simp [hs, hs'] at hunlimited
    | some s' =>
      simp only [hs, hs', Option.map_some, Option.getD_some,
        Option.some.injEq] at hunlimited hlimit ⊢
      calc
        s' = { s'.unlimited with limit := s'.limit } := rfl
        _ = { s.unlimited with limit := (limitsGiven job name rs).getLast?.getD s.limit } := by
          rw [hunlimited, hlimit]

/-! ## The last save -/

namespace Session

variable {k : Keeper σ κ} {s : Session σ κ} {t₀ : Table κ} {pre post : List (Request κ)}

/-- The gate has loaded `t₀` and has taken the calls `pre`, the last of which
was saved, and then the calls `post`, none of which was saved. -/
structure Lags (k : Keeper σ κ) (t₀ : Table κ) (s : Session σ κ) (pre post : List (Request κ)) :
    Prop where
  unlocked : s.gate.locked = false
  table : s.table k = t₀.after (pre ++ post)
  saved : ∀ pre' r, pre = pre' ++ [r] → (r.decide (t₀.after pre')).consequences.changed = true
  unsaved : (t₀.after pre).Along Request.Unsaved post
  stored : loaded k s.store = if pre = [] then t₀ else (t₀.after pre).stored

theorem Lags.call (h : Lags k t₀ s pre post) {r : Request κ}
    (hsaved : ∀ x ∈ (s.tell k r).saves, x = .ok ()) :
    ∃ pre' post', pre' ++ post' = pre ++ post ++ [r] ∧ Lags k t₀ (s.call k r) pre' post' := by
  have hunlocked := unlocked_call k r h.unlocked
  have htable : (s.call k r).table k = t₀.after (pre ++ post ++ [r]) := by
    rw [table_call k r h.unlocked, h.table, t₀.after_append (pre ++ post) [r]]
    rfl
  have hstore := loaded_call h.unlocked hsaved
  cases hc : (r.decide (s.table k)).consequences.changed with
  | true =>
    refine ⟨pre ++ post ++ [r], [], List.append_nil _, hunlocked, ?_, ?_, trivial, ?_⟩
    · rw [List.append_nil, htable]
    · intro pre' r' hr
      obtain ⟨hpre, hlast⟩ := List.append_inj' hr rfl
      obtain rfl : r = r' := (List.cons.inj hlast).1
      rw [← hpre, ← h.table, hc]
    · rw [hstore, hc, if_pos rfl, if_neg (by simp), ← htable, table_call k r h.unlocked]
  | false =>
    refine ⟨pre, post ++ [r], (List.append_assoc ..).symm, hunlocked, ?_, h.saved, ?_, ?_⟩
    · rw [htable, List.append_assoc]
    · refine Table.along_append.mpr ⟨h.unsaved, ?_, trivial⟩
      rw [← Table.after_append, ← h.table]
      exact Request.unsaved_of_unchanged hc
    · rw [hstore, hc, ← h.stored]
      rfl

theorem Lags.after (h : Lags k t₀ s pre post) {rs : List (Request κ)}
    (hsaved : ∀ o ∈ s.outcomes k rs, ∀ x ∈ o.saves, x = .ok ()) :
    ∃ pre' post', pre' ++ post' = pre ++ post ++ rs ∧ Lags k t₀ (s.after k rs) pre' post' := by
  induction rs generalizing s pre post with
  | nil => exact ⟨pre, post, (List.append_nil _).symm, h⟩
  | cons r rs ih =>
    obtain ⟨pre₁, post₁, hsplit, hcall⟩ := h.call (hsaved _ List.mem_cons_self)
    obtain ⟨pre₂, post₂, hsplit', hrest⟩ :=
      ih hcall fun o ho => hsaved o (List.mem_cons_of_mem _ ho)
    refine ⟨pre₂, post₂, ?_, hrest⟩
    rw [hsplit', hsplit, List.append_assoc, List.singleton_append]

end Session

/-- **The snapshot falls behind in limits only.** A gate works on a store,
whatever that holds in the beginning, and every save succeeds. Then the calls
that it has taken are `pre`, which ends with the last call that was saved, and
`post`, of which none was saved; those of `post` that ask to enter were
refused. A new gate would find the table that `pre` has left, as it is stored,
or what was there in the beginning if nothing was saved; and the table in
memory is the same, but that a segment has the limit that the last of the
refused calls has brought for it. -/
theorem snapshot_current (k : Keeper σ κ) (store : σ) (n : Nat) (rs : List (Request κ))
    (hsaved : ∀ o ∈ (Session.start n store).outcomes k rs, ∀ x ∈ o.saves, x = .ok ()) :
    let t₀ := Session.loaded k store
    let s := (Session.start n store).after k rs
    ∃ pre post, rs = pre ++ post ∧
      (∀ pre' r, pre = pre' ++ [r] →
        (r.decide (t₀.after pre')).consequences.changed = true) ∧
      (t₀.after pre).Along Request.Unsaved post ∧
      Session.loaded k s.store = (if pre = [] then t₀ else (t₀.after pre).stored) ∧
      ∀ job name, (s.table k).segment? job name = ((t₀.after pre).segment? job name).map fun x =>
        { x with limit := (limitsGiven job name post).getLast?.getD x.limit } := by
  intro t₀ s
  have hstart : Session.Lags k t₀ (Session.start n store) [] [] :=
    ⟨rfl, rfl, fun pre' r h => by simp at h, trivial, rfl⟩
  obtain ⟨pre, post, hsplit, h⟩ := hstart.after hsaved
  refine ⟨pre, post, hsplit.symm, h.saved, h.unsaved, h.stored, fun job name => ?_⟩
  rw [h.table, Table.after_append]
  exact segment?_after_unsaved h.unsaved job name

/-- #1 builds and #2 waits. #2 asks again, for a segment that takes two, and is
refused: in memory the segment takes two from now on, and in the store it takes
one. And a limit of the largest integer is in the store the same as no limit. -/
theorem snapshot_lags :
    let k : Keeper SnapshotMemory Nat := SnapshotMemory.keeper
    let after (rs : List (Request Nat)) := (Session.start 0 {}).after k rs
    let inMemory (rs : List (Request Nat)) := (((after rs).table k).segment "app" "build").limit
    let inStore (rs : List (Request Nat)) :=
      ((Session.loaded k (after rs).store).segment "app" "build").limit
    let refused := [ask 1 "build", ask 2 "build", .enter "app" (asker 2) ⟨"build", .atMost 2⟩]
    let largest := [.enter "app" (asker 1) ⟨"build", .atMost Limit.unboundedRaw⟩]
    (∀ rs, ∀ o ∈ (Session.start 0 {}).outcomes k rs, ∀ x ∈ o.saves, x = .ok ()) ∧
      inMemory refused = .atMost 2 ∧ inStore refused = .atMost 1 ∧
      inMemory largest = .atMost Limit.unboundedRaw ∧ inStore largest = .unbounded := by
  intro k after inMemory inStore refused largest
  have hsaved (rs : List (Request Nat)) :
      ∀ o ∈ (Session.start 0 {}).outcomes k rs, ∀ x ∈ o.saves, x = .ok () :=
    Session.saves_ok (fun _ _ => rfl) rfl rs
  have htable (rs : List (Request Nat)) : (after rs).table k = ({} : Table Nat).after rs :=
    Session.table_after k rfl rs
  have hcall (s : Session SnapshotMemory Nat) (h : s.gate.locked = false) (r : Request Nat) :=
    Session.loaded_call (r := r) h
      (Session.saves_ok (k := k) (fun _ _ => rfl) h [r] (s.tell k r) List.mem_cons_self)
  have hunlocked (rs : List (Request Nat)) : (after rs).gate.locked = false :=
    Session.unlocked_after k rfl rs
  refine ⟨hsaved, ?_, ?_, ?_, ?_⟩
  · simp only [inMemory, htable]
    decide
  · -- The refused call is not saved; the call before it is.
    have hlast := hcall _ (hunlocked [ask 1 "build", ask 2 "build"])
      (.enter "app" (asker 2) ⟨"build", .atMost 2⟩)
    have hsecond := hcall _ (hunlocked [ask 1 "build"]) (ask 2 "build")
    rw [htable, if_neg (by decide)] at hlast
    rw [htable, if_pos (by decide)] at hsecond
    have hstored := hlast.trans hsecond
    simp only [inStore]
    rw [show Session.loaded k (after refused).store = _ from hstored, Table.stored,
      Table.segment_map rfl]
    decide
  · simp only [inMemory, htable]
    decide
  · have hstored := hcall _ (hunlocked [])
      (.enter "app" (asker 1) ⟨"build", .atMost Limit.unboundedRaw⟩)
    rw [htable, if_pos (by decide)] at hstored
    simp only [inStore]
    rw [show Session.loaded k (after largest).store = _ from hstored, Table.stored,
      Table.segment_map rfl]
    decide

/-- In the same run, the store knows who holds the segment and who waits for it. -/
theorem snapshot_current_of_refused :
    let k : Keeper SnapshotMemory Nat := SnapshotMemory.keeper
    let rs := [ask 1 "build", ask 2 "build", .enter "app" (asker 2) ⟨"build", .atMost 2⟩]
    let s := (Session.start 0 {}).after k rs
    (∀ o ∈ (Session.start 0 {}).outcomes k rs, ∀ x ∈ o.saves, x = .ok ()) ∧
      ∃ x, (Session.loaded k s.store).segment? "app" "build" = some x ∧
        x.holding.elements = [1] ∧ x.waiting = some (asker 2).forget := by
  intro k rs s
  have hsaved : ∀ o ∈ (Session.start 0 {}).outcomes k rs, ∀ x ∈ o.saves, x = .ok () :=
    Session.saves_ok (fun _ _ => rfl) rfl rs
  obtain ⟨pre, post, -, -, -, hstored, hsegment⟩ := snapshot_current k {} 0 rs hsaved
  have htable : s.table k = ({} : Table Nat).after rs := Session.table_after k rfl rs
  have hmemory : (s.table k).segment? "app" "build" =
      some ⟨SortedSet.ofList [1], .atMost 2, some (asker 2)⟩ := by
    rw [htable]
    decide
  have hbuild := hmemory.symm.trans (hsegment "app" "build")
  obtain ⟨x, hx, hlimit⟩ := Option.map_eq_some_iff.mp hbuild.symm
  refine ⟨hsaved, x.stored, ?_, ?_, ?_⟩
  · have hpre : pre ≠ [] := by
      rintro rfl
      cases hx
    rw [show Session.loaded k s.store = _ from hstored, if_neg hpre, Table.stored,
      Table.segment?_map, hx]
    rfl
  · exact congrArg (fun y : Segment Nat => y.holding.elements) hlimit
  · exact congrArg (fun y : Segment Nat => y.waiting.map Waiter.forget) hlimit

end SegmentGate
