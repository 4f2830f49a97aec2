import SegmentGate.Proofs.Capacity
import SegmentGate.Proofs.Stores

/-!
# Which tables a snapshot keeps

A snapshot is read back as `Table.stored` says, and that is the table without
its live capabilities (`Table.forget`) but for one odd limit: a limit of the
largest integer stands for no limit. `Limit.Kept` leaves it out. No constructor
makes that limit (`Limit.kept_of_made`), and none is read from a snapshot
(`Table.kept_of_decode?`). So the tables that a gate comes to, `Table.Reachable`,
keep all their limits: after one call the limit of a segment is the old one or
the one that the call brings, and the rest is an induction on the calls.
-/
namespace SegmentGate

variable {σ κ : Type}

/-! ## Limits -/

/-- The limit is not the odd one that a snapshot reads as no limit. -/
def Limit.Kept (l : Limit) : Prop := l ≠ .atMost unboundedRaw

/-- The ways in which a caller can come by a limit. -/
inductive Limit.Made : Limit → Prop
  | unbounded : Made .unbounded
  | ofRaw (n : UInt32) : Made (.ofRaw n)
  | positive {n : UInt32} {l : Limit} (h : Limit.positive n = .ok l) : Made l
  | parse {s : String} {l : Limit} (h : Limit.parse s = .ok l) : Made l

theorem Limit.kept_ofRaw (n : UInt32) : (ofRaw n).Kept := by
  unfold ofRaw Kept
  split
  · simp
  · rename_i hn
    simpa using hn

theorem Limit.kept_of_positive {n : UInt32} {l : Limit} (h : positive n = .ok l) : l.Kept := by
  unfold positive at h
  split at h
  · cases h
  · cases h
    exact kept_ofRaw n

theorem Limit.kept_of_made {l : Limit} (h : l.Made) : l.Kept := by
  cases h with
  | unbounded => simp [Kept]
  | ofRaw n => exact kept_ofRaw n
  | positive h => exact kept_of_positive h
  | parse h =>
    simp only [Limit.parse] at h
    split at h
    · cases h
      simp [Kept]
    · split at h
      · exact kept_of_positive h
      · cases h

/-! ## Tables -/

/-- All limits of the table are kept. -/
def Table.Kept (t : Table κ) : Prop := ∀ job name, (t.segment job name).limit.Kept

theorem Segment.stored_eq_forget {s : Segment κ} (h : s.limit.Kept) : s.stored = s.forget := by
  rw [stored, Limit.ofRaw_raw h]
  rfl

theorem Table.stored_eq_forget {t : Table κ} (h : t.Kept) : t.stored = t.forget := by
  have hmap : t.forget = t.map Segment.forget := rfl
  rw [hmap, stored]
  refine ext_segment? (fun job => ?_) (fun job name => ?_)
  · simp only [job?_map, Option.isSome_map]
  · rw [segment?_map, segment?_map]
    cases hs : t.segment? job name with
    | none => rfl
    | some s =>
      have hkept := h job name
      rw [segment, hs, Option.getD_some] at hkept
      rw [Option.map_some, Option.map_some, Segment.stored_eq_forget hkept]

theorem Table.kept_empty : ({} : Table κ).Kept := by
  intro job name
  have hsegment : ({} : Table κ).segment job name = {} := rfl
  simp [hsegment, Limit.Kept]

theorem Table.kept_decide {t : Table κ} (h : t.Kept) (r : Request κ)
    (hr : ∀ job name w l, r.asks? job name = some (w, l) → l.Kept) : (r.decide t).table.Kept := by
  intro job name
  rw [(stepAt r t job name).limit_eq]
  cases hasks : r.asks? job name with
  | none => exact h job name
  | some asked => exact hr job name asked.1 asked.2 hasks

/-! ## What is read from a snapshot -/

namespace Json

theorem exists_of_mem_mapM {α β : Type} {f : α → Option β} {as : List α} {bs : List β}
    (h : as.mapM f = some bs) {b : β} (hb : b ∈ bs) : ∃ a ∈ as, f a = some b := by
  induction as generalizing bs with
  | nil =>
    cases h
    cases hb
  | cons a as ih =>
    simp only [List.mapM_cons, Option.bind_eq_bind, Option.bind_eq_some_iff, Option.pure_def,
      Option.some.injEq] at h
    obtain ⟨b', hfirst, bs', hrest, rfl⟩ := h
    rcases List.mem_cons.mp hb with rfl | hb
    · exact ⟨a, List.mem_cons_self, hfirst⟩
    · obtain ⟨a', hmem, ha'⟩ := ih hrest hb
      exact ⟨a', List.mem_cons_of_mem a hmem, ha'⟩

/-- Each value of a map that was read was read by itself. -/
theorem exists_of_get?_bindings? {ν : Type} {f : Read → Option ν} {j : Read}
    {m : SortedMap String ν} (h : bindings? f j = some m) {k : String} {v : ν}
    (hv : m.get? k = some v) : ∃ j', f j' = some v := by
  unfold bindings? at h
  split at h
  · obtain ⟨es, hes, rfl⟩ := Option.map_eq_some_iff.mp h
    obtain ⟨member, -, hmember⟩ := exists_of_mem_mapM hes (SortedMap.mem_of_get?_ofList hv)
    simp only [binding?, Option.bind_eq_bind, Option.bind_eq_some_iff, Option.pure_def,
      Option.some.injEq, Prod.mk.injEq] at hmember
    obtain ⟨_, _, v', hv', _, rfl⟩ := hmember
    exact ⟨member.2, hv'⟩
  · cases h

end Json

theorem Limit.kept_of_ofJson? {j : Json.Read} {l : Limit} (h : Limit.ofJson? j = some l) :
    l.Kept := by
  obtain ⟨n, -, rfl⟩ := Option.map_eq_some_iff.mp h
  exact kept_ofRaw (UInt32.ofNat n)

theorem Segment.kept_of_ofJson? {j : Json.Read} {s : Segment κ} (h : Segment.ofJson? j = some s) :
    s.limit.Kept := by
  simp only [ofJson?, Option.bind_eq_bind, Option.bind_eq_some_iff] at h
  obtain ⟨fields, -, h⟩ := h
  split at h
  · simp only [Option.bind_eq_some_iff, Option.pure_def, Option.some.injEq] at h
    obtain ⟨holding, -, limit, hlimit, waiting, -, rfl⟩ := h
    exact Limit.kept_of_ofJson? hlimit
  · cases h

theorem Table.kept_of_ofJson? {j : Json.Read} {t : Table κ} (h : Table.ofJson? j = some t) :
    t.Kept := by
  intro job name
  simp only [ofJson?, Option.bind_eq_bind, Option.bind_eq_some_iff] at h
  obtain ⟨fields, -, h⟩ := h
  split at h
  · simp only [Option.bind_eq_some_iff, Option.pure_def, Option.some.injEq] at h
    obtain ⟨jobs, hjobs, rfl⟩ := h
    rw [segment, segment?, Table.job, job?]
    cases hss : jobs.get? job with
    | none => exact kept_empty job name
    | some ss =>
      cases hs : ss.get? name with
      | none => simp [hs, Limit.Kept]
      | some s =>
        obtain ⟨_, hread⟩ := Json.exists_of_get?_bindings? hjobs hss
        obtain ⟨_, hsegment⟩ := Json.exists_of_get?_bindings? hread hs
        simpa [hs] using Segment.kept_of_ofJson? hsegment
  · cases h

theorem Table.kept_of_decode? {bytes : ByteArray} {t : Table κ} (h : decode? bytes = some t) :
    t.Kept := by
  obtain ⟨j, -, hj⟩ := Option.bind_eq_some_iff.mp h
  exact kept_of_ofJson? hj

theorem SnapshotFile.decode?_of_load {f : SnapshotFile} {d : Disk} {t : Table κ}
    (h : f.load d = .ok (some t)) : ∃ bytes, Table.decode? bytes = some t := by
  unfold load at h
  split at h
  · cases h
  · cases h
  · rename_i bytes _
    refine ⟨bytes, ?_⟩
    split at h
    · cases h
    · split at h
      · rename_i hdecode
        cases h
        exact hdecode
      · cases h

theorem SnapshotMemory.decode?_of_load {m : SnapshotMemory} {t : Table κ}
    (h : m.load = .ok (some t)) : ∃ bytes, Table.decode? bytes = some t := by
  unfold load at h
  split at h
  · cases h
  · rename_i bytes _
    refine ⟨bytes, ?_⟩
    split at h
    · rename_i hdecode
      cases h
      exact hdecode
    · cases h

/-! ## What a gate comes to -/

/-- The limit that a call brings, if it asks to enter, was made by one of the
constructors. -/
def Request.BringsMade (r : Request κ) : Prop :=
  ∀ job w target, r = .enter job w target → target.limit.Made

/-- The tables that a gate begins with, and those that it comes to by calls. -/
inductive Table.Reachable : Table κ → Prop
  /-- Nothing was saved, or it could not be read. -/
  | empty : Reachable {}
  | ofFile (f : SnapshotFile) (d : Disk) {t : Table κ} (h : f.load d = .ok (some t)) : Reachable t
  | ofMemory (m : SnapshotMemory) {t : Table κ} (h : m.load = .ok (some t)) : Reachable t
  | call {t : Table κ} (h : Reachable t) (r : Request κ) (hr : r.BringsMade) :
      Reachable (r.decide t).table

theorem Table.kept_of_reachable {t : Table κ} (h : t.Reachable) : t.Kept := by
  induction h with
  | empty => exact kept_empty
  | ofFile f d h =>
    obtain ⟨bytes, hdecode⟩ := SnapshotFile.decode?_of_load h
    exact kept_of_decode? hdecode
  | ofMemory m h =>
    obtain ⟨bytes, hdecode⟩ := SnapshotMemory.decode?_of_load h
    exact kept_of_decode? hdecode
  | call h r hr ih =>
    refine kept_decide ih r fun job name w l hasks => ?_
    cases r with
    | enter j asker target =>
      have hmade := hr j asker target rfl
      simp only [Request.asks?] at hasks
      split at hasks
      · cases hasks
        exact Limit.kept_of_made hmade
      · cases hasks
    | exit => cases hasks
    | snapshot => cases hasks
    | segment => cases hasks

theorem Table.reachable_after {t : Table κ} (h : t.Reachable) (rs : List (Request κ))
    (hrs : ∀ r ∈ rs, r.BringsMade) : (t.after rs).Reachable := by
  induction rs generalizing t with
  | nil => exact h
  | cons r rs ih =>
    have hfirst := h.call r (hrs r List.mem_cons_self)
    exact ih hfirst fun r' hr' => hrs r' (List.mem_cons_of_mem r hr')

/-- A gate at work on a store comes to reachable tables only, if the tables that
are in the store are reachable. -/
theorem Session.reachable_after (k : Keeper σ κ) (store : σ) (n : Nat)
    (hk : ∀ t, k.load store = .ok (some t) → t.Reachable) (rs : List (Request κ))
    (hrs : ∀ r ∈ rs, r.BringsMade) : (((start n store).after k rs).table k).Reachable := by
  have hloaded : (loaded k store).Reachable := by
    cases hl : k.load store with
    | error e =>
      simp only [loaded, hl]
      exact .empty
    | ok found =>
      cases found with
      | none =>
        simp only [loaded, hl]
        exact .empty
      | some t =>
        simp only [loaded, hl]
        exact hk t hl
  rw [table_after k rfl rs]
  exact Table.reachable_after hloaded rs hrs

/-- **Snapshots are read back.** Take any table that a store can hold or that a
gate comes to from there, by calls that bring limits made by the constructors;
jobs, segments and tokens may have any texts for names. Its snapshot, in either
layout, is read back as the same table without the live capabilities. -/
theorem snapshot_round_trip {t : Table κ} (h : t.Reachable) :
    Table.decode? (t.encode .compact).toUTF8 = some t.forget ∧
      Table.decode? (t.encode .pretty).toUTF8 = some t.forget := by
  have hstored := Table.stored_eq_forget (Table.kept_of_reachable h)
  rw [Table.decode?_encode Json.Layout.compact_blank,
    Table.decode?_encode Json.Layout.pretty_blank, hstored]
  exact ⟨rfl, rfl⟩

/-- A gate on an empty store comes to a table with an empty segment, a waiter of
the largest ordinal, and names that need every kind of escape; the waiter comes
back without its capability. -/
theorem snapshot_round_trip_of_odd_names :
    let job := "\"\\/ \n\x00 ß😀"
    let waiter : Waiter Nat := ⟨18446744073709551615, ⟨"\x1b[\u2028\""⟩, some 7⟩
    let rs := [.enter job ⟨1, ⟨""⟩, some 1⟩ ⟨"", .atMost 1⟩, .enter job waiter ⟨"", .atMost 1⟩,
      .enter "" ⟨0, ⟨"0"⟩, none⟩ ⟨"\t", .unbounded⟩, .exit "" 0]
    let t := ((Session.start 0 {}).after SnapshotMemory.keeper rs).table SnapshotMemory.keeper
    t.segment? job "" = some ⟨.ofList [1], .atMost 1, some waiter⟩
      ∧ t.forget.segment? job "" = some ⟨.ofList [1], .atMost 1, some waiter.forget⟩
      ∧ t.forget.segment? "" "\t" = some ⟨∅, .unbounded, none⟩
      ∧ Table.decode? (t.encode .compact).toUTF8 = some t.forget
      ∧ Table.decode? (t.encode .pretty).toUTF8 = some t.forget := by
  intro job waiter rs t
  have hone : Limit.Made (.atMost 1) := .parse (s := " 1 ") (by decide +kernel)
  have hrs : ∀ r ∈ rs, r.BringsMade := by
    intro r hr j w target he
    subst he
    simp only [rs, List.mem_cons, List.not_mem_nil, or_false, Request.enter.injEq, reduceCtorEq]
      at hr
    rcases hr with ⟨-, -, rfl⟩ | ⟨-, -, rfl⟩ | ⟨-, -, rfl⟩
    · exact hone
    · exact hone
    · exact .unbounded
  have hreachable : t.Reachable :=
    Session.reachable_after SnapshotMemory.keeper {} 0 (fun t ht => by cases ht) rs hrs
  have h := snapshot_round_trip hreachable
  exact ⟨by decide +kernel, by decide +kernel, by decide +kernel, h⟩

end SegmentGate
