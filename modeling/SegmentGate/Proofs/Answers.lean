import SegmentGate.Proofs.Capacity
import SegmentGate.Proofs.Seat
import SegmentGate.Proofs.Stores

/-!
# What an answer tells

An execution that asks for a segment acts on the answer that it gets, and on
nothing else. `Answer.Tells` says for each of the four answers what is then
true of the table before and after the call, and of what the call has let out.
Exactly one of the four is given, and what it tells is true (`truthful_answer`).

Which answer it is depends on the seat first: whether it is the caller's own,
yields to the caller (`Segment.Yields`: it is empty or the caller is newer), or
is taken by a newer execution (`Segment.seat_cases`). After that it depends on
whether the limit that the call brings has room.
-/
namespace SegmentGate

variable {κ σ : Type}

/-! ## The seat before the call -/

/-- The seat is empty, or the one who has it is older than `o`. -/
def Segment.Yields (s : Segment κ) (o : Ordinal) : Prop :=
  ∀ v, s.waiting = some v → v.ordinal < o

theorem Segment.seat_cases (s : Segment κ) (o : Ordinal) :
    s.waitingOrdinal = some o ∨ s.Yields o ∨ ∃ v, s.waiting = some v ∧ o < v.ordinal := by
  cases hw : s.waiting with
  | none => exact .inr (.inl fun v hv => by cases hw.symm.trans hv)
  | some v =>
    rcases Nat.lt_trichotomy v.ordinal.toNat o.toNat with hlt | heq | hgt
    · refine .inr (.inl fun v' hv' => ?_)
      cases hw.symm.trans hv'
      exact UInt64.lt_iff_toNat_lt.mpr hlt
    · exact .inl (waitingOrdinal_eq_some_iff.mpr ⟨v, hw, UInt64.toNat_inj.mp heq⟩)
    · exact .inr (.inr ⟨v, rfl, UInt64.lt_iff_toNat_lt.mpr hgt⟩)

theorem Segment.Yields.waitingOrdinal_ne {s : Segment κ} {o : Ordinal} (h : s.Yields o) :
    s.waitingOrdinal ≠ some o := by
  intro hw
  obtain ⟨v, hv, rfl⟩ := waitingOrdinal_eq_some_iff.mp hw
  exact UInt64.lt_irrefl _ (h v hv)

theorem Segment.not_yields_of_newer {s : Segment κ} {o : Ordinal} {v : Waiter κ}
    (hv : s.waiting = some v) (hlt : o < v.ordinal) : ¬ s.Yields o :=
  fun h => UInt64.lt_asymm hlt (h v hv)

theorem Segment.waitingOrdinal_ne_of_newer {s : Segment κ} {o : Ordinal} {v : Waiter κ}
    (hv : s.waiting = some v) (hlt : o < v.ordinal) : s.waitingOrdinal ≠ some o := by
  rw [waitingOrdinal, hv]
  exact fun h => UInt64.ne_of_lt hlt (Option.some.inj h).symm

/-- The caller wins a seat that yields to it. -/
theorem Segment.Yields.contest {s : Segment κ} {w : Waiter κ} (h : s.Yields w.ordinal) :
    contest s.waiting w = .won w s.waiting := by
  cases hw : s.waiting with
  | none => rfl
  | some v =>
    have hlt := UInt64.lt_iff_toNat_lt.mp (h v hw)
    have hne : v.ordinal ≠ w.ordinal := fun e => Nat.lt_irrefl _ (e ▸ hlt)
    simp only [SegmentGate.contest, if_neg hne, if_pos hlt]

/-- The caller loses to a newer execution. -/
theorem contest_of_newer {v w : Waiter κ} (h : w.ordinal < v.ordinal) :
    contest (some v) w = .won v (some w) := by
  have hlt := UInt64.lt_iff_toNat_lt.mp h
  have hne : v.ordinal ≠ w.ordinal := fun e => Nat.lt_irrefl _ (e ▸ hlt)
  simp only [contest, if_neg hne, if_neg (Nat.lt_asymm hlt)]

/-! ## The segment after the call -/

/-- The winner of the contest is let in and told so, or takes the seat. -/
theorem segment_enter_cases {t : Table κ} {job : String} {w c : Waiter κ} {l : Option (Waiter κ)}
    {target : Target} (h : contest (t.segment job target.name).waiting w = .won c l) :
    let s := t.segment job target.name
    let s' := (enter t job w target).table.segment job target.name
    ((s.holding.size < target.limit.most ∨ c.ordinal ∈ s.holding) ∧
      s' = { holding := s.holding.insert c.ordinal, limit := target.limit, waiting := none } ∧
      ⟨job, target.name, c, .proceed⟩ ∈ (enter t job w target).consequences.signals) ∨
    (target.limit.most ≤ s.holding.size ∧ c.ordinal ∉ s.holding ∧
      s' = { s with limit := target.limit, waiting := some c }) := by
  intro s s'
  have hstep := stepAt (.enter job w target) t job target.name
  change StepAt _ t job target.name s _ s' at hstep
  generalize hs' : s' = s'', hsig : ((Request.enter job w target).decide t).consequences.signalsAt
    job target.name = sig at hstep
  cases hstep with
  | idle he => exact absurd rfl he
  | left _ he => exact absurd rfl he
  | unseated _ hr => cases hr
  | refused _ _ hr _ hw =>
    cases hr
    cases h.symm.trans (contest_eq_same_iff.mpr hw)
  | entered _ _ _ _ hr _ hc _ hroom =>
    cases hr
    cases h.symm.trans hc
    have htold : ⟨job, target.name, c, .proceed⟩ ∈
        ((Request.enter job w target).decide t).consequences.signalsAt job target.name := by
      rw [hsig]
      exact List.mem_append_right _ (mem_proceedOf.mpr ⟨c, rfl, rfl⟩)
    exact .inl ⟨hroom.imp_left Limit.admits_iff.mp, rfl, (Consequences.mem_signalsAt.mp htold).1⟩
  | parked _ _ _ _ hr _ hc _ hfull hout =>
    cases hr
    cases h.symm.trans hc
    refine .inr ⟨not_lt.mp fun hlt => ?_, hout, rfl⟩
    cases hfull.symm.trans (Limit.admits_iff.mpr hlt)

/-! ## The four answers -/

namespace Answer

variable (job : String) (w : Waiter κ) (target : Target) (t t' : Table κ)

/-- The caller had the seat already. Nothing but the limit is new, and nobody is
told or saved anything. -/
structure Refused (out : Outcome κ) : Prop where
  seat : (t.segment job target.name).waitingOrdinal = some w.ordinal
  table : t' = t.put job target.name { t.segment job target.name with limit := target.limit }
  silent : out.signals = []
  unsaved : out.saves = []

/-- The newer `v` had the seat. It has it again, or it was let in and told so
because the new limit has room. The caller gets nothing and loses nothing. -/
structure Superseded (out : Outcome κ) (v : Waiter κ) : Prop where
  seat : (t.segment job target.name).waiting = some v
  newer : w.ordinal < v.ordinal
  placed : (t'.segment job target.name).waiting = some v ∨
    (t'.segment job target.name).waiting = none ∧
      v.ordinal ∈ (t'.segment job target.name).holding ∧
      ⟨job, target.name, v, .proceed⟩ ∈ out.signals
  enters : v.ordinal ∈ (t'.segment job target.name).holding ↔
    ((t.segment job target.name).holding.size : ℕ∞) < target.limit.most
  out : w.ordinal ∈ (t'.segment job target.name).holding →
    w.ordinal ∈ (t.segment job target.name).holding
  unseated : (t'.segment job target.name).waitingOrdinal ≠ some w.ordinal
  stays : ∀ n, w.ordinal ∈ (t.segment job n).holding → w.ordinal ∈ (t'.segment job n).holding

/-- The caller holds the segment, and nobody waits for it. -/
structure Admitted : Prop where
  seat : (t.segment job target.name).Yields w.ordinal
  holds : w.ordinal ∈ (t'.segment job target.name).holding
  free : (t'.segment job target.name).waiting = none

/-- The caller waits for the segment, which is full with those who held it
before. -/
structure Parked : Prop where
  seat : (t.segment job target.name).Yields w.ordinal
  waits : (t'.segment job target.name).waiting = some w
  out : w.ordinal ∉ (t'.segment job target.name).holding
  holding : (t'.segment job target.name).holding = (t.segment job target.name).holding
  full : target.limit.most ≤ ((t'.segment job target.name).holding.size : ℕ∞)

/-- What the answer `a` tells of the table before and after the call, and of
what the call has let out. -/
def Tells (out : Outcome κ) : Except GateError Admission → Prop
  | .error e => e = .reentered job target.name w.ordinal ∧ Refused job w target t t' out
  | .ok .superseded => ∃ v, Superseded job w target t t' out v
  | .ok .admitted => Admitted job w target t t'
  | .ok .parked => Parked job w target t t'

variable {job w target t t'}

open Classical in
/-- The seat before the call keeps a refusal, a newer execution and the rest
apart, and the holders after it do the rest. -/
theorem Tells.eq_ite {out : Outcome κ} {a : Except GateError Admission}
    (h : Tells job w target t t' out a) :
    a = if (t.segment job target.name).waitingOrdinal = some w.ordinal then
        .error (.reentered job target.name w.ordinal)
      else if (t.segment job target.name).Yields w.ordinal then
        .ok (if w.ordinal ∈ (t'.segment job target.name).holding then .admitted else .parked)
      else .ok .superseded := by
  match a, h with
  | .error _, ⟨rfl, h⟩ => rw [if_pos h.seat]
  | .ok .superseded, ⟨v, h⟩ =>
    rw [if_neg (Segment.waitingOrdinal_ne_of_newer h.seat h.newer),
      if_neg (Segment.not_yields_of_newer h.seat h.newer)]
  | .ok .admitted, h =>
    have h : Admitted job w target t t' := h
    rw [if_neg h.seat.waitingOrdinal_ne, if_pos h.seat, if_pos h.holds]
  | .ok .parked, h =>
    have h : Parked job w target t t' := h
    rw [if_neg h.seat.waitingOrdinal_ne, if_pos h.seat, if_neg h.out]

/-- What two answers tell is not both true. -/
theorem Tells.unique {out : Outcome κ} {a a' : Except GateError Admission}
    (h : Tells job w target t t' out a) (h' : Tells job w target t t' out a') : a' = a :=
  h'.eq_ite.trans h.eq_ite.symm

end Answer

/-! ## Each answer in its case -/

section Case
variable {job : String} {w : Waiter κ} {target : Target} {t : Table κ}

theorem Answer.refused {k : Keeper σ κ} {s : Session σ κ} (hs : s.gate.locked = false)
    (hseat : ((s.table k).segment job target.name).waitingOrdinal = some w.ordinal) :
    (s.tell k (.enter job w target)).reply =
        some (.entered (.error (.reentered job target.name w.ordinal))) ∧
      Refused job w target (s.table k) ((s.call k (.enter job w target)).table k)
        (s.tell k (.enter job w target)) := by
  have hsame : contest ((s.table k).segment job target.name).waiting w = .same :=
    contest_eq_same_iff.mpr hseat
  rw [Session.table_call k _ hs, (Session.call_spec k _ s hs).tell]
  simp only [Request.decide, enter_of_same hsame]
  exact ⟨trivial, hseat, rfl, rfl, rfl⟩

/-- The newer execution in the seat goes on in the place of the caller. -/
theorem Answer.superseded (ht : t.Apart) {v : Waiter κ} {out : Outcome κ}
    (hout : out.signals = (enter t job w target).consequences.signals)
    (hseat : (t.segment job target.name).waiting = some v) (hnewer : w.ordinal < v.ordinal) :
    Superseded job w target t (enter t job w target).table out v := by
  have hwon : contest (t.segment job target.name).waiting w = .won v (some w) := by
    rw [hseat, contest_of_newer hnewer]
  have hne : w.ordinal ≠ v.ordinal := UInt64.ne_of_lt hnewer
  have hv : v.ordinal ∉ (t.segment job target.name).holding := ht job target.name v hseat
  -- Only the newer execution leaves segments in this call.
  have hstays (n : String) (hn : w.ordinal ∈ (t.segment job n).holding) :
      w.ordinal ∈ ((enter t job w target).table.segment job n).holding := by
    by_contra hgone
    have hmover := ((stepAt (.enter job w target) t job n).left_of_removed hn hgone).1
    rw [Request.mover, hwon] at hmover
    exact hne (Prod.mk.inj (Option.some.inj hmover)).2.symm
  rcases segment_enter_cases hwon with ⟨hin, hs', htold⟩ | ⟨hfull, -, hs'⟩
  · have hroom := hin.resolve_right hv
    refine ⟨hseat, hnewer, .inr ⟨?_, ?_, hout ▸ htold⟩, ?_, ?_, ?_, hstays⟩
    · rw [hs']
    · rw [hs']
      exact SortedSet.mem_insert.mpr (.inl rfl)
    · rw [hs']
      exact iff_of_true (SortedSet.mem_insert.mpr (.inl rfl)) hroom
    · rw [hs']
      exact fun hw => (SortedSet.mem_insert.mp hw).resolve_left hne
    · rw [hs']
      exact Option.some_ne_none _ |>.symm
  · refine ⟨hseat, hnewer, .inl ?_, ?_, ?_, ?_, hstays⟩
    · rw [hs']
    · rw [hs']
      exact iff_of_false hv (not_lt.mpr hfull)
    · rw [hs']
      exact id
    · rw [hs']
      exact fun hw => hne (Option.some.inj hw).symm

theorem Answer.admitted (hseat : (t.segment job target.name).Yields w.ordinal)
    (hroom : (t.segment job target.name).holding.size < target.limit.most ∨
      w.ordinal ∈ (t.segment job target.name).holding) :
    Admitted job w target t (enter t job w target).table := by
  rcases segment_enter_cases hseat.contest with ⟨-, hs', -⟩ | ⟨hfull, hout, -⟩
  · refine ⟨hseat, ?_, ?_⟩
    · rw [hs']
      exact SortedSet.mem_insert.mpr (.inl rfl)
    · rw [hs']
  · exact absurd hroom (not_or.mpr ⟨not_lt.mpr hfull, hout⟩)

theorem Answer.parked (hseat : (t.segment job target.name).Yields w.ordinal)
    (hfull : ¬ ((t.segment job target.name).holding.size < target.limit.most ∨
      w.ordinal ∈ (t.segment job target.name).holding)) :
    Parked job w target t (enter t job w target).table := by
  rcases segment_enter_cases hseat.contest with ⟨hroom, -⟩ | ⟨hmost, hout, hs'⟩
  · exact absurd hroom hfull
  · refine ⟨hseat, ?_, ?_, ?_, ?_⟩
    · rw [hs']
    · rwa [hs']
    · rw [hs']
    · rwa [hs']

end Case

/-! ## The result -/

/-- The answer is true, and no other answer would be. Whoever finds the seat
empty or taken by an older execution is let in exactly if it holds the segment
already or the limit that it brings has room. -/
theorem truthful_answer (k : Keeper σ κ) (s : Session σ κ) (hs : s.gate.locked = false)
    (ht : (s.table k).Apart) (job : String) (w : Waiter κ) (target : Target) :
    let r : Request κ := .enter job w target
    let t := s.table k
    let t' := (s.call k r).table k
    let out := s.tell k r
    (∃ a, out.reply = some (.entered a) ∧ Answer.Tells job w target t t' out a ∧
      ∀ a', Answer.Tells job w target t t' out a' → a' = a) ∧
    ((t.segment job target.name).Yields w.ordinal →
      (out.reply = some (.entered (.ok .admitted)) ↔
        (t.segment job target.name).holding.size < target.limit.most ∨
          w.ordinal ∈ (t.segment job target.name).holding)) := by
  intro r t t' out
  have ht' : t' = (enter t job w target).table := Session.table_call k r hs
  have hreply : out.reply = some (.entered (enter t job w target).answer) := by
    simp only [out, (Session.call_spec k r s hs).tell]
    rfl
  have hsignals : out.signals = (enter t job w target).consequences.signals := by
    simp only [out, (Session.call_spec k r s hs).tell]
    rfl
  -- Where the seat yields, the answer tells whether there was room.
  have hyields (hseat : (t.segment job target.name).Yields w.ordinal) :
      out.reply = some (.entered (.ok
        (if (t.segment job target.name).holding.size < target.limit.most ∨
          w.ordinal ∈ (t.segment job target.name).holding then .admitted else .parked))) := by
    rw [hreply, answer_enter hseat.contest, if_pos rfl]
    simp only [Limit.admits_iff]
  constructor
  · suffices h : ∃ a, out.reply = some (.entered a) ∧ Answer.Tells job w target t t' out a by
      obtain ⟨a, hanswer, htells⟩ := h
      exact ⟨a, hanswer, htells, fun _ h' => htells.unique h'⟩
    rcases (t.segment job target.name).seat_cases w.ordinal with hseat | hseat | hseat
    · obtain ⟨hanswer, hrefused⟩ := Answer.refused hs hseat
      exact ⟨_, hanswer, rfl, hrefused⟩
    · have hanswer := hyields hseat
      rw [ht']
      split at hanswer
      · rename_i hroom
        exact ⟨_, hanswer, Answer.admitted hseat hroom⟩
      · rename_i hfull
        exact ⟨_, hanswer, Answer.parked hseat hfull⟩
    · obtain ⟨v, hv, hnewer⟩ := hseat
      rw [ht']
      refine ⟨.ok .superseded, ?_, v, Answer.superseded ht hsignals hv hnewer⟩
      have hwon : contest (t.segment job target.name).waiting w = .won v (some w) := by
        rw [hv, contest_of_newer hnewer]
      rw [hreply, answer_enter hwon, if_neg (UInt64.ne_of_lt hnewer).symm]
  · intro hseat
    rw [hyields hseat]
    split <;> simp [*]

/-- #3 waits for a full segment. #2 asks for it with a limit that has room, so
that #3 gets in and #2 is superseded. -/
theorem truthful_answer_of_raised_limit :
    let k : Keeper SnapshotMemory Nat := SnapshotMemory.keeper
    let s := (Session.start 0 {}).after k [ask 1 "build", ask 3 "build"]
    let target : Target := ⟨"build", .atMost 2⟩
    let r : Request Nat := .enter "app" (asker 2) target
    s.gate.locked = false ∧ (s.table k).Apart ∧
      (s.tell k r).reply = some (.entered (.ok .superseded)) ∧
      Answer.Superseded "app" (asker 2) target (s.table k) ((s.call k r).table k) (s.tell k r)
        (asker 3) ∧
      (asker 3).ordinal ∈ (((s.call k r).table k).segment "app" target.name).holding := by
  intro k s target r
  have hs : s.gate.locked = false := Session.unlocked_after k rfl _
  have htable : s.table k = ({} : Table Nat).after [ask 1 "build", ask 3 "build"] :=
    Session.table_after k rfl _
  have ht : (s.table k).Apart := by
    rw [htable]
    exact Table.apart_after _
  clear_value s
  obtain ⟨⟨a, hanswer, htells, -⟩, -⟩ := truthful_answer k s hs ht "app" (asker 2) target
  have hreply : (s.tell k r).reply = some (.entered (.ok .superseded)) := by
    rw [(Session.call_spec k r s hs).tell, htable]
    rfl
  cases hanswer.symm.trans hreply
  obtain ⟨v, hv⟩ := htells
  have hseat : ((s.table k).segment "app" "build").waiting = some (asker 3) := by
    rw [htable]
    decide
  cases hseat.symm.trans hv.seat
  have hroom : (((s.table k).segment "app" target.name).holding.size : ℕ∞) < target.limit.most := by
    rw [htable]
    decide
  exact ⟨hs, ht, hreply, hv, hv.enters.mpr hroom⟩

end SegmentGate
