import SegmentGate.Proofs.Grammar
import SegmentGate.Proofs.Seat

/-!
# Asking for a limit of zero

A limit that is a number can be asked for in three ways (`Target.Way`): by its
digits, by the number itself, or by the limit that the number stands for in a
snapshot. The first two are one check, since the digits are read back as the
number (`Limit.parse_repr`), and that check refuses zero. The third makes no
check. So the three agree on every number but zero, and on zero only if the
name is refused anyway (`ways_agree_iff`).

What gets in by the third way is a segment that nobody can ever hold. Whoever
asks for it while it is empty is parked, and there it stays: there is no holder
whose departure could promote it (`parked_for_good`).
-/
namespace SegmentGate

open Text (WhiteSpace)
open Text.Decimal (Numeral)

/-! ## Three ways to ask -/

/-- An empty segment has room under every limit but zero. -/
theorem Limit.admits_zero_iff {l : Limit} : l.admits 0 = true ↔ l ≠ .atMost 0 := by
  cases l with
  | unbounded => simp [admits]
  | atMost n =>
    simp only [admits, decide_eq_true_eq, ne_eq, atMost.injEq, ← UInt32.toNat_inj,
      UInt32.toNat_zero]
    omega

/-- The digits of a number ask for the limit that the number asks for. -/
theorem Limit.parse_repr (n : UInt32) : Limit.parse n.toNat.repr = Limit.positive n := by
  have hn : Numeral (Text.Decimal.write n.toNat) n.toNat :=
    Text.Decimal.read?_eq_some_iff.mp (Text.Decimal.read?_write n.toNat)
  have htrimmed : Text.Trimmed n.toNat.repr.toList ([] ++ Text.Decimal.write n.toNat) := by
    rw [Nat.repr, String.toList_ofList]
    exact hn.trimmed
  have hle : n.toNat ≤ 4294967295 := Nat.le_of_lt_succ n.toNat_lt
  rw [parse_of_numeral htrimmed .absent hn hle, UInt32.ofNat_toNat]

namespace Target

/-- The ways to ask for a limit that is a number. -/
inductive Way where
  /-- The digits of the number, as a script has them. -/
  | digits
  /-- The number itself. -/
  | number
  /-- The limit that the number stands for in a snapshot. -/
  | limit
  deriving DecidableEq, Repr

/-- What comes of asking for the segment `name` under the limit `n`. -/
def Way.ask (name : String) (n : UInt32) : Way → Except GateError Target
  | .digits => parse (some name) (some n.toNat.repr)
  | .number => limited name n
  | .limit => new name (.ofRaw n)

variable {name : String} {n : UInt32} {target : Target}

theorem Way.digits_eq_number (name : String) (n : UInt32) :
    Way.digits.ask name n = Way.number.ask name n := by
  simp only [ask, parse, Option.getD_some, limited, Limit.parse_repr]

theorem Way.number_eq (name : String) (n : UInt32) : Way.number.ask name n =
    if n = 0 then .error (.badLimit "0") else new name (.ofRaw n) := by
  unfold ask limited Limit.positive
  by_cases hn : n = 0
  · simp only [if_pos hn]
  · simp only [if_neg hn]

/-- Zero is refused unless it is asked for as a limit, and a number that is not
refused asks for the same target in all ways. -/
theorem Way.ask_eq (way : Way) (name : String) (n : UInt32) : way.ask name n =
    if n = 0 ∧ way ≠ .limit then .error (.badLimit "0") else new name (.ofRaw n) := by
  cases way with
  | digits => simp [digits_eq_number, number_eq]
  | number => simp [number_eq]
  | limit => simp [ask]

/-- Two ways agree if both fail, or both give the same target. -/
theorem Way.agree_iff (name : String) (n : UInt32) :
    (∀ a b : Way, (a.ask name n).toOption = (b.ask name n).toOption) ↔
      n ≠ 0 ∨ ∀ c ∈ name.toList, WhiteSpace c := by
  constructor
  · intro hagree
    by_cases hn : n = 0
    · rcases blank_or_visible name with hblank | hvisible
      · exact .inr hblank
      · -- asked for as a limit, zero is let through
        have h := hagree .number .limit
        rw [ask_eq, if_pos ⟨hn, by decide⟩, ask, new_of_visible hvisible] at h
        cases h
    · exact .inl hn
  · rintro (hn | hblank) a b
    · have hneither : ∀ way : Way, ¬(n = 0 ∧ way ≠ .limit) := fun _ h => hn h.1
      rw [a.ask_eq, if_neg (hneither a), b.ask_eq, if_neg (hneither b)]
    · have hfails : ∀ way : Way, (way.ask name n).toOption = none := by
        intro way
        rw [ask_eq, new_of_blank hblank]
        split <;> rfl
      rw [hfails a, hfails b]

/-- What each way lets through: a number that is not zero, or zero asked for as
a limit, for a segment whose name is not blank. -/
theorem Way.ask_eq_ok_iff {way : Way} : way.ask name n = .ok target ↔
    target = ⟨name, .ofRaw n⟩ ∧ (∃ c ∈ name.toList, ¬ WhiteSpace c) ∧ (n = 0 → way = .limit) := by
  rw [ask_eq]
  by_cases hzero : n = 0 ∧ way ≠ .limit
  · rw [if_pos hzero]
    refine ⟨nofun, fun h => absurd (h.2.2 hzero.1) hzero.2⟩
  · rw [if_neg hzero]
    have hway : n = 0 → way = .limit := fun hn => Decidable.not_not.mp fun h => hzero ⟨hn, h⟩
    rcases blank_or_visible name with hblank | hvisible
    · rw [new_of_blank hblank]
      refine ⟨nofun, fun ⟨_, ⟨c, hc, hvisible⟩, _⟩ => absurd (hblank c hc) hvisible⟩
    · rw [new_of_visible hvisible, Except.ok.injEq, eq_comm]
      exact ⟨fun h => ⟨h, hvisible, hway⟩, And.left⟩

/-- **The ways to ask for a limit agree on every number but zero.** All fail, or
all give the same target, exactly if the number is not zero or the name is
blank; zero is let through if it is asked for as a limit, and only then. No
target that was made with a check of its limit leaves an empty segment without
room. One made without a check does so exactly if its limit is zero. -/
theorem ways_agree_iff (name : String) (n : UInt32) :
    ((∀ a b : Way, (a.ask name n).toOption = (b.ask name n).toOption) ↔
      n ≠ 0 ∨ ∀ c ∈ name.toList, WhiteSpace c) ∧
    (∀ (way : Way) (target : Target), way.ask name n = .ok target ↔
      target = ⟨name, .ofRaw n⟩ ∧ (∃ c ∈ name.toList, ¬ WhiteSpace c) ∧
        (n = 0 → way = .limit)) ∧
    (∀ target : Target, target.Made → target.limit.admits 0 = true) ∧
    (∀ (limit : Limit) (target : Target), new name limit = .ok target →
      (target.limit.admits 0 = true ↔ limit ≠ .atMost 0)) := by
  refine ⟨Way.agree_iff name n, fun way target => Way.ask_eq_ok_iff,
    fun target => Made.admits_zero, fun limit target h => ?_⟩
  rw [limit_of_new h]
  exact Limit.admits_zero_iff

/-- Asked for as a limit, zero is let through, and nobody fits under it. -/
theorem zero_let_through :
    Way.digits.ask "build" 0 = .error (.badLimit "0") ∧
    Way.number.ask "build" 0 = .error (.badLimit "0") ∧
    Way.limit.ask "build" 0 = .ok ⟨"build", .atMost 0⟩ ∧
    ({ limit := .atMost 0 } : Segment Nat).hasRoom = false := by
  decide +kernel

/-- Three is asked for in any way. -/
theorem ways_agree_on_three :
    (∀ a b : Way, (a.ask "build" 3).toOption = (b.ask "build" 3).toOption) ∧
    Way.digits.ask "build" 3 = .ok ⟨"build", .atMost 3⟩ ∧
    (Limit.atMost 3).admits 0 = true := by
  obtain ⟨hagree, hok, hmade, -⟩ := ways_agree_iff "build" 3
  have hdigits := (hok .digits ⟨"build", .atMost 3⟩).mpr
    ⟨rfl, ⟨'b', by decide +kernel, by simp [WhiteSpace]⟩, by decide⟩
  exact ⟨hagree.mpr (.inl (by decide)), hdigits, hmade _ (.inr (.inl ⟨"build", 3, rfl⟩))⟩

end Target

/-! ## What zero leads to -/

section
variable {κ : Type} {r : Request κ} {t : Table κ} {job name : String} {s s' : Segment κ}
  {sig : List (Signal κ)} {w : Waiter κ}

/-- The waiter of a segment that nobody holds waits on until the segment is asked
for or it exits. -/
theorem StepAt.idle_of_unheld (h : StepAt r t job name s sig s') (hs : s.holding = ∅)
    (hw : s.waiting = some w) (he : r.entering ≠ some (job, name)) (hx : r ≠ .exit job w.ordinal) :
    s' = s ∧ sig = [] := by
  have hunheld : ∀ o, o ∉ s.holding := fun o => hs ▸ SortedSet.not_mem_empty o
  cases h with
  | idle => exact ⟨rfl, rfl⟩
  | left o _ _ ho => exact absurd ho (hunheld o)
  | unseated o hr _ ho =>
    rw [Segment.waitingOrdinal, hw, Option.map_some, Option.some.injEq] at ho
    exact absurd (ho ▸ hr) hx
  | refused w' target hr hn => exact absurd (by rw [hr, Request.entering, hn]) he
  | entered w' target c l hr hn => exact absurd (by rw [hr, Request.entering, hn]) he
  | parked w' target c l hr hn => exact absurd (by rw [hr, Request.entering, hn]) he

/-- The call does not ask for the segment and is not the exit of `o`. -/
def Request.Spares (job name : String) (o : Ordinal) (r : Request κ) : Prop :=
  r.entering ≠ some (job, name) ∧ r ≠ .exit job o

theorem idle_run {rs : List (Request κ)} (hs : (t.segment job name).holding = ∅)
    (hw : (t.segment job name).waiting = some w) (hrs : ∀ r ∈ rs, r.Spares job name w.ordinal) :
    (t.after rs).segment job name = t.segment job name ∧
      ∀ x ∈ t.signalsDuring rs, ¬(x.job = job ∧ x.segment = name) := by
  induction rs generalizing t with
  | nil => exact ⟨rfl, nofun⟩
  | cons r rs ih =>
    obtain ⟨he, hx⟩ := hrs r List.mem_cons_self
    obtain ⟨hsame, hsilent⟩ := (stepAt r t job name).idle_of_unheld hs hw he hx
    rw [← hsame] at hs hw
    obtain ⟨hafter, hduring⟩ := ih hs hw fun r hr => hrs r (List.mem_cons_of_mem _ hr)
    refine ⟨hafter.trans hsame, fun x hx habout => ?_⟩
    rw [Table.signalsDuring_cons, List.mem_append] at hx
    rcases hx with hx | hx
    · have := Consequences.mem_signalsAt.mpr ⟨hx, habout⟩
      rw [hsilent] at this
      cases this
    · exact hduring x hx habout

/-- **Who asks for an empty segment under the limit zero waits for nobody.** It
is parked, and as long as the segment is not asked for again and it does not
exit, it stays so, and no signal is queued for it there. -/
theorem parked_for_good {target : Target} (hlimit : target.limit = .atMost 0)
    (hempty : (t.segment job target.name).holding = ∅)
    (hseat : (t.segment job target.name).waiting = none) {rs : List (Request κ)}
    (hrs : ∀ r ∈ rs, r.Spares job target.name w.ordinal) :
    (enter t job w target).answer = .ok .parked ∧
    ((enter t job w target).table.after rs).segment job target.name =
      { limit := .atMost 0, waiting := some w } ∧
    ∀ x ∈ (enter t job w target).table.signalsDuring rs,
      ¬(x.job = job ∧ x.segment = target.name) := by
  have hwon : contest (t.segment job target.name).waiting w = .won w none := by
    rw [hseat, contest]
  have hfull : ¬(target.limit.admits (t.segment job target.name).holding.size = true ∨
      w.ordinal ∈ (t.segment job target.name).holding) := by
    rw [hempty, hlimit]
    simp [Limit.admits, SortedSet.not_mem_empty]
  have hanswer : (enter t job w target).answer = .ok .parked := by
    rw [answer_enter hwon, if_pos rfl, if_neg hfull]
  have hparked : (enter t job w target).table.segment job target.name =
      { limit := .atMost 0, waiting := some w } := by
    rw [segment_enter hwon, if_pos rfl, if_pos rfl, place, if_neg, Segment.park]
    · rw [hempty, hlimit]
    · simpa [Segment.hasRoom, Segment.holds] using hfull
  obtain ⟨hafter, hsilent⟩ := idle_run (by rw [hparked]) (by rw [hparked]) hrs
  exact ⟨hanswer, hafter.trans hparked, hsilent⟩

end

end SegmentGate
