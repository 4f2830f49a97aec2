import SegmentGate.Fanout.Audience
import SegmentGate.Proofs.Desk
import SegmentGate.Proofs.Relay

/-!
# Emitters and workers at the same time

A `Fanout` is a desk for each subscriber and the feed that the reports go to.
An event that is emitted is offered to one queue after the other; meanwhile, and
between two emits, every desk may go on by itself. When the queues are closed no
further event is emitted, and the workers finish what is queued. A move that
does not fit is none.

A run of the whole is a run of each desk, made of its own moves only
(`run_desk`), so the balance of a desk carries over to the whole. The moves of
the other desks can also be left out of a run, which is then one of a fan-out to
a single subscriber (`Shows.run`): what a subscriber is handed depends on what is
emitted and on its own worker, and on nothing else.
-/
namespace SegmentGate

structure Fanout where
  feed : Feed
  desks : List Desk
  /-- The event at hand, and the place of the next desk that it is offered to. -/
  offering : Option (Stamped × Nat) := none
  /-- The queues take no more events. -/
  closed : Bool := false
  emitted : List Stamped := []
  /-- The reports, with the places of the desks that they are about. -/
  reports : List (Nat × Event) := []

namespace Fanout

inductive Move where
  /-- Somebody emits an event. -/
  | emit (e : Stamped)
  /-- Something happens at desk `i`. -/
  | desk (i : Nat) (m : Desk.Move)
  /-- The queues are closed. -/
  | close
  deriving DecidableEq

def start (f : Feed) (subscribers : List Subscriber) : Fanout :=
  { feed := f, desks := subscribers.map Desk.start }

/-- The event is to be offered from desk `i` on. -/
def offerFrom (s : Fanout) (i : Nat) (e : Stamped) : Fanout :=
  { s with offering := if i < s.desks.length then some (e, i) else none }

/-- The move of desk `i` fits: only the event at hand is offered, and only to
the desk whose turn it is. -/
def Ready (s : Fanout) (i : Nat) : Desk.Move → Prop
  | .offer e => s.offering = some (e, i)
  | _ => True

instance (s : Fanout) (i : Nat) : (m : Desk.Move) → Decidable (s.Ready i m)
  | .offer e => inferInstanceAs (Decidable (s.offering = some (e, i)))
  | .pick | .react => inferInstanceAs (Decidable True)

theorem ready_of_offered {m : Desk.Move} (hm : m.offered = none) (s : Fanout) (i : Nat) :
    s.Ready i m := by
  cases m with
  | offer e => cases hm
  | pick => trivial
  | react => trivial

/-- Without an event at hand nothing is offered. -/
theorem offered_of_ready {s : Fanout} {i : Nat} {m : Desk.Move} (free : s.offering = none)
    (ready : s.Ready i m) : m.offered = none := by
  cases m with
  | offer e => cases free.symm.trans (show s.offering = some (e, i) from ready)
  | pick => rfl
  | react => rfl

/-- After the offer to desk `i` it is the turn of the next one. -/
def passOn (s : Fanout) (i : Nat) : Desk.Move → Fanout
  | .offer e => s.offerFrom (i + 1) e
  | _ => s

/-- A report goes out at once. -/
def tell (s : Fanout) (i : Nat) (report : Option Event) : Fanout :=
  { s with
      feed := report.toList.foldl Feed.publish s.feed
      reports := s.reports ++ report.toList.map (i, ·) }

def setDesk (s : Fanout) (i : Nat) (d : Desk) : Fanout := { s with desks := s.desks.set i d }

def step (s : Fanout) : Move → Option Fanout
  | .emit e =>
    if s.offering = none ∧ s.closed = false then
      some ({ s with emitted := s.emitted ++ [e] }.offerFrom 0 e)
    else none
  | .desk i m =>
    match s.desks[i]? with
    | none => none
    | some d =>
      if s.Ready i m then
        (d.step m).map fun d' => ((s.setDesk i d').passOn i m).tell i (d.report m)
      else none
  | .close =>
    if s.offering = none ∧ s.closed = false then some { s with closed := true } else none

/-- The state after moves that all fit. -/
def run (s : Fanout) : List Move → Option Fanout
  | [] => some s
  | m :: moves => (s.step m).bind (run · moves)

/-! ## One move -/

/-- Desk `i` has made the move `m`, from `d` to `d'`. -/
structure Moved (s : Fanout) (i : Nat) (m : Desk.Move) (d d' : Desk) (s' : Fanout) : Prop where
  desks : s'.desks = s.desks.set i d'
  offering : s'.offering = match m with
    | .offer e => if i + 1 < s.desks.length then some (e, i + 1) else none
    | _ => s.offering
  closed : s'.closed = s.closed
  emitted : s'.emitted = s.emitted
  feed : s'.feed = (d.report m).toList.foldl Feed.publish s.feed
  reports : s'.reports = s.reports ++ (d.report m).toList.map (i, ·)

theorem moved_tell (s : Fanout) (i : Nat) (m : Desk.Move) (d d' : Desk) :
    s.Moved i m d d' (((s.setDesk i d').passOn i m).tell i (d.report m)) := by
  constructor
  case offering =>
    cases m with
    | offer e => simp [passOn, offerFrom, setDesk, tell]
    | pick => rfl
    | react => rfl
  all_goals cases m <;> rfl

/-- What a move makes of the state. -/
inductive StepTo (s : Fanout) : Move → Fanout → Prop
  | emits (e : Stamped) (free : s.offering = none) (isOpen : s.closed = false) :
      StepTo s (.emit e) ({ s with emitted := s.emitted ++ [e] }.offerFrom 0 e)
  | works (i : Nat) (m : Desk.Move) (d d' : Desk) (s' : Fanout) (hd : s.desks[i]? = some d)
      (ready : s.Ready i m) (hstep : d.step m = some d') (hmoved : s.Moved i m d d' s') :
      StepTo s (.desk i m) s'
  | closes (free : s.offering = none) (isOpen : s.closed = false) :
      StepTo s .close { s with closed := true }

theorem stepTo_step {s s' : Fanout} {m : Move} (h : s.step m = some s') : StepTo s m s' := by
  cases m with
  | emit e =>
    simp only [step] at h
    split at h
    · rename_i hfree
      cases h
      exact .emits e hfree.1 hfree.2
    · cases h
  | desk i m =>
    simp only [step] at h
    split at h
    · cases h
    · rename_i d hd
      split at h
      · rename_i hready
        obtain ⟨d', hstep, rfl⟩ := Option.map_eq_some_iff.mp h
        exact .works i m d d' _ hd hready hstep (moved_tell s i m d d')
      · cases h
  | close =>
    simp only [step] at h
    split at h
    · rename_i hfree
      cases h
      exact .closes hfree.1 hfree.2
    · cases h

/-- What every move keeps holds after a run. -/
theorem run_induction {P : Fanout → Prop} (hstep : ∀ s m s', P s → StepTo s m s' → P s')
    {moves : List Move} {s s' : Fanout} (hs : P s) (hrun : s.run moves = some s') : P s' := by
  induction moves generalizing s with
  | nil =>
    cases hrun
    exact hs
  | cons m moves ih =>
    obtain ⟨s₁, hm, hrest⟩ := Option.bind_eq_some_iff.mp hrun
    exact ih (hstep s m s₁ hs (stepTo_step hm)) hrest

theorem run_singleton (s : Fanout) (m : Move) : s.run [m] = s.step m := by
  simp [run]

theorem StepTo.size {s s' : Fanout} {m : Move} (h : StepTo s m s') :
    s'.desks.length = s.desks.length := by
  cases h with
  | emits | closes => rfl
  | works i m d d' _ hd ready hstep hmoved => rw [hmoved.desks, List.length_set]

theorem run_append (s : Fanout) (moves moves' : List Move) :
    s.run (moves ++ moves') = (s.run moves).bind (run · moves') := by
  induction moves generalizing s with
  | nil => rfl
  | cons m moves ih =>
    simp only [List.cons_append, run, Option.bind_assoc]
    exact congrArg _ (funext ih)

theorem step_desk {s : Fanout} {i : Nat} {m : Desk.Move} {d d' : Desk}
    (hd : s.desks[i]? = some d) (ready : s.Ready i m) (hstep : d.step m = some d') :
    ∃ s', s.step (.desk i m) = some s' ∧ s.Moved i m d d' s' :=
  ⟨_, by simp [step, hd, ready, hstep], moved_tell s i m d d'⟩

/-! ## Each desk by itself -/

/-- The part of a move that desk `i` sees. -/
def Move.at? (i : Nat) : Move → Option Desk.Move
  | .desk j m => if j = i then some m else none
  | _ => none

/-- The moves of desk `i`. -/
def own (i : Nat) (moves : List Move) : List Desk.Move := moves.filterMap (Move.at? i)

theorem StepTo.desk {s s' : Fanout} {m : Move} (h : StepTo s m s') {i : Nat} {d : Desk}
    (hd : s.desks[i]? = some d) :
    ∃ d', s'.desks[i]? = some d' ∧ d.run (m.at? i).toList = some d' := by
  cases h with
  | emits e free isOpen => exact ⟨d, hd, rfl⟩
  | closes free isOpen => exact ⟨d, hd, rfl⟩
  | works j m d₀ d₁ _ hd₀ ready hstep hmoved =>
    rw [hmoved.desks, List.getElem?_set]
    by_cases hij : j = i
    · subst hij
      cases hd.symm.trans hd₀
      obtain ⟨hlt, -⟩ := List.getElem?_eq_some_iff.mp hd
      refine ⟨d₁, by simp [hlt], ?_⟩
      simp [Move.at?, Desk.run, hstep]
    · exact ⟨d, by simpa [hij] using hd, by simp [Move.at?, hij, Desk.run]⟩

/-- A run of the whole is, at each desk, a run of the desk. -/
theorem run_desk {moves : List Move} {s s' : Fanout} (hrun : s.run moves = some s') {i : Nat}
    {d : Desk} (hd : s.desks[i]? = some d) :
    ∃ d', s'.desks[i]? = some d' ∧ d.run (own i moves) = some d' := by
  induction moves generalizing s d with
  | nil =>
    cases hrun
    exact ⟨d, hd, rfl⟩
  | cons m moves ih =>
    obtain ⟨s₁, hm, hrest⟩ := Option.bind_eq_some_iff.mp hrun
    obtain ⟨d₁, hd₁, hfirst⟩ := (stepTo_step hm).desk hd
    obtain ⟨d', hd', hlater⟩ := ih hrest hd₁
    have hown : own i (m :: moves) = (m.at? i).toList ++ own i moves := by
      cases h : m.at? i <;> simp [own, h]
    refine ⟨d', hd', ?_⟩
    rw [hown, Desk.run_append, hfirst]
    exact hlater

/-! ## A subscriber alone -/

/-- What is left of a move if desk `i` is the only one. -/
def Move.alone? (i : Nat) : Move → Option Move
  | .desk j m => if j = i then some (.desk 0 m) else none
  | m => some m

/-- The moves without those of the other desks. -/
def alone (i : Nat) (moves : List Move) : List Move := moves.filterMap (Move.alone? i)

/-- The state `s₀` is what is left of `s` if desk `i` is the only one. -/
structure Shows (s : Fanout) (i : Nat) (s₀ : Fanout) : Prop where
  desk : ∃ d, s.desks[i]? = some d ∧ s₀.desks = [d]
  offering : s₀.offering = s.offering.bind fun x => if x.2 ≤ i then some (x.1, 0) else none
  closed : s₀.closed = s.closed
  emitted : s₀.emitted = s.emitted

theorem Shows.step {s s₀ s' : Fanout} {i : Nat} {m : Move} (h : s.Shows i s₀)
    (hstep : StepTo s m s') : ∃ s₀', s₀.run (m.alone? i).toList = some s₀' ∧ s'.Shows i s₀' := by
  obtain ⟨d, hd, hdesks⟩ := h.desk
  obtain ⟨hlt, -⟩ := List.getElem?_eq_some_iff.mp hd
  cases hstep with
  | emits e free isOpen =>
    have hfree : s₀.offering = none := by rw [h.offering, free, Option.bind_none]
    have hemit : s₀.step (.emit e) =
        some ({ s₀ with emitted := s₀.emitted ++ [e] }.offerFrom 0 e) := by
      simp [Fanout.step, hfree, h.closed, isOpen]
    have hpos : 0 < s.desks.length := Nat.zero_lt_of_lt hlt
    refine ⟨_, (run_singleton _ _).trans hemit, ⟨d, hd, hdesks⟩, ?_, h.closed, ?_⟩
    · simp [offerFrom, hdesks, hpos]
    · simp [offerFrom, h.emitted]
  | closes free isOpen =>
    have hfree : s₀.offering = none := by rw [h.offering, free, Option.bind_none]
    have hclose : s₀.step .close = some { s₀ with closed := true } := by
      simp [Fanout.step, hfree, h.closed, isOpen]
    exact ⟨_, (run_singleton _ _).trans hclose, ⟨d, hd, hdesks⟩, h.offering, rfl, h.emitted⟩
  | works j m d₀ d₁ _ hd₀ ready hm hmoved =>
    by_cases hij : j = i
    · subst hij
      cases hd.symm.trans hd₀
      have hready : s₀.Ready 0 m := by
        cases m with
        | offer e =>
          have hoffering : s.offering = some (e, j) := ready
          rw [Ready, h.offering, hoffering]
          simp
        | pick => trivial
        | react => trivial
      obtain ⟨s₀', hs₀', h'⟩ := step_desk (by rw [hdesks]; rfl) hready hm
      refine ⟨s₀', by simp [Move.alone?, run, hs₀'], ⟨d₁, ?_, ?_⟩, ?_, ?_, ?_⟩
      · simp [hmoved.desks, hlt]
      · simp [h'.desks, hdesks]
      · rw [h'.offering, hmoved.offering]
        cases m with
        | offer e =>
          by_cases hlast : j + 1 < s.desks.length <;> simp [hdesks, hlast]
        | pick => exact h.offering
        | react => exact h.offering
      · rw [h'.closed, h.closed, hmoved.closed]
      · rw [h'.emitted, h.emitted, hmoved.emitted]
    · refine ⟨s₀, by simp [Move.alone?, hij, run], ⟨d, ?_, hdesks⟩, ?_, ?_, ?_⟩
      · simpa [hmoved.desks, hij] using hd
      · rw [hmoved.offering, h.offering]
        cases m with
        | offer e =>
          -- The turn goes from one of the others to the next desk.
          have hoffering : s.offering = some (e, j) := ready
          simp only [hoffering, Option.bind_some]
          by_cases hji : j < i
          · have hnext : j + 1 < s.desks.length := by omega
            rw [if_pos hnext, Option.bind_some, if_pos (Nat.le_of_lt hji),
              if_pos (Nat.succ_le_of_lt hji)]
          · have hpast : ¬ j ≤ i := by omega
            have hpast' : ¬ j + 1 ≤ i := by omega
            by_cases hlast : j + 1 < s.desks.length
            · rw [if_pos hlast, Option.bind_some, if_neg hpast, if_neg hpast']
            · rw [if_neg hlast, Option.bind_none, if_neg hpast]
        | pick => rfl
        | react => rfl
      · rw [h.closed, hmoved.closed]
      · rw [h.emitted, hmoved.emitted]

/-- What happens at a desk in company happens as well if it is the only one. -/
theorem Shows.run {moves : List Move} {s s₀ s' : Fanout} {i : Nat} (h : s.Shows i s₀)
    (hrun : s.run moves = some s') : ∃ s₀', s₀.run (alone i moves) = some s₀' ∧ s'.Shows i s₀' := by
  induction moves generalizing s s₀ with
  | nil =>
    cases hrun
    exact ⟨s₀, rfl, h⟩
  | cons m moves ih =>
    obtain ⟨s₁, hm, hrest⟩ := Option.bind_eq_some_iff.mp hrun
    obtain ⟨s₂, hfirst, h₂⟩ := h.step (stepTo_step hm)
    obtain ⟨s₀', hlater, h'⟩ := ih h₂ hrest
    have halone : alone i (m :: moves) = (m.alone? i).toList ++ alone i moves := by
      cases hm : m.alone? i <;> simp [alone, hm]
    refine ⟨s₀', ?_, h'⟩
    rw [halone, run_append, hfirst]
    exact hlater

theorem shows_start (f f₀ : Feed) {subscribers : List Subscriber} {i : Nat} {x : Subscriber}
    (hx : subscribers[i]? = some x) : (start f subscribers).Shows i (start f₀ [x]) :=
  ⟨⟨Desk.start x, by simp [start, hx], rfl⟩, rfl, rfl, rfl⟩

/-! ## Emitted events and reports -/

/-- The events that were offered to desk `i` so far: all that were emitted, but
not yet the last one if it is not the turn of the desk. -/
def offeredTo (s : Fanout) (i : Nat) : List Stamped :=
  match s.offering with
  | some (_, j) => if j ≤ i then s.emitted.dropLast else s.emitted
  | none => s.emitted

/-- It is the turn of a later desk, or of none. -/
theorem offeredTo_of_lt {s : Fanout} {i : Nat} (h : ∀ e j, s.offering = some (e, j) → i < j) :
    s.offeredTo i = s.emitted := by
  unfold offeredTo
  split
  · rename_i e j he
    rw [if_neg (Nat.not_le.mpr (h e j he))]
  · rfl

theorem offeredTo_of_le {s : Fanout} {i j : Nat} {e : Stamped} {es : List Stamped}
    (he : s.offering = some (e, j)) (hji : j ≤ i) (hes : s.emitted = es ++ [e]) :
    s.offeredTo i = es := by
  simp [offeredTo, he, hji, hes]

/-- The reports about desk `i`. -/
def reportsAt (s : Fanout) (i : Nat) : List Event :=
  s.reports.filterMap fun r => if r.1 = i then some r.2 else none

/-- Emitted events go to all desks, and their reports to the feed. -/
structure Sound (f : Feed) (s : Fanout) : Prop where
  feed : s.feed = (s.reports.map Prod.snd).foldl Feed.publish f
  reports : ∀ i d, s.desks[i]? = some d → s.reportsAt i = d.reports
  offered : ∀ i d, s.desks[i]? = some d → d.offers.map Prod.fst = s.offeredTo i
  /-- The event at hand is the last one that was emitted. -/
  atHand : ∀ e i, s.offering = some (e, i) →
    i < s.desks.length ∧ ∃ es, s.emitted = es ++ [e]
  closed : s.closed = true → s.offering = none

theorem exists_start {f : Feed} {subscribers : List Subscriber} {d : Desk}
    (hd : d ∈ (start f subscribers).desks) : ∃ x, Desk.start x = d := by
  obtain ⟨x, -, hx⟩ := List.mem_map.mp hd
  exact ⟨x, hx⟩

theorem sound_start (f : Feed) (subscribers : List Subscriber) : Sound f (start f subscribers) := by
  constructor
  case feed => rfl
  case reports =>
    intro i d hd
    obtain ⟨x, rfl⟩ := exists_start (List.mem_of_getElem? hd)
    rfl
  case offered =>
    intro i d hd
    obtain ⟨x, rfl⟩ := exists_start (List.mem_of_getElem? hd)
    rfl
  case atHand =>
    intro e i he
    cases he
  case closed =>
    intro hc
    cases hc

section Moved
variable {s s' : Fanout} {i : Nat} {m : Desk.Move} {d d' : Desk}

theorem Moved.desk_cases (h : s.Moved i m d d' s') {j : Nat} {d₁ : Desk}
    (hd : s'.desks[j]? = some d₁) : (j = i ∧ d₁ = d') ∨ (j ≠ i ∧ s.desks[j]? = some d₁) := by
  rw [h.desks, List.getElem?_set] at hd
  by_cases hij : i = j
  · rw [if_pos hij] at hd
    split at hd
    · exact .inl ⟨hij.symm, (Option.some.inj hd).symm⟩
    · cases hd
  · rw [if_neg hij] at hd
    exact .inr ⟨fun e => hij e.symm, hd⟩

theorem Moved.reportsAt (h : s.Moved i m d d' s') (j : Nat) :
    s'.reportsAt j = s.reportsAt j ++ if j = i then (d.report m).toList else [] := by
  rw [Fanout.reportsAt, h.reports, List.filterMap_append]
  congr 1
  cases d.report m with
  | none => simp
  | some r =>
    by_cases hij : j = i
    · simp [hij]
    · simp [hij, Ne.symm hij]

/-- An event is offered to each desk in turn. -/
theorem Moved.offeredTo (h : s.Moved i m d d' s') (ready : s.Ready i m)
    (hhand : ∀ e i, s.offering = some (e, i) → ∃ es, s.emitted = es ++ [e]) {j : Nat}
    (hj : j < s.desks.length) :
    s'.offeredTo j = s.offeredTo j ++ if j = i then m.offered.toList else [] := by
  have hoffering := h.offering
  cases m with
  | offer e =>
    have hready : s.offering = some (e, i) := ready
    obtain ⟨es, hemitted⟩ := hhand e i hready
    have hemitted' : s'.emitted = es ++ [e] := h.emitted.trans hemitted
    simp only at hoffering
    have hafter (hji : j ≤ i) : s'.offeredTo j = es ++ [e] := by
      rw [offeredTo_of_lt fun e' k he => ?_, hemitted']
      rw [hoffering] at he
      split at he
      · cases he
        exact Nat.lt_succ_of_le hji
      · cases he
    rcases Nat.lt_trichotomy j i with hlt | rfl | hgt
    · have hbefore : s.offeredTo j = es ++ [e] := by
        rw [offeredTo_of_lt fun e' k he => ?_, hemitted]
        cases hready.symm.trans he
        exact hlt
      rw [hafter (Nat.le_of_lt hlt), hbefore, if_neg (Nat.ne_of_lt hlt), List.append_nil]
    · rw [hafter (Nat.le_refl j), offeredTo_of_le hready (Nat.le_refl j) hemitted, if_pos rfl]
      rfl
    · rw [if_pos (Nat.lt_of_le_of_lt hgt hj)] at hoffering
      rw [offeredTo_of_le hoffering hgt hemitted',
        offeredTo_of_le hready (Nat.le_of_lt hgt) hemitted, if_neg (Nat.ne_of_gt hgt),
        List.append_nil]
  | pick =>
    rw [Fanout.offeredTo, h.emitted, hoffering]
    simp [Desk.Move.offered, Fanout.offeredTo]
  | react =>
    rw [Fanout.offeredTo, h.emitted, hoffering]
    simp [Desk.Move.offered, Fanout.offeredTo]

end Moved

/-- The event at hand is the newest one, and it is the turn of the first desk. -/
theorem Sound.emits {f : Feed} {s : Fanout} (h : Sound f s) (free : s.offering = none)
    (isOpen : s.closed = false) (e : Stamped) :
    Sound f ({ s with emitted := s.emitted ++ [e] }.offerFrom 0 e) := by
  constructor
  case feed => exact h.feed
  case reports => exact h.reports
  case offered =>
    intro i d hd
    have hpos : 0 < s.desks.length :=
      Nat.lt_of_le_of_lt (Nat.zero_le i) (List.getElem?_eq_some_iff.mp hd).1
    have hall : s.offeredTo i = s.emitted :=
      offeredTo_of_lt fun e j he => by
        rw [free] at he
        cases he
    rw [h.offered i d hd, hall]
    exact (offeredTo_of_le (if_pos hpos) (Nat.zero_le i) rfl).symm
  case atHand =>
    intro e' i he
    simp only [offerFrom] at he
    split at he
    · rename_i hlt
      cases he
      exact ⟨hlt, s.emitted, rfl⟩
    · cases he
  case closed => exact fun hc => Bool.noConfusion (isOpen.symm.trans hc)

/-- A desk is offered what it is its turn to be offered, and its report goes out. -/
theorem Sound.moved {f : Feed} {s s' : Fanout} {i : Nat} {m : Desk.Move} {d d' : Desk}
    (h : Sound f s) (hd : s.desks[i]? = some d) (ready : s.Ready i m)
    (hstep : d.step m = some d') (hmoved : s.Moved i m d d' s') : Sound f s' := by
  constructor
  case feed =>
    rw [hmoved.feed, hmoved.reports, List.map_append, List.foldl_append, ← h.feed]
    simp only [List.map_map, Function.comp_def, List.map_id']
  case reports =>
    intro j d₁ hd₁
    rw [hmoved.reportsAt]
    rcases hmoved.desk_cases hd₁ with ⟨rfl, rfl⟩ | ⟨hij, hd₁⟩
    · rw [if_pos rfl, h.reports j d hd, Desk.reports_step hstep]
    · rw [if_neg hij, h.reports j d₁ hd₁, List.append_nil]
  case offered =>
    intro j d₁ hd₁
    have hj : j < s.desks.length := by
      have hlt := (List.getElem?_eq_some_iff.mp hd₁).1
      rwa [hmoved.desks, List.length_set] at hlt
    rw [hmoved.offeredTo ready (fun e i he => (h.atHand e i he).2) hj]
    rcases hmoved.desk_cases hd₁ with ⟨rfl, rfl⟩ | ⟨hij, hd₁⟩
    · rw [if_pos rfl, (Desk.stepTo_step hstep).offers, h.offered j d hd]
    · rw [if_neg hij, h.offered j d₁ hd₁, List.append_nil]
  case atHand =>
    intro e j he
    rw [hmoved.emitted, hmoved.desks, List.length_set]
    rw [hmoved.offering] at he
    cases m with
    | offer e' =>
      simp only at he
      split at he
      · rename_i hlt
        cases he
        exact ⟨hlt, (h.atHand e i ready).2⟩
      · cases he
    | pick => exact h.atHand e j he
    | react => exact h.atHand e j he
  case closed =>
    intro hc
    have hfree := h.closed (hmoved.closed ▸ hc)
    have hm := offered_of_ready hfree ready
    rw [hmoved.offering]
    cases m with
    | offer e => cases hm
    | pick => exact hfree
    | react => exact hfree

theorem Sound.step {f : Feed} {s s' : Fanout} {m : Move} (h : Sound f s) (hstep : StepTo s m s') :
    Sound f s' := by
  cases hstep with
  | emits e free isOpen => exact h.emits free isOpen e
  | works i m d d' _ hd ready hstep hmoved => exact h.moved hd ready hstep hmoved
  | closes free isOpen => exact ⟨h.feed, h.reports, h.offered, h.atHand, fun _ => free⟩

/-! ## Closing -/

/-- The moves that the workers have before them. -/
def left (s : Fanout) : Nat := total Desk.left s.desks

/-- The queues are closed and all workers are done. -/
def Finished (s : Fanout) : Prop := s.closed = true ∧ ∀ d ∈ s.desks, d.Idle

instance (s : Fanout) : Decidable s.Finished := inferInstanceAs (Decidable (_ ∧ _))

/-- Once the queues are closed only workers move, and they get closer to the end. -/
theorem StepTo.left_lt {f : Feed} {s s' : Fanout} {m : Move} (h : StepTo s m s')
    (hs : Sound f s) (hc : s.closed = true) : s'.left < s.left ∧ s'.closed = true := by
  cases h with
  | emits e free isOpen => cases isOpen.symm.trans hc
  | closes free isOpen => cases isOpen.symm.trans hc
  | works i m d d' _ hd ready hstep hmoved =>
    have hlt := (Desk.stepTo_step hstep).left_lt (offered_of_ready (hs.closed hc) ready)
    have hsum := total_set Desk.left hd d'
    refine ⟨?_, hmoved.closed.trans hc⟩
    rw [left, left, hmoved.desks]
    omega

theorem length_le_left {f : Feed} {moves : List Move} {s s' : Fanout} (hs : Sound f s)
    (hc : s.closed = true) (hrun : s.run moves = some s') : moves.length ≤ s.left := by
  induction moves generalizing s with
  | nil => exact Nat.zero_le _
  | cons m moves ih =>
    obtain ⟨s₁, hm, hrest⟩ := Option.bind_eq_some_iff.mp hrun
    obtain ⟨hlt, hc₁⟩ := (stepTo_step hm).left_lt hs hc
    have hlater := ih (hs.step (stepTo_step hm)) hc₁ hrest
    rw [List.length_cons]
    omega

/-- A desk is held up by nothing but itself. -/
theorem isSome_desk {s : Fanout} {i : Nat} {d : Desk} {m : Desk.Move} (hd : s.desks[i]? = some d)
    (hready : s.Ready i m) : (s.step (.desk i m)).isSome = (d.step m).isSome := by
  simp [step, hd, hready]

/-- A worker that has something to do can go on, whatever the others do. -/
theorem exists_work {s : Fanout} {i : Nat} {d : Desk} (hd : s.desks[i]? = some d)
    (hidle : ¬ d.Idle) : ∃ m, m.offered = none ∧ (s.step (.desk i m)).isSome = true := by
  obtain ⟨m, hm, hsome⟩ := d.exists_step hidle
  exact ⟨m, hm, (isSome_desk hd (ready_of_offered hm s i)).trans hsome⟩

/-- Closed queues are worked off. -/
theorem finished_of_stuck {s : Fanout} (hc : s.closed = true) (h : ∀ m, s.step m = none) :
    s.Finished := by
  refine ⟨hc, fun d hd => Decidable.byContradiction fun hidle => ?_⟩
  obtain ⟨i, hi⟩ := List.getElem?_of_mem hd
  obtain ⟨m, -, hsome⟩ := exists_work hi hidle
  rw [h] at hsome
  cases hsome

/-! ## The result -/

/-- The balance of all subscribers, where the feed was `f` at the start. -/
structure Accounts (f : Feed) (subscribers : List Subscriber) (s : Fanout) : Prop where
  /-- Every subscriber has a desk, which is offered every emitted event, and
  which has a balance of its own. -/
  desks : ∀ i x, subscribers[i]? = some x → ∃ d, s.desks[i]? = some d ∧ d.Accounts x ∧
    d.offers.map Prod.fst = s.offeredTo i ∧ d.accepted.Sublist s.emitted ∧
    s.reportsAt i = d.reports
  feed : s.feed = (s.reports.map Prod.snd).foldl Feed.publish f
  /-- An emit waits for nothing but the one before. -/
  emits : s.offering = none → s.closed = false → ∀ e, (s.step (.emit e)).isSome = true
  /-- An offer waits for nothing at all. -/
  offers : ∀ e i, s.offering = some (e, i) → (s.step (.desk i (.offer e))).isSome = true
  /-- A queue refuses an event only if it is full or its worker is dead. -/
  taken : ∀ e i d s', s.desks[i]? = some d → s.step (.desk i (.offer e)) = some s' →
    ∃ d', s'.desks[i]? = some d' ∧ d'.accepted = d.accepted ++
      if d.worker.alive ∧ d.worker.queue.length < d.worker.capacity then [e] else []
  /-- A worker that has something to do waits for nothing but its subscriber. -/
  works : ∀ i d, s.desks[i]? = some d → ¬ d.Idle →
    ∃ m, m.offered = none ∧ (s.step (.desk i m)).isSome = true

section Run
variable {f : Feed} {subscribers : List Subscriber} {moves : List Move} {s : Fanout}

theorem sound_run (hrun : (start f subscribers).run moves = some s) : Sound f s :=
  run_induction (fun _ _ _ h hstep => h.step hstep) (sound_start f subscribers) hrun

theorem desk_run (hrun : (start f subscribers).run moves = some s) {i : Nat} {x : Subscriber}
    (hx : subscribers[i]? = some x) :
    ∃ d, s.desks[i]? = some d ∧ (Desk.start x).run (own i moves) = some d :=
  run_desk hrun (by simp [start, hx])

/-- Every desk is that of a subscriber, and in balance. -/
theorem accounts_of_mem (hrun : (start f subscribers).run moves = some s) {d : Desk}
    (hd : d ∈ s.desks) : ∃ x, d.Accounts x := by
  have hsize : s.desks.length = subscribers.length :=
    run_induction (P := fun s => s.desks.length = subscribers.length)
      (fun _ _ _ h hstep => hstep.size.trans h) (by simp [start]) hrun
  obtain ⟨i, hi⟩ := List.getElem?_of_mem hd
  have hlt := (List.getElem?_eq_some_iff.mp hi).1
  obtain ⟨d', hd', hown⟩ := desk_run hrun (List.getElem?_eq_getElem (hsize ▸ hlt))
  cases hi.symm.trans hd'
  exact ⟨_, Desk.accounts_run (Desk.accounts_start _) hown⟩

theorem sublist_offeredTo (s : Fanout) (i : Nat) : (s.offeredTo i).Sublist s.emitted := by
  unfold offeredTo
  split
  · split
    · exact List.dropLast_sublist s.emitted
    · exact List.Sublist.refl _
  · exact List.Sublist.refl _

theorem accounts_run (hrun : (start f subscribers).run moves = some s) :
    s.Accounts f subscribers := by
  have hsound := sound_run hrun
  constructor
  case desks =>
    intro i x hx
    obtain ⟨d, hd, hown⟩ := desk_run hrun hx
    have hoffered := hsound.offered i d hd
    have haccepted : d.accepted.Sublist (d.offers.map Prod.fst) :=
      List.filter_sublist.map Prod.fst
    rw [hoffered] at haccepted
    exact ⟨d, hd, Desk.accounts_run (Desk.accounts_start x) hown, hoffered,
      haccepted.trans (sublist_offeredTo s i), hsound.reports i d hd⟩
  case feed => exact hsound.feed
  case emits => exact fun hfree hopen e => by simp [step, hfree, hopen]
  case offers =>
    intro e i he
    obtain ⟨hlt, -⟩ := hsound.atHand e i he
    have hready : s.Ready i (.offer e) := he
    exact (isSome_desk (List.getElem?_eq_getElem hlt) hready).trans (Desk.isSome_offer _ e)
  case taken =>
    intro e i d s' hd hs'
    cases stepTo_step hs' with
    | works _ _ d₀ d' _ hd₀ ready hstep hmoved =>
      cases hd.symm.trans hd₀
      obtain ⟨hlt, -⟩ := List.getElem?_eq_some_iff.mp hd
      exact ⟨d', by simp [hmoved.desks, hlt], (Desk.stepTo_step hstep).accepted⟩
  case works => exact fun i d hd hidle => exists_work hd hidle

end Run

end Fanout

/-- **Fan-out accounts.** Whatever is emitted and however the workers go on
meanwhile, every subscriber is in balance: as long as its worker lives, it was
handed, or has in its queue, what the queue has taken of the emitted events;
each refusal and each panic is reported once; and no emit and no worker is held
up by another subscriber. What a subscriber is handed is what it is handed if it
is the only one. Once the queues are closed the run comes to an end, and then
everything taken has been handed over. -/
theorem fanout_accounts (f : Feed) (subscribers : List Subscriber) {moves : List Fanout.Move}
    {s : Fanout} (hrun : (Fanout.start f subscribers).run moves = some s) :
    s.Accounts f subscribers ∧
    (∀ i x, subscribers[i]? = some x → ∀ f₀, ∃ s₀,
      (Fanout.start f₀ [x]).run (Fanout.alone i moves) = some s₀ ∧
      s₀.emitted = s.emitted ∧ s₀.closed = s.closed ∧ s₀.desks[0]? = s.desks[i]?) ∧
    (s.closed = true →
      (∀ more s', s.run more = some s' → more.length ≤ s.left) ∧
      ((∀ m, s.step m = none) → s.Finished)) ∧
    (s.Finished → ∀ d ∈ s.desks, d.worker.alive = true →
      d.handed = d.accepted ∧ d.outcomes.map Prod.fst = d.accepted) := by
  refine ⟨Fanout.accounts_run hrun, ?_, fun hc => ⟨?_, ?_⟩, ?_⟩
  · intro i x hx f₀
    obtain ⟨s₀, hrun₀, hshows⟩ := (Fanout.shows_start f f₀ hx).run hrun
    obtain ⟨d, hd, hdesks⟩ := hshows.desk
    exact ⟨s₀, hrun₀, hshows.emitted, hshows.closed, by rw [hdesks, hd]; rfl⟩
  · exact fun more s' hmore => Fanout.length_le_left (Fanout.sound_run hrun) hc hmore
  · exact Fanout.finished_of_stuck hc
  · intro hfinished d hd halive
    obtain ⟨x, hd'⟩ := Fanout.accounts_of_mem hrun hd
    obtain ⟨hqueue, hfree⟩ := hfinished.2 d hd
    have hbalanced := hd'.balanced halive
    have hhandled := hd'.handled
    rw [hqueue, List.append_nil] at hbalanced
    rw [hfree, Option.toList_none, List.append_nil, hbalanced] at hhandled
    exact ⟨hbalanced, hhandled⟩

/-- A subscriber with a queue for one event, which panics on every event. -/
def boom : Subscriber :=
  { name := "boom", queueCapacity := 1, react := fun _ => .panicked (some "boom") }

/-- The queue of `boom` is full when the second event comes, and it panics on
the first. The other subscriber, which is slower, is handed both. -/
theorem fanout_accounts_of_panic :
    let f : Feed := ⟨0, .new 4⟩
    let one : Stamped := ⟨1, .about .parked "app" "build" 2⟩
    let two : Stamped := ⟨2, .about .released "app" "build" 1⟩
    let moves : List Fanout.Move := [.emit one, .desk 0 (.offer one), .desk 1 (.offer one),
      .emit two, .desk 0 (.offer two), .desk 0 .pick, .desk 1 (.offer two), .close,
      .desk 0 .react, .desk 1 .pick, .desk 1 .react, .desk 1 .pick, .desk 1 .react]
    ∃ s, (Fanout.start f [boom, .logWriter]).run moves = some s ∧ s.Finished ∧
      s.reports =
        [(0, .subscriberOverflow "boom" "full"), (0, .subscriberPanicked "boom" "boom")] ∧
      s.desks.map Desk.handed = [[one], [one, two]] ∧ ∀ d ∈ s.desks, d.handed = d.accepted := by
  intro f one two moves
  have hruns : ((Fanout.start f [boom, .logWriter]).run moves).map (fun s =>
      (decide s.Finished, s.reports, s.desks.map Desk.handed,
        decide (∀ d ∈ s.desks, d.worker.alive = true))) =
      some (true,
        [(0, .subscriberOverflow "boom" "full"), (0, .subscriberPanicked "boom" "boom")],
        [[one], [one, two]], true) := by
    decide +kernel
  obtain ⟨s, hrun, hs⟩ := Option.map_eq_some_iff.mp hruns
  simp only [Prod.mk.injEq, decide_eq_true_eq] at hs
  obtain ⟨hfinished, hreports, hhanded, halive⟩ := hs
  obtain ⟨-, -, -, hdelivered⟩ := fanout_accounts f [boom, .logWriter] hrun
  exact ⟨s, hrun, hfinished, hreports, hhanded,
    fun d hd => (hdelivered hfinished d hd (halive d hd)).1⟩

end SegmentGate
