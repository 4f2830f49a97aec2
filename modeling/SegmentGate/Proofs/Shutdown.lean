import Mathlib.Data.List.Infix
import SegmentGate.Proofs.Relay

/-!
# What a shutdown still hands over

When the gate is told to shut down the bus may retain events that the listener
has not taken yet. `retained_handed_over_iff` says when all of them are handed
over: exactly if the listener is told of no lag that reaches into them, but one
it is told while it still listens and that leads to the oldest of them. The
listener that drains the bus stops at a lag, though the events after it are still
there (`retained_lost_at_lag`).
-/
namespace SegmentGate
namespace Relay

variable {s t t' : Relay}

/-- The events that the bus retains for the listener, with their positions. -/
def unread (s : Relay) : List (Stamped × Nat) := s.feed.bus.unread s.position

/-- The position of the first of them. -/
def oldest (s : Relay) : Nat := max s.position s.feed.bus.start

/-- What the listener has taken since the state was `s`, with the positions. -/
def takenSince (s t : Relay) : List (Stamped × Nat) := t.taken.drop s.taken.length

def lagsSince (s t : Relay) : List Lag := t.lags.drop s.lags.length

theorem takenSince_hold (h : Grows s t) (bus : Bus Stamped) (e : Stamped) :
    s.takenSince (t.hold bus e) = s.takenSince t ++ [(e, t.position)] :=
  List.drop_append_of_le_length h.taken.length_le

theorem lagsSince_append (h : Grows s t) (ht : t'.lags = t.lags ++ [t.lag]) :
    s.lagsSince t' = s.lagsSince t ++ [t.lag] := by
  rw [lagsSince, ht]
  exact List.drop_append_of_le_length h.lags.length_le

theorem mem_lagsSince (h : Grows s t) (ht : t'.lags = t.lags ++ [t.lag]) :
    t.lag ∈ s.lagsSince t' := by
  rw [lagsSince_append h ht]
  exact List.mem_append_right _ List.mem_cons_self

/-! ## Later states -/

/-- The state `t` comes after `s`: the listener and the bus have only gone on. -/
structure After (s t : Relay) : Prop where
  sound : t.Sound
  grows : Grows s t
  position_le : s.position ≤ t.position
  start_le : t.stage ≠ .ended → s.feed.bus.start ≤ t.feed.bus.start

namespace After

theorem refl (h : s.Sound) : After s s :=
  ⟨h, .refl s, Nat.le_refl _, fun _ => Nat.le_refl _⟩

theorem step {m : Move} (h : After s t) (ht : StepTo t m t') : After s t' := by
  have hsound := h.sound.step ht
  have hgrows := h.grows.trans (Grows.step ht)
  have hpublish (v : Stamped) : t.stage ≠ .ended →
      s.feed.bus.start ≤ (t.feed.bus.publish v).start :=
    fun hs => Nat.le_trans (h.start_le hs) (Bus.start_le_publish _ v)
  have hreceive {x : Bus.Received Stamped × Bus Stamped} (hr : t.feed.bus.receive t.rx = x) :
      t.stage ≠ .ended → s.feed.bus.start ≤ x.2.start := by
    rw [← hr, Bus.start_receive]
    exact h.start_le
  cases ht with
  | publishes next e => exact ⟨hsound, hgrows, h.position_le, hpublish e⟩
  | aside m hp ho bus hbus =>
    refine ⟨hsound, hgrows, h.position_le, fun hs => ?_⟩
    have hrx := (List.getElem?_eq_some_iff.mp (h.sound.hears hs).cursor).1
    exact (hbus hrx).start ▸ h.start_le hs
  | holds ho hs e bus hr =>
    exact ⟨hsound, hgrows, Nat.le_succ_of_le h.position_le, hreceive hr⟩
  | skips ho hs n bus hr =>
    have hlt := ((h.sound.hears (by rw [hs]; decide)).receive_lagged hr).1
    exact ⟨hsound, hgrows, Nat.le_of_lt (Nat.lt_of_le_of_lt h.position_le hlt), hreceive hr⟩
  | halts ho hs n bus hr =>
    exact ⟨hsound, hgrows, h.position_le, fun _ => h.start_le (by rw [hs]; decide)⟩
  | refuses e i ho w hw hover reason => exact ⟨hsound, hgrows, h.position_le, hpublish _⟩
  | panics i w hw e hh payload hr => exact ⟨hsound, hgrows, h.position_le, hpublish _⟩
  | drains hc hs ho =>
    exact ⟨hsound, hgrows, h.position_le, fun _ => h.start_le (by rw [hs]; decide)⟩
  | empties ho hs hv hl =>
    exact ⟨hsound, hgrows, h.position_le, fun _ => h.start_le (by rw [hs]; decide)⟩
  | finishes hs hi => exact ⟨hsound, hgrows, h.position_le, fun he => absurd rfl he⟩
  | _ => exact ⟨hsound, hgrows, h.position_le, h.start_le⟩

theorem oldest_le (h : After s t) (hs : t.stage ≠ .ended) {n : Nat} (hp : t.position ≤ n)
    (hb : t.feed.bus.start ≤ n) : s.oldest ≤ n :=
  Nat.max_le.mpr ⟨Nat.le_trans h.position_le hp, Nat.le_trans (h.start_le hs) hb⟩

end After

/-! ## Without harm -/

/-- The lag does not reach into what `s` retains for the listener, or is told to a
listener that goes on with the oldest of that. -/
def Lag.Harmless (s : Relay) (lag : Lag) : Prop :=
  lag.due < s.published.length → lag.stage = .listening ∧ lag.oldest = s.oldest

/-- The listener has taken what was retained as far as it has come. -/
structure Forwards (s t : Relay) : Prop where
  part : t.position < s.published.length →
    s.takenSince t = s.unread.take (t.position - s.oldest)
  all : s.published.length ≤ t.position → s.unread <+: s.takenSince t
  done : t.stage.isTaking = false → s.published.length ≤ t.position

theorem length_unread (h : s.Sound) (hs : s.stage ≠ .ended) :
    s.unread.length = s.published.length - s.oldest :=
  (h.hears hs).length_unread

theorem unread_eq_nil (h : s.Sound) (hs : s.stage ≠ .ended)
    (hn : s.published.length ≤ s.oldest) : s.unread = [] := by
  apply List.eq_nil_of_length_eq_zero
  rw [length_unread h hs]
  omega

namespace Forwards

theorem refl (h : s.Sound) (hs : s.stage = .listening) : Forwards s s where
  part _ := by
    have hnone : s.position - s.oldest = 0 := Nat.sub_eq_zero_of_le (Nat.le_max_left _ _)
    simp [takenSince, hnone]
  all hn := by
    rw [unread_eq_nil h (by rw [hs]; decide) (Nat.le_trans hn (Nat.le_max_left _ _))]
    exact List.nil_prefix
  done hd := by
    rw [hs] at hd
    cases hd

/-- The next event that the listener takes is the next one retained. -/
theorem hold (h : Forwards s t) (ha : After s t) (hs : s.Sound) (hopen : s.stage ≠ .ended)
    (hm : s.oldest ≤ t.position) {e : Stamped} (he : t.published[t.position]? = some e)
    (hstage : t.stage.isTaking = true) (bus : Bus Stamped) : Forwards s (t.hold bus e) := by
  have htaken := takenSince_hold ha.grows bus e
  have hlength := length_unread hs hopen
  by_cases hlt : t.position < s.published.length
  · have hnow : s.published[t.position]? = some e := by
      obtain ⟨rest, hrest⟩ := ha.grows.published
      rw [← hrest, List.getElem?_append_left hlt] at he
      exact he
    have hnext : s.takenSince (t.hold bus e) =
        s.unread.take (t.position + 1 - s.oldest) := by
      have hsub : t.position + 1 - s.oldest = t.position - s.oldest + 1 := by omega
      have hunread : s.unread[t.position - s.oldest]? = some (e, t.position) :=
        (hs.hears hopen).getElem?_unread hm hnow
      rw [htaken, h.part hlt, hsub, List.take_add_one, hunread]
      rfl
    refine ⟨fun _ => hnext, fun hall => ?_, fun hd => by cases hstage.symm.trans hd⟩
    have hend : s.unread.length ≤ t.position + 1 - s.oldest := by
      have hall' : s.published.length ≤ t.position + 1 := hall
      omega
    rw [hnext, List.take_of_length_le hend]
  · have hge : s.published.length ≤ t.position := Nat.le_of_not_lt hlt
    refine ⟨fun hp => absurd (Nat.lt_of_succ_lt hp) hlt, fun _ => ?_,
      fun hd => by cases hstage.symm.trans hd⟩
    rw [htaken]
    exact (h.all hge).trans (List.prefix_append _ _)

/-- A harmless lag leaves out nothing that is retained. -/
theorem skip (h : Forwards s t) (hs : s.Sound) (hopen : s.stage ≠ .ended)
    (hlag : t.position < t.feed.bus.start)
    (hharmless : t.position < s.published.length → t.feed.bus.start = s.oldest) :
    (t.feed.bus.start < s.published.length →
      s.takenSince t = s.unread.take (t.feed.bus.start - s.oldest)) ∧
    (s.published.length ≤ t.feed.bus.start → s.unread <+: s.takenSince t) := by
  by_cases hlt : t.position < s.published.length
  · have hstart := hharmless hlt
    have hnone : t.position - s.oldest = 0 := by omega
    have htaken : s.takenSince t = [] := by rw [h.part hlt, hnone, List.take_zero]
    refine ⟨fun _ => by rw [htaken, hstart, Nat.sub_self, List.take_zero], fun hn => ?_⟩
    rw [unread_eq_nil hs hopen (hstart ▸ hn)]
    exact List.nil_prefix
  · have hge : s.published.length ≤ t.position := Nat.le_of_not_lt hlt
    exact ⟨fun hp => absurd (Nat.lt_trans hlag hp) hlt, fun _ => h.all hge⟩

theorem step {m : Move} (h : Forwards s t) (ha : After s t) (hs : s.Sound)
    (hopen : s.stage ≠ .ended) (ht : StepTo t m t')
    (hharmless : ∀ lag ∈ s.lagsSince t', lag.Harmless s) : Forwards s t' := by
  cases ht with
  | holds ho hstage e bus hr =>
    have hne := Stage.not_ended hstage
    obtain ⟨hstart, he, -⟩ := (ha.sound.hears hne).receive_value hr
    exact h.hold ha hs hopen (ha.oldest_le hne (Nat.le_refl _) hstart) he hstage bus
  | skips ho hstage n bus hr =>
    have hlag := ((ha.sound.hears (by rw [hstage]; decide)).receive_lagged hr).1
    have hnew := hharmless _ (mem_lagsSince ha.grows rfl)
    obtain ⟨hpart, hall⟩ := h.skip hs hopen hlag (fun hp => (hnew hp).2)
    refine ⟨hpart, hall, fun hd => ?_⟩
    have htaking : (t.skip bus).stage.isTaking = true := by
      change t.stage.isTaking = true
      rw [hstage]
      rfl
    cases htaking.symm.trans hd
  | halts ho hstage n bus hr =>
    have hnew := hharmless _ (mem_lagsSince ha.grows rfl)
    -- A lag that ends the drain is harmless only after all that was retained.
    refine ⟨h.part, h.all, fun _ => Nat.le_of_not_lt fun hp => ?_⟩
    cases (hnew hp).1.symm.trans hstage
  | empties ho hstage hv hl =>
    have hend := (ha.sound.hears (by rw [hstage]; decide)).receive_nothing hv hl
    exact ⟨h.part, h.all, fun _ => hend ▸ ha.grows.published.length_le⟩
  | drains hc hst ho =>
    exact ⟨h.part, h.all, fun hd => by cases hd⟩
  | finishes hst hi => exact ⟨h.part, h.all, fun _ => h.done (by rw [hst]; rfl)⟩
  | _ => exact ⟨h.part, h.all, h.done⟩

end Forwards

theorem forwards_run (h : s.Sound) (hs : s.stage = .listening) {moves : List Move}
    (hr : s.run moves = some t) (hharmless : ∀ lag ∈ s.lagsSince t, lag.Harmless s) :
    Forwards s t := by
  have hopen : s.stage ≠ .ended := by rw [hs]; decide
  refine (run_induction (I := fun u => After s u ∧
    ((∀ lag ∈ s.lagsSince u, lag.Harmless s) → Forwards s u))
    (fun m _ u u' hi ht => ?_) ⟨After.refl h, fun _ => Forwards.refl h hs⟩ hr).2 hharmless
  obtain ⟨ha, hf⟩ := hi
  refine ⟨ha.step ht, fun hlags => ?_⟩
  have hlags' : ∀ lag ∈ s.lagsSince u, lag.Harmless s :=
    fun lag hlag => hlags lag (((Grows.step ht).lags.drop _).subset hlag)
  exact (hf hlags').step ha h hopen ht hlags

/-! ## What a lag leaves out -/

/-- The lag lies behind the beginning of what `s` retains, and what the listener
has taken lies outside of it; nothing comes after a lag that ends the drain. -/
structure Skipped (s t : Relay) (lag : Lag) : Prop where
  position_le : s.position ≤ lag.due
  due_lt : lag.due < lag.oldest
  oldest_le : s.oldest ≤ lag.oldest
  taken : ∀ x ∈ s.takenSince t, x.2 < lag.due ∨ lag.stage = .listening ∧ lag.oldest ≤ x.2
  goes_on : lag.stage = .listening → lag.oldest ≤ t.position
  ends : lag.stage = .listening ∨ t.stage.isTaking = false

structure Skips (s t : Relay) : Prop where
  taken : ∀ x ∈ s.takenSince t, x.2 < t.position
  lags : ∀ lag ∈ s.lagsSince t, Skipped s t lag

namespace Skips

theorem refl (s : Relay) : Skips s s := by
  have htaken : s.takenSince s = [] := List.drop_length
  have hlags : s.lagsSince s = [] := List.drop_length
  constructor <;> simp [htaken, hlags]

theorem hold (h : Skips s t) (hg : Grows s t) (hstage : t.stage.isTaking = true)
    (bus : Bus Stamped) (e : Stamped) : Skips s (t.hold bus e) where
  taken x hx := by
    rw [takenSince_hold hg] at hx
    rcases List.mem_append.mp hx with hx | hx
    · exact Nat.lt_succ_of_lt (h.taken x hx)
    · rw [List.mem_singleton.mp hx]
      exact Nat.lt_succ_self _
  lags lag hlag := by
    have hold := h.lags lag hlag
    have hlistening : lag.stage = .listening :=
      hold.ends.resolve_right fun hd => by cases hstage.symm.trans hd
    have hle := hold.goes_on hlistening
    refine ⟨hold.position_le, hold.due_lt, hold.oldest_le, fun x hx => ?_,
      fun _ => Nat.le_succ_of_le hle, .inl hlistening⟩
    rw [takenSince_hold hg] at hx
    rcases List.mem_append.mp hx with hx | hx
    · exact hold.taken x hx
    · rw [List.mem_singleton.mp hx]
      exact .inr ⟨hlistening, hle⟩

/-- The lag that the listener is told next. -/
theorem skipped (h : Skips s t) (ha : After s t) (hstage : t.stage ≠ .ended)
    (hlag : t.position < t.feed.bus.start) (htaken : s.takenSince t' = s.takenSince t)
    (hposition : t.stage = .listening → t.feed.bus.start ≤ t'.position)
    (hends : t.stage = .listening ∨ t'.stage.isTaking = false) : Skipped s t' t.lag where
  position_le := ha.position_le
  due_lt := hlag
  oldest_le := ha.oldest_le hstage (Nat.le_of_lt hlag) (Nat.le_refl _)
  taken x hx := .inl (h.taken x (htaken ▸ hx))
  goes_on := hposition
  ends := hends

theorem step {m : Move} (h : Skips s t) (ha : After s t) (ht : StepTo t m t') :
    Skips s t' := by
  cases ht with
  | holds ho hstage e bus hr => exact h.hold ha.grows hstage bus e
  | skips ho hstage n bus hr =>
    have hne : t.stage ≠ .ended := by rw [hstage]; decide
    have hlag := ((ha.sound.hears hne).receive_lagged hr).1
    refine ⟨fun x hx => Nat.lt_trans (h.taken x hx) hlag, fun lag hmem => ?_⟩
    rw [lagsSince_append ha.grows rfl] at hmem
    rcases List.mem_append.mp hmem with hmem | hmem
    · have hold := h.lags lag hmem
      exact { hold with goes_on := fun hl => Nat.le_trans (hold.goes_on hl) (Nat.le_of_lt hlag) }
    · rw [List.mem_singleton.mp hmem]
      exact h.skipped ha hne hlag rfl (fun _ => Nat.le_refl _) (.inl hstage)
  | halts ho hstage n bus hr =>
    have hne : t.stage ≠ .ended := by rw [hstage]; decide
    have hlag := ((ha.sound.hears hne).receive_lagged hr).1
    refine ⟨h.taken, fun lag hmem => ?_⟩
    rw [lagsSince_append ha.grows rfl] at hmem
    rcases List.mem_append.mp hmem with hmem | hmem
    · exact { h.lags lag hmem with ends := .inr rfl }
    · rw [List.mem_singleton.mp hmem]
      exact h.skipped ha hne hlag rfl (fun hl => by cases hstage.symm.trans hl) (.inr rfl)
  | drains hc hst ho =>
    refine ⟨h.taken, fun lag hmem => ?_⟩
    have hold := h.lags lag hmem
    refine { hold with ends := .inl (hold.ends.resolve_right fun hd => ?_) }
    rw [hst] at hd
    cases hd
  | empties ho hst hv hl =>
    exact ⟨h.taken, fun lag hmem => { h.lags lag hmem with ends := .inr rfl }⟩
  | finishes hst hi =>
    exact ⟨h.taken, fun lag hmem => { h.lags lag hmem with ends := .inr rfl }⟩
  | _ => exact ⟨h.taken, fun lag hmem => { h.lags lag hmem with }⟩

end Skips

theorem skips_run (h : s.Sound) {moves : List Move} (hr : s.run moves = some t) : Skips s t :=
  (run_induction (I := fun u => After s u ∧ Skips s u)
    (fun _ _ _ _ hi ht => ⟨hi.1.step ht, hi.2.step hi.1 ht⟩)
    ⟨After.refl h, Skips.refl s⟩ hr).2

theorem mem_unread (h : s.Sound) (hs : s.stage ≠ .ended) {p : Nat} (hp : s.oldest ≤ p)
    (hlt : p < s.published.length) : ∃ e, (e, p) ∈ s.unread :=
  ⟨_, List.mem_of_getElem? ((h.hears hs).getElem?_unread hp (List.getElem?_eq_getElem hlt))⟩

/-- If all that was retained was taken no lag has done harm. -/
theorem Skips.harmless (h : Skips s t) (hsound : s.Sound) (hs : s.stage ≠ .ended)
    (hall : s.unread <+: s.takenSince t) : ∀ lag ∈ s.lagsSince t, lag.Harmless s := by
  intro lag hlag hdue
  have hskipped := h.lags lag hlag
  have hbefore := hskipped.due_lt
  have hears := hsound.hears hs
  have hstart : s.feed.bus.start < s.published.length :=
    hears.start_lt (List.ne_nil_of_length_pos (Nat.lt_of_le_of_lt (Nat.zero_le _) hdue))
  -- The later of what was due and of what was retained first would be left out.
  have hp : max lag.due s.oldest < s.published.length :=
    Nat.max_lt.mpr ⟨hdue, Nat.max_lt.mpr ⟨Nat.lt_of_le_of_lt hskipped.position_le hdue, hstart⟩⟩
  obtain ⟨e, he⟩ := mem_unread hsound hs (Nat.le_max_right lag.due s.oldest) hp
  rcases hskipped.taken _ (hall.subset he) with hearlier | ⟨hlistening, hafter⟩
  · exact absurd hearlier (Nat.not_lt.mpr (Nat.le_max_left _ _))
  · refine ⟨hlistening, Nat.le_antisymm ?_ hskipped.oldest_le⟩
    simp only at hafter
    omega

end Relay

open Relay in
/-- **What is retained is handed over, but for lags.** A gate is told to shut down
in the state `s₁`, and its listener has ended in the state `s₂`. The subscribers
were given everything that the bus retained for them at the shutdown, in the order
of publication, exactly if each lag that the listener was told since then lies
behind all of that, or was told while the listener still listened and led to the
oldest event of it. -/
theorem retained_handed_over_iff {next capacity : Nat} {subscribers : List Subscriber}
    {before after : List Move} {s₁ s₂ : Relay}
    (h : (start next capacity subscribers).ShutsDown before after s₁ s₂) :
    s₁.unread <+: s₁.takenSince s₂ ↔
      ∀ lag ∈ s₁.lagsSince s₂, lag.due < s₁.published.length →
        lag.stage = .listening ∧ lag.oldest = s₁.oldest := by
  have hsound : s₁.Sound := sound_run (Sound.start next capacity subscribers) h.run_before
  have hopen : s₁.stage ≠ .ended := by rw [h.listening]; decide
  constructor
  · exact fun hall => (skips_run hsound h.run_after).harmless hsound hopen hall
  · intro hharmless
    have hforwards := forwards_run hsound h.listening h.run_after hharmless
    exact hforwards.all (hforwards.done (by rw [h.ended]; rfl))

open Relay in
/-- The bus retains one event, and two were published before the shutdown. The
listener looks before it closes: it is told of the lag, goes on with the event that
is left, and the subscriber is handed that. -/
theorem retained_handed_over_after_lag :
    let event (seq : Nat) : Stamped := ⟨seq, .about .admitted "app" "build" 1⟩
    let calm : Subscriber := { name := "calm", queueCapacity := 4, react := fun _ => .handled }
    let before : List Move := [.publish 1 (event 0), .publish 2 (event 1)]
    let after : List Move :=
      [.take, .take, .offer, .offer, .drain, .take, .pick 0, .react 0, .finish]
    ∃ s₁ s₂, (start 0 1 [calm]).ShutsDown before after s₁ s₂ ∧
      s₁.unread = [(event 1, 1)] ∧ s₁.lagsSince s₂ = [⟨.listening, 0, 1⟩] ∧
      s₁.unread <+: s₁.takenSince s₂ := by
  intro event calm before after
  have hrun : ((start 0 1 [calm]).run before).bind (fun s₁ =>
      (s₁.run (.shutdown :: after)).bind fun s₂ =>
        some (decide (s₂.stage = .ended ∧ s₁.unread = [(event 1, 1)] ∧
          s₁.lagsSince s₂ = [⟨.listening, 0, 1⟩] ∧ s₁.oldest = 1))) = some true := by
    decide +kernel
  obtain ⟨s₁, h₁, hrun⟩ := Option.bind_eq_some_iff.mp hrun
  obtain ⟨s₂, h₂, hrun⟩ := Option.bind_eq_some_iff.mp hrun
  obtain ⟨hended, hunread, hlags, holdest⟩ := of_decide_eq_true (Option.some.inj hrun)
  have h : (start 0 1 [calm]).ShutsDown before after s₁ s₂ := ⟨h₁, by decide, h₂, hended⟩
  refine ⟨s₁, s₂, h, hunread, hlags, (retained_handed_over_iff h).mpr ?_⟩
  intro lag hlag _
  rw [hlags] at hlag
  rw [List.mem_singleton.mp hlag]
  exact ⟨rfl, holdest.symm⟩

open Relay in
/-- The same gate, but the listener closes before it looks. The lag ends the drain,
and the event that the bus still retains is not handed over. -/
theorem retained_lost_at_lag :
    let event (seq : Nat) : Stamped := ⟨seq, .about .admitted "app" "build" 1⟩
    let calm : Subscriber := { name := "calm", queueCapacity := 4, react := fun _ => .handled }
    let before : List Move := [.publish 1 (event 0), .publish 2 (event 1)]
    let after : List Move := [.drain, .take, .finish]
    ∃ s₁ s₂, (start 0 1 [calm]).ShutsDown before after s₁ s₂ ∧
      s₁.unread = [(event 1, 1)] ∧ s₁.takenSince s₂ = [] ∧ s₂.audience.seen 0 0 = [] ∧
      ¬ s₁.unread <+: s₁.takenSince s₂ := by
  intro event calm before after
  have hrun : ((start 0 1 [calm]).run before).bind (fun s₁ =>
      (s₁.run (.shutdown :: after)).bind fun s₂ =>
        some (decide (s₂.stage = .ended ∧ s₁.unread = [(event 1, 1)] ∧
          s₁.takenSince s₂ = [] ∧ s₂.audience.seen 0 0 = []))) = some true := by
    decide +kernel
  obtain ⟨s₁, h₁, hrun⟩ := Option.bind_eq_some_iff.mp hrun
  obtain ⟨s₂, h₂, hrun⟩ := Option.bind_eq_some_iff.mp hrun
  obtain ⟨hended, hunread, htaken, hseen⟩ := of_decide_eq_true (Option.some.inj hrun)
  refine ⟨s₁, s₂, ⟨h₁, by decide, h₂, hended⟩, hunread, htaken, hseen, ?_⟩
  rw [hunread, htaken]
  decide

end SegmentGate
