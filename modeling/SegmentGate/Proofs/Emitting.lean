import SegmentGate.Proofs.Fanout

/-!
# Audiences in moves

An audience works in larger steps than the moves of a fan-out: it offers an event
to all queues at once, and a worker hands over an event together with what comes
of it. Each of these steps is a run of moves (`Matches.emit_eq_run`,
`Matches.work_eq_run`, `Matches.drain_eq_run`), and so is any sequence of them.
What holds of all runs of a fan-out thus holds of an audience.
-/
namespace SegmentGate
namespace Fanout

/-- The audience and the feed are those of the state, between two steps: no
event is at hand, and no subscriber is busy. -/
structure Matches (s : Fanout) (a : Audience) (f : Feed) : Prop where
  feed : s.feed = f
  workers : s.desks.map Desk.worker = a.workers
  handed : ∀ i d, s.desks[i]? = some d → a.seen i 0 = d.handed
  resting : ∀ d ∈ s.desks, d.handling = none
  free : s.offering = none

theorem matches_start (f : Feed) (subscribers : List Subscriber) :
    (start f subscribers).Matches (.new subscribers) f := by
  refine ⟨rfl, ?_, fun i d hd => ?_, fun d hd => ?_, rfl⟩
  · simp only [start, List.map_map]
    rfl
  · obtain ⟨x, rfl⟩ := exists_start (List.mem_of_getElem? hd)
    rfl
  · obtain ⟨x, rfl⟩ := exists_start hd
    rfl

/-- What a worker does in one step is done in two moves. -/
theorem Matches.work_eq_run {s : Fanout} {a a' : Audience} {f f' : Feed} {i : Nat}
    (h : s.Matches a f) (hw : a.work i f = some (a', f')) :
    ∃ s', s.run [.desk i .pick, .desk i .react] = some s' ∧ s'.Matches a' f' ∧
      s'.closed = s.closed ∧ s'.emitted = s.emitted := by
  obtain ⟨rfl, hworkers, hhanded, hresting, hfree⟩ := h
  unfold Audience.work at hw
  rw [← hworkers, List.getElem?_map] at hw
  cases hd : s.desks[i]? with
  | none => simp [hd] at hw
  | some d =>
    simp only [hd, Option.map_some] at hw
    cases hwork : d.worker.work s.feed with
    | none => simp [hwork] at hw
    | some x =>
      obtain ⟨e, w, f₁⟩ := x
      simp only [hwork, Option.some.injEq, Prod.mk.injEq] at hw
      obtain ⟨rfl, rfl⟩ := hw
      obtain ⟨hlt, -⟩ := List.getElem?_eq_some_iff.mp hd
      obtain ⟨d₁, d', hpick, hreact, hsilent, hw', hidle, hlog, rfl⟩ :=
        Desk.work_eq_steps (hresting d (List.mem_of_getElem? hd)) hwork
      obtain ⟨s₁, hs₁, h₁⟩ := step_desk hd (ready_of_offered rfl s i) hpick
      have hd₁ : s₁.desks[i]? = some d₁ := by simp [h₁.desks, hlt]
      obtain ⟨s', hs', h'⟩ := step_desk hd₁ (ready_of_offered rfl s₁ i) hreact
      have hdesks : s'.desks = s.desks.set i d' := by rw [h'.desks, h₁.desks, List.set_set]
      have hfeed : s'.feed = (d₁.report .react).toList.foldl Feed.publish s.feed := by
        rw [h'.feed, h₁.feed, hsilent]
        rfl
      refine ⟨s', by simp [run, hs₁, hs'], ⟨hfeed, ?_, fun j d₂ hd₂ => ?_, fun d₂ hd₂ => ?_, ?_⟩,
        h'.closed.trans h₁.closed, h'.emitted.trans h₁.emitted⟩
      · rw [hdesks, List.map_set, hw', hworkers]
      · rw [hdesks, List.getElem?_set] at hd₂
        by_cases hij : i = j
        · subst hij
          simp only [if_true, hlt, Option.some.injEq] at hd₂
          rw [← hd₂, hlog, ← hhanded i d hd]
          simp [Audience.seen]
        · rw [if_neg hij] at hd₂
          rw [← hhanded j d₂ hd₂]
          simp [Audience.seen, hij]
      · rw [hdesks] at hd₂
        rcases List.mem_or_eq_of_mem_set hd₂ with hd₂ | rfl
        · exact hresting d₂ hd₂
        · exact hidle
      · rw [h'.offering, h₁.offering]
        exact hfree

/-- All workers empty their queues. -/
theorem Matches.drain_eq_run {s : Fanout} {a : Audience} {f : Feed} (h : s.Matches a f) :
    ∃ moves s', s.run moves = some s' ∧ s'.Matches (a.drain f).1 (a.drain f).2 ∧
      s'.closed = s.closed ∧ s'.emitted = s.emitted := by
  refine Audience.drain_induction (P := fun a f => ∃ moves s', s.run moves = some s' ∧
    s'.Matches a f ∧ s'.closed = s.closed ∧ s'.emitted = s.emitted) ?_ ⟨[], s, rfl, h, rfl, rfl⟩
  rintro a a' f f' i ⟨moves, s₁, hrun, h₁, hclosed, hemitted⟩ hw
  obtain ⟨s', hlast, h', hclosed', hemitted'⟩ := h₁.work_eq_run hw
  refine ⟨moves ++ [.desk i .pick, .desk i .react], s', ?_, h', hclosed'.trans hclosed,
    hemitted'.trans hemitted⟩
  rw [run_append, hrun]
  exact hlast

/-- The first of the workers is offered the event, and what is reported of it
goes out before the others are. -/
theorem offerAll_cons (d : Desk) (e : Stamped) (f : Feed) (ws : List Worker) :
    Audience.offerAll e (d.worker :: ws) f =
      let rest := Audience.offerAll e ws ((d.report (.offer e)).toList.foldl Feed.publish f)
      ((d.worker.offer e).1 :: rest.1, rest.2) := by
  rcases d.worker.offer_cases e with ⟨-, -, hoffer⟩ | ⟨-, reason, hoffer⟩
  · simp [Audience.offerAll, Desk.report, Desk.overflowReport, hoffer]
  · by_cases hoverflow : e.event.isSubscriberOverflow <;>
      simp [Audience.offerAll, Desk.report, Desk.overflowReport, hoffer, hoverflow]

/-- The event at hand goes to the desks `ds`, behind those in `done`. -/
theorem offerAll_eq_run {e : Stamped} {ds done : List Desk} {s : Fanout}
    (hs : s.desks = done ++ ds)
    (ho : s.offering = if done.length < s.desks.length then some (e, done.length) else none) :
    ∃ moves s', s.run moves = some s' ∧
      s'.desks.map Desk.worker =
        done.map Desk.worker ++ (Audience.offerAll e (ds.map Desk.worker) s.feed).1 ∧
      s'.feed = (Audience.offerAll e (ds.map Desk.worker) s.feed).2 ∧
      s'.desks.map Desk.handed = s.desks.map Desk.handed ∧
      s'.desks.map Desk.handling = s.desks.map Desk.handling ∧
      s'.offering = none ∧ s'.closed = s.closed ∧ s'.emitted = s.emitted := by
  induction ds generalizing s done with
  | nil =>
    refine ⟨[], s, rfl, ?_, rfl, rfl, rfl, ?_, rfl, rfl⟩
    · simp [hs, Audience.offerAll]
    · simpa [hs] using ho
  | cons d ds ih =>
    have hd : s.desks[done.length]? = some d := by simp [hs]
    have hready : s.Ready done.length (.offer e) := by
      rw [Ready, ho, if_pos (by simp [hs])]
    obtain ⟨d', hstep⟩ := Option.isSome_iff_exists.mp (d.isSome_offer e)
    obtain ⟨hworker, hhanded, hhandling⟩ : d'.worker = (d.worker.offer e).1 ∧
        d'.handed = d.handed ∧ d'.handling = d.handling := by
      cases hstep
      exact ⟨rfl, rfl, rfl⟩
    obtain ⟨s₁, hs₁, h₁⟩ := step_desk hd hready hstep
    have hdesks : s₁.desks = (done ++ [d']) ++ ds := by simp [h₁.desks, hs]
    have hnext : s₁.offering = if (done ++ [d']).length < s₁.desks.length then
        some (e, (done ++ [d']).length) else none := by
      rw [h₁.offering, h₁.desks, List.length_set, List.length_append]
      rfl
    obtain ⟨moves, s', hrun, hw, hf, hh, hi, ho', hc, hem⟩ := ih hdesks hnext
    rw [h₁.feed] at hw hf
    refine ⟨.desk done.length (.offer e) :: moves, s', ?_, ?_, ?_, ?_, ?_, ho', hc.trans h₁.closed,
      hem.trans h₁.emitted⟩
    · simp [run, hs₁, hrun]
    · rw [List.map_cons, offerAll_cons, hw]
      simp [hworker]
    · rw [List.map_cons, offerAll_cons, hf]
    · rw [hh, hdesks, hs]
      simp [hhanded]
    · rw [hi, hdesks, hs]
      simp [hhandling]

/-- An emit is done by one offer to each desk. -/
theorem Matches.emit_eq_run {s : Fanout} {a : Audience} {f : Feed} (h : s.Matches a f)
    (hopen : s.closed = false) (e : Stamped) :
    ∃ moves s', s.run (.emit e :: moves) = some s' ∧
      s'.Matches (a.emit e f).1 (a.emit e f).2 ∧ s'.closed = false ∧
      s'.emitted = s.emitted ++ [e] := by
  obtain ⟨rfl, hworkers, hhanded, hresting, hfree⟩ := h
  have hemit : s.step (.emit e) = some ({ s with emitted := s.emitted ++ [e] }.offerFrom 0 e) := by
    simp [step, hfree, hopen]
  obtain ⟨moves, s', hrun, hw, hf, hh, hi, ho, hc, hem⟩ :=
    offerAll_eq_run (s := { s with emitted := s.emitted ++ [e] }.offerFrom 0 e)
      (List.nil_append s.desks).symm rfl
  have hdesk {i : Nat} {d' : Desk} (hd' : s'.desks[i]? = some d') :
      ∃ d, s.desks[i]? = some d ∧ d'.handed = d.handed ∧ d'.handling = d.handling := by
    have hh' := congrArg (fun l => l[i]?) hh
    have hi' := congrArg (fun l => l[i]?) hi
    simp only [List.getElem?_map, hd', Option.map_some] at hh' hi'
    obtain ⟨d, hd, hsame⟩ := Option.map_eq_some_iff.mp hh'.symm
    rw [hd] at hi'
    exact ⟨d, hd, hsame.symm, Option.some.inj hi'⟩
  refine ⟨moves, s', ?_, ⟨?_, ?_, fun i d' hd' => ?_, fun d' hd' => ?_, ho⟩, hc.trans hopen, hem⟩
  · simp [run, hemit, hrun]
  · rw [hf, hworkers]
    rfl
  · rw [hw, hworkers]
    rfl
  · obtain ⟨d, hd, hsame, -⟩ := hdesk hd'
    rw [hsame]
    exact hhanded i d hd
  · obtain ⟨i, hi'⟩ := List.getElem?_of_mem hd'
    obtain ⟨d, hd, -, hsame⟩ := hdesk hi'
    rw [hsame]
    exact hresting d (List.mem_of_getElem? hd)

/-- A step of an audience. -/
inductive Act where
  | emit (e : Stamped)
  /-- The worker at place `i` hands over an event. -/
  | work (i : Nat)
  /-- All workers empty their queues. -/
  | drain

/-- The audience and the feed after steps that can all be taken. -/
def perform (a : Audience) (f : Feed) : List Act → Option (Audience × Feed)
  | [] => some (a, f)
  | .emit e :: acts => perform (a.emit e f).1 (a.emit e f).2 acts
  | .work i :: acts => (a.work i f).bind fun x => perform x.1 x.2 acts
  | .drain :: acts => perform (a.drain f).1 (a.drain f).2 acts

/-- What an audience does is done in moves. -/
theorem Matches.perform_eq_run {s : Fanout} {a a' : Audience} {f f' : Feed} {acts : List Act}
    (h : s.Matches a f) (hopen : s.closed = false) (ha : perform a f acts = some (a', f')) :
    ∃ moves s', s.run moves = some s' ∧ s'.Matches a' f' := by
  induction acts generalizing s a f with
  | nil =>
    cases ha
    exact ⟨[], s, rfl, h⟩
  | cons act acts ih =>
    obtain ⟨moves, s₁, a₁, f₁, hrun, h₁, hopen₁, ha₁⟩ : ∃ moves s₁ a₁ f₁,
        s.run moves = some s₁ ∧ s₁.Matches a₁ f₁ ∧ s₁.closed = false ∧
        perform a₁ f₁ acts = some (a', f') := by
      cases act with
      | emit e =>
        obtain ⟨moves, s₁, hrun, h₁, hopen₁, -⟩ := h.emit_eq_run hopen e
        exact ⟨_, s₁, _, _, hrun, h₁, hopen₁, ha⟩
      | work i =>
        obtain ⟨⟨a₁, f₁⟩, hw, ha₁⟩ := Option.bind_eq_some_iff.mp ha
        obtain ⟨s₁, hrun, h₁, hclosed, -⟩ := h.work_eq_run hw
        exact ⟨_, s₁, _, _, hrun, h₁, hclosed.trans hopen, ha₁⟩
      | drain =>
        obtain ⟨moves, s₁, hrun, h₁, hclosed, -⟩ := h.drain_eq_run
        exact ⟨_, s₁, _, _, hrun, h₁, hclosed.trans hopen, ha⟩
    obtain ⟨moves', s', hrest, h'⟩ := ih h₁ hopen₁ ha₁
    refine ⟨moves ++ moves', s', ?_, h'⟩
    rw [run_append, hrun]
    exact hrest

/-- The balance of a fan-out is that of an audience. -/
theorem accounts_of_perform {f f' : Feed} {subscribers : List Subscriber} {a : Audience}
    {acts : List Act} (h : perform (.new subscribers) f acts = some (a, f')) :
    ∃ s : Fanout, s.Matches a f' ∧ s.Accounts f subscribers := by
  obtain ⟨moves, s, hrun, hs⟩ := (matches_start f subscribers).perform_eq_run rfl h
  exact ⟨s, hs, accounts_run hrun⟩

end Fanout
end SegmentGate
