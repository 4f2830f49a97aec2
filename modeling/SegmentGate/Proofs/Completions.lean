import Mathlib.Data.List.Induction
import SegmentGate.Gate.Call
import SegmentGate.Proofs.Slots

/-!
# Completion reports and the loops that take them

Callers report finished executions to a gate, loops are started and told to
end, the owners of the gate give it up, and other calls of the gate go on; all
of this in any order. `Reporting` is the queue of reports, the gate, and the
stage of every loop, with a history: the reports accepted, the reports taken
and by which loop, the calls of the gate that the loops have completed, and
the reports lost. A move that does not fit is no move.

**One move.** `StepTo` says everything that a move can do (`stepTo_move`).

**One loop.** The loop that moves first has the reports, and keeps them after it
has ended. It makes an exit of each report that it takes, one at a time and in
order (`Owned`).

**The books.** What was accepted is what was taken, what was lost, and what is
queued, one after the other (`Balanced`). Nothing is lost before the queue is
closed, which is when the loop ends or the gate goes (`ClosedLate`).

**Lost reports.** A loop that is told to end does so when it waits for a
report, be there one or not. Then the reports that are queued are lost, although
they were accepted (`accepted_of_ended`).
-/
namespace SegmentGate

variable {κ : Type}

/-! ## Loops and their stages -/

/-- Where a completion loop stands between two moves. -/
inductive LoopStage (κ : Type) where
  /-- It was started, and has not moved. -/
  | started
  /-- Another loop has the reports. -/
  | refused
  /-- It waits for a report, and to be told to end. -/
  | listening
  /-- It makes a call of the gate. -/
  | calling (r : Request κ) (phase : Call.Phase κ)
  | ended

namespace LoopStage

/-- How the queue knows a loop that has the reports, or had them. -/
def phase? : LoopStage κ → Option LoopPhase
  | .listening | .calling .. => some .running
  | .ended => some .ended
  | _ => none

/-- The call that the loop makes. -/
def call? : LoopStage κ → Option (Request κ)
  | .calling r _ => some r
  | _ => none

/-- The loop keeps the gate alive. -/
def keeps : LoopStage κ → Bool
  | .started | .listening | .calling .. => true
  | _ => false

theorem call?_of_phase? {stage : LoopStage κ} (h : stage.phase? = none) :
    stage.call? = none := by
  cases stage with
  | calling r phase => cases h
  | _ => rfl

end LoopStage

structure Reporting (κ : Type) where
  reports : ReportQueue
  /-- The number of the next event made. -/
  next : Nat := 0
  gate : GateState κ := {}
  /-- The owners have given up the gate. -/
  released : Bool := false
  loops : List (LoopStage κ) := []
  /-- The loops that were told to end. -/
  cancelled : Nat → Bool := fun _ => false
  /-- The reports accepted so far. -/
  accepted : List Report := []
  /-- The reports taken so far, with the loop that took them. -/
  taken : List (Nat × Report) := []
  /-- The calls of the gate that loops have made and completed. -/
  calls : List (Nat × Request κ) := []
  /-- The accepted reports that nobody will take. -/
  lost : List Report := []

namespace Reporting

inductive Move (κ : Type) where
  /-- A report that does not wait for a slot. -/
  | tryReport (r : Report)
  /-- A report that waits for a slot if it must. -/
  | report (r : Report)
  /-- A caller that was promised a slot uses it. -/
  | redeem (k : Nat)
  /-- A caller that waits goes away. -/
  | withdraw (k : Nat)
  /-- A caller that was promised a slot goes away. -/
  | forgo (k : Nat)
  /-- One more loop is started. -/
  | run
  /-- Loop `i` moves for the first time. -/
  | start (i : Nat)
  /-- Loop `i` takes a report. -/
  | take (i : Nat)
  /-- The call of loop `i` gets an input. -/
  | call (i : Nat) (input : Call.Input κ)
  /-- Loop `i` is told to end. -/
  | cancel (i : Nat)
  /-- Loop `i` ends. -/
  | stop (i : Nat)
  /-- Other calls of the gate take steps. -/
  | others (next : Nat) (gate : GateState κ)
  /-- The owners give up the gate. -/
  | release

/-- The gate is there as long as its owners keep it or a loop does. -/
def lives (s : Reporting κ) : Bool := !s.released || s.loops.any LoopStage.keeps

/-- The queue is closed; what is in it is lost. -/
def close (s : Reporting κ) (q : ReportQueue) : Reporting κ :=
  { s with reports := q, lost := s.lost ++ s.reports.queued }

def accept (s : Reporting κ) (r : Report) (q : ReportQueue) : Reporting κ :=
  { s with reports := q, accepted := s.accepted ++ [r] }

def setStage (s : Reporting κ) (i : Nat) (stage : LoopStage κ) : Reporting κ :=
  { s with loops := s.loops.set i stage }

/-- The call `r` that loop `i` makes has taken a step. -/
def advance (s : Reporting κ) (i : Nat) (r : Request κ) (c : Call.State κ) : Reporting κ :=
  let s := { s with next := c.next, gate := c.gate }
  match c.phase with
  | .finished _ => { s.setStage i .listening with calls := s.calls ++ [(i, r)] }
  | phase => s.setStage i (.calling r phase)

def move (store : String) (s : Reporting κ) : Move κ → Reporting κ
  | .tryReport r =>
    match s.reports.tryReport r with
    | .ok q => s.accept r q
    | .error _ => s
  | .report r =>
    match s.reports.report r with
    | (q, .accepted) => s.accept r q
    | (q, _) => { s with reports := q }
  | .redeem k =>
    match s.reports.redeem k with
    | some (r, q) => s.accept r q
    | none => s
  | .withdraw k => { s with reports := s.reports.withdraw k }
  | .forgo k => { s with reports := s.reports.forgo k }
  | .run => if s.released then s else { s with loops := s.loops ++ [.started] }
  | .start i =>
    match s.loops[i]? with
    | some .started =>
      match s.reports.start with
      | some q => { s with reports := q }.setStage i .listening
      | none => s.setStage i .refused
    | _ => s
  | .take i =>
    match s.loops[i]?, s.reports.take with
    | some .listening, some (r, q) =>
      { s with reports := q, taken := s.taken ++ [(i, r)] }.setStage i
        (.calling (.exit r.job r.ordinal) .waiting)
    | _, _ => s
  -- Nobody gives up the call of a loop.
  | .call _ .drop => s
  | .call i input =>
    match s.loops[i]? with
    | some (.calling r phase) =>
      match Call.step store r ⟨s.next, s.gate, phase⟩ input with
      | some (c, _) => s.advance i r c
      | none => s
    | _ => s
  | .cancel i => { s with cancelled := fun j => s.cancelled j || decide (j = i) }
  | .stop i =>
    match s.loops[i]? with
    | some .listening =>
      if s.cancelled i then (s.close s.reports.stop).setStage i .ended else s
    | _ => s
  | .others next gate => { s with next, gate }
  | .release =>
    let s := { s with released := true }
    if s.lives then s else s.close s.reports.close

/-- A new gate with a queue for `n` reports after any moves. -/
def run (store : String) (n : Nat) (moves : List (Move κ)) : Reporting κ :=
  moves.foldl (move store) { reports := .new n }

/-! ## One move -/

/-- What a move makes of the state. -/
inductive StepTo (s : Reporting κ) : Reporting κ → Prop
  /-- A loop is told to end, other calls take steps, or nothing happens. -/
  | aside (next : Nat) (gate : GateState κ) (cancelled : Nat → Bool) :
      StepTo s { s with next, gate, cancelled }
  | accepts (r : Report) (q : ReportQueue)
      (hq : s.reports.Becomes (s.reports.queued ++ [r]) q) : StepTo s (s.accept r q)
  /-- A caller begins to wait, or one that waits goes away. -/
  | waits (q : ReportQueue) (hq : s.reports.Becomes s.reports.queued q) :
      StepTo s { s with reports := q }
  | runs (hr : s.released = false) : StepTo s { s with loops := s.loops ++ [.started] }
  /-- The first loop that moves gets the reports. -/
  | wins (i : Nat) (hi : s.loops[i]? = some .started) (hl : s.reports.loop = .unstarted) :
      StepTo s ({ s with reports := { s.reports with loop := .running } }.setStage i .listening)
  | loses (i : Nat) (hi : s.loops[i]? = some .started) (hl : s.reports.loop ≠ .unstarted) :
      StepTo s (s.setStage i .refused)
  | takes (i : Nat) (hi : s.loops[i]? = some .listening) (r : Report) (rest : List Report)
      (hr : s.reports.queued = r :: rest) (q : ReportQueue) (hq : s.reports.Becomes rest q) :
      StepTo s ({ s with reports := q, taken := s.taken ++ [(i, r)] }.setStage i
        (.calling (.exit r.job r.ordinal) .waiting))
  /-- The call of a loop goes on. -/
  | works (i : Nat) (r : Request κ) (phase : Call.Phase κ)
      (hi : s.loops[i]? = some (.calling r phase)) (next : Nat) (gate : GateState κ)
      (phase' : Call.Phase κ) :
      StepTo s ({ s with next, gate }.setStage i (.calling r phase'))
  /-- The call of a loop is completed. -/
  | returns (i : Nat) (r : Request κ) (phase : Call.Phase κ)
      (hi : s.loops[i]? = some (.calling r phase)) (next : Nat) (gate : GateState κ) :
      StepTo s ({ s with next, gate, calls := s.calls ++ [(i, r)] }.setStage i .listening)
  | ends (i : Nat) (hi : s.loops[i]? = some .listening) (hc : s.cancelled i = true) :
      StepTo s ((s.close s.reports.stop).setStage i .ended)
  /-- The owners give up the gate. -/
  | releases : StepTo s { s with released := true }
  /-- And nobody else keeps it. -/
  | drops (hl : ({ s with released := true } : Reporting κ).lives = false) :
      StepTo s ({ s with released := true }.close s.reports.close)

theorem StepTo.self (s : Reporting κ) : StepTo s s := .aside s.next s.gate s.cancelled

theorem stepTo_advance {s : Reporting κ} {i : Nat} {r : Request κ} {phase : Call.Phase κ}
    (hi : s.loops[i]? = some (.calling r phase)) (c : Call.State κ) :
    StepTo s (s.advance i r c) := by
  unfold advance
  split
  · exact .returns i r phase hi c.next c.gate
  · exact .works i r phase hi c.next c.gate _

theorem stepTo_move (store : String) (s : Reporting κ) (m : Move κ) :
    StepTo s (s.move store m) := by
  cases m with
  | tryReport r =>
    simp only [move]
    split
    · rename_i q hq
      exact .accepts r q (ReportQueue.becomes_tryReport hq)
    · exact .self s
  | report r =>
    simp only [move]
    split
    · rename_i q hq
      exact .accepts r q (ReportQueue.becomes_report_accepted hq)
    · rename_i q a hne hq
      exact .waits q (ReportQueue.becomes_report_of_ne hq hne)
  | redeem k =>
    simp only [move]
    split
    · rename_i r q hq
      exact .accepts r q (ReportQueue.becomes_redeem hq)
    · exact .self s
  | withdraw k => exact .waits _ (ReportQueue.becomes_withdraw s.reports k)
  | forgo k => exact .waits _ (ReportQueue.becomes_forgo s.reports k)
  | run =>
    simp only [move]
    split
    · exact .self s
    · rename_i hr
      exact .runs (by simpa using hr)
  | start i =>
    simp only [move]
    split
    · rename_i hi
      rcases ReportQueue.start_cases s.reports with ⟨hl, hq⟩ | ⟨hl, hq⟩
      · rw [hq]
        exact .wins i hi hl
      · rw [hq]
        exact .loses i hi hl
    · exact .self s
  | take i =>
    simp only [move]
    split
    · rename_i r q hi htake
      obtain ⟨-, rest, hr, hq⟩ := ReportQueue.becomes_take htake
      exact .takes i hi r rest hr q hq
    · exact .self s
  | call i input =>
    cases input with
    | drop => exact .self s
    | _ =>
      simp only [move]
      split
      · rename_i r phase hi
        split
        · exact stepTo_advance hi _
        · exact .self s
      · exact .self s
  | cancel i => exact .aside s.next s.gate _
  | stop i =>
    simp only [move]
    split
    · rename_i hi
      split
      · rename_i hc
        exact .ends i hi hc
      · exact .self s
    · exact .self s
  | others next gate => exact .aside next gate s.cancelled
  | release =>
    simp only [move]
    split
    · exact .releases
    · rename_i hl
      exact .drops (by simpa using hl)

/-- What every move keeps, a run keeps. -/
theorem run_induction {I : Reporting κ → Prop} {n : Nat} (hstart : I { reports := .new n })
    (hstep : ∀ s s', I s → StepTo s s' → I s') (store : String) (moves : List (Move κ)) :
    I (run store n moves) := by
  induction moves using List.reverseRecOn with
  | nil => exact hstart
  | append_singleton moves m ih =>
    have hlast : run store n (moves ++ [m]) = (run store n moves).move store m := by
      simp [run]
    rw [hlast]
    exact hstep _ _ ih (stepTo_move store _ m)

/-! ## Stages -/

section Stages
variable {s : Reporting κ} {i j : Nat} {stage old : LoopStage κ}

theorem loops_setStage_self (hi : s.loops[i]? = some old) :
    (s.setStage i stage).loops[i]? = some stage := by
  obtain ⟨hlt, -⟩ := List.getElem?_eq_some_iff.mp hi
  simp [setStage, hlt]

theorem loops_setStage_of_ne (h : j ≠ i) : (s.setStage i stage).loops[j]? = s.loops[j]? := by
  simp [setStage, Ne.symm h]

/-- The stage of a loop after a move is the one it was set to, or the one that
another loop had before. -/
theorem loops_setStage_cases (h : (s.setStage i stage).loops[j]? = some old) :
    j = i ∧ old = stage ∨ j ≠ i ∧ s.loops[j]? = some old := by
  by_cases hj : j = i
  · subst hj
    rw [setStage, List.getElem?_set_self'] at h
    cases hs : s.loops[j]? with
    | none => simp [hs] at h
    | some st => exact .inl ⟨rfl, by simpa [hs] using h.symm⟩
  · exact .inr ⟨hj, (loops_setStage_of_ne hj).symm.trans h⟩

theorem loops_run (hj : s.loops[j]? = some stage) :
    (s.loops ++ [.started])[j]? = some stage := by
  obtain ⟨hlt, -⟩ := List.getElem?_eq_some_iff.mp hj
  exact (List.getElem?_append_left hlt).trans hj

theorem lives_of_keeps (hi : s.loops[i]? = some stage) (hk : stage.keeps = true) :
    s.lives = true := by
  rw [lives, Bool.or_eq_true]
  exact .inr (List.any_eq_true.mpr ⟨stage, List.mem_of_getElem? hi, hk⟩)

end Stages

/-! ## The loop that has the reports -/

/-- The calls that are due for the reports taken. -/
def due (s : Reporting κ) : List (Nat × Request κ) :=
  s.taken.map fun e => (e.1, .exit e.2.job e.2.ordinal)

/-- No loop but the owner has the reports, and it has made the calls that are
due, but for the last if it is under way. -/
structure Owned (s : Reporting κ) (owner : Option Nat) : Prop where
  unowned : s.reports.loop = .unstarted ↔ owner = none
  owns : ∀ i stage phase, s.loops[i]? = some stage → stage.phase? = some phase →
    owner = some i ∧ s.reports.loop = phase
  takes : ∀ e ∈ s.taken, owner = some e.1
  busy : ∀ i stage r, s.loops[i]? = some stage → stage.call? = some r →
    s.due = s.calls ++ [(i, r)]
  free : (∀ (i : Nat) (stage : LoopStage κ), s.loops[i]? = some stage → stage.call? = none) →
    s.due = s.calls

namespace Owned

variable {s : Reporting κ} {owner : Option Nat} {i j : Nat} {stage new : LoopStage κ}
  {phase : LoopPhase}

theorem start (n : Nat) : ({ reports := .new n } : Reporting κ).Owned none :=
  ⟨iff_of_true rfl rfl, fun i stage phase hi => by simp at hi, fun e he => by simp at he,
    fun i stage r hi => by simp at hi, fun _ => rfl⟩

/-- The queue changes, but not who takes the reports. -/
theorem withQueue (h : s.Owned owner) {q : ReportQueue} (hq : q.loop = s.reports.loop) :
    ({ s with reports := q } : Reporting κ).Owned owner :=
  ⟨hq ▸ h.unowned, hq ▸ h.owns, h.takes, h.busy, h.free⟩

/-- A loop that is not the owner has no reports. -/
theorem phase?_eq_none (h : s.Owned owner) (hne : owner ≠ some j)
    (hj : s.loops[j]? = some stage) : stage.phase? = none := by
  cases hp : stage.phase? with
  | none => rfl
  | some phase => exact absurd (h.owns j stage phase hj hp).1 hne

theorem phase?_of_ne (h : s.Owned (some i)) (hne : j ≠ i) (hj : s.loops[j]? = some stage) :
    stage.phase? = none :=
  h.phase?_eq_none (by simpa using Ne.symm hne) hj

/-- When the loop that has the reports makes no call, it has made all that are
due. -/
theorem due_eq_calls (h : s.Owned owner) (hi : s.loops[i]? = some stage)
    (hphase : stage.phase? = some phase) (hcall : stage.call? = none) : s.due = s.calls := by
  obtain ⟨rfl, -⟩ := h.owns i stage phase hi hphase
  refine h.free fun j st hj => ?_
  by_cases hne : j = i
  · subst hne
    rw [hi] at hj
    cases hj
    exact hcall
  · exact LoopStage.call?_of_phase? (h.phase?_of_ne hne hj)

/-- A loop moves on, and neither gets the reports nor takes one. -/
theorem setStage (h : s.Owned owner) (hi : s.loops[i]? = some stage)
    (hphase : new.phase? = stage.phase?) (hcall : new.call? = stage.call?) :
    (s.setStage i new).Owned owner := by
  refine ⟨h.unowned, fun j st phase hj hp => ?_, h.takes, fun j st r hj hr => ?_, fun hfree => ?_⟩
  · rcases loops_setStage_cases hj with ⟨rfl, rfl⟩ | ⟨-, hj⟩
    · exact h.owns j stage phase hi (hphase ▸ hp)
    · exact h.owns j st phase hj hp
  · rcases loops_setStage_cases hj with ⟨rfl, rfl⟩ | ⟨-, hj⟩
    · exact h.busy j stage r hi (hcall ▸ hr)
    · exact h.busy j st r hj hr
  · refine h.free fun j st hj => ?_
    by_cases hne : j = i
    · subst hne
      rw [hi] at hj
      cases hj
      exact hcall ▸ hfree j new (loops_setStage_self hi)
    · exact hfree j st ((loops_setStage_of_ne hne).trans hj)

/-- The loop that has the reports, or just got them, moves on. -/
theorem setStage_owner (hi : s.loops[i]? = some stage)
    (hothers : ∀ j st, j ≠ i → s.loops[j]? = some st → st.phase? = none)
    (hphase : new.phase? = some s.reports.loop) (htakes : ∀ e ∈ s.taken, e.1 = i)
    (hdue : s.due = s.calls ++ new.call?.toList.map (i, ·)) :
    (s.setStage i new).Owned (some i) := by
  refine ⟨iff_of_false (fun hl => ?_) (by simp), fun j st phase hj hp => ?_,
    fun e he => congrArg some (htakes e he).symm, fun j st r hj hr => ?_, fun hfree => ?_⟩
  · have hl : s.reports.loop = .unstarted := hl
    rw [hl] at hphase
    cases new <;> cases hphase
  · rcases loops_setStage_cases hj with ⟨rfl, rfl⟩ | ⟨hne, hj⟩
    · exact ⟨rfl, Option.some.inj (hphase.symm.trans hp)⟩
    · rw [hothers j st hne hj] at hp
      cases hp
  · rcases loops_setStage_cases hj with ⟨rfl, rfl⟩ | ⟨hne, hj⟩
    · rw [hr] at hdue
      exact hdue
    · rw [LoopStage.call?_of_phase? (hothers j st hne hj)] at hr
      cases hr
  · rw [hfree i new (loops_setStage_self hi)] at hdue
    exact hdue.trans (List.append_nil _)

/-- One more loop is started. -/
theorem run (h : s.Owned owner) :
    ({ s with loops := s.loops ++ [.started] } : Reporting κ).Owned owner := by
  have hcases (j : Nat) (st : LoopStage κ) (hj : (s.loops ++ [.started])[j]? = some st) :
      s.loops[j]? = some st ∨ st = .started := by
    by_cases hlt : j < s.loops.length
    · rw [List.getElem?_append_left hlt] at hj
      exact .inl hj
    · rw [List.getElem?_append_right (Nat.le_of_not_lt hlt)] at hj
      exact .inr (List.mem_singleton.mp (List.mem_of_getElem? hj))
  refine ⟨h.unowned, fun j st phase hj hp => ?_, h.takes, fun j st r hj hr => ?_, fun hfree => ?_⟩
  · rcases hcases j st hj with hj | rfl
    · exact h.owns j st phase hj hp
    · cases hp
  · rcases hcases j st hj with hj | rfl
    · exact h.busy j st r hj hr
    · cases hr
  · exact h.free fun j st hj => hfree j st (loops_run hj)

theorem step {s' : Reporting κ} (h : s.Owned owner) (hs : StepTo s s') :
    ∃ owner, s'.Owned owner := by
  cases hs with
  | aside next gate cancelled => exact ⟨owner, { h with }⟩
  | accepts r q hq => exact ⟨owner, { h.withQueue hq.loop with }⟩
  | waits q hq => exact ⟨owner, h.withQueue hq.loop⟩
  | runs hr => exact ⟨owner, h.run⟩
  | wins i hi hl =>
    -- Nobody has had the reports before.
    obtain rfl : owner = none := h.unowned.mp hl
    have hothers (j : Nat) (st : LoopStage κ) (hj : s.loops[j]? = some st) : st.phase? = none :=
      h.phase?_eq_none (by simp) hj
    refine ⟨some i, setStage_owner hi (fun j st _ => hothers j st) rfl (fun e he => ?_) ?_⟩
    · cases h.takes e he
    · exact (h.free fun j st hj => LoopStage.call?_of_phase? (hothers j st hj)).trans
        (List.append_nil _).symm
  | loses i hi hl => exact ⟨owner, h.setStage hi rfl rfl⟩
  | takes i hi r rest hr q hq =>
    obtain ⟨rfl, hloop⟩ := h.owns i .listening .running hi rfl
    refine ⟨some i, setStage_owner hi (fun j st => h.phase?_of_ne) ?_ (fun e he => ?_) ?_⟩
    · exact congrArg some (hq.loop.trans hloop).symm
    · rcases List.mem_append.mp he with he | he
      · exact (Option.some.inj (h.takes e he)).symm
      · rw [List.mem_singleton.mp he]
    · have hdue := h.due_eq_calls hi rfl rfl
      simp only [due, List.map_append, List.map_cons, List.map_nil] at hdue ⊢
      rw [hdue]
      rfl
  | works i r phase hi next gate phase' =>
    have h' : ({ s with next, gate } : Reporting κ).Owned owner := { h with }
    exact ⟨owner, h'.setStage hi rfl rfl⟩
  | returns i r phase hi next gate =>
    obtain ⟨rfl, hloop⟩ := h.owns i (.calling r phase) .running hi rfl
    refine ⟨some i, setStage_owner hi (fun j st => h.phase?_of_ne) ?_ (fun e he => ?_) ?_⟩
    · exact congrArg some hloop.symm
    · exact (Option.some.inj (h.takes e he)).symm
    · exact (h.busy i (.calling r phase) r hi rfl).trans (List.append_nil _).symm
  | ends i hi hc =>
    obtain ⟨rfl, hloop⟩ := h.owns i .listening .running hi rfl
    have hstop : s.reports.stop.loop = .ended := by rw [ReportQueue.stop, if_pos hloop]
    refine ⟨some i, setStage_owner hi (fun j st => h.phase?_of_ne) ?_ (fun e he => ?_) ?_⟩
    · exact congrArg some hstop.symm
    · exact (Option.some.inj (h.takes e he)).symm
    · exact (h.due_eq_calls hi rfl rfl).trans (List.append_nil _).symm
  | releases => exact ⟨owner, { h with }⟩
  | drops hl => exact ⟨owner, { h.withQueue (q := s.reports.close) rfl with }⟩

end Owned

/-! ## The books -/

/-- What was accepted was taken, is lost or is queued, one after the other. -/
structure Balanced (n : Nat) (s : Reporting κ) : Prop where
  sound : s.reports.Sound n
  balance : s.accepted = s.taken.map Prod.snd ++ s.lost ++ s.reports.queued
  /-- Nothing is lost while the queue is open. -/
  kept : s.reports.closed = false → s.lost = []

namespace Balanced

variable {n : Nat} {s : Reporting κ} {q : ReportQueue}

theorem start (n : Nat) : ({ reports := .new n } : Reporting κ).Balanced n :=
  ⟨ReportQueue.sound_new n, rfl, fun _ => rfl⟩

theorem close (h : s.Balanced n) (hq : q.Sound n) (hclosed : q.closed = true) :
    (s.close q).Balanced n where
  sound := hq
  balance := by
    have hqueued : q.queued = [] := (hq.drained hclosed).1
    show s.accepted = s.taken.map Prod.snd ++ (s.lost ++ s.reports.queued) ++ q.queued
    rw [hqueued, List.append_nil, ← List.append_assoc, h.balance]
  kept hopen := by
    have hopen : q.closed = false := hopen
    rw [hclosed] at hopen
    cases hopen

theorem step {s' : Reporting κ} (h : s.Balanced n) {owner : Option Nat} (ho : s.Owned owner)
    (hs : StepTo s s') : s'.Balanced n := by
  cases hs with
  | aside next gate cancelled => exact { h with }
  | accepts r q hq =>
    refine ⟨hq.sound n h.sound, ?_, fun hopen => h.kept (hq.closed.symm.trans hopen)⟩
    rw [accept, h.balance, hq.queued, List.append_assoc]
  | waits q hq =>
    refine ⟨hq.sound n h.sound, ?_, fun hopen => h.kept (hq.closed.symm.trans hopen)⟩
    rw [h.balance, hq.queued]
  | runs hr => exact { h with }
  | wins i hi hl => exact { h with sound := h.sound.run }
  | loses i hi hl => exact { h with }
  | takes i hi r rest hr q hq =>
    -- A queue that is not empty is open, so nothing is lost yet.
    have hopen : s.reports.closed = false := by
      refine Bool.eq_false_iff.mpr fun hclosed => ?_
      rw [(h.sound.drained hclosed).1] at hr
      cases hr
    refine ⟨hq.sound n h.sound, ?_, fun _ => h.kept hopen⟩
    show s.accepted = (s.taken ++ [(i, r)]).map Prod.snd ++ s.lost ++ q.queued
    rw [h.balance, hr, hq.queued, h.kept hopen]
    simp
  | works i r phase hi next gate phase' => exact { h with }
  | returns i r phase hi next gate => exact { h with }
  | ends i hi hc =>
    obtain ⟨-, hloop⟩ := ho.owns i .listening .running hi rfl
    have hclosed : s.reports.stop.closed = true := by
      rw [ReportQueue.stop, if_pos hloop]
      rfl
    exact { h.close h.sound.stop hclosed with }
  | releases => exact { h with }
  | drops hl => exact { h.close h.sound.close rfl with }

end Balanced

/-! ## When the queue is closed -/

/-- While the gate is there, the queue is closed by a loop that ends only. -/
def ClosedLate (s : Reporting κ) : Prop :=
  s.reports.closed = true → s.lives = true → ∃ i : Nat, s.loops[i]? = some .ended

namespace ClosedLate

variable {s : Reporting κ}

/-- A loop that keeps the gate moves on. -/
theorem setStage (h : s.ClosedLate) {i : Nat} {stage : LoopStage κ} (new : LoopStage κ)
    (hi : s.loops[i]? = some stage) (hk : stage.keeps = true) : (s.setStage i new).ClosedLate := by
  intro hclosed _
  obtain ⟨j, hj⟩ := h hclosed (lives_of_keeps hi hk)
  refine ⟨j, (loops_setStage_of_ne ?_).trans hj⟩
  rintro rfl
  rw [hi] at hj
  cases hj
  cases hk

theorem step {s' : Reporting κ} (h : s.ClosedLate) (hs : StepTo s s') : s'.ClosedLate := by
  cases hs with
  | aside next gate cancelled => exact h
  | accepts r q hq => exact fun hclosed => h (hq.closed.symm.trans hclosed)
  | waits q hq => exact fun hclosed => h (hq.closed.symm.trans hclosed)
  | runs hr =>
    intro hclosed _
    obtain ⟨j, hj⟩ := h hclosed (by simp [lives, hr])
    exact ⟨j, loops_run hj⟩
  | wins i hi hl => exact setStage (s := { s with reports := _ }) h _ hi rfl
  | loses i hi hl => exact h.setStage _ hi rfl
  | takes i hi r rest hr q hq =>
    have h' : ({ s with reports := q, taken := s.taken ++ [(i, r)] } : Reporting κ).ClosedLate :=
      fun hclosed => h (hq.closed.symm.trans hclosed)
    exact h'.setStage _ hi rfl
  | works i r phase hi next gate phase' =>
    exact setStage (s := { s with next, gate }) h _ hi rfl
  | returns i r phase hi next gate =>
    exact setStage (s := { s with next, gate, calls := _ }) h _ hi rfl
  | ends i hi hc => exact fun _ _ => ⟨i, loops_setStage_self hi⟩
  | releases =>
    refine fun hclosed hlives => h hclosed ?_
    rw [lives, Bool.or_eq_true] at hlives ⊢
    exact .inr (hlives.resolve_left (by simp))
  | drops hl =>
    intro _ hlives
    have hlives : ({ s with released := true } : Reporting κ).lives = true := hlives
    rw [hl] at hlives
    cases hlives

end ClosedLate

/-- All of it holds after any moves. -/
theorem invariants_run (store : String) (n : Nat) (moves : List (Move κ)) :
    let s := run store n moves
    (∃ owner, s.Owned owner) ∧ s.Balanced n ∧ s.ClosedLate := by
  refine run_induction (I := fun s => (∃ owner, s.Owned owner) ∧ s.Balanced n ∧ s.ClosedLate)
    ⟨⟨none, .start n⟩, .start n, fun hclosed => by cases hclosed⟩ ?_ store moves
  rintro s s' ⟨⟨owner, howned⟩, hbalanced, hclosed⟩ hs
  exact ⟨howned.step hs, hbalanced.step howned hs, hclosed.step hs⟩

end Reporting

/-- **Completion accounting.** Callers report, wait for slots and go away, loops
are started any number of times and told to end, other calls go on, and the
owners give up the gate. As long as the gate is there and no loop has ended,
the accepted reports are the ones taken followed by the ones queued. For the
reports taken, exits and no other calls are made, one for each and in order,
and only the last may be under way. At most `max 1 n` slots are taken; a caller
who does not wait is told that the queue is full exactly if all of them are,
and, as long as the gate is there, that it is closed only after a loop has
ended. All reports are taken by one loop. -/
theorem completion_accounting (store : String) (n : Nat) (moves : List (Reporting.Move κ)) :
    let s := Reporting.run store n moves
    (s.lives = true → (∀ i : Nat, s.loops[i]? ≠ some .ended) →
      s.accepted = s.taken.map Prod.snd ++ s.reports.queued) ∧
    (∀ (i : Nat) r phase, s.loops[i]? = some (.calling r phase) →
      (s.taken.map fun e => (e.1, Request.exit e.2.job e.2.ordinal)) = s.calls ++ [(i, r)]) ∧
    ((∀ (i : Nat) r phase, s.loops[i]? ≠ some (.calling r phase)) →
      (s.taken.map fun e => (e.1, Request.exit e.2.job e.2.ordinal)) = s.calls) ∧
    s.reports.load ≤ max 1 n ∧
    (∀ r, s.reports.tryReport r = .error .full ↔ s.reports.load = max 1 n) ∧
    (∀ r, s.reports.tryReport r = .error .closed → s.lives = true →
      ∃ i : Nat, s.loops[i]? = some .ended) ∧
    ∀ e ∈ s.taken, ∀ e' ∈ s.taken, e.1 = e'.1 := by
  intro s
  obtain ⟨⟨owner, howned⟩, hbalanced, hclosed⟩ := Reporting.invariants_run store n moves
  refine ⟨fun hlives hnone => ?_, fun i r phase hi => howned.busy i _ r hi rfl, fun hfree => ?_, ?_,
    fun r => ReportQueue.tryReport_eq_full_iff hbalanced.sound,
    fun r hr => hclosed (ReportQueue.tryReport_eq_closed_iff.mp hr), fun e he e' he' => ?_⟩
  · have hopen : s.reports.closed = false := by
      refine Bool.eq_false_iff.mpr fun h => ?_
      obtain ⟨i, hi⟩ := hclosed h hlives
      exact hnone i hi
    rw [hbalanced.balance, hbalanced.kept hopen, List.append_nil]
  · refine howned.free fun i stage hi => ?_
    cases stage with
    | calling r phase => exact absurd hi (hfree i r phase)
    | _ => rfl
  · have hbounded := hbalanced.sound.bounded
    rwa [hbalanced.sound.capacity] at hbounded
  · exact Option.some.inj ((howned.takes e he).symm.trans (howned.takes e' he'))

/-- Two loops are started, and the second moves first. There is one slot: #2
reports while #1 has it, waits, and gets it when the loop takes the report of
#1. The loop makes an exit of that report, which finds #1 in the loaded table
and leaves nobody there. -/
theorem completion_accounting_of_two :
    let t := (enter {} "app" ⟨1, ⟨"app#1"⟩, some 1⟩ ⟨"build", .atMost 1⟩).table
    let s : Reporting Nat := .run "memory" 1 [.run, .run, .start 1, .start 0,
      .tryReport ⟨"app", 1⟩, .report ⟨"app", 2⟩, .take 1, .redeem 0,
      .call 1 .lock, .call 1 (.loaded (.ok (some t))), .call 1 (.saved (.ok ()))]
    s.taken = [(1, ⟨"app", 1⟩)] ∧ s.calls = [(1, .exit "app" 1)] ∧
    (t.segment "app" "build").holding.elements = [1] ∧
    s.gate.table.map (fun t => (t.segment "app" "build").holding.elements) = some [] ∧
    s.reports.queued = [⟨"app", 2⟩] ∧
    s.accepted = s.taken.map Prod.snd ++ s.reports.queued ∧
    s.reports.tryReport ⟨"app", 3⟩ = .error .full := by
  intro t s
  obtain ⟨hkept, -, hcalls, -, hfull, -⟩ := completion_accounting (κ := Nat) "memory" 1
    [.run, .run, .start 1, .start 0, .tryReport ⟨"app", 1⟩, .report ⟨"app", 2⟩, .take 1,
      .redeem 0, .call 1 .lock, .call 1 (.loaded (.ok (some t))), .call 1 (.saved (.ok ()))]
  have hloops : s.loops = [.refused, .listening] := rfl
  have hidle (i : Nat) (stage : LoopStage Nat) (hi : s.loops[i]? = some stage) :
      stage = .refused ∨ stage = .listening := by
    have hmem := List.mem_of_getElem? hi
    simpa [hloops] using hmem
  have htaken : s.taken = [(1, ⟨"app", 1⟩)] := rfl
  refine ⟨htaken, ?_, by decide, by decide, by decide, hkept (by decide) fun i hi => ?_,
    (hfull _).mpr (by decide)⟩
  · rw [← hcalls fun i r phase hi => ?_]
    · rw [htaken]
      rfl
    · rcases hidle i _ hi with h | h <;> cases h
  · rcases hidle i _ hi with h | h <;> cases h

/-- When a loop has ended, it has made exits of all reports it took, and the
other accepted reports are lost. -/
theorem accepted_of_ended (store : String) (n : Nat) (moves : List (Reporting.Move κ)) (i : Nat)
    (hi : (Reporting.run store n moves).loops[i]? = some .ended) :
    let s := Reporting.run store n moves
    s.accepted = s.taken.map Prod.snd ++ s.lost ∧
      (s.taken.map fun e => (e.1, Request.exit e.2.job e.2.ordinal)) = s.calls := by
  intro s
  obtain ⟨⟨owner, howned⟩, hbalanced, -⟩ := Reporting.invariants_run store n moves
  obtain ⟨-, hloop⟩ := howned.owns i .ended .ended hi rfl
  have hqueued : s.reports.queued = [] :=
    (hbalanced.sound.drained (hbalanced.sound.ended hloop)).1
  refine ⟨?_, howned.due_eq_calls hi rfl rfl⟩
  rw [hbalanced.balance, hqueued, List.append_nil]

/-- The report of #1 is accepted, and lost when the loop is told to end before it
has taken it. -/
example :
    let s : Reporting Nat := .run "memory" 1
      [.run, .start 0, .tryReport ⟨"app", 1⟩, .cancel 0, .stop 0]
    s.accepted = [⟨"app", 1⟩] ∧ s.taken = [] ∧ s.lost = [⟨"app", 1⟩] := by
  decide

end SegmentGate
