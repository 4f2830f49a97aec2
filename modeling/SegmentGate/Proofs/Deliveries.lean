import SegmentGate.Gate.Delivery

/-!
# The account of a delivery

A delivery swallows whatever fails in it, so a signal that got lost would leave no trace. Here all
that a delivery does to its surroundings is written down, with the answers that it gets (`Deed`), by
surroundings that do what given ones do and keep a ledger of it (`Host.recorded`). The given ones
are arbitrary. They have a state, and may change it whenever they are turned to: an execution that
is told to proceed may call the gate again, a resolver may know a token now and not later, and
aborts may fail in any pattern.

**Bookkeeping.** `Ledger.Keeps`: a computation on the ledger does what one on the world does, and
adds its own deeds to the ledger, the same ones whatever was written before. What is composed of
such computations is such a computation, and its deeds are theirs, in order (`Keeps.written_bind`),
so the account of a delivery falls into pieces as the delivery does.

**One signal.** `Handled h s w deeds`: the deeds are those that the signal `s` takes in the world
`w`, and no others. Every signal is handled (`handled_deliverSignal`). What it takes depends on the
world only through the answers (`Handled.eq_of_memoryless`).

**One delivery.** `signals_accounted_for`: the account of a delivery lists all its events and, in
order, what each signal takes; and what went before a signal makes no difference to it but through
the surroundings.
-/
namespace SegmentGate

variable {ω κ α β : Type}

/-- One thing that a delivery does to its surroundings, with the answer it gets. -/
inductive Deed (κ : Type) where
  /-- An event that has its number is sent. -/
  | published (e : Stamped)
  | asked (job : String) (token : Token) (found : Option κ)
  | proceeded (c : κ)
  | aborted (c : κ) (cause : Interruption) (answer : Except AbortError Unit)
  /-- A new event is made and sent. -/
  | reported (e : Event)

/-- The world, and what was done in it so far. -/
structure Ledger (ω κ : Type) where
  world : ω
  deeds : List (Deed κ) := []

namespace Ledger

/-- Does it in the world, and writes down what was done. -/
def entry (x : StateM ω α) (deed : α → Deed κ) : StateM (Ledger ω κ) α :=
  modifyGet fun l =>
    let (a, world) := (x.run l.world).run
    (a, ⟨world, l.deeds ++ [deed a]⟩)

/-- What the computation writes down if it finds the world as `w`. -/
def written (y : StateM (Ledger ω κ) α) (w : ω) : List (Deed κ) :=
  (y.run ⟨w, []⟩).run.2.deeds

/-- On the ledger, `y` does what `x` does in the world, and only adds to what is written. -/
structure Keeps (y : StateM (Ledger ω κ) α) (x : StateM ω α) : Prop where
  run : ∀ w deeds, y.run ⟨w, deeds⟩ =
    pure ((x.run w).run.1, ⟨(x.run w).run.2, deeds ++ written y w⟩)

variable {x : StateM ω α} {y : StateM (Ledger ω κ) α} {f : α → StateM ω β}
  {g : α → StateM (Ledger ω κ) β}

theorem written_entry (x : StateM ω α) (deed : α → Deed κ) (w : ω) :
    written (entry x deed) w = [deed (x.run w).run.1] := by
  simp [written, entry]

theorem keeps_entry (x : StateM ω α) (deed : α → Deed κ) : Keeps (entry x deed) x where
  run w deeds := by
    rw [written_entry]
    simp [entry]

@[simp] theorem written_pure (a : α) (w : ω) :
    written (pure a : StateM (Ledger ω κ) α) w = [] := by
  simp [written]

theorem keeps_pure (a : α) : Keeps (pure a : StateM (Ledger ω κ) α) (pure a) where
  run w deeds := by simp

namespace Keeps

theorem written_bind (hx : Keeps y x) (hf : ∀ a, Keeps (g a) (f a)) (w : ω) :
    written (y >>= g) w = written y w ++ written (g (x.run w).run.1) (x.run w).run.2 := by
  have hy := hx.run w []
  have hg := (hf (x.run w).run.1).run (x.run w).run.2 (written y w)
  rw [List.nil_append] at hy
  rw [written, StateT.run_bind, hy, pure_bind, hg]
  rfl

theorem bind (hx : Keeps y x) (hf : ∀ a, Keeps (g a) (f a)) : Keeps (y >>= g) (x >>= f) where
  run w deeds := by
    rw [hx.written_bind hf, StateT.run_bind, hx.run, pure_bind, (hf _).run, ← List.append_assoc]
    rfl

end Keeps

theorem keeps_forM {γ : Type} {x : γ → StateM ω Unit} {y : γ → StateM (Ledger ω κ) Unit}
    (h : ∀ c, Keeps (y c) (x c)) (cs : List γ) : Keeps (forM cs y) (forM cs x) := by
  induction cs with
  | nil => exact keeps_pure ()
  | cons c cs ih => exact (h c).bind fun _ => ih

end Ledger

open Ledger (written Keeps)

namespace Host

/-- Surroundings that do the same and keep a ledger. -/
def recorded (h : Host (StateM ω) κ) : Host (StateM (Ledger ω κ)) κ where
  publish e := Ledger.entry (h.publish e) fun _ => .published e
  report e := Ledger.entry (h.report e) fun _ => .reported e
  proceed c := Ledger.entry (h.proceed c) fun _ => .proceeded c
  abort c cause := Ledger.entry (h.abort c cause) (.aborted c cause)
  resolve job token := Ledger.entry (h.resolve job token) (.asked job token)

/-- What a delivery does, in order, if it finds the world as `w`. -/
def account (h : Host (StateM ω) κ) (events : List Stamped) (signals : List (Signal κ)) (w : ω) :
    List (Deed κ) :=
  written (deliver h.recorded events signals) w

/-- The world after a delivery. -/
def worldAfter (h : Host (StateM ω) κ) (events : List Stamped) (signals : List (Signal κ)) (w : ω) :
    ω :=
  ((deliver h events signals).run w).run.2

/-- What the surroundings answer does not depend on what was done before. -/
structure Memoryless (h : Host (StateM ω) κ) : Prop where
  resolve : ∀ job token w w',
    ((h.resolve job token).run w).run.1 = ((h.resolve job token).run w').run.1
  abort : ∀ c cause w w', ((h.abort c cause).run w).run.1 = ((h.abort c cause).run w').run.1

end Host

/-! ## One signal -/

/-- Through the capability `c` the execution is told its verdict once. If it refuses to be aborted,
that is reported once. -/
inductive VerdictTold (h : Host (StateM ω) κ) (s : Signal κ) (c : κ) (w : ω) :
    List (Deed κ) → Prop where
  | proceeded (hv : s.verdict = .proceed) : VerdictTold h s c w [.proceeded c]
  | aborted {displacer : Ordinal} (hv : s.verdict = .abort displacer)
      (ha : ((h.abort c (.superseded s.job s.segment displacer)).run w).run.1 = .ok ()) :
      VerdictTold h s c w [.aborted c (.superseded s.job s.segment displacer) (.ok ())]
  | refused {displacer : Ordinal} {e : AbortError} (hv : s.verdict = .abort displacer)
      (ha : ((h.abort c (.superseded s.job s.segment displacer)).run w).run.1 = .error e) :
      VerdictTold h s c w [.aborted c (.superseded s.job s.segment displacer) (.error e),
        .reported { kind := .cancelFailed, job := some s.job, segment := some s.segment,
                    ordinal := some s.waiter.ordinal, other := some displacer,
                    reason := some e.message }]

/-- All that is done for a signal whose turn comes in the world `w`. The resolver is asked if there
is no live capability, and only then; nobody is told anything if it knows none either. -/
inductive Handled (h : Host (StateM ω) κ) (s : Signal κ) (w : ω) : List (Deed κ) → Prop where
  | live {c : κ} {deeds : List (Deed κ)} (hc : s.waiter.live = some c)
      (told : VerdictTold h s c w deeds) : Handled h s w deeds
  | resolved {c : κ} {w' : ω} {deeds : List (Deed κ)} (hc : s.waiter.live = none)
      (hr : (h.resolve s.job s.waiter.token).run w = pure (some c, w'))
      (told : VerdictTold h s c w' deeds) :
      Handled h s w (.asked s.job s.waiter.token (some c) :: deeds)
  | unresolved {w' : ω} (hc : s.waiter.live = none)
      (hr : (h.resolve s.job s.waiter.token).run w = pure (none, w')) :
      Handled h s w [.asked s.job s.waiter.token none,
        .reported { kind := .resumeUnresolved, job := some s.job, segment := some s.segment,
                    ordinal := some s.waiter.ordinal, reason := some s.waiter.token.text }]

section Signal

variable (h : Host (StateM ω) κ) (s : Signal κ) (w : ω)

/-- What is done once an abort is answered. -/
theorem keeps_answered (displacer : Ordinal) (answer : Except AbortError Unit) :
    Keeps (match answer with
        | .ok () => pure ()
        | .error e => h.recorded.report (.cancelFailed s displacer e))
      (match answer with
        | .ok () => pure ()
        | .error e => h.report (.cancelFailed s displacer e)) := by
  cases answer with
  | ok => exact Ledger.keeps_pure ()
  | error e => exact Ledger.keeps_entry (h.report _) fun _ => .reported _

theorem keeps_signalWith (c : κ) : Keeps (signalWith h.recorded s c) (signalWith h s c) := by
  cases hv : s.verdict with
  | proceed =>
    simp only [signalWith, hv]
    exact Ledger.keeps_entry (h.proceed c) fun _ => .proceeded c
  | abort displacer =>
    simp only [signalWith, hv]
    exact (Ledger.keeps_entry _ _).bind (keeps_answered h s displacer)

theorem keeps_capability : Keeps (capability? h.recorded s) (capability? h s) := by
  cases hc : s.waiter.live with
  | some c =>
    simp only [capability?, hc]
    exact Ledger.keeps_pure (some c)
  | none =>
    simp only [capability?, hc]
    exact Ledger.keeps_entry (h.resolve s.job s.waiter.token) (.asked s.job s.waiter.token)

/-- What is done once it is known whether there is a capability. -/
theorem keeps_looked (found : Option κ) :
    Keeps (match found with
        | some c => signalWith h.recorded s c
        | none => h.recorded.report (.resumeUnresolved s))
      (match found with
        | some c => signalWith h s c
        | none => h.report (.resumeUnresolved s)) := by
  cases found with
  | some c => exact keeps_signalWith h s c
  | none => exact Ledger.keeps_entry (h.report _) fun _ => .reported _

theorem keeps_deliverSignal : Keeps (deliverSignal h.recorded s) (deliverSignal h s) :=
  (keeps_capability h s).bind (keeps_looked h s)

theorem verdictTold_signalWith (c : κ) :
    VerdictTold h s c w (written (signalWith h.recorded s c) w) := by
  cases hv : s.verdict with
  | proceed =>
    have hdeeds : written (signalWith h.recorded s c) w = [.proceeded c] := by
      simp only [signalWith, hv]
      exact Ledger.written_entry (h.proceed c) (fun _ => .proceeded c) w
    rw [hdeeds]
    exact .proceeded hv
  | abort displacer =>
    let cause : Interruption := .superseded s.job s.segment displacer
    have habort : Keeps (h.recorded.abort c cause) (h.abort c cause) := Ledger.keeps_entry _ _
    have hfirst : written (h.recorded.abort c cause) w =
        [.aborted c cause ((h.abort c cause).run w).run.1] := Ledger.written_entry _ _ w
    have hdeeds := habort.written_bind (keeps_answered h s displacer) w
    rw [hfirst] at hdeeds
    simp only [signalWith, hv]
    -- what is written after the abort depends on its answer alone
    refine (congrArg (VerdictTold h s c w) hdeeds).mpr ?_
    cases ha : ((h.abort c cause).run w).run.1 with
    | ok => exact .aborted hv ha
    | error e => exact .refused hv ha

theorem handled_deliverSignal : Handled h s w (written (deliverSignal h.recorded s) w) := by
  -- first the deeds of the search for a capability, then those of what it has found
  have hdeeds : written (deliverSignal h.recorded s) w = _ :=
    (keeps_capability h s).written_bind (keeps_looked h s) w
  rw [hdeeds]
  cases hc : s.waiter.live with
  | some c =>
    simp only [capability?, hc, Ledger.written_pure, StateT.run_pure, List.nil_append]
    exact .live hc (verdictTold_signalWith h s _ c)
  | none =>
    have hasked : written (capability? h.recorded s) w = [.asked s.job s.waiter.token
        ((h.resolve s.job s.waiter.token).run w).run.1] := by
      simp only [capability?, hc]
      exact Ledger.written_entry (h.resolve s.job s.waiter.token) _ w
    have hfound : capability? h s = h.resolve s.job s.waiter.token := by
      simp only [capability?, hc]
    rw [hasked, hfound]
    rcases hr : (h.resolve s.job s.waiter.token).run w with ⟨found, w'⟩
    cases found with
    | some c => exact .resolved hc hr (verdictTold_signalWith h s w' c)
    | none => exact .unresolved hc hr

variable {h s} {c : κ} {w' : ω} {deeds deeds' : List (Deed κ)}

/-- If the surroundings remember nothing, it makes no difference when the verdict is told. -/
theorem VerdictTold.eq_of_memoryless (hm : h.Memoryless) (ht : VerdictTold h s c w deeds)
    (ht' : VerdictTold h s c w' deeds') : deeds = deeds' := by
  cases ht with
  | proceeded hv =>
    cases ht' with
    | proceeded => rfl
    | aborted hv' => cases hv.symm.trans hv'
    | refused hv' => cases hv.symm.trans hv'
  | aborted hv ha =>
    cases ht' with
    | proceeded hv' => cases hv.symm.trans hv'
    | aborted hv' => cases hv.symm.trans hv'; rfl
    | refused hv' ha' =>
      cases hv.symm.trans hv'
      cases ha.symm.trans ((hm.abort _ _ w w').trans ha')
  | refused hv ha =>
    cases ht' with
    | proceeded hv' => cases hv.symm.trans hv'
    | aborted hv' ha' =>
      cases hv.symm.trans hv'
      cases ha.symm.trans ((hm.abort _ _ w w').trans ha')
    | refused hv' ha' =>
      cases hv.symm.trans hv'
      cases ha.symm.trans ((hm.abort _ _ w w').trans ha')
      rfl

theorem Handled.eq_of_memoryless (hm : h.Memoryless) (hd : Handled h s w deeds)
    (hd' : Handled h s w' deeds') : deeds = deeds' := by
  cases hd with
  | live hc told =>
    cases hd' with
    | live hc' told' =>
      cases hc.symm.trans hc'
      exact told.eq_of_memoryless w hm told'
    | resolved hc' => cases hc.symm.trans hc'
    | unresolved hc' => cases hc.symm.trans hc'
  | resolved hc hr told =>
    have hfound := hm.resolve s.job s.waiter.token w w'
    rw [hr] at hfound
    cases hd' with
    | live hc' => cases hc.symm.trans hc'
    | resolved _ hr' told' =>
      rw [hr'] at hfound
      cases hfound
      rw [told.eq_of_memoryless _ hm told']
    | unresolved _ hr' =>
      rw [hr'] at hfound
      cases hfound
  | unresolved hc hr =>
    have hfound := hm.resolve s.job s.waiter.token w w'
    rw [hr] at hfound
    cases hd' with
    | live hc' => cases hc.symm.trans hc'
    | resolved _ hr' =>
      rw [hr'] at hfound
      cases hfound
    | unresolved => rfl

end Signal

/-! ## One delivery -/

section Delivery

variable {m : Type → Type} [Monad m] [LawfulMonad m]

theorem deliver_append (h : Host m κ) (events : List Stamped) (before after : List (Signal κ)) :
    deliver h events (before ++ after) =
      (deliver h events before >>= fun _ => deliver h [] after) := by
  simp [deliver, List.forM_append]

theorem deliver_singleton (h : Host m κ) (s : Signal κ) : deliver h [] [s] = deliverSignal h s := by
  simp [deliver]

end Delivery

namespace Host

variable (h : Host (StateM ω) κ) (events : List Stamped) (signals : List (Signal κ)) (w : ω)

theorem keeps_publish (e : Stamped) : Keeps (h.recorded.publish e) (h.publish e) :=
  Ledger.keeps_entry _ fun _ => .published e

theorem keeps_deliver : Keeps (deliver h.recorded events signals) (deliver h events signals) :=
  (Ledger.keeps_forM h.keeps_publish events).bind fun _ =>
    Ledger.keeps_forM (keeps_deliverSignal h) signals

theorem account_append (before after : List (Signal κ)) :
    h.account events (before ++ after) w =
      h.account events before w ++ h.account [] after (h.worldAfter events before w) := by
  rw [account, deliver_append]
  exact (h.keeps_deliver events before).written_bind (fun _ => h.keeps_deliver [] after) w

theorem handled_account (s : Signal κ) : Handled h s w (h.account [] [s] w) := by
  rw [account, deliver_singleton]
  exact handled_deliverSignal h s w

theorem written_publish :
    written (forM events h.recorded.publish) w = events.map .published := by
  induction events generalizing w with
  | nil => exact Ledger.written_pure () w
  | cons e events ih =>
    rw [List.forM_cons,
      (h.keeps_publish e).written_bind fun _ => Ledger.keeps_forM h.keeps_publish events, ih]
    rfl

/-- The events go out first, each once. -/
theorem account_events : h.account events [] w = events.map .published := by
  simp [account, deliver, written_publish]

end Host

/-- The deeds are, for one signal after the other, all that is done for it, each signal in the world
that the delivery of those before it leaves. -/
inductive HandledInOrder (h : Host (StateM ω) κ) : ω → List (Signal κ) → List (Deed κ) → Prop where
  | nil (w : ω) : HandledInOrder h w [] []
  | cons {w : ω} {s : Signal κ} {signals : List (Signal κ)} {deeds rest : List (Deed κ)}
      (first : Handled h s w deeds)
      (later : HandledInOrder h (h.worldAfter [] [s] w) signals rest) :
      HandledInOrder h w (s :: signals) (deeds ++ rest)

/-- No signal of a delivery is lost, told twice or mixed up with another. -/
structure AccountedFor (h : Host (StateM ω) κ) (events : List Stamped) (signals : List (Signal κ))
    (w : ω) : Prop where
  /-- The account is of what happens without anybody keeping it. -/
  faithful : ((deliver h.recorded events signals).run ⟨w, []⟩).run =
    ((), ⟨h.worldAfter events signals w, h.account events signals w⟩)
  /-- All the events go out, then all the signals are handled in order, and nothing else is done. -/
  inOrder : ∃ deeds, HandledInOrder h (h.worldAfter events [] w) signals deeds ∧
    h.account events signals w = events.map .published ++ deeds
  /-- If the surroundings do not remember the signals before it, a signal is handled as if it were
  the only one. -/
  apart : h.Memoryless → ∀ w', h.account events signals w =
    events.map .published ++ signals.flatMap fun s => h.account [] [s] w'

section Delivery

variable (h : Host (StateM ω) κ) (events : List Stamped) (signals : List (Signal κ)) (w : ω)

theorem handledInOrder_account : HandledInOrder h w signals (h.account [] signals w) := by
  induction signals generalizing w with
  | nil =>
    rw [h.account_events]
    exact .nil w
  | cons s signals ih =>
    rw [← List.singleton_append, h.account_append]
    exact .cons (h.handled_account w s) (ih _)

theorem account_of_memoryless (hm : h.Memoryless) (w' : ω) :
    h.account [] signals w = signals.flatMap fun s => h.account [] [s] w' := by
  induction signals generalizing w with
  | nil => exact h.account_events [] w
  | cons s signals ih =>
    -- the first one is handled alike in both worlds, the others in any world it may leave
    have hfirst : h.account [] [s] w = h.account [] [s] w' :=
      (h.handled_account w s).eq_of_memoryless w hm (h.handled_account w' s)
    rw [← List.singleton_append, h.account_append, hfirst, ih]
    rfl

/-- The account of a delivery begins with its events. -/
theorem account_eq : h.account events signals w =
    events.map .published ++ h.account [] signals (h.worldAfter events [] w) := by
  rw [← List.nil_append signals, h.account_append, h.account_events, List.nil_append]

theorem signals_accounted_for : AccountedFor h events signals w := by
  refine ⟨?_, ⟨_, handledInOrder_account h signals _, account_eq h events signals w⟩,
    fun hm w' => ?_⟩
  · rw [(h.keeps_deliver events signals).run]
    rfl
  · rw [account_eq, account_of_memoryless h signals _ hm w']

end Delivery

/-- Surroundings where the execution `2` is gone and only the token `known` leads anywhere. -/
def Host.unreliable : Host (StateM Unit) Nat where
  publish _ := pure ()
  report _ := pure ()
  proceed _ := pure ()
  abort c _ := pure (if c = 2 then .error .gone else .ok ())
  resolve _ token := pure (if token.text = "known" then some 9 else none)

/-- A failed abort, a token that leads nowhere, one that does not, and a live waiter. -/
theorem signals_accounted_for_amid_failures :
    Host.unreliable.Memoryless ∧
      AccountedFor Host.unreliable [⟨0, .about .admitted "app" "build" 4⟩]
        [⟨"app", "build", ⟨2, ⟨"app#2"⟩, some 2⟩, .abort 4⟩,
          ⟨"app", "test", ⟨3, ⟨"lost"⟩, none⟩, .proceed⟩,
          ⟨"app", "lint", ⟨1, ⟨"known"⟩, none⟩, .abort 4⟩,
          ⟨"app", "ship", ⟨4, ⟨"app#4"⟩, some 5⟩, .proceed⟩] () ∧
      Host.unreliable.account [⟨0, .about .admitted "app" "build" 4⟩]
        [⟨"app", "build", ⟨2, ⟨"app#2"⟩, some 2⟩, .abort 4⟩,
          ⟨"app", "test", ⟨3, ⟨"lost"⟩, none⟩, .proceed⟩,
          ⟨"app", "lint", ⟨1, ⟨"known"⟩, none⟩, .abort 4⟩,
          ⟨"app", "ship", ⟨4, ⟨"app#4"⟩, some 5⟩, .proceed⟩] () =
        [.published ⟨0, .about .admitted "app" "build" 4⟩,
          .aborted 2 (.superseded "app" "build" 4) (.error .gone),
          .reported { Event.about .cancelFailed "app" "build" 2 with
                      other := some 4, reason := some AbortError.gone.message },
          .asked "app" ⟨"lost"⟩ none,
          .reported { Event.about .resumeUnresolved "app" "test" 3 with reason := some "lost" },
          .asked "app" ⟨"known"⟩ (some 9),
          .aborted 9 (.superseded "app" "lint" 4) (.ok ()),
          .proceeded 5] :=
  ⟨⟨fun _ _ _ _ => rfl, fun _ _ _ _ => rfl⟩, signals_accounted_for _ _ _ _, rfl⟩

end SegmentGate
