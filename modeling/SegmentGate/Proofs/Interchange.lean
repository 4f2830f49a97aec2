import SegmentGate.Proofs.Stores
import SegmentGate.Proofs.Surroundings

/-!
# Either store will do

A snapshot in a file and a snapshot in memory differ in their layout, in what
they hold before anything was saved, and in the ways in which they can fail. To
a gate they are the same: a gate on a file whose saves succeed cannot be told
from a gate on memory, but by the name of the store in the report of a load
(`stores_interchangeable`).

`Site.Mirrors` relates the two gates at work: they have the same table in
memory, if any, and a new gate would find the same table in either store. A
call keeps this (`Mirrors.call`), since a save that succeeds is what is loaded
next, whatever the store; and so does a restart, after which the table in
memory is gone and the one in the store is all there is.
-/
namespace SegmentGate

variable {σ σ' ε κ : Type}

/-! ## What tells the stores apart -/

/-- The event without the name of the store. -/
def Event.unnamed (e : Event) : Event :=
  if e.kind = .tableLoaded then { e with reason := none } else e

/-- What is seen, without the name of the store. -/
def Seen.unnamed (v : Seen κ) : Seen κ := { v with published := v.published.map Event.unnamed }

/-- The name of a store shows in the report of the load only. -/
theorem Call.unnamed_loadedTable (store store' : String)
    (result : Except StoreError (Option (Table κ))) :
    (loadedTable store result).2.map Event.unnamed =
      (loadedTable store' result).2.map Event.unnamed := by
  cases result with
  | error x => rfl
  | ok found => cases found <;> rfl

/-- Nothing was saved yet: there is no file, or a blank one. -/
def SnapshotFile.Unsaved (f : SnapshotFile) (d : Disk) : Prop :=
  d.read f.path = .error .noEntry ∨
    ∃ bytes, d.read f.path = .ok bytes ∧ bytes.toList.all isBlankByte = true

theorem SnapshotFile.load_of_unsaved {f : SnapshotFile} {d : Disk} (h : f.Unsaved d) :
    (f.load d : Except StoreError (Option (Table κ))) = .ok none := by
  unfold load
  rcases h with hread | ⟨bytes, hread, hblank⟩
  · rw [hread]
  · rw [hread]
    simp only [hblank, if_true]

/-! ## Two gates that mirror each other -/

namespace Site

/-- Two gates with the same table in memory, among the same executions, on
stores in which a new gate would find the same. -/
structure Mirrors (k : Keeper σ κ) (k' : Keeper σ' κ) (w : Site σ ε κ) (w' : Site σ' ε κ) :
    Prop where
  unlocked : w.session.gate.locked = false
  gate : w.session.gate = w'.session.gate
  load : k.load w.session.store = k'.load w'.session.store
  executions : w.executions = w'.executions

namespace Mirrors

variable {k : Keeper σ κ} {k' : Keeper σ' κ} {w : Site σ ε κ} {w' : Site σ' ε κ}

theorem unlocked' (h : Mirrors k k' w w') : w'.session.gate.locked = false :=
  h.gate ▸ h.unlocked

theorem table (h : Mirrors k k' w w') : w.session.table k = w'.session.table k' := by
  have hloaded : Session.loaded k w.session.store = Session.loaded k' w'.session.store := by
    rw [Session.loaded, Session.loaded, h.load]
    cases k'.load w'.session.store with
    | error x => rfl
    | ok found => cases found <;> rfl
  rw [Session.table, Session.table, h.gate, hloaded]

theorem announcement (h : Mirrors k k' w w') :
    (w.session.announcement k).map Event.unnamed =
      (w'.session.announcement k').map Event.unnamed := by
  rw [Session.announcement, Session.announcement, h.gate, h.load]
  cases w'.session.gate.table with
  | some t => rfl
  | none => exact Call.unnamed_loadedTable k.name k'.name _

theorem tell (h : Mirrors k k' w w') (r : Request κ)
    (hok : ∀ x ∈ (w.session.tell k r).saves, x = .ok ())
    (hok' : ∀ x ∈ (w'.session.tell k' r).saves, x = .ok ()) :
    w.session.tell k r = w'.session.tell k' r := by
  rw [(Session.call_spec k r w.session h.unlocked).tell] at hok ⊢
  rw [(Session.call_spec k' r w'.session h.unlocked').tell, ← h.table] at hok' ⊢
  cases hc : (r.decide (w.session.table k)).consequences.changed with
  | false => simp
  | true =>
    simp only [hc, if_true, List.mem_singleton, forall_eq] at hok hok' ⊢
    rw [hok, hok']

/-- The stores still hold the same after a call whose saves succeed. -/
theorem load_call (h : Mirrors k k' w w') (r : Request κ)
    (hok : ∀ x ∈ (w.session.tell k r).saves, x = .ok ())
    (hok' : ∀ x ∈ (w'.session.tell k' r).saves, x = .ok ()) :
    k.load (w.session.call k r).store = k'.load (w'.session.call k' r).store := by
  have hspec := Session.call_spec k r w.session h.unlocked
  have hspec' := Session.call_spec k' r w'.session h.unlocked'
  rw [hspec.tell] at hok
  rw [hspec'.tell, ← h.table] at hok'
  rw [hspec.store, hspec'.store, ← h.table]
  cases hc : (r.decide (w.session.table k)).consequences.changed with
  | false => simpa using h.load
  | true =>
    simp only [hc, if_true, List.mem_singleton, forall_eq] at hok hok' ⊢
    rw [k.load_of_save (Prod.ext rfl hok), k'.load_of_save (Prod.ext rfl hok')]

/-- The same call at both gates. -/
theorem call (h : Mirrors k k' w w') (S : Surroundings ε κ) (r : Request κ)
    (hok : ∀ x ∈ (w.session.tell k r).saves, x = .ok ())
    (hok' : ∀ x ∈ (w'.session.tell k' r).saves, x = .ok ()) :
    (w.see k S r).unnamed = (w'.see k' S r).unnamed ∧
      Mirrors k k' (w.call k S r) (w'.call k' S r) := by
  obtain ⟨reports, hspec⟩ := call_spec k S r w h.unlocked
  obtain ⟨reports', hspec'⟩ := call_spec k' S r w' h.unlocked'
  have htell := h.tell r hok hok'
  have hgate : (w.call k S r).session.gate = (w'.call k' S r).session.gate := by
    rw [gate_call k S r w h.unlocked, gate_call k' S r w' h.unlocked', h.table]
  have heffect := hspec.effect
  rw [htell, h.executions] at heffect
  obtain ⟨hexecutions, hreports⟩ := heffect.unique hspec'.effect
  refine ⟨?_, ?_⟩
  · have hpublished : (w.see k S r).published.map Event.unnamed =
        (w'.see k' S r).published.map Event.unnamed := by
      have hannouncement := congrArg Option.toList h.announcement
      rw [Option.toList_map, Option.toList_map] at hannouncement
      simp only [hspec.published, hspec'.published, Session.saveReports_eq_nil hok,
        Session.saveReports_eq_nil hok', List.nil_append, List.map_append, hannouncement, htell,
        hreports]
    have houtcome : (w.see k S r).outcome = (w'.see k' S r).outcome := htell
    have htable : (w.see k S r).table = (w'.see k' S r).table := by
      show (w.call k S r).session.table k = (w'.call k' S r).session.table k'
      rw [table_call k S r w h.unlocked, table_call k' S r w' h.unlocked', h.table]
    rw [Seen.unnamed, Seen.unnamed, hpublished, houtcome, htable]
  · refine ⟨unlocked_call k S r w h.unlocked, hgate, ?_, hexecutions⟩
    obtain ⟨next, hsession⟩ := hspec.session
    obtain ⟨next', hsession'⟩ := hspec'.session
    rw [hsession, hsession']
    exact h.load_call r hok hok'

/-- New gates take over at both places. -/
theorem restart (h : Mirrors k k' w w') (next : Nat) :
    Mirrors k k' (w.restart next) (w'.restart next) where
  unlocked := rfl
  gate := rfl
  load := h.load
  executions := h.executions

/-- Whatever happens at both places, the same is seen there. The induction is on
what happens: a call finds the table in memory or loads it, and a restart makes
the next call load it. -/
theorem seen (h : Mirrors k k' w w') (S : Surroundings ε κ) (moves : List (Move κ))
    (hok : ∀ v ∈ w.seen k S moves, ∀ x ∈ v.outcome.saves, x = .ok ())
    (hk' : ∀ t store, (k'.save t store).2 = .ok ()) :
    (w.seen k S moves).map Seen.unnamed = (w'.seen k' S moves).map Seen.unnamed := by
  induction moves generalizing w w' with
  | nil => rfl
  | cons move moves ih =>
    cases move with
    | restart next => exact ih (h.restart next) hok
    | call r =>
      have hfirst := hok (w.see k S r) List.mem_cons_self
      have hfirst' : ∀ x ∈ (w'.session.tell k' r).saves, x = .ok () :=
        Session.saves_ok hk' h.unlocked' [r] _ List.mem_cons_self
      obtain ⟨hsee, hnext⟩ := h.call S r hfirst hfirst'
      have hrest := ih hnext fun v hv => hok v (List.mem_cons_of_mem _ hv)
      rw [Site.seen, Site.seen, List.map_cons, List.map_cons, hsee, hrest]

end Mirrors

end Site

/-- **Either store will do.** A new gate on a file and a new gate on memory take
the same calls among the same executions, with restarts at any points; each
store goes on over the restarts, and nobody else writes to it. If the stores
hold the same at the beginning (such as a file that is missing or blank, and
nothing in memory) and the saves to the file succeed, then all calls are
answered, and what is seen of them is the same: the answers, the table after
every call, the signals, and the events in their order, but for their numbers
and the name of the store. -/
theorem stores_interchangeable (f : SnapshotFile) (d : Disk) (m : SnapshotMemory)
    (h : (f.load d : Except StoreError (Option (Table κ))) = m.load) (S : Surroundings ε κ)
    (e : ε) (n n' : Nat) (moves : List (Site.Move κ))
    (hok : ∀ v ∈ Site.seen f.keeper S ⟨.start n d, e⟩ moves, ∀ x ∈ v.outcome.saves, x = .ok ()) :
    (Site.seen f.keeper S ⟨.start n d, e⟩ moves).map Seen.unnamed =
        (Site.seen SnapshotMemory.keeper S ⟨.start n' m, e⟩ moves).map Seen.unnamed
      ∧ ∀ v ∈ Site.seen f.keeper S ⟨.start n d, e⟩ moves, v.outcome.reply.isSome = true := by
  have hmirrors : Site.Mirrors f.keeper SnapshotMemory.keeper
      (⟨.start n d, e⟩ : Site Disk ε κ) ⟨.start n' m, e⟩ := ⟨rfl, rfl, h, rfl⟩
  have hmemory (t : Table κ) (store : SnapshotMemory) :
      (SnapshotMemory.keeper.save t store).2 = .ok () := rfl
  exact ⟨hmirrors.seen S moves hok hmemory, fun v hv => Site.answered_of_mem_seen rfl hv⟩

/-- A gate begins on a file of blanks and another one on nothing. After a restart
both load what they have saved; the waiter has lost its capability by then, and
nobody finds it. -/
theorem stores_interchangeable_after_blank_file :
    let f := SnapshotFile.inDirectory ⟨["state"]⟩
    let d := (Disk.run {} (Disk.writeSteps f.path " \n".toUTF8)).1
    let moves := [.call (ask 1 "build"), .call (ask 2 "build"), .restart 0, .call (.exit "app" 1)]
    let onFile := Site.seen f.keeper .deserted ⟨.start 0 d, ()⟩ moves
    let inMemory := Site.seen SnapshotMemory.keeper .deserted ⟨.start 0 {}, ()⟩ moves
    onFile.map Seen.unnamed = inMemory.map Seen.unnamed
      ∧ (inMemory.flatMap Seen.published).map (fun e => (e.kind, e.reason)) =
        [(.admitted, none), (.parked, none), (.tableLoaded, some "MemoryStore"),
          (.released, none), (.promoted, none), (.resumeUnresolved, some "2")] := by
  intro f d moves onFile inMemory
  have hread : d.read f.path = .ok " \n".toUTF8 := by decide +kernel
  have hunsaved : f.Unsaved d := .inr ⟨" \n".toUTF8, hread, by decide +kernel⟩
  have h := stores_interchangeable f d {} (SnapshotFile.load_of_unsaved hunsaved) .deserted () 0 0
    moves (by decide +kernel)
  exact ⟨h.1, by decide +kernel⟩

end SegmentGate
