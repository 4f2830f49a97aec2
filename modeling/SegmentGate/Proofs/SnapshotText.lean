import SegmentGate.Proofs.JsonText
import SegmentGate.Snapshot.Document

/-!
# A snapshot is read back as the table it was made of

`decode?_encode`: whatever the layout, a snapshot is read back as the table as
it is `stored`: without the live capabilities, and with a limit of the largest
integer, which stands for no limit, read as no limit.
-/
namespace SegmentGate

open Json (Read Written)

variable {κ : Type}

/-! ## What a snapshot keeps -/

/-- The segment that a snapshot of it holds. -/
def Segment.stored (s : Segment κ) : Segment κ :=
  { s.forget with limit := .ofRaw s.limit.raw }

/-- The table that a snapshot of it holds. -/
def Table.stored (t : Table κ) : Table κ := t.map Segment.stored

/-! ## Values -/

namespace Json

theorem asRead_array (js : List Written) : asRead (.array js) = .array (js.map asRead) := by
  have hitems : mapItems some some js = js.map asRead := by
    induction js with
    | nil => rfl
    | cons j js ih => simp [mapItems, asRead, ih]
  rw [asRead, Json.map, hitems]

theorem asRead_object (ms : List (String × Written)) :
    asRead (.object ms) = .object (ms.map fun m => (some m.1, asRead m.2)) := by
  have hmembers : mapMembers some some ms = ms.map fun m => (some m.1, asRead m.2) := by
    induction ms with
    | nil => rfl
    | cons m ms ih => simp [mapMembers, asRead, ih]
  rw [asRead, Json.map, hmembers]

theorem below?_asRead {n bound : Nat} (h : n < bound) :
    below? bound (asRead (.number n)) = some n := by
  simp [asRead, Json.map, below?, h]

theorem ordinal?_asRead (o : Ordinal) : ordinal? (asRead (.number o.toNat)) = some o := by
  rw [ordinal?, below?_asRead o.toNat_lt]
  simp

theorem text?_asRead (s : String) : text? (asRead (.text s)) = some s := rfl

/-- A list is read back if each of its items is. -/
theorem mapM_map_eq_some {α β γ : Type} {f : β → Option γ} {g : α → β} {h : α → γ}
    (hf : ∀ a, f (g a) = some (h a)) (as : List α) : (as.map g).mapM f = some (as.map h) := by
  induction as with
  | nil => rfl
  | cons a as ih => simp [List.mapM_cons, hf, ih]

theorem ordinals?_asRead (s : SortedSet Ordinal) :
    ordinals? (asRead (.array (s.elements.map fun o => .number o.toNat))) = some s := by
  rw [asRead_array, List.map_map, ordinals?]
  have hitems : (s.elements.map (asRead ∘ fun o => .number o.toNat)).mapM ordinal? =
      some (s.elements.map id) := mapM_map_eq_some ordinal?_asRead s.elements
  rw [hitems, List.map_id]
  exact congrArg some s.ofList_elements

/-- A map is read back if each of its values is. -/
theorem bindings?_asRead {ν ν' : Type} {f : Read → Option ν'} {g : ν → Written} {h : ν → ν'}
    (hf : ∀ v, f (asRead (g v)) = some (h v)) (m : SortedMap String ν) :
    bindings? f (asRead (ofMap g m)) = some (m.mapValues fun _ => h) := by
  have hbinding : ∀ e : String × ν,
      binding? f (some e.1, asRead (g e.2)) = some (e.1, h e.2) := by
    intro e
    simp [binding?, hf]
  have hmembers : (m.entries.map fun e => (some e.1, asRead (g e.2))).mapM (binding? f) =
      some (m.entries.map fun e => (e.1, h e.2)) := mapM_map_eq_some hbinding m.entries
  rw [ofMap, asRead_object, List.map_map, bindings?]
  refine (congrArg (Option.map SortedMap.ofList) hmembers).trans ?_
  exact congrArg some (SortedMap.ofList_entries (m.mapValues fun _ => h))

end Json

open Json (asRead asRead_object)

theorem Limit.ofJson?_asRead (l : Limit) :
    Limit.ofJson? (asRead l.toJson) = some (.ofRaw l.raw) := by
  rw [Limit.ofJson?, Limit.toJson, Json.below?_asRead l.raw.toNat_lt]
  simp

theorem Waiter.ofJson?_asRead (w : Waiter κ) :
    Waiter.ofJson? (asRead w.toJson) = some w.forget := by
  simp [Waiter.toJson, Waiter.ofJson?, asRead_object, Json.fields?, Json.ordinal?_asRead,
    Json.text?_asRead, Waiter.forget]

theorem Segment.seatOfJson?_asRead (w : Option (Waiter κ)) :
    seatOfJson? (some (asRead ((w.map Waiter.toJson).getD .null))) =
      some (w.map Waiter.forget) := by
  cases w with
  | none => rfl
  | some w =>
    have hw := w.ofJson?_asRead
    rw [Waiter.toJson, asRead_object] at hw
    simp only [Option.map_some, Option.getD_some]
    rw [Waiter.toJson, asRead_object, seatOfJson?, hw]
    · rfl
    · simp

theorem Segment.ofJson?_asRead (s : Segment κ) :
    Segment.ofJson? (asRead s.toJson) = some s.stored := by
  simp [Segment.toJson, Segment.ofJson?, asRead_object, Json.fields?, Json.ordinals?_asRead,
    Limit.ofJson?_asRead, seatOfJson?_asRead, Segment.stored, Segment.forget]

theorem Table.ofJson?_asRead (t : Table κ) : Table.ofJson? (asRead t.toJson) = some t.stored := by
  have hjobs := Json.bindings?_asRead
    (Json.bindings?_asRead (Segment.ofJson?_asRead (κ := κ))) t.jobs
  simp [Table.toJson, Table.ofJson?, asRead_object, Json.fields?, hjobs, Table.stored,
    Table.map, JobSegments.map]

/-- **A snapshot is read back** as what it holds of the table. -/
theorem Table.decode?_encode {l : Json.Layout} (hl : l.Blank) (t : Table κ) :
    Table.decode? (t.encode l).toUTF8 = some t.stored := by
  rw [decode?, encode, Json.read?_render hl, Option.bind_some, ofJson?_asRead]

end SegmentGate
