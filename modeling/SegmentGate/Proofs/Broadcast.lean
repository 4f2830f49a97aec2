import SegmentGate.Bus

/-!
# A bus as one receiver hears it

`Hears` ties a bus to all that was published on it: the ring retains the end of
that, and the receiver stands somewhere in it. Publishing, looking, and all that
other receivers do keep it so. A look has one of three answers, and `receive`
says which: a lag if the ring has gone past the receiver, else the value at its
position, else nothing.
-/
namespace SegmentGate.Bus

variable {α : Type} {b b' : Bus α} {rx k : Nat} {sent : List α} {next : Nat}

/-- `sent` was published on the bus, and the receiver `rx` reads the value at
position `next` next. -/
structure Hears (b : Bus α) (rx : Nat) (sent : List α) (next : Nat) : Prop where
  cursor : b.cursors[rx]? = some (some next)
  start_le : b.start ≤ sent.length
  /-- The newest value is always retained. -/
  start_lt : sent ≠ [] → b.start < sent.length
  retained : b.retained = sent.drop b.start
  next_le : next ≤ sent.length

/-- The values that the bus retains for a receiver at position `next`, with their
positions. -/
def unread (b : Bus α) (next : Nat) : List (α × Nat) :=
  (b.retained.drop (next - b.start)).zipIdx (max next b.start)

/-- Nothing has changed for the receiver `rx`. -/
structure SameFor (rx : Nat) (b b' : Bus α) : Prop where
  cursor : b'.cursors[rx]? = b.cursors[rx]?
  start : b'.start = b.start
  retained : b'.retained = b.retained

theorem hears_subscribe_new (capacity : Nat) :
    ((new capacity).subscribe.2 : Bus α).Hears (new capacity : Bus α).subscribe.1 [] 0 :=
  ⟨rfl, Nat.le_refl 0, fun h => absurd rfl h, rfl, Nat.le_refl 0⟩

theorem Hears.congr (h : b.Hears rx sent next) (hb : SameFor rx b b') : b'.Hears rx sent next where
  cursor := hb.cursor.trans h.cursor
  start_le := hb.start ▸ h.start_le
  start_lt := hb.start ▸ h.start_lt
  retained := by rw [hb.retained, hb.start, h.retained]
  next_le := h.next_le

theorem Hears.unread_eq (h : b.Hears rx sent next) :
    b.unread next = sent.zipIdx.drop (max next b.start) := by
  have hposition : b.start + (next - b.start) = max next b.start := by omega
  rw [unread, h.retained, List.drop_drop, hposition]
  refine List.ext_getElem? fun i => ?_
  simp [List.getElem?_zipIdx, List.getElem?_drop]

theorem Hears.getElem?_unread (h : b.Hears rx sent next) {p : Nat} {v : α}
    (hp : max next b.start ≤ p) (hv : sent[p]? = some v) :
    (b.unread next)[p - max next b.start]? = some (v, p) := by
  rw [h.unread_eq, List.getElem?_drop, Nat.add_sub_cancel' hp, List.getElem?_zipIdx, hv]
  simp

theorem Hears.length_unread (h : b.Hears rx sent next) :
    (b.unread next).length = sent.length - max next b.start := by
  rw [h.unread_eq, List.length_drop, List.length_zipIdx]

theorem Hears.receivers_ne_zero (h : b.Hears rx sent next) : b.receivers ≠ 0 := by
  refine Nat.pos_iff_ne_zero.mp (List.countP_pos_iff.mpr ⟨some next, ?_, rfl⟩)
  exact List.mem_of_getElem? h.cursor

theorem ring_pos (b : Bus α) : 0 < b.ring :=
  Nat.pos_of_isPowerOfTwo (Nat.isPowerOfTwo_nextPowerOfTwo b.capacity)

/-- What is published takes the next position. -/
theorem Hears.publish (h : b.Hears rx sent next) (v : α) :
    (b.publish v).Hears rx (sent ++ [v]) next := by
  have hlength : b.retained.length = sent.length - b.start := by
    rw [h.retained, List.length_drop]
  have hstart := h.start_le
  have hnext := h.next_le
  unfold Bus.publish
  rw [if_neg h.receivers_ne_zero]
  have hring := b.ring_pos
  refine ⟨h.cursor, ?_, fun _ => ?_, ?_, ?_⟩
  · simp only [List.length_append, List.length_singleton]
    omega
  · simp only [List.length_append, List.length_singleton]
    omega
  · have hall : b.retained ++ [v] = (sent ++ [v]).drop b.start := by
      rw [h.retained, List.drop_append_of_le_length hstart]
    simp only [hall, List.drop_drop]
  · simp only [List.length_append, List.length_singleton]
    omega

theorem start_le_publish (b : Bus α) (v : α) : b.start ≤ (b.publish v).start := by
  unfold Bus.publish
  split
  · exact Nat.le_refl _
  · exact Nat.le_add_right _ _

theorem Hears.advance (h : b.Hears rx sent next) {n : Nat} (hn : n ≤ sent.length) :
    (b.advance rx n).Hears rx sent n where
  cursor := by
    have hlt : rx < b.cursors.length := (List.getElem?_eq_some_iff.mp h.cursor).1
    simp [Bus.advance, hlt]
  start_le := h.start_le
  start_lt := h.start_lt
  retained := h.retained
  next_le := hn

theorem start_receive (b : Bus α) (rx : Nat) : (b.receive rx).2.start = b.start := by
  unfold Bus.receive
  split
  · rfl
  · split
    · rfl
    · split <;> rfl

/-- The three answers to a receiver that looks. -/
theorem Hears.receive (h : b.Hears rx sent next) :
    (next < b.start ∧ b.receive rx = (.lagged (b.start - next), b.advance rx b.start)) ∨
    (∃ v, b.start ≤ next ∧ sent[next]? = some v ∧
      b.receive rx = (.value v, b.advance rx (next + 1))) ∨
    (next = sent.length ∧ b.receive rx = (if b.handles = 0 then .closed else .empty, b)) := by
  unfold Bus.receive
  simp only [h.cursor, Option.join_some]
  by_cases hlag : next < b.start
  · exact .inl ⟨hlag, by simp [hlag]⟩
  · have hstart : b.start ≤ next := Nat.le_of_not_lt hlag
    have hvalue : b.retained[next - b.start]? = sent[next]? := by
      rw [h.retained, List.getElem?_drop, Nat.add_sub_cancel' hstart]
    simp only [hlag, if_false, hvalue]
    cases hv : sent[next]? with
    | some v => exact .inr (.inl ⟨v, hstart, rfl, rfl⟩)
    | none =>
      exact .inr (.inr ⟨Nat.le_antisymm h.next_le (List.getElem?_eq_none_iff.mp hv), rfl⟩)

theorem Hears.receive_value (h : b.Hears rx sent next) {v : α}
    (hr : b.receive rx = (.value v, b')) :
    b.start ≤ next ∧ sent[next]? = some v ∧ b'.Hears rx sent (next + 1) := by
  rcases h.receive with ⟨-, e⟩ | ⟨w, hstart, hw, e⟩ | ⟨-, e⟩ <;> rw [e] at hr
  · cases hr
  · cases hr
    exact ⟨hstart, hw, h.advance (List.getElem?_eq_some_iff.mp hw).1⟩
  · split at hr <;> cases hr

theorem Hears.receive_lagged (h : b.Hears rx sent next) {n : Nat}
    (hr : b.receive rx = (.lagged n, b')) : next < b.start ∧ b'.Hears rx sent b.start := by
  rcases h.receive with ⟨hlt, e⟩ | ⟨w, -, -, e⟩ | ⟨-, e⟩ <;> rw [e] at hr
  · cases hr
    exact ⟨hlt, h.advance h.start_le⟩
  · cases hr
  · split at hr <;> cases hr

/-- A receiver that gets neither a value nor a lag has read everything. -/
theorem Hears.receive_nothing (h : b.Hears rx sent next)
    (hv : ∀ v b', b.receive rx ≠ (.value v, b')) (hl : ∀ n b', b.receive rx ≠ (.lagged n, b')) :
    next = sent.length := by
  rcases h.receive with ⟨-, e⟩ | ⟨w, -, -, e⟩ | ⟨hend, -⟩
  · exact absurd e (hl _ _)
  · exact absurd e (hv _ _)
  · exact hend

/-! ## Other receivers -/

theorem sameFor_subscribe (h : rx < b.cursors.length) : SameFor rx b b.subscribe.2 where
  cursor := List.getElem?_append_left h
  start := rfl
  retained := rfl

theorem sameFor_unsubscribe (b : Bus α) (h : k ≠ rx) : SameFor rx b (b.unsubscribe k) :=
  ⟨List.getElem?_set_ne h, rfl, rfl⟩

theorem sameFor_advance (b : Bus α) (h : k ≠ rx) (n : Nat) : SameFor rx b (b.advance k n) :=
  ⟨List.getElem?_set_ne h, rfl, rfl⟩

theorem sameFor_receive (b : Bus α) (h : k ≠ rx) : SameFor rx b (b.receive k).2 := by
  unfold Bus.receive
  split
  · exact ⟨rfl, rfl, rfl⟩
  · split
    · exact sameFor_advance b h _
    · split
      · exact sameFor_advance b h _
      · exact ⟨rfl, rfl, rfl⟩

end SegmentGate.Bus
