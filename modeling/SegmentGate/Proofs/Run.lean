import SegmentGate.Proofs.SegmentStep

/-!
# Runs of calls

The calls of one gate take effect one after the other. `Table.after` is the
table that a run of calls leaves, `Table.Along` says of a run that each of its
calls is of a certain kind on the table that it finds, and
`Table.after_induction` is the one induction over runs: what every call keeps,
a run keeps. Statements about all reachable tables are statements about
`({} : Table κ).after rs` for every run `rs`; the calls of a run are those of
`Request`, so that looking at the table may come between `enter` and `exit`.
`Table.prefixes_iff` is for a property that only some calls keep: it holds all
along a run exactly if each call of the run keeps it. `asked` are the
requests of a run for one segment, with the limits that they bring.
-/
namespace SegmentGate.Table

variable {κ : Type}

/-- The table after the calls `rs`, one after the other. -/
def after (t : Table κ) : List (Request κ) → Table κ
  | [] => t
  | r :: rs => (r.decide t).table.after rs

/-- Each call of the run is one that `P` admits on the table it finds. -/
def Along (P : Table κ → Request κ → Prop) (t : Table κ) : List (Request κ) → Prop
  | [] => True
  | r :: rs => P t r ∧ (r.decide t).table.Along P rs

instance instDecidableAlong {P : Table κ → Request κ → Prop} [∀ t r, Decidable (P t r)] :
    (t : Table κ) → (rs : List (Request κ)) → Decidable (t.Along P rs)
  | _, [] => isTrue trivial
  | t, r :: rs =>
    have : Decidable ((r.decide t).table.Along P rs) := instDecidableAlong (r.decide t).table rs
    inferInstanceAs (Decidable (P t r ∧ (r.decide t).table.Along P rs))

theorem after_append (t : Table κ) (rs rs' : List (Request κ)) :
    t.after (rs ++ rs') = (t.after rs).after rs' := by
  induction rs generalizing t with
  | nil => rfl
  | cons r rs ih => exact ih _

theorem after_take_append_left (t : Table κ) (pre post : List (Request κ)) {k : Nat}
    (h : k ≤ pre.length) : t.after ((pre ++ post).take k) = t.after (pre.take k) := by
  rw [List.take_append_of_le_length h]

theorem after_take_append_right (t : Table κ) (pre post : List (Request κ)) (k : Nat) :
    t.after ((pre ++ post).take (pre.length + k)) = (t.after pre).after (post.take k) := by
  rw [List.take_length_add_append, after_append]

/-- The signals that call `k` of a run queues. -/
def signalsOf (t : Table κ) (rs : List (Request κ)) (k : Nat) : List (Signal κ) :=
  rs[k]?.elim [] fun r => (r.decide (t.after (rs.take k))).consequences.signals

theorem signalsOf_append_left (t : Table κ) (pre post : List (Request κ)) {k : Nat}
    (h : k < pre.length) : t.signalsOf (pre ++ post) k = t.signalsOf pre k := by
  simp [signalsOf, List.getElem?_append_left h, after_take_append_left t pre post (Nat.le_of_lt h)]

theorem signalsOf_append_right (t : Table κ) (pre post : List (Request κ)) (k : Nat) :
    t.signalsOf (pre ++ post) (pre.length + k) = (t.after pre).signalsOf post k := by
  simp [signalsOf, List.getElem?_append_right, after_take_append_right]

/-- The call after `pre`. -/
theorem signalsOf_call (t : Table κ) (pre post : List (Request κ)) (r : Request κ) :
    t.signalsOf (pre ++ r :: post) pre.length = (r.decide (t.after pre)).consequences.signals := by
  rw [← Nat.add_zero pre.length, signalsOf_append_right]
  rfl

/-- The calls after the call after `pre`. -/
theorem signalsOf_later (t : Table κ) (pre post : List (Request κ)) (r : Request κ) (k : Nat) :
    t.signalsOf (pre ++ r :: post) (pre.length + (k + 1)) =
      (r.decide (t.after pre)).table.signalsOf post k := by
  rw [signalsOf_append_right]
  rfl

theorem after_take_later (t : Table κ) (pre post : List (Request κ)) (r : Request κ) (k : Nat) :
    t.after ((pre ++ r :: post).take (pre.length + (k + 1))) =
      (r.decide (t.after pre)).table.after (post.take k) := by
  rw [after_take_append_right]
  rfl

/-- All signals that a run queues, in order. -/
def signalsDuring (t : Table κ) (rs : List (Request κ)) : List (Signal κ) :=
  (List.range rs.length).flatMap (t.signalsOf rs)

theorem signalsDuring_cons (t : Table κ) (r : Request κ) (rs : List (Request κ)) :
    t.signalsDuring (r :: rs) =
      (r.decide t).consequences.signals ++ (r.decide t).table.signalsDuring rs := by
  rw [signalsDuring, List.length_cons, List.range_succ_eq_map, List.flatMap_cons, List.flatMap_map]
  rfl

/-- What every call of a kind keeps, a run of such calls keeps. -/
theorem after_induction {I : Table κ → Prop} {P : Table κ → Request κ → Prop}
    (hstep : ∀ t r, I t → P t r → I (r.decide t).table) {t : Table κ} (h0 : I t)
    {rs : List (Request κ)} (hrs : t.Along P rs) : I (t.after rs) := by
  induction rs generalizing t with
  | nil => exact h0
  | cons r rs ih => exact ih (hstep t r h0 hrs.1) hrs.2

theorem along_of_forall {P : Table κ → Request κ → Prop} {rs : List (Request κ)}
    (h : ∀ r ∈ rs, ∀ t, P t r) (t : Table κ) : t.Along P rs := by
  induction rs generalizing t with
  | nil => trivial
  | cons r rs ih =>
    exact ⟨h r List.mem_cons_self t, ih (fun r hr => h r (List.mem_cons_of_mem _ hr)) _⟩

theorem along_append {P : Table κ → Request κ → Prop} {t : Table κ} {rs rs' : List (Request κ)} :
    t.Along P (rs ++ rs') ↔ t.Along P rs ∧ (t.after rs).Along P rs' := by
  induction rs generalizing t with
  | nil => simp [Along, after]
  | cons r rs ih => rw [List.cons_append, Along, ih, Along, and_assoc]; rfl

/-- What a call keeps exactly if `P` admits it, is true all along a run
exactly if `P` admits each of its calls. `J` is what every call keeps. -/
theorem prefixes_iff {I J : Table κ → Prop} {P : Table κ → Request κ → Prop}
    (hJ : ∀ (t : Table κ) (r : Request κ), J t → J (r.decide t).table)
    (hstep : ∀ (t : Table κ) (r : Request κ), J t → I t → (I (r.decide t).table ↔ P t r))
    {t : Table κ} (h0 : J t) (h : I t) (rs : List (Request κ)) :
    (∀ pre, pre <+: rs → I (t.after pre)) ↔ t.Along P rs := by
  induction rs generalizing t with
  | nil =>
    refine ⟨fun _ => trivial, fun _ pre hpre => ?_⟩
    rw [List.prefix_nil.mp hpre]
    exact h
  | cons r rs ih =>
    constructor
    · intro hall
      have h' : I (r.decide t).table := hall [r] ⟨rs, rfl⟩
      refine ⟨(hstep t r h0 h).mp h', (ih (hJ t r h0) h').mp fun pre hpre => ?_⟩
      exact hall (r :: pre) (List.cons_prefix_cons.mpr ⟨rfl, hpre⟩)
    · rintro ⟨hr, hrs⟩ pre hpre
      have h' := (hstep t r h0 h).mpr hr
      rcases List.prefix_cons_iff.mp hpre with rfl | ⟨pre', rfl, hpre'⟩
      · exact h
      · exact (ih (hJ t r h0) h').mpr hrs pre' hpre'

end SegmentGate.Table

namespace SegmentGate

/-! ## The requests for one segment -/

section
variable {κ : Type}

/-- The execution that asks for the segment in a call, and the limit it brings. -/
def Request.asks? (job name : String) : Request κ → Option (Waiter κ × Limit)
  | .enter j w target => if j = job ∧ target.name = name then some (w, target.limit) else none
  | _ => none

/-- All requests of a run for the segment, oldest first. -/
def asked (job name : String) (rs : List (Request κ)) : List (Waiter κ × Limit) :=
  rs.filterMap (Request.asks? job name)

@[simp] theorem Request.asks?_enter (job : String) (w : Waiter κ) (target : Target) :
    (Request.enter job w target).asks? job target.name = some (w, target.limit) := by
  simp [asks?]

theorem Request.asks?_eq_none {r : Request κ} {job name : String}
    (h : r.entering ≠ some (job, name)) : r.asks? job name = none := by
  cases r with
  | enter j w target => simpa [asks?, entering] using h
  | exit => rfl
  | snapshot => rfl
  | segment => rfl

theorem asked_append (job name : String) (rs rs' : List (Request κ)) :
    asked job name (rs ++ rs') = asked job name rs ++ asked job name rs' :=
  List.filterMap_append

end

/-! ## Calls for examples -/

/-- Execution `o`, whose capability is its number. -/
def asker (o : Ordinal) : Waiter Nat := ⟨o, ⟨o.text⟩, some o.toNat⟩

/-- Execution `o` of the job `app` asks for a segment that takes one. -/
def ask (o : Ordinal) (name : String) : Request Nat := .enter "app" (asker o) ⟨name, .atMost 1⟩

end SegmentGate
