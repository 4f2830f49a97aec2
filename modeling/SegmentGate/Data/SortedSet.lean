import SegmentGate.Data.KeyOrder
/-!
# Sets kept in order

A set is the strictly increasing list of its elements, so sets with the same elements are equal
(`ext_mem`). The view is membership; the size lemmas say how many elements an operation adds or
takes away.
-/
namespace SegmentGate

open KeyOrder (before)

structure SortedSet (α : Type) [KeyOrder α] where
  elements : List α := []
  sorted : elements.Pairwise fun a b => before a b = true := by exact List.Pairwise.nil
  deriving DecidableEq

namespace SortedSet

variable {α : Type} [KeyOrder α]

instance : Inhabited (SortedSet α) := ⟨{}⟩

instance : EmptyCollection (SortedSet α) := ⟨{}⟩

instance : Membership α (SortedSet α) := ⟨fun s a => a ∈ s.elements⟩

instance [DecidableEq α] (a : α) (s : SortedSet α) : Decidable (a ∈ s) :=
  inferInstanceAs (Decidable (a ∈ s.elements))

def size (s : SortedSet α) : Nat := s.elements.length

def contains [DecidableEq α] (s : SortedSet α) (a : α) : Bool := decide (a ∈ s)

def insert (s : SortedSet α) (a : α) : SortedSet α where
  elements := s.elements.filter (fun b => before b a) ++
    a :: s.elements.filter (fun b => before a b)
  sorted := by
    refine List.pairwise_append.mpr ⟨s.sorted.filter _, List.pairwise_cons.mpr
      ⟨fun b hb => (List.mem_filter.mp hb).2, s.sorted.filter _⟩, fun b hb c hc => ?_⟩
    have hba := (List.mem_filter.mp hb).2
    rcases List.mem_cons.mp hc with rfl | hc
    · exact hba
    · exact KeyOrder.before_trans hba (List.mem_filter.mp hc).2

def erase [DecidableEq α] (s : SortedSet α) (a : α) : SortedSet α where
  elements := s.elements.filter fun b => decide (b ≠ a)
  sorted := s.sorted.filter _

/-- The elements of a list; repetitions merge. -/
def ofList (as : List α) : SortedSet α := as.foldl insert ∅

/-! ## The view -/

theorem mem_elements {s : SortedSet α} {a : α} : a ∈ s.elements ↔ a ∈ s := Iff.rfl

@[simp] theorem not_mem_empty (a : α) : a ∉ (∅ : SortedSet α) :=
  List.not_mem_nil

@[simp] theorem contains_iff [DecidableEq α] {s : SortedSet α} {a : α} :
    s.contains a = true ↔ a ∈ s := by
  simp [contains]

@[simp] theorem mem_insert {s : SortedSet α} {a b : α} : b ∈ s.insert a ↔ b = a ∨ b ∈ s := by
  simp only [← mem_elements, insert, List.mem_append, List.mem_cons, List.mem_filter]
  constructor
  · rintro (⟨h, _⟩ | rfl | ⟨h, _⟩)
    · exact .inr h
    · exact .inl rfl
    · exact .inr h
  · rintro (rfl | h)
    · exact .inr (.inl rfl)
    · cases hb : before b a with
      | true => exact .inl ⟨h, rfl⟩
      | false =>
        cases ha : before a b with
        | true => exact .inr (.inr ⟨h, rfl⟩)
        | false => exact .inr (.inl (KeyOrder.eq_of_not_before hb ha))

@[simp] theorem mem_erase [DecidableEq α] {s : SortedSet α} {a b : α} :
    b ∈ s.erase a ↔ b ≠ a ∧ b ∈ s := by
  simp [← mem_elements, erase, and_comm]

theorem nodup (s : SortedSet α) : s.elements.Nodup :=
  s.sorted.imp KeyOrder.ne_of_before

theorem elements_inj {s t : SortedSet α} : s.elements = t.elements ↔ s = t := by
  cases s; cases t; simp

theorem ext_mem {s t : SortedSet α} (h : ∀ a, a ∈ s ↔ a ∈ t) : s = t := by
  have : ∀ {as bs : List α}, as.Pairwise (fun a b => before a b = true) →
      bs.Pairwise (fun a b => before a b = true) → (∀ a, a ∈ as ↔ a ∈ bs) → as = bs := by
    intro as
    induction as with
    | nil =>
      intro bs _ _ hm
      cases bs with
      | nil => rfl
      | cons b _ => simpa using (hm b).mpr
    | cons a as ih =>
      intro bs ha hb hm
      cases bs with
      | nil => simpa using (hm a).mp
      | cons b bs =>
        rw [List.pairwise_cons] at ha hb
        have hab : a = b := by
          rcases List.mem_cons.mp ((hm a).mp (by simp)) with h | h
          · exact h
          · rcases List.mem_cons.mp ((hm b).mpr (by simp)) with h' | h'
            · exact h'.symm
            · exact absurd (KeyOrder.before_trans (ha.1 b h') (hb.1 a h))
                (by simp [KeyOrder.before_irrefl])
        subst hab
        refine congrArg (a :: ·) (ih ha.2 hb.2 fun c => ⟨fun hc => ?_, fun hc => ?_⟩)
        · rcases List.mem_cons.mp ((hm c).mp (List.mem_cons_of_mem _ hc)) with h | h
          · exact absurd h.symm (KeyOrder.ne_of_before (ha.1 c hc))
          · exact h
        · rcases List.mem_cons.mp ((hm c).mpr (List.mem_cons_of_mem _ hc)) with h | h
          · exact absurd h.symm (KeyOrder.ne_of_before (hb.1 c hc))
          · exact h
  exact elements_inj.mp (this s.sorted t.sorted h)

theorem insert_eq_self {s : SortedSet α} {a : α} (h : a ∈ s) : s.insert a = s :=
  ext_mem fun b => by
    rw [mem_insert]
    exact ⟨fun hb => hb.elim (fun e => e ▸ h) id, .inr⟩

theorem mem_foldl_insert {as : List α} {s : SortedSet α} {a : α} :
    a ∈ as.foldl insert s ↔ a ∈ as ∨ a ∈ s := by
  induction as generalizing s with
  | nil => simp
  | cons b as ih =>
    rw [List.foldl_cons, ih, mem_insert, List.mem_cons]
    exact or_left_comm.trans or_assoc.symm

theorem mem_ofList {as : List α} {a : α} : a ∈ ofList as ↔ a ∈ as := by
  simp [ofList, mem_foldl_insert]

theorem ofList_elements (s : SortedSet α) : ofList s.elements = s :=
  ext_mem fun _ => mem_ofList

/-! ## Size -/

theorem exists_mem_of_size_ne_zero {s : SortedSet α} (h : s.size ≠ 0) : ∃ a, a ∈ s :=
  List.exists_mem_of_ne_nil _ fun e => h (by simp [size, e])

theorem size_insert_of_not_mem {s : SortedSet α} {a : α} (h : a ∉ s) :
    (s.insert a).size = s.size + 1 := by
  have key : ∀ {as : List α}, a ∉ as → (as.filter fun b => before b a).length +
      (as.filter fun b => before a b).length = as.length := by
    intro as
    induction as with
    | nil => simp
    | cons b as ih =>
      intro hb
      rw [List.mem_cons, not_or] at hb
      have := ih hb.2
      cases hba : before b a with
      | true =>
        simp [hba, KeyOrder.not_before_of_before hba]
        omega
      | false =>
        cases hab : before a b with
        | true =>
          simp [hba, hab]
          omega
        | false => exact absurd (KeyOrder.eq_of_not_before hab hba) hb.1
  have := @key s.elements h
  simp only [size, insert, List.length_append, List.length_cons]
  omega

theorem size_insert_le [DecidableEq α] (s : SortedSet α) (a : α) :
    (s.insert a).size ≤ s.size + 1 := by
  by_cases h : a ∈ s
  · rw [insert_eq_self h]
    exact Nat.le_succ _
  · exact Nat.le_of_eq (size_insert_of_not_mem h)

theorem size_erase_of_mem [DecidableEq α] {s : SortedSet α} {a : α} (h : a ∈ s) :
    (s.erase a).size + 1 = s.size := by
  have key : ∀ {as : List α}, as.Nodup → a ∈ as →
      (as.filter fun b => decide (b ≠ a)).length + 1 = as.length := by
    intro as
    induction as with
    | nil => simp
    | cons b as ih =>
      intro hn ha
      rw [List.nodup_cons] at hn
      by_cases hb : b = a
      · subst hb
        have : as.filter (fun c => decide (c ≠ b)) = as :=
          List.filter_eq_self.mpr fun c hc => by
            simpa using fun e : c = b => hn.1 (e ▸ hc)
        rw [List.filter_cons_of_neg (by simp), this, List.length_cons]
      · have := ih hn.2 ((List.mem_cons.mp ha).resolve_left (Ne.symm hb))
        simpa [hb] using this
  exact key s.nodup h

end SortedSet
end SegmentGate
