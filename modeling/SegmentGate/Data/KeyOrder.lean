/-!
# Strict total orders on keys

The tables of a gate are ordered collections: a snapshot of one table is always written the same
way, and a call walks the segments of a job in one fixed order. `KeyOrder` is the order both rest
on. Execution numbers are ordered as numbers; names are ordered by the code points of their
characters, which is also the order of their UTF-8 bytes.
-/
namespace SegmentGate

/-- A strict total order that can be decided. -/
class KeyOrder (κ : Type) where
  before : κ → κ → Bool
  before_irrefl : ∀ a, before a a = false
  before_trans : ∀ {a b c}, before a b = true → before b c = true → before a c = true
  eq_of_not_before : ∀ {a b}, before a b = false → before b a = false → a = b

namespace KeyOrder

theorem ne_of_before {κ : Type} [KeyOrder κ] {a b : κ} (h : before a b = true) : a ≠ b := by
  rintro rfl
  simp [before_irrefl] at h

theorem not_before_of_before {κ : Type} [KeyOrder κ] {a b : κ} (h : before a b = true) :
    before b a = false := by
  cases hb : before b a with
  | false => rfl
  | true => exact absurd rfl (ne_of_before (before_trans h hb))

end KeyOrder

instance : KeyOrder UInt64 where
  before a b := decide (a.toNat < b.toNat)
  before_irrefl a := by simp
  before_trans h h' := by
    simp only [decide_eq_true_eq] at h h' ⊢
    omega
  eq_of_not_before h h' := by
    simp only [decide_eq_false_iff_not] at h h'
    exact UInt64.toNat_inj.mp (by omega)

/-! ## Texts and paths -/

instance : KeyOrder Char where
  before a b := decide (a.toNat < b.toNat)
  before_irrefl a := by simp
  before_trans h h' := by
    simp only [decide_eq_true_eq] at h h' ⊢
    omega
  eq_of_not_before h h' := by
    simp only [decide_eq_false_iff_not] at h h'
    exact Char.toNat_inj.mp (by omega)

namespace KeyOrder

variable {κ : Type} [KeyOrder κ]

/-- The first difference decides; a proper beginning of a list comes before it. -/
def listBefore : List κ → List κ → Bool
  | _, [] => false
  | [], _ :: _ => true
  | a :: as, b :: bs => before a b || (!before b a && listBefore as bs)

theorem listBefore_irrefl : ∀ as : List κ, listBefore as as = false
  | [] => rfl
  | a :: as => by simp [listBefore, before_irrefl, listBefore_irrefl as]

theorem listBefore_trans : ∀ {as bs cs : List κ}, listBefore as bs = true →
    listBefore bs cs = true → listBefore as cs = true
  | _, [], _, h, _ => by simp [listBefore] at h
  | _, _ :: _, [], _, h' => by simp [listBefore] at h'
  | [], _ :: _, _ :: _, _, _ => rfl
  | a :: as, b :: bs, c :: cs, h, h' => by
    simp only [listBefore, Bool.or_eq_true, Bool.and_eq_true, Bool.not_eq_true'] at h h' ⊢
    by_cases hab : before a b = true
    · by_cases hbc : before b c = true
      · exact .inl (before_trans hab hbc)
      · have := eq_of_not_before (by simpa using hbc) (h'.resolve_left hbc).1
        exact .inl (this ▸ hab)
    · have := eq_of_not_before (by simpa using hab) (h.resolve_left hab).1
      subst this
      exact h'.imp id fun hc => ⟨hc.1, listBefore_trans (h.resolve_left hab).2 hc.2⟩

theorem eq_of_not_listBefore : ∀ {as bs : List κ}, listBefore as bs = false →
    listBefore bs as = false → as = bs
  | [], [], _, _ => rfl
  | [], _ :: _, h, _ => by simp [listBefore] at h
  | _ :: _, [], _, h' => by simp [listBefore] at h'
  | a :: as, b :: bs, h, h' => by
    simp only [listBefore, Bool.or_eq_false_iff] at h h'
    have hab : a = b := eq_of_not_before h.1 h'.1
    subst hab
    simp only [before_irrefl, Bool.not_false, Bool.true_and, true_and] at h h'
    rw [eq_of_not_listBefore h h']

end KeyOrder

instance {κ : Type} [KeyOrder κ] : KeyOrder (List κ) where
  before := KeyOrder.listBefore
  before_irrefl := KeyOrder.listBefore_irrefl
  before_trans := KeyOrder.listBefore_trans
  eq_of_not_before := KeyOrder.eq_of_not_listBefore

instance : KeyOrder String where
  before a b := KeyOrder.before a.toList b.toList
  before_irrefl a := KeyOrder.before_irrefl a.toList
  before_trans := KeyOrder.before_trans
  eq_of_not_before h h' := String.toList_inj.mp (KeyOrder.eq_of_not_before h h')

end SegmentGate
