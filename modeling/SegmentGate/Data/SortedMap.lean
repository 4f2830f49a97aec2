import SegmentGate.Data.KeyOrder
/-!
# Maps kept in key order

A map is its list of entries in strictly increasing key order, so two maps with the same bindings
are equal (`ext_get?`) and a walk over the entries is a walk in key order. The view of a map is
`get?`; each operation has one lemma that says what it does to the view.
-/
namespace SegmentGate

open KeyOrder (before)

structure SortedMap (κ ν : Type) [KeyOrder κ] where
  entries : List (κ × ν) := []
  sorted : entries.Pairwise fun a b => before a.1 b.1 = true := by exact List.Pairwise.nil
  deriving DecidableEq

namespace SortedMap

variable {κ ν ν' : Type} [KeyOrder κ] [DecidableEq κ]

instance : Inhabited (SortedMap κ ν) := ⟨{}⟩

instance : EmptyCollection (SortedMap κ ν) := ⟨{}⟩

def isEmpty (m : SortedMap κ ν) : Bool := m.entries.isEmpty

def size (m : SortedMap κ ν) : Nat := m.entries.length

def keys (m : SortedMap κ ν) : List κ := m.entries.map Prod.fst

def get? (m : SortedMap κ ν) (k : κ) : Option ν :=
  (m.entries.find? fun e => decide (e.1 = k)).map Prod.snd

def contains (m : SortedMap κ ν) (k : κ) : Bool := (m.get? k).isSome

/-- Binds `k` to `v`; an older binding of `k` is lost. -/
def insert (m : SortedMap κ ν) (k : κ) (v : ν) : SortedMap κ ν where
  entries := m.entries.filter (fun e => before e.1 k) ++
    (k, v) :: m.entries.filter (fun e => before k e.1)
  sorted := by
    refine List.pairwise_append.mpr ⟨m.sorted.filter _, List.pairwise_cons.mpr
      ⟨fun e he => (List.mem_filter.mp he).2, m.sorted.filter _⟩, fun a ha b hb => ?_⟩
    have hak := (List.mem_filter.mp ha).2
    rcases List.mem_cons.mp hb with rfl | hb
    · exact hak
    · exact KeyOrder.before_trans hak (List.mem_filter.mp hb).2

def erase (m : SortedMap κ ν) (k : κ) : SortedMap κ ν where
  entries := m.entries.filter fun e => decide (e.1 ≠ k)
  sorted := m.sorted.filter _

/-- Replaces every value by one that depends on it and on its key. -/
def mapValues (f : κ → ν → ν') (m : SortedMap κ ν) : SortedMap κ ν' where
  entries := m.entries.map fun e => (e.1, f e.1 e.2)
  sorted := List.pairwise_map.mpr m.sorted

/-- The bindings of a list, later ones over earlier ones. -/
def ofList (es : List (κ × ν)) : SortedMap κ ν := es.foldl (fun m e => m.insert e.1 e.2) ∅

/-! ## The view -/

omit [DecidableEq κ] in
theorem entries_inj {m m' : SortedMap κ ν} : m.entries = m'.entries ↔ m = m' := by
  cases m; cases m'; simp

omit [DecidableEq κ] in
theorem eq_of_mem_of_key_eq {es : List (κ × ν)}
    (hs : es.Pairwise fun a b => before a.1 b.1 = true) {a b : κ × ν} (ha : a ∈ es) (hb : b ∈ es)
    (h : a.1 = b.1) : a = b := by
  induction es with
  | nil => simp at ha
  | cons e es ih =>
    rw [List.pairwise_cons] at hs
    rcases List.mem_cons.mp ha with hae | hae <;> rcases List.mem_cons.mp hb with hbe | hbe
    · exact hae.trans hbe.symm
    · exact absurd h (hae ▸ KeyOrder.ne_of_before (hs.1 b hbe))
    · exact absurd h.symm (hbe ▸ KeyOrder.ne_of_before (hs.1 a hae))
    · exact ih hs.2 hae hbe

theorem get?_eq_some_iff {m : SortedMap κ ν} {k : κ} {v : ν} :
    m.get? k = some v ↔ (k, v) ∈ m.entries := by
  constructor
  · intro h
    obtain ⟨e, he, rfl⟩ := Option.map_eq_some_iff.mp h
    have hk : e.1 = k := by simpa using List.find?_some he
    exact hk ▸ List.mem_of_find?_eq_some he
  · intro h
    cases hf : m.entries.find? (fun e => decide (e.1 = k)) with
    | none => simp [List.find?_eq_none] at hf; exact absurd rfl (hf k v h)
    | some e =>
      have hk : e.1 = k := by simpa using List.find?_some hf
      have := eq_of_mem_of_key_eq m.sorted (List.mem_of_find?_eq_some hf) h hk
      simp [get?, hf, this]

theorem ext_get? {m m' : SortedMap κ ν} (h : ∀ k, m.get? k = m'.get? k) : m = m' := by
  have hmem : ∀ e, e ∈ m.entries ↔ e ∈ m'.entries := fun ⟨k, v⟩ => by
    rw [← get?_eq_some_iff, ← get?_eq_some_iff, h]
  rw [← entries_inj]
  have : ∀ {es es' : List (κ × ν)}, es.Pairwise (fun a b => before a.1 b.1 = true) →
      es'.Pairwise (fun a b => before a.1 b.1 = true) → (∀ e, e ∈ es ↔ e ∈ es') → es = es' := by
    intro es
    induction es with
    | nil =>
      intro es' _ _ hm
      cases es' with
      | nil => rfl
      | cons e _ => simpa using (hm e).mpr
    | cons a es ih =>
      intro es' hs hs' hm
      cases es' with
      | nil => simpa using (hm a).mp
      | cons b es' =>
        rw [List.pairwise_cons] at hs hs'
        have hab : a = b := by
          rcases List.mem_cons.mp ((hm a).mp (by simp)) with hab | ha
          · exact hab
          · rcases List.mem_cons.mp ((hm b).mpr (by simp)) with hba | hb
            · exact hba.symm
            · exact absurd (KeyOrder.before_trans (hs.1 b hb) (hs'.1 a ha))
                (by simp [KeyOrder.before_irrefl])
        subst hab
        refine congrArg (a :: ·) (ih hs.2 hs'.2 fun e => ⟨fun he => ?_, fun he => ?_⟩)
        · rcases List.mem_cons.mp ((hm e).mp (List.mem_cons_of_mem _ he)) with rfl | h
          · exact absurd rfl (KeyOrder.ne_of_before (hs.1 _ he))
          · exact h
        · rcases List.mem_cons.mp ((hm e).mpr (List.mem_cons_of_mem _ he)) with rfl | h
          · exact absurd rfl (KeyOrder.ne_of_before (hs'.1 _ he))
          · exact h
  exact this m.sorted m'.sorted hmem

@[simp] theorem get?_empty (k : κ) : (∅ : SortedMap κ ν).get? k = none := rfl

@[simp] theorem get?_insert (m : SortedMap κ ν) (k k' : κ) (v : ν) :
    (m.insert k v).get? k' = if k' = k then some v else m.get? k' := by
  by_cases hk : k' = k
  · subst hk
    simp [get?_eq_some_iff, insert]
  · rw [if_neg hk]
    have : ∀ w, (m.insert k v).get? k' = some w ↔ m.get? k' = some w := by
      intro w
      simp only [get?_eq_some_iff, insert, List.mem_append, List.mem_cons, List.mem_filter,
        Prod.mk.injEq, hk, false_and, false_or]
      constructor
      · rintro (⟨h, _⟩ | ⟨h, _⟩) <;> exact h
      · intro h
        cases hb : before k' k with
        | true => exact .inl ⟨h, rfl⟩
        | false =>
          refine .inr ⟨h, ?_⟩
          cases hb' : before k k' with
          | true => rfl
          | false => exact absurd (KeyOrder.eq_of_not_before hb hb') hk
    cases h : m.get? k' with
    | some w => exact (this w).mpr h
    | none =>
      cases h' : (m.insert k v).get? k' with
      | none => rfl
      | some w => exact absurd ((this w).mp h') (by simp [h])

theorem insert_eq_self {m : SortedMap κ ν} {k : κ} {v : ν} (h : m.get? k = some v) :
    m.insert k v = m :=
  ext_get? fun k' => by
    rw [get?_insert]
    split
    · rename_i hk
      rw [hk, h]
    · rfl

@[simp] theorem get?_erase (m : SortedMap κ ν) (k k' : κ) :
    (m.erase k).get? k' = if k' = k then none else m.get? k' := by
  have key : ∀ w, (m.erase k).get? k' = some w ↔ k' ≠ k ∧ m.get? k' = some w := by
    intro w
    simp only [get?_eq_some_iff, erase, List.mem_filter, decide_eq_true_eq]
    exact And.comm
  cases h : (m.erase k).get? k' with
  | some w =>
    obtain ⟨hk, hw⟩ := (key w).mp h
    rw [if_neg hk, hw]
  | none =>
    by_cases hk : k' = k
    · rw [if_pos hk]
    · rw [if_neg hk]
      cases h' : m.get? k' with
      | none => rfl
      | some w => exact absurd ((key w).mpr ⟨hk, h'⟩) (by simp [h])

@[simp] theorem get?_mapValues (f : κ → ν → ν') (m : SortedMap κ ν) (k : κ) :
    (m.mapValues f).get? k = (m.get? k).map (f k) := by
  simp only [get?, mapValues, List.find?_map, Option.map_map]
  cases h : m.entries.find? ((fun e => decide (e.1 = k)) ∘ fun e => (e.1, f e.1 e.2)) with
  | none =>
    have : m.entries.find? (fun e => decide (e.1 = k)) = none := h
    simp [this]
  | some e =>
    have h' : m.entries.find? (fun e => decide (e.1 = k)) = some e := h
    have hk : e.1 = k := by simpa using List.find?_some h'
    simp [h', hk]

omit [DecidableEq κ] in
theorem mapValues_mapValues {ν'' : Type} (f : κ → ν → ν') (g : κ → ν' → ν'') (m : SortedMap κ ν) :
    (m.mapValues f).mapValues g = m.mapValues fun k v => g k (f k v) := by
  rw [← entries_inj]
  simp [mapValues]

omit [DecidableEq κ] in
theorem mapValues_eq_self {f : κ → ν → ν} (h : ∀ k v, f k v = v) (m : SortedMap κ ν) :
    m.mapValues f = m := by
  rw [← entries_inj]
  simp [mapValues, h]

theorem mapValues_insert (f : κ → ν → ν') (m : SortedMap κ ν) (k : κ) (v : ν) :
    (m.insert k v).mapValues f = (m.mapValues f).insert k (f k v) := by
  refine ext_get? fun k' => ?_
  simp only [get?_mapValues, get?_insert]
  split
  · rename_i h
    rw [h]
    rfl
  · rfl

omit [DecidableEq κ] in
@[simp] theorem keys_mapValues (f : κ → ν → ν') (m : SortedMap κ ν) :
    (m.mapValues f).keys = m.keys := by
  simp [keys, mapValues]

omit [DecidableEq κ] in
/-- Bindings inserted in key order line up. -/
theorem entries_foldl_insert (es : List (κ × ν)) (m : SortedMap κ ν)
    (h : (m.entries ++ es).Pairwise fun a b => before a.1 b.1 = true) :
    (es.foldl (fun m e => m.insert e.1 e.2) m).entries = m.entries ++ es := by
  induction es generalizing m with
  | nil => simp
  | cons e es ih =>
    have hlt : ∀ a ∈ m.entries, before a.1 e.1 = true :=
      fun a ha => (List.pairwise_append.mp h).2.2 a ha e List.mem_cons_self
    have hinsert : (m.insert e.1 e.2).entries = m.entries ++ [e] := by
      have hbefore : m.entries.filter (fun a => before a.1 e.1) = m.entries :=
        List.filter_eq_self.mpr hlt
      have hafter : m.entries.filter (fun a => before e.1 a.1) = [] :=
        List.filter_eq_nil_iff.mpr fun a ha => by
          simp [KeyOrder.not_before_of_before (hlt a ha)]
      show m.entries.filter _ ++ e :: m.entries.filter _ = _
      rw [hbefore, hafter]
    rw [List.foldl_cons, ih _ (by rw [hinsert]; simpa using h), hinsert]
    simp

omit [DecidableEq κ] in
theorem ofList_entries (m : SortedMap κ ν) : ofList m.entries = m :=
  entries_inj.mp (entries_foldl_insert m.entries ∅ m.sorted)

theorem mem_or_get?_of_foldl_insert {es : List (κ × ν)} {m : SortedMap κ ν} {k : κ} {v : ν}
    (h : (es.foldl (fun m e => m.insert e.1 e.2) m).get? k = some v) :
    (k, v) ∈ es ∨ m.get? k = some v := by
  induction es generalizing m with
  | nil => exact .inr h
  | cons e es ih =>
    rcases ih h with hmem | hget
    · exact .inl (List.mem_cons_of_mem e hmem)
    · rw [get?_insert] at hget
      split at hget
      · rename_i hk
        cases hget
        exact .inl (hk ▸ List.mem_cons_self)
      · exact .inr hget

/-- What a list binds comes from the list. -/
theorem mem_of_get?_ofList {es : List (κ × ν)} {k : κ} {v : ν}
    (h : (ofList es).get? k = some v) : (k, v) ∈ es := by
  rcases mem_or_get?_of_foldl_insert h with hmem | hget
  · exact hmem
  · cases hget

/-- What a walk over the entries gives for one key is what the binding of that key gives. -/
theorem filter_flatMap_entries {β : Type} (m : SortedMap κ ν) (k : κ) (f : κ → ν → List β)
    (p : β → Bool) (h : ∀ k' v x, x ∈ f k' v → p x = decide (k' = k)) :
    (m.entries.flatMap fun e => f e.1 e.2).filter p = (m.get? k).elim [] (f k) := by
  have key : ∀ {es : List (κ × ν)}, es.Pairwise (fun a b => before a.1 b.1 = true) →
      (es.flatMap fun e => f e.1 e.2).filter p =
        ((es.find? fun e => decide (e.1 = k)).map Prod.snd).elim [] (f k) := by
    intro es hs
    induction es with
    | nil => rfl
    | cons e es ih =>
      rw [List.pairwise_cons] at hs
      rw [List.flatMap_cons, List.filter_append, ih hs.2]
      by_cases hk : e.1 = k
      · have hrest : es.find? (fun e => decide (e.1 = k)) = none :=
          List.find?_eq_none.mpr fun a ha => by
            simpa using fun hak : a.1 = k => KeyOrder.ne_of_before (hs.1 a ha) (hk.trans hak.symm)
        rw [hrest, List.find?_cons_of_pos (by simpa using hk),
          List.filter_eq_self.mpr fun x hx => by simp [h _ _ x hx, hk]]
        simp [hk]
      · rw [List.find?_cons_of_neg (by simpa using hk),
          List.filter_eq_nil_iff.mpr fun x hx => by simp [h _ _ x hx, hk]]
        rfl
  exact key m.sorted

end SortedMap
end SegmentGate
