import Mathlib.Data.List.Induction
import Mathlib.Data.List.TakeWhile
import SegmentGate.Segment.Target

/-!
# The grammar of targets

The author of a pipeline writes the limit of a segment as a text. Here it is said which texts there
are and what they mean, in terms of the characters that are written and not of how they are read:
`Text.Trimmed` is a text without the white space around it, `Numeral` is a number with any number of
leading zeros, built digit by digit, and `Limit.Means` puts a sign before it and a range around it.

Each function that reads is then shown to read exactly that: `Text.trimmed_iff`,
`Decimal.read?_eq_some_iff` (by induction on the digits, in both directions), and
`Limit.parse_eq_ok_iff`. A text that means no limit is one that is complained about
(`Limit.stated_or_faulty`), which settles the converse of each. `Target.parse_accepts_grammar` puts
them together for a whole target, where it matters which of name and limit is looked at first.
-/
namespace SegmentGate

/-! ## White space around a text -/

namespace Text

/-- The character has the Unicode property White_Space. -/
def WhiteSpace (c : Char) : Prop :=
  c.toNat ∈ [0x09, 0x0A, 0x0B, 0x0C, 0x0D, 0x20, 0x85, 0xA0, 0x1680, 0x2000, 0x2001, 0x2002, 0x2003,
    0x2004, 0x2005, 0x2006, 0x2007, 0x2008, 0x2009, 0x200A, 0x2028, 0x2029, 0x202F, 0x205F, 0x3000]

theorem isBlank_iff {c : Char} : isBlank c = true ↔ WhiteSpace c := by
  have hcontrols : 9 ≤ c.toNat ∧ c.toNat ≤ 13 ↔ c.toNat = 9 ∨ c.toNat = 10 ∨ c.toNat = 11 ∨
      c.toNat = 12 ∨ c.toNat = 13 := by omega
  have hquads : 0x2000 ≤ c.toNat ∧ c.toNat ≤ 0x200A ↔ c.toNat = 0x2000 ∨ c.toNat = 0x2001 ∨
      c.toNat = 0x2002 ∨ c.toNat = 0x2003 ∨ c.toNat = 0x2004 ∨ c.toNat = 0x2005 ∨
      c.toNat = 0x2006 ∨ c.toNat = 0x2007 ∨ c.toNat = 0x2008 ∨ c.toNat = 0x2009 ∨
      c.toNat = 0x200A := by omega
  simp only [isBlank, WhiteSpace, Bool.or_eq_true, Bool.and_eq_true, decide_eq_true_eq, beq_iff_eq,
    List.mem_cons, List.not_mem_nil, or_false, hcontrols, hquads, or_assoc]

/-- A text is this core with white space around it, and the core has none at its ends. -/
structure Trimmed (cs core : List Char) : Prop where
  around : ∃ before after, cs = before ++ core ++ after ∧ (∀ c ∈ before, WhiteSpace c) ∧
    (∀ c ∈ after, WhiteSpace c)
  first : ∀ c ∈ core.head?, ¬ WhiteSpace c
  last : ∀ c ∈ core.getLast?, ¬ WhiteSpace c

/-- Nothing is dropped from a text that does not begin with a blank. -/
theorem dropWhile_eq_self {cs : List Char} (h : ∀ c ∈ cs.head?, ¬ WhiteSpace c) :
    cs.dropWhile isBlank = cs := by
  cases cs with
  | nil => rfl
  | cons c cs =>
    have hc : isBlank c = false := Bool.eq_false_iff.mpr fun hb => h c rfl (isBlank_iff.mp hb)
    rw [List.dropWhile_cons, hc]
    rfl

theorem dropWhile_append {before cs : List Char} (hb : ∀ c ∈ before, WhiteSpace c) :
    (before ++ cs).dropWhile isBlank = cs.dropWhile isBlank :=
  List.dropWhile_append_of_pos fun c hc => isBlank_iff.mpr (hb c hc)

theorem dropWhile_eq_nil {cs : List Char} (h : ∀ c ∈ cs, WhiteSpace c) :
    cs.dropWhile isBlank = [] := by
  rw [← List.append_nil cs, dropWhile_append h, List.dropWhile_nil]

theorem Trimmed.eq_trimChars {cs core : List Char} (h : Trimmed cs core) :
    trimChars cs = core := by
  obtain ⟨before, after, rfl, hbefore, hafter⟩ := h.around
  rw [trimChars, List.append_assoc, dropWhile_append hbefore]
  cases core with
  | nil => simp [dropWhile_eq_nil hafter]
  | cons c core =>
    have hfront : (c :: core ++ after).dropWhile isBlank = c :: core ++ after :=
      dropWhile_eq_self h.first
    have hback : ((c :: core).reverse).dropWhile isBlank = (c :: core).reverse :=
      dropWhile_eq_self (by rw [List.head?_reverse]; exact h.last)
    rw [hfront, List.reverse_append, dropWhile_append (by simpa using hafter), hback,
      List.reverse_reverse]

/-- What `dropWhile` leaves does not begin with a blank. -/
theorem not_whiteSpace_of_mem_head? {cs : List Char} {c : Char}
    (h : c ∈ (cs.dropWhile isBlank).head?) : ¬ WhiteSpace c := by
  have hnot := List.head?_dropWhile_not isBlank cs
  rw [Option.mem_def.mp h] at hnot
  rw [← isBlank_iff, hnot]
  exact Bool.false_ne_true

theorem whiteSpace_of_mem_takeWhile {cs : List Char} {c : Char}
    (h : c ∈ cs.takeWhile isBlank) : WhiteSpace c :=
  isBlank_iff.mp (List.mem_takeWhile_imp h)

theorem trimmed_trimChars (cs : List Char) : Trimmed cs (trimChars cs) := by
  let front := cs.dropWhile isBlank
  let after := (front.reverse.takeWhile isBlank).reverse
  have hfront : front = trimChars cs ++ after := by
    rw [trimChars, ← List.reverse_append, List.takeWhile_append_dropWhile, List.reverse_reverse]
  refine ⟨⟨cs.takeWhile isBlank, after, ?_, fun c => whiteSpace_of_mem_takeWhile, ?_⟩, ?_, ?_⟩
  · rw [List.append_assoc, ← hfront, List.takeWhile_append_dropWhile]
  · intro c hc
    exact whiteSpace_of_mem_takeWhile (List.mem_reverse.mp hc)
  · intro c hc
    -- the first character of the core is the first one after the white space
    have hfirst : c ∈ front.head? := by
      rw [hfront, List.head?_append, Option.mem_def.mp hc]
      rfl
    exact not_whiteSpace_of_mem_head? hfirst
  · intro c hc
    rw [trimChars, List.getLast?_reverse] at hc
    exact not_whiteSpace_of_mem_head? hc

theorem trimmed_iff {cs core : List Char} : Trimmed cs core ↔ trimChars cs = core :=
  ⟨Trimmed.eq_trimChars, fun h => h ▸ trimmed_trimChars cs⟩

theorem trimmed_nil : Trimmed [] [] := trimmed_iff.mpr rfl

/-! ## Numbers -/

namespace Decimal

/-- The digits of a number, the last one set apart each time. Any number of them may be leading
zeros. -/
inductive Numeral : List Char → Nat → Prop where
  | digit {d : Nat} (hd : d < 10) : Numeral [d.digitChar] d
  | snoc {cs : List Char} {n d : Nat} (more : Numeral cs n) (hd : d < 10) :
      Numeral (cs ++ [d.digitChar]) (10 * n + d)

/-- The ASCII digits are those of the numbers below ten. -/
theorem exists_digit {c : Char} (h : c.isDigit = true) : ∃ d, d < 10 ∧ d.digitChar = c := by
  have hofNat : ∀ d : Fin 10, d.val.digitChar = Char.ofNat (48 + d.val) := by decide
  simp only [Char.isDigit, Bool.and_eq_true, decide_eq_true_eq, ge_iff_le, UInt32.le_iff_toNat_le]
    at h
  obtain ⟨hlow, hhigh⟩ : 48 ≤ c.toNat ∧ c.toNat ≤ 57 := h
  have hlt : c.toNat - 48 < 10 := by omega
  refine ⟨c.toNat - 48, hlt, ?_⟩
  calc (c.toNat - 48).digitChar = Char.ofNat (48 + (c.toNat - 48)) := hofNat ⟨_, hlt⟩
    _ = Char.ofNat c.toNat := by rw [Nat.add_sub_cancel' hlow]
    _ = c := Char.ofNat_toNat c

namespace Numeral

variable {cs : List Char} {n : Nat}

theorem ne_nil (h : Numeral cs n) : cs ≠ [] := by
  cases h <;> simp

theorem isDigit (h : Numeral cs n) : ∀ c ∈ cs, c.isDigit = true := by
  induction h with
  | digit hd =>
    intro c hc
    rw [List.mem_singleton.mp hc, Nat.isDigit_digitChar, decide_eq_true hd]
  | snoc _ hd ih =>
    intro c hc
    rcases List.mem_append.mp hc with hc | hc
    · exact ih c hc
    · rw [List.mem_singleton.mp hc, Nat.isDigit_digitChar, decide_eq_true hd]

theorem ofDigitChars_eq (h : Numeral cs n) : Nat.ofDigitChars 10 cs 0 = n := by
  induction h with
  | digit hd => simp [Nat.ofDigitChars_cons, Nat.toNat_digitChar_sub_48_of_lt_ten hd]
  | snoc _ hd ih =>
    simp [Nat.ofDigitChars_append, Nat.ofDigitChars_cons, ih,
      Nat.toNat_digitChar_sub_48_of_lt_ten hd]

/-- Any digits are a number. -/
theorem of_isDigit (hne : cs ≠ []) (h : ∀ c ∈ cs, c.isDigit = true) : ∃ n, Numeral cs n := by
  induction cs using List.reverseRecOn with
  | nil => cases hne rfl
  | append_singleton cs c ih =>
    obtain ⟨d, hd, rfl⟩ := exists_digit (h c (by simp))
    cases cs with
    | nil => exact ⟨d, .digit hd⟩
    | cons c' cs =>
      -- the digits before the last one are a number already
      obtain ⟨n, hn⟩ := ih (List.cons_ne_nil c' cs) fun c hc => h c (List.mem_append_left _ hc)
      exact ⟨10 * n + d, .snoc hn hd⟩

end Numeral

theorem read?_eq_some_iff {cs : List Char} {n : Nat} : read? cs = some n ↔ Numeral cs n := by
  constructor
  · intro h
    rw [read?, Option.ite_none_right_eq_some, List.all_eq_true] at h
    obtain ⟨⟨hne, hdigits⟩, hn⟩ := h
    obtain ⟨n', hnumeral⟩ := Numeral.of_isDigit hne hdigits
    rw [hnumeral.ofDigitChars_eq] at hn
    cases hn
    exact hnumeral
  · intro h
    rw [read?, if_pos ⟨h.ne_nil, List.all_eq_true.mpr h.isDigit⟩, h.ofDigitChars_eq]

theorem not_whiteSpace_of_isDigit {c : Char} (h : c.isDigit = true) : ¬ WhiteSpace c := by
  have hblank : ∀ d : Fin 10, isBlank d.val.digitChar = false := by decide
  obtain ⟨d, hd, rfl⟩ := exists_digit h
  rw [← isBlank_iff, hblank ⟨d, hd⟩]
  exact Bool.false_ne_true

theorem Numeral.trimmed {cs : List Char} {n : Nat} (h : Numeral cs n) : Trimmed cs cs where
  around := ⟨[], [], by simp, nofun, nofun⟩
  first c hc := not_whiteSpace_of_isDigit (h.isDigit c (List.mem_of_mem_head? hc))
  last c hc := not_whiteSpace_of_isDigit (h.isDigit c (List.mem_of_mem_getLast? hc))

end Decimal

end Text

open Text (WhiteSpace Trimmed)
open Text.Decimal (Numeral)

/-! ## Limits -/

namespace Limit

/-- What may stand before the digits of a limit. -/
inductive Sign : List Char → Prop where
  | absent : Sign []
  | plus : Sign ['+']

/-- The text, with no white space around it, means the limit. -/
inductive Means : List Char → Limit → Prop where
  | empty : Means [] .unbounded
  | atMost {sign digits : List Char} {n : Nat} (hs : Sign sign) (hn : Numeral digits n)
      (hpos : 1 ≤ n) (hlt : n < 4294967295) : Means (sign ++ digits) (.atMost (.ofNat n))
  | largest {sign digits : List Char} (hs : Sign sign) (hn : Numeral digits 4294967295) :
      Means (sign ++ digits) .unbounded

/-- The text, with no white space around it, means no limit, and `value` is complained about. -/
inductive Blames : List Char → String → Prop where
  | zero {sign digits : List Char} (hs : Sign sign) (hn : Numeral digits 0) :
      Blames (sign ++ digits) "0"
  | text {core : List Char} (hne : core ≠ []) (hlarge : ∀ sign digits n, core = sign ++ digits →
      Sign sign → Numeral digits n → 4294967295 < n) : Blames core (.ofList core)

/-- The text without a plus sign at its front. -/
def unsigned : List Char → List Char
  | '+' :: cs => cs
  | cs => cs

theorem exists_sign (cs : List Char) : ∃ sign, Sign sign ∧ cs = sign ++ unsigned cs := by
  unfold unsigned
  split
  · exact ⟨['+'], .plus, rfl⟩
  · exact ⟨[], .absent, rfl⟩

theorem unsigned_append {sign digits : List Char} {n : Nat} (hs : Sign sign)
    (hn : Numeral digits n) : unsigned (sign ++ digits) = digits := by
  cases hs with
  | plus => rfl
  | absent =>
    rw [List.nil_append, unsigned]
    intro cs hcs
    -- a plus sign is no digit
    have hplus := hn.isDigit '+' (hcs ▸ List.mem_cons_self)
    cases hplus

theorem readDigits?_eq (cs : List Char) : readDigits? cs =
    (Text.Decimal.read? (unsigned cs)).bind fun n =>
      if n < UInt32.size then some (.ofNat n) else none := by
  unfold readDigits? unsigned
  dsimp only
  generalize Text.Decimal.read? _ = value
  cases value <;> rfl

theorem readDigits?_eq_some_iff {cs : List Char} {u : UInt32} :
    readDigits? cs = some u ↔
      ∃ sign digits, cs = sign ++ digits ∧ Sign sign ∧ Numeral digits u.toNat := by
  simp only [readDigits?_eq, Option.bind_eq_some_iff, Text.Decimal.read?_eq_some_iff,
    Option.ite_none_right_eq_some]
  constructor
  · rintro ⟨n, hn, hlt, hu⟩
    obtain ⟨sign, hs, hcs⟩ := exists_sign cs
    cases hu
    refine ⟨sign, _, hcs, hs, ?_⟩
    rwa [UInt32.toNat_ofNat_of_lt' hlt]
  · rintro ⟨sign, digits, rfl, hs, hn⟩
    rw [unsigned_append hs hn]
    exact ⟨_, hn, u.toNat_lt, by simp⟩

/-- A number in the range of a limit is not cut off. -/
theorem toNat_ofNat {n : Nat} (h : n ≤ 4294967295) : (UInt32.ofNat n).toNat = n := by
  have hlt : n < UInt32.size := by
    rw [UInt32.size]
    omega
  exact UInt32.toNat_ofNat_of_lt' hlt

section

variable {s : String} {core sign digits : List Char} {u : UInt32}

theorem parse_of_empty (h : Trimmed s.toList []) : parse s = .ok .unbounded := by
  simp [parse, Text.trim, h.eq_trimChars]

theorem parse_of_readDigits? (h : Trimmed s.toList core) (hu : readDigits? core = some u) :
    parse s = positive u := by
  have hne : core ≠ [] := by
    rintro rfl
    cases hu
  simp [parse, Text.trim, h.eq_trimChars, hne, hu]

theorem parse_of_unread (h : Trimmed s.toList core) (hne : core ≠ [])
    (hu : readDigits? core = none) : parse s = .error (.badLimit (.ofList core)) := by
  simp [parse, Text.trim, h.eq_trimChars, hne, hu]

theorem parse_of_numeral {n : Nat} (h : Trimmed s.toList (sign ++ digits)) (hs : Sign sign)
    (hn : Numeral digits n) (hle : n ≤ 4294967295) : parse s = positive (.ofNat n) := by
  refine parse_of_readDigits? h (readDigits?_eq_some_iff.mpr ⟨sign, digits, rfl, hs, ?_⟩)
  rwa [toNat_ofNat hle]

theorem positive_ofNat {n : Nat} (hpos : 1 ≤ n) (hlt : n < 4294967295) :
    positive (.ofNat n) = .ok (.atMost (.ofNat n)) := by
  have htoNat : (UInt32.ofNat n).toNat = n := toNat_ofNat hlt.le
  have hzero : UInt32.ofNat n ≠ 0 := fun h => by
    have : (0 : UInt32).toNat = n := h ▸ htoNat
    rw [UInt32.toNat_zero] at this
    omega
  have hlargest : UInt32.ofNat n ≠ unboundedRaw := fun h => by
    have : unboundedRaw.toNat = n := h ▸ htoNat
    have hraw : unboundedRaw.toNat = 4294967295 := rfl
    omega
  rw [positive, if_neg hzero, ofRaw, if_neg hlargest]

theorem parse_of_means {l : Limit} (h : Trimmed s.toList core) (hm : Means core l) :
    parse s = .ok l := by
  cases hm with
  | empty => exact parse_of_empty h
  | atMost hs hn hpos hlt => rw [parse_of_numeral h hs hn hlt.le, positive_ofNat hpos hlt]
  | largest hs hn => exact parse_of_numeral h hs hn le_rfl

theorem parse_of_blames {v : String} (h : Trimmed s.toList core) (hb : Blames core v) :
    parse s = .error (.badLimit v) := by
  cases hb with
  | zero hs hn => exact parse_of_numeral h hs hn (by decide)
  | text hne hlarge =>
    cases hu : readDigits? core with
    | none => exact parse_of_unread h hne hu
    | some u =>
      -- what is read fits 32 bits, so it is not too large
      obtain ⟨sign, digits, hcore, hs, hn⟩ := readDigits?_eq_some_iff.mp hu
      have hlt := hlarge sign digits _ hcore hs hn
      have hsize := u.toNat_lt
      omega

/-- There is no third kind of text. -/
theorem means_or_blames (core : List Char) : (∃ l, Means core l) ∨ ∃ v, Blames core v := by
  by_cases hnum : ∃ sign digits n, core = sign ++ digits ∧ Sign sign ∧ Numeral digits n ∧
      n ≤ 4294967295
  · obtain ⟨sign, digits, n, rfl, hs, hn, hle⟩ := hnum
    rcases Nat.eq_zero_or_pos n with rfl | hpos
    · exact .inr ⟨_, .zero hs hn⟩
    · rcases hle.lt_or_eq with hlt | rfl
      · exact .inl ⟨_, .atMost hs hn hpos hlt⟩
      · exact .inl ⟨_, .largest hs hn⟩
  · rcases eq_or_ne core [] with rfl | hne
    · exact .inl ⟨_, .empty⟩
    · refine .inr ⟨_, .text hne fun sign digits n hcore hs hn => ?_⟩
      exact Nat.lt_of_not_le fun hle => hnum ⟨sign, digits, n, hcore, hs, hn, hle⟩

end

/-- What was written, if anything was, means the limit. -/
inductive Stated : Option String → Limit → Prop where
  | absent : Stated none .unbounded
  | text {s : String} {core : List Char} {l : Limit} (ht : Trimmed s.toList core)
      (hm : Means core l) : Stated (some s) l

/-- What was written means no limit, and `value` is complained about. -/
inductive Faulty : Option String → String → Prop where
  | text {s : String} {core : List Char} {value : String} (ht : Trimmed s.toList core)
      (hb : Blames core value) : Faulty (some s) value

section

variable {text : Option String} {l : Limit}

theorem parse_of_stated (h : Stated text l) : parse (text.getD "") = .ok l := by
  cases h with
  | absent => exact parse_of_empty Text.trimmed_nil
  | text ht hm => exact parse_of_means ht hm

theorem parse_of_faulty {value : String} (h : Faulty text value) :
    parse (text.getD "") = .error (.badLimit value) := by
  cases h with
  | text ht hb => exact parse_of_blames ht hb

theorem stated_or_faulty (text : Option String) :
    (∃ l, Stated text l) ∨ ∃ value, Faulty text value := by
  cases text with
  | none => exact .inl ⟨_, .absent⟩
  | some s =>
    have ht := Text.trimmed_trimChars s.toList
    rcases means_or_blames (Text.trimChars s.toList) with ⟨l, hm⟩ | ⟨value, hb⟩
    · exact .inl ⟨l, .text ht hm⟩
    · exact .inr ⟨value, .text ht hb⟩

theorem parse_eq_ok_iff : parse (text.getD "") = .ok l ↔ Stated text l := by
  refine ⟨fun h => ?_, parse_of_stated⟩
  rcases stated_or_faulty text with ⟨l', hl'⟩ | ⟨value, hvalue⟩
  · cases h.symm.trans (parse_of_stated hl')
    exact hl'
  · cases h.symm.trans (parse_of_faulty hvalue)

theorem parse_eq_error_iff {e : GateError} :
    parse (text.getD "") = .error e ↔ ∃ value, Faulty text value ∧ e = .badLimit value := by
  constructor
  · intro h
    rcases stated_or_faulty text with ⟨l, hl⟩ | ⟨value, hvalue⟩
    · cases h.symm.trans (parse_of_stated hl)
    · cases h.symm.trans (parse_of_faulty hvalue)
      exact ⟨value, hvalue, rfl⟩
  · rintro ⟨value, hvalue, rfl⟩
    exact parse_of_faulty hvalue

theorem exists_faulty_iff : (∃ value, Faulty text value) ↔ ∀ l, ¬ Stated text l := by
  constructor
  · rintro ⟨value, hvalue⟩ l hl
    cases (parse_of_stated hl).symm.trans (parse_of_faulty hvalue)
  · intro h
    rcases stated_or_faulty text with ⟨l, hl⟩ | hvalue
    · exact absurd hl (h l)
    · exact hvalue

end

/-- A limit that can be written is displayed as a text that means it. -/
theorem parse_display {text : Option String} {l : Limit} (h : Stated text l) :
    parse l.display = .ok l := by
  have hempty : parse "" = .ok .unbounded := parse_of_empty Text.trimmed_nil
  cases h with
  | absent => exact hempty
  | text _ hm =>
    cases hm with
    | empty => exact hempty
    | largest => exact hempty
    | @atMost _ _ n _ _ hpos hlt =>
      have hdisplay : (display (.atMost (.ofNat n))).toList = Text.Decimal.write n := by
        rw [display, toNat_ofNat hlt.le, Nat.repr, String.toList_ofList]
        rfl
      have hn : Numeral (Text.Decimal.write n) n :=
        Text.Decimal.read?_eq_some_iff.mp (Text.Decimal.read?_write n)
      refine parse_of_means ?_ (.atMost .absent hn hpos hlt)
      rw [hdisplay]
      exact hn.trimmed

end Limit

/-! ## Targets -/

theorem Text.allBlank_iff {s : String} : allBlank s = true ↔ ∀ c ∈ s.toList, WhiteSpace c := by
  simp only [allBlank, List.all_eq_true, isBlank_iff]

namespace Target

variable {name limit : Option String} {n value : String} {l : Limit} {target : Target}
  {e : GateError}

theorem new_of_blank (h : ∀ c ∈ n.toList, WhiteSpace c) : new n l = .error .missingName := by
  rw [new, if_pos (Text.allBlank_iff.mpr h)]

theorem new_of_visible (h : ∃ c ∈ n.toList, ¬ WhiteSpace c) : new n l = .ok ⟨n, l⟩ := by
  obtain ⟨c, hc, hvisible⟩ := h
  rw [new, if_neg fun hall => hvisible (Text.allBlank_iff.mp hall c hc)]

theorem parse_of_stated (h : Limit.Stated limit l) : parse (some n) limit = new n l := by
  simp [parse, Limit.parse_of_stated h]

theorem parse_of_faulty (h : Limit.Faulty limit value) :
    parse (some n) limit = .error (.badLimit value) := by
  simp [parse, Limit.parse_of_faulty h]

theorem blank_or_visible (n : String) :
    (∀ c ∈ n.toList, WhiteSpace c) ∨ ∃ c ∈ n.toList, ¬ WhiteSpace c := by
  by_cases h : ∀ c ∈ n.toList, WhiteSpace c
  · exact .inl h
  · push Not at h
    exact .inr h

theorem parse_eq_ok_iff : parse name limit = .ok target ↔
    name = some target.name ∧ (∃ c ∈ target.name.toList, ¬ WhiteSpace c) ∧
      Limit.Stated limit target.limit := by
  constructor
  · intro h
    cases name with
    | none => cases h
    | some n =>
      cases hp : Limit.parse (limit.getD "") with
      | error e => simp [parse, hp] at h
      | ok l =>
        have hl := Limit.parse_eq_ok_iff.mp hp
        rw [parse_of_stated hl] at h
        rcases blank_or_visible n with hblank | hvisible
        · cases (new_of_blank hblank).symm.trans h
        · cases (new_of_visible hvisible).symm.trans h
          exact ⟨rfl, hvisible, hl⟩
  · rintro ⟨rfl, hvisible, hl⟩
    rw [parse_of_stated hl, new_of_visible hvisible]

theorem parse_eq_error_iff : parse name limit = .error e ↔
    name = none ∧ e = .missingName ∨
      (∃ n value, name = some n ∧ Limit.Faulty limit value ∧ e = .badLimit value) ∨
      (∃ n l, name = some n ∧ Limit.Stated limit l ∧ (∀ c ∈ n.toList, WhiteSpace c) ∧
        e = .missingName) := by
  constructor
  · intro h
    cases name with
    | none =>
      cases h
      exact .inl ⟨rfl, rfl⟩
    | some n =>
      cases hp : Limit.parse (limit.getD "") with
      | error e' =>
        obtain ⟨value, hvalue, -⟩ := Limit.parse_eq_error_iff.mp hp
        cases (parse_of_faulty hvalue).symm.trans h
        exact .inr (.inl ⟨n, value, rfl, hvalue, rfl⟩)
      | ok l =>
        have hl := Limit.parse_eq_ok_iff.mp hp
        rw [parse_of_stated hl] at h
        rcases blank_or_visible n with hblank | hvisible
        · cases (new_of_blank hblank).symm.trans h
          exact .inr (.inr ⟨n, l, rfl, hl, hblank, rfl⟩)
        · cases (new_of_visible hvisible).symm.trans h
  · rintro (⟨rfl, rfl⟩ | ⟨n, value, rfl, hvalue, rfl⟩ | ⟨n, l, rfl, hl, hblank, rfl⟩)
    · rfl
    · exact parse_of_faulty hvalue
    · rw [parse_of_stated hl, new_of_blank hblank]

/-- A target is parsed exactly if it is written by the grammar, and means what the grammar says. An
absent name is complained about first, then a bad limit, then a blank name. The limit of a target is
displayed as a text that means it. -/
theorem parse_accepts_grammar (name limit : Option String) :
    (∀ target, parse name limit = .ok target ↔
      name = some target.name ∧ (∃ c ∈ target.name.toList, ¬ WhiteSpace c) ∧
        Limit.Stated limit target.limit) ∧
    (∀ e, parse name limit = .error e ↔
      name = none ∧ e = .missingName ∨
        (∃ n value, name = some n ∧ Limit.Faulty limit value ∧ e = .badLimit value) ∨
        (∃ n l, name = some n ∧ Limit.Stated limit l ∧ (∀ c ∈ n.toList, WhiteSpace c) ∧
          e = .missingName)) ∧
    ((∃ value, Limit.Faulty limit value) ↔ ∀ l, ¬ Limit.Stated limit l) ∧
    (∀ target, parse name limit = .ok target →
      Limit.parse target.limit.display = .ok target.limit) := by
  refine ⟨fun target => parse_eq_ok_iff, fun e => parse_eq_error_iff, Limit.exists_faulty_iff,
    fun target h => ?_⟩
  obtain ⟨-, -, hl⟩ := parse_eq_ok_iff.mp h
  exact Limit.parse_display hl

theorem parse_accepts_padded :
    Limit.Stated (some " +007\u3000") (.atMost 7) ∧
      parse (some "build") (some " +007\u3000") = .ok ⟨"build", .atMost 7⟩ ∧
      Limit.parse (Limit.atMost 7).display = .ok (.atMost 7) := by
  have hdigits : Numeral ['0', '0', '7'] 7 :=
    Text.Decimal.read?_eq_some_iff.mp (by decide)
  have hl : Limit.Stated (some " +007\u3000") (.atMost 7) :=
    .text (Text.trimmed_iff.mpr (by decide +kernel)) (.atMost .plus hdigits (by decide) (by decide))
  obtain ⟨hok, -, -, hdisplay⟩ := parse_accepts_grammar (some "build") (some " +007\u3000")
  have hname : ∃ c ∈ "build".toList, ¬ WhiteSpace c :=
    ⟨'b', by decide +kernel, by simp [WhiteSpace]⟩
  have hparse := (hok ⟨"build", .atMost 7⟩).mpr ⟨rfl, hname, hl⟩
  exact ⟨hl, hparse, hdisplay ⟨"build", .atMost 7⟩ hparse⟩

end Target
end SegmentGate
