import Mathlib.Data.List.Forall2
import Mathlib.Data.List.TakeWhile
import SegmentGate.Event.LogLine
import SegmentGate.Gate.Delivery
import SegmentGate.Proofs.EventLog
import SegmentGate.Proofs.JsonText

/-!
# Log lines cannot be forged

A log line puts names, errors and tokens that come from outside between words
of its own. `log_unforgeable` says that none of them can pose as something else:
the line of an event about an execution is one line, and two such lines are the
same text exactly if they say the same.

Everything rests on texts that can be cut off the front of what follows them
(`PrefixFree`). A quoted text can (`Quoted.prefixFree_quote`): each character is
written in one of three forms (`Quoted.Form`), of which a reader knows at once
which it sees and where it ends, and none of which begins with a quote. A number
or a tag has no end of its own, but what follows it in a line begins with a
character that it does not have (`append_inj_of_stop`). So a line is taken apart
field by field, from the front; and so is a whole log, line by line
(`agrees_of_join_eq`).
-/
namespace SegmentGate

/-! ## Texts cut off the front -/

namespace Text

/-- What `f` writes can be cut off the front of any text that begins with it. -/
def PrefixFree {α : Type} (f : α → List Char) : Prop :=
  ∀ ⦃a b : α⦄ ⦃r r' : List Char⦄, f a ++ r = f b ++ r' → a = b ∧ r = r'

/-- A word can be cut off the front of a text that goes on with a character the
word does not have. -/
theorem append_inj_of_stop {p : Char → Bool} {cs cs' r r' : List Char}
    (hcs : ∀ c ∈ cs, p c = true) (hcs' : ∀ c ∈ cs', p c = true)
    (hr : ∀ c ∈ r.head?, p c = false) (hr' : ∀ c ∈ r'.head?, p c = false)
    (h : cs ++ r = cs' ++ r') : cs = cs' ∧ r = r' := by
  have hword {cs r : List Char} (hcs : ∀ c ∈ cs, p c = true) (hr : ∀ c ∈ r.head?, p c = false) :
      (cs ++ r).takeWhile p = cs := by
    rw [List.takeWhile_append_of_pos hcs]
    cases r with
    | nil => simp
    | cons c r => simp [hr c rfl]
  have hsame : cs = cs' := by rw [← hword hcs hr, h, hword hcs' hr']
  exact ⟨hsame, List.append_cancel_left (hsame ▸ h)⟩

/-! ## Line breaks -/

/-- The characters that break a line, by the rules of Unicode. -/
def lineBreaks : List Char := ['\n', '\x0b', '\x0c', '\r', '\u0085', '\u2028', '\u2029']

/-- The text is all on one line. -/
def OneLine (cs : List Char) : Prop := ∀ c ∈ cs, c ∉ lineBreaks

instance : DecidablePred OneLine := fun cs =>
  List.decidableBAll _ cs

@[simp] theorem oneLine_append {cs cs' : List Char} :
    OneLine (cs ++ cs') ↔ OneLine cs ∧ OneLine cs' := by
  simp only [OneLine, List.mem_append, or_imp, forall_and]

theorem oneLine_concat {a b : String} :
    OneLine (a ++ b).toList ↔ OneLine a.toList ∧ OneLine b.toList := by
  rw [String.toList_append, oneLine_append]

/-! ## Hexadecimal digits -/

theorem exists_digit_of_mem_toDigits {n : Nat} {c : Char} (h : c ∈ Nat.toDigits 16 n) :
    ∃ d : Fin 16, c = d.val.digitChar := by
  induction n using Nat.strongRecOn with
  | ind n ih =>
    rw [Nat.toDigits_eq_if (by decide)] at h
    split at h
    · rename_i hn
      exact ⟨⟨n, hn⟩, List.mem_singleton.mp h⟩
    · rcases List.mem_append.mp h with h | h
      · exact ih (n / 16) (by omega) h
      · exact ⟨⟨n % 16, Nat.mod_lt n (by decide)⟩, List.mem_singleton.mp h⟩

/-- The number that hexadecimal digits write. -/
def hexValue (cs : List Char) : Nat := cs.foldl (fun v c => 16 * v + (Json.hexDigit? c).getD 0) 0

theorem hexValue_toDigits (n : Nat) : hexValue (Nat.toDigits 16 n) = n := by
  induction n using Nat.strongRecOn with
  | ind n ih =>
    rw [Nat.toDigits_eq_if (by decide)]
    split
    · rename_i hn
      simp [hexValue, Json.hexDigit?_digitChar hn]
    · have hlast := Json.hexDigit?_digitChar (Nat.mod_lt n (show 0 < 16 by decide))
      have hinit : hexValue (Nat.toDigits 16 (n / 16)) = n / 16 := ih (n / 16) (by omega)
      rw [hexValue, List.foldl_append, ← hexValue, hinit]
      simp only [List.foldl_cons, List.foldl_nil, hlast, Option.getD_some]
      omega

/-! ## Quoted texts -/

namespace Quoted

/-- The characters that have a letter of their own behind the backslash. -/
def letters : List (Char × Char) :=
  [('"', '"'), ('\\', '\\'), ('\x00', '0'), ('\t', 't'), ('\n', 'n'), ('\r', 'r')]

/-- The forms in which a character is written between the quotes. -/
inductive Form (c : Char) : List Char → Prop where
  | letter {l : Char} (hl : (c, l) ∈ letters) : Form c ['\\', l]
  | code : Form c ('\\' :: 'u' :: '\x7b' :: (Nat.toDigits 16 c.toNat ++ ['\x7d']))
  | plain (hq : c ≠ '"') (hb : c ≠ '\\') (hseen : isHidden c = false) : Form c [c]

theorem form_encode (c : Char) : Form c (encode c) := by
  unfold encode
  -- the six characters with a letter of their own
  iterate 6
    split
    · subst_vars
      exact .letter (by decide)
  rename_i hq hb _ _ _ _
  split
  · exact .code
  · rename_i hseen
    exact .plain hq hb (Bool.eq_false_iff.mpr hseen)

/-- No form is empty or begins with a quote. -/
theorem Form.exists_cons {c : Char} {cs : List Char} (h : Form c cs) :
    ∃ d ds, cs = d :: ds ∧ d ≠ '"' := by
  cases h with
  | letter => exact ⟨_, _, rfl, by decide⟩
  | code => exact ⟨_, _, rfl, by decide⟩
  | plain hq => exact ⟨c, [], rfl, hq⟩

theorem oneLine_digits (n : Nat) : OneLine (Nat.toDigits 16 n) := by
  have hdigit : ∀ d : Fin 16, d.val.digitChar ∉ lineBreaks := by decide
  intro c hc
  obtain ⟨d, rfl⟩ := exists_digit_of_mem_toDigits hc
  exact hdigit d

theorem Form.oneLine {c : Char} {cs : List Char} (h : Form c cs) : OneLine cs := by
  cases h with
  | letter hl =>
    have hall : ∀ p ∈ letters, OneLine ['\\', p.2] := by decide
    exact hall _ hl
  | code =>
    have hopen : OneLine ['\\', 'u', '\x7b'] := by decide
    have hclose : OneLine ['\x7d'] := by decide
    exact oneLine_append.mpr ⟨hopen, oneLine_append.mpr ⟨oneLine_digits c.toNat, hclose⟩⟩
  | plain _ _ hseen =>
    have hhidden : lineBreaks.all isHidden = true := by decide +kernel
    intro x hx hbreak
    rw [List.mem_singleton.mp hx] at hbreak
    exact Bool.false_ne_true (hseen.symm.trans (List.all_eq_true.mp hhidden c hbreak))

/-- The digits of a code end at the brace. -/
theorem code_append_inj {n n' : Nat} {r r' : List Char}
    (h : Nat.toDigits 16 n ++ '\x7d' :: r = Nat.toDigits 16 n' ++ '\x7d' :: r') :
    n = n' ∧ r = r' := by
  have hbrace : ∀ d : Fin 16, (d.val.digitChar != '\x7d') = true := by decide
  have hdigits : ∀ n, ∀ c ∈ Nat.toDigits 16 n, (c != '\x7d') = true := by
    intro n c hc
    obtain ⟨d, rfl⟩ := exists_digit_of_mem_toDigits hc
    exact hbrace d
  obtain ⟨hsame, hrest⟩ := append_inj_of_stop (hdigits n) (hdigits n') (by simp) (by simp) h
  refine ⟨?_, List.tail_eq_of_cons_eq hrest⟩
  rw [← hexValue_toDigits n, hsame, hexValue_toDigits]

/-- The first characters tell which form it is, and each form says where it
ends. -/
theorem Form.append_inj {c c' : Char} {cs cs' r r' : List Char} (h : Form c cs) (h' : Form c' cs')
    (e : cs ++ r = cs' ++ r') : c = c' ∧ r = r' := by
  have hletter : ∀ p ∈ letters, ∀ q ∈ letters, p.2 = q.2 → p.1 = q.1 := by decide
  have hu : ∀ p ∈ letters, p.2 ≠ 'u' := by decide
  cases h with
  | letter hl =>
    cases h' with
    | letter hl' =>
      simp only [List.cons_append, List.nil_append, List.cons.injEq, true_and] at e
      exact ⟨hletter _ hl _ hl' e.1, e.2⟩
    | code =>
      simp only [List.cons_append, List.nil_append, List.cons.injEq, true_and] at e
      exact absurd e.1 (hu _ hl)
    | plain _ hb' => exact absurd (List.head_eq_of_cons_eq e).symm hb'
  | code =>
    cases h' with
    | letter hl' =>
      simp only [List.cons_append, List.nil_append, List.cons.injEq, true_and] at e
      exact absurd e.1.symm (hu _ hl')
    | code =>
      simp only [List.cons_append, List.append_assoc, List.nil_append, List.cons.injEq,
        true_and] at e
      obtain ⟨hcode, hrest⟩ := code_append_inj e
      exact ⟨Char.toNat_inj.mp hcode, hrest⟩
    | plain _ hb' => exact absurd (List.head_eq_of_cons_eq e).symm hb'
  | plain _ hb =>
    cases h' with
    | letter => exact absurd (List.head_eq_of_cons_eq e) hb
    | code => exact absurd (List.head_eq_of_cons_eq e) hb
    | plain => exact List.cons.inj e

theorem prefixFree_encode : PrefixFree encode :=
  fun c c' _ _ h => (form_encode c).append_inj (form_encode c') h

/-- The quote that ends the text is the first one that no character is written
with. -/
theorem encodes_append_inj {cs cs' r r' : List Char}
    (h : cs.flatMap encode ++ '"' :: r = cs'.flatMap encode ++ '"' :: r') : cs = cs' ∧ r = r' := by
  have hbegins {c : Char} {cs r r' : List Char} :
      '"' :: r ≠ (c :: cs).flatMap encode ++ '"' :: r' := by
    intro h
    obtain ⟨d, ds, he, hd⟩ := (form_encode c).exists_cons
    rw [List.flatMap_cons, he] at h
    exact hd (List.head_eq_of_cons_eq h).symm
  induction cs generalizing cs' with
  | nil =>
    cases cs' with
    | nil => exact ⟨rfl, List.tail_eq_of_cons_eq h⟩
    | cons c' cs' => exact absurd h hbegins
  | cons c cs ih =>
    cases cs' with
    | nil => exact absurd h.symm hbegins
    | cons c' cs' =>
      rw [List.flatMap_cons, List.flatMap_cons, List.append_assoc, List.append_assoc] at h
      obtain ⟨hc, hrest⟩ := prefixFree_encode h
      obtain ⟨hcs, hr⟩ := ih hrest
      exact ⟨by rw [hc, hcs], hr⟩

theorem toList_quote (s : String) :
    (quote s).toList = '"' :: (s.toList.flatMap encode ++ ['"']) := by
  rw [quote, String.toList_ofList, quoteChars]

/-- **A quoted text ends at its own closing quote.** -/
theorem prefixFree_quote : PrefixFree fun s => (quote s).toList := by
  intro s s' r r' h
  simp only [toList_quote, List.cons_append, List.append_assoc, List.nil_append, List.cons.injEq,
    true_and] at h
  obtain ⟨hs, hr⟩ := encodes_append_inj h
  exact ⟨String.toList_inj.mp hs, hr⟩

theorem oneLine_quote (s : String) : OneLine (quote s).toList := by
  have hquote : OneLine ['"'] := by decide
  have hinside : OneLine (s.toList.flatMap encode) := by
    intro x hx
    obtain ⟨c, -, hx⟩ := List.mem_flatMap.mp hx
    exact (form_encode c).oneLine x hx
  rw [toList_quote]
  exact oneLine_append.mpr ⟨hquote, oneLine_append.mpr ⟨hinside, hquote⟩⟩

end Quoted

end Text

open Text (OneLine oneLine_concat append_inj_of_stop)

/-! ## Events about an execution -/

/-- The word in brackets that a line begins with. -/
def EventKind.tag : EventKind → String
  | .admitted => "admitted"
  | .parked => "parked"
  | .promoted => "promoted"
  | .superseded => "superseded"
  | .released => "released"
  | .reentered => "reentered"
  | .cancelFailed => "cancel-failed"
  | .resumeUnresolved => "resume-unresolved"
  | .tableLoaded => "table-loaded"
  | .loadFailed => "load-failed"
  | .persistFailed => "persist-failed"
  | .subscriberOverflow => "subscriber-overflow"
  | .subscriberPanicked => "subscriber-panicked"

namespace Event

/-- The kinds of event that are about one execution in one segment. -/
def placedKinds : List EventKind :=
  [.admitted, .parked, .promoted, .superseded, .released, .reentered, .cancelFailed,
    .resumeUnresolved]

/-- The event is about an execution in a segment, and has the texts that its kind
sets. -/
structure Placed (e : Event) : Prop where
  kind : e.kind ∈ placedKinds
  job : e.job.isSome
  segment : e.segment.isSome
  reason : e.kind = .cancelFailed ∨ e.kind = .resumeUnresolved → e.reason.isSome

/-- What a line says besides the place. -/
def detail (e : Event) : String :=
  match e.kind with
  | .promoted => " after=" ++ ordinalOrDash e.other
  | .superseded => " by=" ++ ordinalOrDash e.other
  | .cancelFailed => " err=" ++ Text.quote (e.reason.getD "unknown")
  | .resumeUnresolved => " token=" ++ Text.quote (e.reason.getD "unknown")
  | _ => ""

variable {e e' : Event}

theorem Placed.logLine_eq (h : e.Placed) :
    e.logLine = "[" ++ e.kind.tag ++ "]" ++ e.place ++ e.detail ++ "\n" := by
  have hkind := h.kind
  obtain ⟨kind, job, segment, ordinal, other, reason⟩ := e
  simp only [placedKinds, List.mem_cons, List.not_mem_nil, or_false] at hkind
  rcases hkind with rfl | rfl | rfl | rfl | rfl | rfl | rfl | rfl <;>
    simp [logLine, EventKind.tag, place, detail, String.append_assoc]

/-! ### Ordinals -/

/-- The characters that ordinals, and the dash for none, are written with. -/
def isOrdinalChar (c : Char) : Bool := c.isDigit || c == '-'

theorem isDigit_of_mem_text {o : Ordinal} {c : Char} (h : c ∈ o.text.toList) :
    c.isDigit = true := by
  rw [Ordinal.text, Nat.repr, String.toList_ofList] at h
  exact Nat.isDigit_of_mem_toDigits (by decide) (by decide) h

theorem text_inj {o o' : Ordinal} (h : o.text = o'.text) : o = o' := by
  have hwrite : Text.Decimal.write o.toNat = Text.Decimal.write o'.toNat :=
    String.ofList_injective h
  have hread := congrArg Text.Decimal.read? hwrite
  rw [Text.Decimal.read?_write, Text.Decimal.read?_write, Option.some.injEq] at hread
  exact UInt64.toNat_inj.mp hread

theorem isOrdinalChar_of_mem {o : Option Ordinal} {c : Char}
    (h : c ∈ (ordinalOrDash o).toList) : isOrdinalChar c = true := by
  cases o with
  | none =>
    have hdash : c = '-' := List.mem_singleton.mp h
    rw [hdash]
    rfl
  | some o => rw [isOrdinalChar, isDigit_of_mem_text h, Bool.true_or]

theorem ordinalOrDash_inj {o o' : Option Ordinal} (h : ordinalOrDash o = ordinalOrDash o') :
    o = o' := by
  have hdash (o : Ordinal) : ordinalOrDash none ≠ ordinalOrDash (some o) := by
    intro h
    have hmem : '-' ∈ (ordinalOrDash (some o)).toList := h ▸ List.mem_singleton.mpr rfl
    exact absurd (isDigit_of_mem_text hmem) (by decide)
  cases o with
  | none =>
    cases o' with
    | none => rfl
    | some o' => exact absurd h (hdash o')
  | some o =>
    cases o' with
    | none => exact absurd h.symm (hdash o)
    | some o' => exact congrArg some (text_inj h)

/-- What follows an ordinal in a line does not go on with it. -/
def Stops (r : List Char) : Prop := ∀ c ∈ r.head?, isOrdinalChar c = false

theorem ordinalOrDash_append_inj {o o' : Option Ordinal} {r r' : List Char} (hr : Stops r)
    (hr' : Stops r') (h : (ordinalOrDash o).toList ++ r = (ordinalOrDash o').toList ++ r') :
    o = o' ∧ r = r' := by
  obtain ⟨hsame, hrest⟩ := append_inj_of_stop (fun _ => isOrdinalChar_of_mem)
    (fun _ => isOrdinalChar_of_mem) hr hr' h
  exact ⟨ordinalOrDash_inj (String.toList_inj.mp hsame), hrest⟩

/-- A field is a word of the line's own and a value behind it. -/
theorem ordinalField_append_inj {w : String} {o o' : Option Ordinal} {r r' : List Char}
    (hr : Stops r) (hr' : Stops r')
    (h : (w ++ ordinalOrDash o).toList ++ r = (w ++ ordinalOrDash o').toList ++ r') :
    o = o' ∧ r = r' := by
  rw [String.toList_append, String.toList_append, List.append_assoc, List.append_assoc] at h
  exact ordinalOrDash_append_inj hr hr' (List.append_cancel_left h)

theorem quotedField_append_inj {w s s' : String} {r r' : List Char}
    (h : (w ++ Text.quote s).toList ++ r = (w ++ Text.quote s').toList ++ r') :
    s = s' ∧ r = r' := by
  rw [String.toList_append, String.toList_append, List.append_assoc, List.append_assoc] at h
  exact Text.Quoted.prefixFree_quote (List.append_cancel_left h)

theorem stops_cons {c : Char} (hc : isOrdinalChar c = false) (r : List Char) : Stops (c :: r) := by
  intro d hd
  cases hd
  exact hc

theorem stops_line_feed (r : List Char) : Stops ('\n' :: r) := stops_cons (by decide) r

theorem stops_detail (e : Event) (r : List Char) : Stops (e.detail.toList ++ '\n' :: r) := by
  have hspace (cs : List Char) : Stops (' ' :: cs) := stops_cons (by decide) cs
  unfold detail
  split
  -- the four fields begin with a space
  iterate 4
    · rw [String.toList_append]
      exact hspace _
  · exact stops_line_feed r

/-! ### A line is taken apart -/

/-- The two events say the same, as far as their lines go. -/
structure Agrees (e e' : Event) : Prop where
  kind : e.kind = e'.kind
  job : e.job = e'.job
  segment : e.segment = e'.segment
  ordinal : e.ordinal = e'.ordinal
  other : e.kind = .promoted ∨ e.kind = .superseded → e.other = e'.other
  reason : e.kind = .cancelFailed ∨ e.kind = .resumeUnresolved → e.reason = e'.reason

theorem tag_append_inj (h : e.Placed) (h' : e'.Placed) {r r' : List Char}
    (heq : e.kind.tag.toList ++ ']' :: r = e'.kind.tag.toList ++ ']' :: r') :
    e.kind = e'.kind ∧ r = r' := by
  have hinj : ∀ a ∈ placedKinds, ∀ b ∈ placedKinds, a.tag = b.tag → a = b := by decide +kernel
  have hword : ∀ a ∈ placedKinds, a.tag.toList.all (· != ']') = true := by decide +kernel
  have hword {a : EventKind} (ha : a ∈ placedKinds) : ∀ c ∈ a.tag.toList, (c != ']') = true :=
    List.all_eq_true.mp (hword a ha)
  obtain ⟨hsame, hrest⟩ := append_inj_of_stop (hword h.kind) (hword h'.kind) (by simp)
    (by simp) heq
  exact ⟨hinj _ h.kind _ h'.kind (String.toList_inj.mp hsame), List.tail_eq_of_cons_eq hrest⟩

theorem place_append_inj (h : e.Placed) (h' : e'.Placed) {r r' : List Char} (hr : Stops r)
    (hr' : Stops r') (heq : e.place.toList ++ r = e'.place.toList ++ r') :
    (e.job = e'.job ∧ e.segment = e'.segment ∧ e.ordinal = e'.ordinal) ∧ r = r' := by
  simp only [place, String.toList_append, List.append_assoc] at heq
  obtain ⟨hjob, heq⟩ := Text.Quoted.prefixFree_quote (List.append_cancel_left heq)
  obtain ⟨hsegment, heq⟩ := Text.Quoted.prefixFree_quote (List.append_cancel_left heq)
  obtain ⟨hordinal, heq⟩ := ordinalOrDash_append_inj hr hr' (List.append_cancel_left heq)
  exact ⟨⟨(Option.getD_inj h.job h'.job).mp hjob,
    (Option.getD_inj h.segment h'.segment).mp hsegment, hordinal⟩, heq⟩

theorem detail_append_inj (h : e.Placed) (h' : e'.Placed) (hk : e.kind = e'.kind)
    {r r' : List Char} (heq : e.detail.toList ++ '\n' :: r = e'.detail.toList ++ '\n' :: r') :
    (e.kind = .promoted ∨ e.kind = .superseded → e.other = e'.other) ∧
    (e.kind = .cancelFailed ∨ e.kind = .resumeUnresolved → e.reason = e'.reason) ∧ r = r' := by
  have hreason := h.reason
  have hreason' := h'.reason
  unfold detail at heq
  rw [← hk] at heq hreason'
  -- both kinds are one variable now
  generalize e.kind = kind at heq hreason hreason' ⊢
  cases kind with
  | promoted | superseded =>
    obtain ⟨ho, hr⟩ := ordinalField_append_inj (stops_line_feed r) (stops_line_feed r') heq
    exact ⟨fun _ => ho, nofun, List.tail_eq_of_cons_eq hr⟩
  | cancelFailed | resumeUnresolved =>
    obtain ⟨hs, hr⟩ := quotedField_append_inj heq
    exact ⟨nofun, fun hk => (Option.getD_inj (hreason hk) (hreason' hk)).mp hs,
      List.tail_eq_of_cons_eq hr⟩
  | _ => exact ⟨nofun, nofun, List.tail_eq_of_cons_eq heq⟩

/-- A line can be cut off the front of a log, and what is cut off tells what its
event says. -/
theorem Placed.logLine_append_inj (h : e.Placed) (h' : e'.Placed) {r r' : List Char}
    (heq : e.logLine.toList ++ r = e'.logLine.toList ++ r') : e.Agrees e' ∧ r = r' := by
  have hclose : "]".toList = [']'] := rfl
  have hfeed : "\n".toList = ['\n'] := rfl
  simp only [h.logLine_eq, h'.logLine_eq, String.toList_append, List.append_assoc, hclose, hfeed,
    List.cons_append, List.nil_append] at heq
  obtain ⟨hkind, heq⟩ := tag_append_inj h h' (List.append_cancel_left heq)
  obtain ⟨⟨hjob, hsegment, hordinal⟩, heq⟩ :=
    place_append_inj h h' (stops_detail e r) (stops_detail e' r') heq
  obtain ⟨hother, hreason, hr⟩ := detail_append_inj h h' hkind heq
  exact ⟨⟨hkind, hjob, hsegment, hordinal, hother, hreason⟩, hr⟩

theorem Agrees.place_eq (h : e.Agrees e') : e.place = e'.place := by
  simp only [place, h.job, h.segment, h.ordinal]

theorem Agrees.detail_eq (h : e.Agrees e') : e.detail = e'.detail := by
  unfold detail
  rw [← h.kind]
  cases hk : e.kind with
  | promoted | superseded => simp only [h.other (by simp [hk])]
  | cancelFailed | resumeUnresolved => simp only [h.reason (by simp [hk])]
  | _ => rfl

theorem oneLine_ordinalOrDash (o : Option Ordinal) : OneLine (ordinalOrDash o).toList := by
  have hall : Text.lineBreaks.any isOrdinalChar = false := by decide
  intro c hc hbreak
  exact List.any_eq_false.mp hall c hbreak (isOrdinalChar_of_mem hc)

theorem oneLine_place (e : Event) : OneLine e.place.toList := by
  have hwords : ∀ w ∈ [" job=", " segment=", " run="], OneLine w.toList := by decide +kernel
  simp only [place, oneLine_concat]
  exact ⟨⟨⟨⟨⟨hwords _ (by simp), Text.Quoted.oneLine_quote _⟩, hwords _ (by simp)⟩,
    Text.Quoted.oneLine_quote _⟩, hwords _ (by simp)⟩, oneLine_ordinalOrDash _⟩

theorem oneLine_detail (e : Event) : OneLine e.detail.toList := by
  have hwords : ∀ w ∈ [" after=", " by=", " err=", " token=", ""], OneLine w.toList := by
    decide +kernel
  unfold detail
  split
  · exact oneLine_concat.mpr ⟨hwords _ (by simp), oneLine_ordinalOrDash _⟩
  · exact oneLine_concat.mpr ⟨hwords _ (by simp), oneLine_ordinalOrDash _⟩
  · exact oneLine_concat.mpr ⟨hwords _ (by simp), Text.Quoted.oneLine_quote _⟩
  · exact oneLine_concat.mpr ⟨hwords _ (by simp), Text.Quoted.oneLine_quote _⟩
  · exact hwords _ (by simp)

theorem Placed.exists_line (h : e.Placed) :
    ∃ line : String, e.logLine = line ++ "\n" ∧ OneLine line.toList := by
  have htags : ∀ a ∈ placedKinds, OneLine a.tag.toList := by decide +kernel
  have hbrackets : ∀ w ∈ ["[", "]"], OneLine w.toList := by decide +kernel
  refine ⟨_, h.logLine_eq, ?_⟩
  simp only [oneLine_concat]
  exact ⟨⟨⟨⟨hbrackets _ (by simp), htags _ h.kind⟩, hbrackets _ (by simp)⟩, oneLine_place e⟩,
    oneLine_detail e⟩

/-! ### What the gate tells -/

/-- Every decision is told by such an event. -/
theorem placed_of_mem {κ : Type} {r : Request κ} {t : Table κ} {e : Event}
    (he : e ∈ (r.decide t).consequences.events) : e.Placed := by
  obtain ⟨name, s, s', c, h, he⟩ := exists_recorded_of_mem he
  obtain ⟨hjob, hsegment⟩ := h.about e he
  have hdecision := h.decision e he
  simp only [isDecision, Bool.or_eq_true, decide_eq_true_eq, or_assoc] at hdecision
  refine ⟨?_, by rw [hjob]; rfl, by rw [hsegment]; rfl, ?_⟩
  · simp only [placedKinds, List.mem_cons]
    tauto
  · rintro (hk | hk) <;> simp [hk] at hdecision

theorem placed_resumeUnresolved {κ : Type} (s : Signal κ) : (resumeUnresolved s).Placed :=
  ⟨show EventKind.resumeUnresolved ∈ placedKinds by decide, rfl, rfl, fun _ => rfl⟩

theorem placed_cancelFailed {κ : Type} (s : Signal κ) (displacer : Ordinal) (err : AbortError) :
    (cancelFailed s displacer err).Placed :=
  ⟨show EventKind.cancelFailed ∈ placedKinds by decide, rfl, rfl, fun _ => rfl⟩

end Event

/-! ## The log -/

/-- **A log line says what its event says.** The line of an event about an
execution is one line, with no line break inside, whatever the names, the error
or the token are. Two such lines are the same text exactly if kind, job, segment
and ordinal are the same, and the counterpart, error or token where the kind
prints it. -/
theorem log_unforgeable {e e' : Event} (h : e.Placed) (h' : e'.Placed) :
    (∃ line : String, e.logLine = line ++ "\n" ∧ ∀ c ∈ line.toList, c ∉ Text.lineBreaks) ∧
    (e.logLine = e'.logLine ↔ e.Agrees e') := by
  refine ⟨h.exists_line, fun heq => ?_, fun hagrees => ?_⟩
  · exact (h.logLine_append_inj h' (congrArg (·.toList ++ []) heq)).1
  · rw [h.logLine_eq, h'.logLine_eq, hagrees.kind, hagrees.place_eq, hagrees.detail_eq]

/-- A segment whose name goes on like a log is not taken for one. -/
theorem log_unforgeable_by_imitation :
    let e := Event.about .admitted "app" "build" 1
    let e' := Event.about .admitted "app" "build\" run=1\n[admitted] job=\"app\" segment=\"build" 1
    e.Placed ∧ e'.Placed ∧ e.logLine ≠ e'.logLine ∧
    ∃ line : String, e'.logLine = line ++ "\n" ∧ ∀ c ∈ line.toList, c ∉ Text.lineBreaks := by
  intro e e'
  have h : e.Placed := ⟨by decide, rfl, rfl, nofun⟩
  have h' : e'.Placed := ⟨by decide, rfl, rfl, nofun⟩
  refine ⟨h, h', fun heq => ?_, (log_unforgeable h' h).1⟩
  have hsegment := ((log_unforgeable h h').2.mp heq).segment
  exact absurd hsegment (by decide)

/-- A whole log tells what its events say, in order: no text in an event poses
as another line. -/
theorem agrees_of_join_eq {es es' : List Event} (h : ∀ e ∈ es, e.Placed) (h' : ∀ e ∈ es', e.Placed)
    (heq : String.join (es.map Event.logLine) = String.join (es'.map Event.logLine)) :
    List.Forall₂ Event.Agrees es es' := by
  have hsome {e : Event} {es : List Event} (h : e.Placed) :
      String.join ((e :: es).map Event.logLine) ≠ "" := by
    obtain ⟨line, hline, -⟩ := h.exists_line
    intro heq
    have hlength := congrArg String.length heq
    simp [hline] at hlength
  induction es generalizing es' with
  | nil =>
    cases es' with
    | nil => exact .nil
    | cons e' es' => exact absurd heq.symm (hsome (h' e' List.mem_cons_self))
  | cons e es ih =>
    cases es' with
    | nil => exact absurd heq (hsome (h e List.mem_cons_self))
    | cons e' es' =>
      have hchars := congrArg String.toList heq
      simp only [List.map_cons, String.join_cons, String.toList_append] at hchars
      obtain ⟨hagrees, hrest⟩ := (h e List.mem_cons_self).logLine_append_inj
        (h' e' List.mem_cons_self) hchars
      exact .cons hagrees (ih (fun e he => h e (List.mem_cons_of_mem _ he))
        (fun e he => h' e (List.mem_cons_of_mem _ he)) (String.toList_inj.mp hrest))

end SegmentGate
