import Mathlib.Data.List.TakeWhile
import SegmentGate.Json.Parser
import SegmentGate.Json.Printer

/-!
# Written JSON is read back

`read?_render`: a value that was written, in any layout that puts nothing but
blanks between tokens, is read back as itself. The proof goes by way of the
tokens that spell a value (`tokens`): the scanner cuts the written text into
them (`scan_write`), and the parser builds the value from them
(`ofTokens?_tokens`).

A number or a bare word has no end of its own: it ends where a character comes
that ends words, or where the document ends (`Ends`). What follows a value
inside a document always does.
-/
namespace SegmentGate.Json

open SegmentGate.Text (Symbols)

/-- A value as it is read back once it is written. -/
def asRead (j : Written) : Read := j.map some some

/-! ## Tokens -/

mutual

/-- The tokens that spell a value. -/
def tokens : Written → List Token
  | .null => [.null]
  | .bool b => [.bool b]
  | .number n => [.number (some n)]
  | .text s => [.text (some s)]
  | .array [] => [.openArray, .closeArray]
  | .array (j :: js) => .openArray :: (tokens j ++ (itemTokens js ++ [.closeArray]))
  | .object [] => [.openObject, .closeObject]
  | .object (m :: ms) =>
    .openObject :: .text (some m.1) :: .colon ::
      (tokens m.2 ++ (memberTokens ms ++ [.closeObject]))

/-- The items after the first. -/
def itemTokens : List Written → List Token
  | [] => []
  | j :: js => .comma :: (tokens j ++ itemTokens js)

/-- The members after the first. -/
def memberTokens : List (String × Written) → List Token
  | [] => []
  | (k, j) :: ms => .comma :: .text (some k) :: .colon :: (tokens j ++ memberTokens ms)

end

/-! ## Scanning: punctuation, blanks and words -/

/-- A word may end here: the document ends, or a character follows that ends
words. -/
def Ends (rest : Symbols) : Prop := ∀ s ∈ rest.head?, ∃ c, s = some c ∧ endsWord c = true

theorem ends_nil : Ends [] := fun _ h => by cases h

theorem ends_cons {c : Char} (h : endsWord c = true) (rest : Symbols) : Ends (some c :: rest) :=
  fun _ hs => ⟨c, by cases hs; rfl, h⟩

theorem endsWord_of_isSpace {c : Char} (h : isSpace c = true) : endsWord c = true := by
  simp [endsWord, h]

theorem Ends.blanks {cs : List Char} (hcs : ∀ c ∈ cs, isSpace c = true) {rest : Symbols}
    (h : Ends rest) : Ends (cs.map some ++ rest) := by
  cases cs with
  | nil => exact h
  | cons c cs => exact ends_cons (endsWord_of_isSpace (hcs c List.mem_cons_self)) _

theorem scan_cons {m m' : Mode} {s : Option Char} {out : List Token}
    (h : m.step s = some (m', out)) (rest : Symbols) :
    m.scan (s :: rest) = (m'.scan rest).map (out ++ ·) := by
  simp only [Mode.scan, h, Option.bind_eq_bind, Option.bind_some]
  cases m'.scan rest <;> rfl

/-- A symbol that completes no token. -/
theorem scan_cons_silent {m m' : Mode} {s : Option Char} (h : m.step s = some (m', []))
    (rest : Symbols) : m.scan (s :: rest) = m'.scan rest := by
  simp [scan_cons h]

theorem scan_between_cons (c : Char) (rest : Symbols) :
    Mode.between.scan (some c :: rest) =
      ((Mode.start c).1.scan rest).map ((Mode.start c).2 ++ ·) :=
  scan_cons rfl rest

/-- A character that is a token of its own. -/
theorem scan_mark {c : Char} {t : Token} (h : Mode.start c = (.between, [t])) (rest : Symbols) :
    Mode.between.scan (some c :: rest) = (Mode.between.scan rest).map (t :: ·) := by
  rw [scan_between_cons, h]
  rfl

theorem scan_blanks {cs : List Char} (hcs : ∀ c ∈ cs, isSpace c = true) (rest : Symbols) :
    Mode.between.scan (cs.map some ++ rest) = Mode.between.scan rest := by
  induction cs with
  | nil => rfl
  | cons c cs ih =>
    rw [List.map_cons, List.cons_append, scan_between_cons]
    simp [Mode.start, hcs c List.mem_cons_self, ih fun d hd => hcs d (List.mem_cons_of_mem _ hd)]

theorem scan_in_word {cs : List Char} (hcs : ∀ c ∈ cs, endsWord c = false) (w : List Char)
    (rest : Symbols) :
    (Mode.word w).scan (cs.map some ++ rest) = (Mode.word (cs.reverse ++ w)).scan rest := by
  induction cs generalizing w with
  | nil => rfl
  | cons c cs ih =>
    have hc : (Mode.word w).step (some c) = some (.word (c :: w), []) := by
      simp [Mode.step, hcs c List.mem_cons_self]
    rw [List.map_cons, List.cons_append, scan_cons_silent hc,
      ih fun d hd => hcs d (List.mem_cons_of_mem _ hd)]
    simp

theorem scan_end_of_word {w : List Char} {t : Token} (hw : Token.ofWord w.reverse = some t)
    {rest : Symbols} (h : Ends rest) :
    (Mode.word w).scan rest = (Mode.between.scan rest).map (t :: ·) := by
  cases rest with
  | nil => simp [Mode.scan, Mode.finish, hw]
  | cons s rest =>
    obtain ⟨c, rfl, hc⟩ := h s rfl
    have hs : (Mode.word w).step (some c) =
        some ((Mode.start c).1, t :: (Mode.start c).2) := by
      simp [Mode.step, hc, hw]
    rw [scan_cons hs, scan_between_cons, Option.map_map]
    rfl

/-- A bare word is one token. -/
theorem scan_word {c : Char} {cs : List Char} {t : Token}
    (hword : (c :: cs).any endsWord = false) (ht : Token.ofWord (c :: cs) = some t)
    {rest : Symbols} (h : Ends rest) :
    Mode.between.scan ((c :: cs).map some ++ rest) = (Mode.between.scan rest).map (t :: ·) := by
  have hcs : ∀ d ∈ c :: cs, endsWord d = false := by
    simpa only [List.any_eq_false, Bool.not_eq_true] using hword
  have hc := hcs c List.mem_cons_self
  simp only [endsWord, Bool.or_eq_false_iff, decide_eq_false_iff_not,
    Option.isSome_eq_false_iff, Option.isNone_iff_eq_none] at hc
  rw [List.map_cons, List.cons_append, scan_between_cons]
  simp only [Mode.start, hc, Bool.false_eq_true, if_false, List.nil_append, Option.map_id']
  rw [scan_in_word (fun d hd => hcs d (List.mem_cons_of_mem _ hd)), scan_end_of_word _ h]
  simpa using ht

/-! ## Scanning: numbers -/

theorem isDigit_of_endsWord {c : Char} (h : endsWord c = true) : c.isDigit = false := by
  simp only [endsWord, isSpace, Bool.or_eq_true, decide_eq_true_eq] at h
  rcases h with ((((rfl | rfl) | rfl) | rfl) | rfl) | h
  · rfl
  · rfl
  · rfl
  · rfl
  · rfl
  · unfold Token.ofPunctuation at h
    split at h
    case h_7 => cases h
    all_goals rfl

theorem endsWord_of_isDigit {c : Char} (h : c.isDigit = true) : endsWord c = false := by
  cases he : endsWord c with
  | false => rfl
  | true => rw [isDigit_of_endsWord he] at h; cases h

/-- Only zero is written with a leading zero. -/
theorem eq_zero_of_head?_write {n : Nat} (h : (Text.Decimal.write n).head? = some '0') :
    n = 0 := by
  induction n using Nat.strongRecOn with
  | ind n ih =>
    rw [Text.Decimal.write, Nat.toDigits_eq_if (by decide)] at h
    split at h
    · rename_i hn
      have : ∀ d : Fin 10, d.val.digitChar = '0' → d.val = 0 := by decide
      exact this ⟨n, hn⟩ (by simpa using h)
    · have hne : Nat.toDigits 10 (n / 10) ≠ [] := Nat.toDigits_ne_nil
      rw [List.head?_append, List.head?_eq_some_head hne, Option.some_or,
        ← List.head?_eq_some_head hne] at h
      have := ih (n / 10) (by omega) h
      omega

theorem isNumber_write (n : Nat) : isNumber (Text.Decimal.write n) = true := by
  have hd : ∀ c ∈ Text.Decimal.write n, c.isDigit = true :=
    fun c => Nat.isDigit_of_mem_toDigits (by decide) (by decide)
  have h0 : (Text.Decimal.write n).head? = some '0' → Text.Decimal.write n = ['0'] :=
    fun h => eq_zero_of_head?_write h ▸ rfl
  cases hw : Text.Decimal.write n with
  | nil => exact absurd hw Nat.toDigits_ne_nil
  | cons c cs =>
    rw [hw] at hd h0
    unfold isNumber
    split
    · rename_i e
      cases e
      exact absurd (hd '-' List.mem_cons_self) (by decide)
    · unfold isMagnitude
      split
      · rename_i e
        cases e
        cases h0 rfl
        rfl
      · rename_i e
        cases e
        have hdrop : cs.dropWhile Char.isDigit = [] :=
          List.dropWhile_eq_nil_iff.mpr fun d hm => hd d (List.mem_cons_of_mem _ hm)
        rw [hdrop, hd c List.mem_cons_self]
        rfl
      · rename_i e
        cases e

theorem ofWord_write (n : Nat) :
    Token.ofWord (Text.Decimal.write n) = some (.number (some n)) := by
  have hd : ∀ c ∈ Text.Decimal.write n, c.isDigit = true :=
    fun c => Nat.isDigit_of_mem_toDigits (by decide) (by decide)
  have hword {cs : List Char} (c : Char) (hc : c ∈ cs) (hnd : c.isDigit = false) :
      Text.Decimal.write n ≠ cs := fun e => by
    rw [hd c (e ▸ hc)] at hnd
    cases hnd
  rw [Token.ofWord, if_neg (hword 'n' (by decide) rfl), if_neg (hword 't' (by decide) rfl),
    if_neg (hword 'f' (by decide) rfl), if_pos (isNumber_write n), natural?,
    if_pos (isNumber_write n), Text.Decimal.read?_write]

theorem scan_number (n : Nat) {rest : Symbols} (h : Ends rest) :
    Mode.between.scan ((Text.Decimal.write n).map some ++ rest) =
      (Mode.between.scan rest).map (.number (some n) :: ·) := by
  cases hw : Text.Decimal.write n with
  | nil => exact absurd hw Nat.toDigits_ne_nil
  | cons c cs =>
    refine scan_word (List.any_eq_false.mpr fun d hd => ?_) (hw ▸ ofWord_write n) h
    have hmem : d ∈ Text.Decimal.write n := hw ▸ hd
    rw [endsWord_of_isDigit (Nat.isDigit_of_mem_toDigits (by decide) (by decide) hmem)]
    exact Bool.false_ne_true

/-! ## Scanning: texts -/

/-- The piece that a written character is read as. -/
def pieceOf (c : Char) : Piece :=
  if c.toNat < 0x20 ∧ c ∉ ['\x08', '\x0c', '\n', '\r', '\t'] then .unit c.toNat else .char c

theorem join_map_pieceOf (cs : List Char) : Piece.join (cs.map pieceOf) = some cs := by
  induction cs with
  | nil => rfl
  | cons c cs ih =>
    rw [List.map_cons, pieceOf]
    split
    · rename_i h
      have hh : isHighUnit c.toNat = false := by simp [isHighUnit]; omega
      have hl : isLowUnit c.toNat = false := by simp [isLowUnit]; omega
      rw [Piece.join.eq_def]
      simp [hh, hl, ih]
    · simp [Piece.join, ih]

theorem hexDigit?_digitChar {d : Nat} (h : d < 16) : hexDigit? d.digitChar = some d := by
  have : ∀ d : Fin 16, hexDigit? d.val.digitChar = some d.val := by decide
  exact this ⟨d, h⟩

theorem scan_escape {d c : Char} (hu : d ≠ 'u') (h : ofEscape d = some c) (ps : List Piece)
    (rest : Symbols) :
    (Mode.quoted ps).scan (['\\', d].map some ++ rest) =
      (Mode.quoted (.char c :: ps)).scan rest := by
  have hstep : (Mode.escape ps).step (some d) = some (.quoted (.char c :: ps), []) := by
    simp [Mode.step, hu, h]
  exact (scan_cons_silent rfl _).trans (scan_cons_silent hstep _)

theorem scan_unit {n : Nat} (h : n < 256) (ps : List Piece) (rest : Symbols) :
    (Mode.quoted ps).scan
        (['\\', 'u', '0', '0', (n / 16).digitChar, (n % 16).digitChar].map some ++ rest) =
      (Mode.quoted (.unit n :: ps)).scan rest := by
  have hhigh : (Mode.hex ps 2 0).step (some (n / 16).digitChar) =
      some (.hex ps 3 (n / 16), []) := by
    simp [Mode.step, hexDigit?_digitChar (show n / 16 < 16 by omega)]
  have hlow : (Mode.hex ps 3 (n / 16)).step (some (n % 16).digitChar) =
      some (.quoted (.unit n :: ps), []) := by
    simp [Mode.step, hexDigit?_digitChar (show n % 16 < 16 by omega)]
    omega
  calc
    _ = (Mode.escape ps).scan _ := scan_cons_silent rfl _
    _ = (Mode.hex ps 0 0).scan _ := scan_cons_silent rfl _
    _ = (Mode.hex ps 1 0).scan _ := scan_cons_silent rfl _
    _ = (Mode.hex ps 2 0).scan _ := scan_cons_silent rfl _
    _ = (Mode.hex ps 3 (n / 16)).scan _ := scan_cons_silent hhigh _
    _ = _ := scan_cons_silent hlow _

theorem scan_encodeChar (c : Char) (ps : List Piece) (rest : Symbols) :
    (Mode.quoted ps).scan ((encodeChar c).map some ++ rest) =
      (Mode.quoted (pieceOf c :: ps)).scan rest := by
  unfold encodeChar
  -- The seven characters with an escape of one letter.
  iterate 7
    split
    · subst_vars
      exact scan_escape (by decide) rfl ps rest
  split
  · rename_i hctl
    have hp : pieceOf c = .unit c.toNat := by
      rw [pieceOf, if_pos]
      simp_all
    rw [hp]
    exact scan_unit (by omega) ps rest
  · rename_i hq hb _ _ _ _ _ hctl
    have hp : pieceOf c = .char c := if_neg fun h => hctl h.1
    rw [hp]
    exact scan_cons_silent (by simp [Mode.step, hq, hb, hctl]) rest

theorem scan_encodeChars (cs : List Char) (ps : List Piece) (rest : Symbols) :
    (Mode.quoted ps).scan ((cs.flatMap encodeChar).map some ++ rest) =
      (Mode.quoted ((cs.map pieceOf).reverse ++ ps)).scan rest := by
  induction cs generalizing ps with
  | nil => rfl
  | cons c cs ih =>
    rw [List.flatMap_cons, List.map_append, List.append_assoc, scan_encodeChar, ih]
    simp

theorem scan_writeText (s : String) (rest : Symbols) :
    Mode.between.scan ((writeText s).map some ++ rest) =
      (Mode.between.scan rest).map (.text (some s) :: ·) := by
  have hread : quotedText (s.toList.map pieceOf).reverse = .text (some s) := by
    simp [quotedText, join_map_pieceOf]
  have hclose : (Mode.quoted (s.toList.map pieceOf).reverse).step (some '"') =
      some (.between, [.text (some s)]) := by
    rw [← hread]
    rfl
  calc
    _ = (Mode.quoted []).scan (((s.toList.flatMap encodeChar).map some) ++ some '"' :: rest) := by
      rw [writeText, List.map_cons, List.cons_append, scan_cons_silent rfl]
      simp
    _ = (Mode.quoted (s.toList.map pieceOf).reverse).scan (some '"' :: rest) := by
      rw [scan_encodeChars, List.append_nil]
    _ = _ := scan_cons hclose rest

/-! ## Scanning: values -/

/-- The layout puts nothing but blanks between tokens. -/
structure Layout.Blank (l : Layout) : Prop where
  newline : ∀ level, ∀ c ∈ l.newline level, isSpace c = true
  afterColon : ∀ c ∈ l.afterColon, isSpace c = true

theorem Layout.compact_blank : Layout.compact.Blank where
  newline _ _ h := by cases h
  afterColon _ h := by cases h

theorem Layout.pretty_blank : Layout.pretty.Blank where
  newline level c h := by
    rcases List.mem_cons.mp h with rfl | h
    · rfl
    · rw [List.eq_of_mem_replicate h]
      rfl
  afterColon c h := by
    rw [List.mem_singleton.mp h]
    rfl

section Values
variable {l : Layout}

theorem ends_writeItems (level : Nat) (js : List Written) {rest : Symbols} (h : Ends rest) :
    Ends ((writeItems l level js).map some ++ rest) := by
  cases js with
  | nil => exact h
  | cons => exact ends_cons rfl _

theorem ends_writeMembers (level : Nat) (ms : List (String × Written)) {rest : Symbols}
    (h : Ends rest) : Ends ((writeMembers l level ms).map some ++ rest) := by
  cases ms with
  | nil => exact h
  | cons => exact ends_cons rfl _

/-- A key with its colon. -/
theorem scan_key (hl : l.Blank) (k : String) (rest : Symbols) :
    Mode.between.scan ((writeText k).map some ++ some ':' :: (l.afterColon.map some ++ rest)) =
      (Mode.between.scan rest).map (.text (some k) :: .colon :: ·) := by
  rw [scan_writeText, scan_mark (t := .colon) rfl, scan_blanks hl.afterColon, Option.map_map]
  rfl

-- The recursion is that of `write`. What follows a value has to end a word: it
-- is the next item or member, the closing bracket or the end of the text.
mutual

/-- A written value is scanned to its tokens, whatever ends it. -/
theorem scan_write (hl : l.Blank) (level : Nat) (j : Written) {rest : Symbols} (h : Ends rest) :
    Mode.between.scan ((write l level j).map some ++ rest) =
      (Mode.between.scan rest).map (tokens j ++ ·) := by
  match j with
  | .null => exact scan_word rfl rfl h
  | .bool true => exact scan_word rfl rfl h
  | .bool false => exact scan_word rfl rfl h
  | .number n => exact scan_number n h
  | .text s => exact scan_writeText s rest
  | .array [] =>
    simp only [write, tokens, List.map_cons, List.map_nil, List.cons_append, List.nil_append]
    rw [scan_mark (t := .openArray) rfl, scan_mark (t := .closeArray) rfl, Option.map_map]
    rfl
  | .array (j :: js) =>
    have hends : Ends ((l.newline level).map some ++ some ']' :: rest) :=
      (ends_cons rfl rest).blanks (hl.newline level)
    simp only [write, tokens, List.map_cons, List.map_nil, List.map_append, List.cons_append,
      List.append_assoc, List.nil_append]
    rw [scan_mark (t := .openArray) rfl, scan_blanks (hl.newline (level + 1)),
      scan_write hl (level + 1) j (ends_writeItems (level + 1) js hends),
      scan_writeItems hl (level + 1) js hends, scan_blanks (hl.newline level),
      scan_mark (t := .closeArray) rfl]
    simp [Function.comp_def]
  | .object [] =>
    simp only [write, tokens, List.map_cons, List.map_nil, List.cons_append, List.nil_append]
    rw [scan_mark (t := .openObject) rfl, scan_mark (t := .closeObject) rfl, Option.map_map]
    rfl
  | .object ((k, j) :: ms) =>
    have hends : Ends ((l.newline level).map some ++ some '\x7d' :: rest) :=
      (ends_cons rfl rest).blanks (hl.newline level)
    simp only [write, tokens, List.map_cons, List.map_nil, List.map_append, List.cons_append,
      List.append_assoc, List.nil_append]
    rw [scan_mark (t := .openObject) rfl, scan_blanks (hl.newline (level + 1)), scan_key hl,
      scan_write hl (level + 1) j (ends_writeMembers (level + 1) ms hends),
      scan_writeMembers hl (level + 1) ms hends, scan_blanks (hl.newline level),
      scan_mark (t := .closeObject) rfl]
    simp [Function.comp_def]

theorem scan_writeItems (hl : l.Blank) (level : Nat) (js : List Written) {rest : Symbols}
    (h : Ends rest) :
    Mode.between.scan ((writeItems l level js).map some ++ rest) =
      (Mode.between.scan rest).map (itemTokens js ++ ·) := by
  match js with
  | [] => simp [writeItems, itemTokens]
  | j :: js =>
    simp only [writeItems, itemTokens, List.map_cons, List.map_append, List.cons_append,
      List.append_assoc]
    rw [scan_mark (t := .comma) rfl, scan_blanks (hl.newline level),
      scan_write hl level j (ends_writeItems level js h), scan_writeItems hl level js h]
    simp [Function.comp_def]

theorem scan_writeMembers (hl : l.Blank) (level : Nat) (ms : List (String × Written))
    {rest : Symbols} (h : Ends rest) :
    Mode.between.scan ((writeMembers l level ms).map some ++ rest) =
      (Mode.between.scan rest).map (memberTokens ms ++ ·) := by
  match ms with
  | [] => simp [writeMembers, memberTokens]
  | (k, j) :: ms =>
    simp only [writeMembers, memberTokens, List.map_cons, List.map_append, List.cons_append,
      List.append_assoc]
    rw [scan_mark (t := .comma) rfl, scan_blanks (hl.newline level), scan_key hl,
      scan_write hl level j (ends_writeMembers level ms h), scan_writeMembers hl level ms h]
    simp [Function.comp_def]

end

end Values

theorem scan_render {l : Layout} (hl : l.Blank) (j : Written) :
    Token.scan ((render l j).toList.map some) = some (tokens j) := by
  have h := scan_write hl 0 j ends_nil
  rw [List.append_nil] at h
  rw [render, String.toList_ofList, Token.scan, h]
  simp [Mode.scan, Mode.finish]

/-! ## Parsing -/

namespace Parser

/-- The parser after the tokens `ts`. -/
abbrev State.run (s : State) (ts : List Token) : Option State := ts.foldlM State.step s

theorem run_append (s : State) (ts ts' : List Token) :
    s.run (ts ++ ts') = (s.run ts).bind fun s' => s'.run ts' :=
  List.foldlM_append

theorem run_cons (s : State) (t : Token) (ts : List Token) :
    s.run (t :: ts) = (s.step t).bind fun s' => s'.run ts :=
  List.foldlM_cons

/-- A key with its colon. -/
theorem run_key {s : State} {k : String} {done : List (Option String × Read)} {stack : List Frame}
    (h : s.step (.text (some k)) = some (.colon done (some k) stack)) (ts : List Token) :
    s.run (.text (some k) :: .colon :: ts) =
      (State.value (.object done (some k) :: stack)).run ts := by
  rw [run_cons, h]
  rfl

/-- A value does not begin with the end of an array. -/
theorem itemOrClose_run (j : Written) (ts : List Token) (stack : List Frame) :
    (State.itemOrClose stack).run (tokens j ++ ts) =
      (State.value (.array [] :: stack)).run (tokens j ++ ts) := by
  cases j with
  | null => rfl
  | bool b => rfl
  | number n => rfl
  | text s => rfl
  | array js => cases js <;> rfl
  | object ms => cases ms <;> rfl

mutual

theorem run_tokens (j : Written) (stack : List Frame) :
    (State.value stack).run (tokens j) = some (.complete j.asRead stack) := by
  match j with
  | .null => rfl
  | .bool _ => rfl
  | .number _ => rfl
  | .text _ => rfl
  | .array [] => rfl
  | .array (j :: js) =>
    simp only [tokens]
    show (State.itemOrClose stack).run _ = _
    rw [itemOrClose_run, run_append, run_tokens j]
    exact run_itemTokens js j.asRead [] stack
  | .object [] => rfl
  | .object ((k, j) :: ms) =>
    simp only [tokens]
    show (State.keyOrClose stack).run _ = _
    rw [run_key rfl, run_append, run_tokens j]
    exact run_memberTokens ms (some k) j.asRead [] stack

/-- The items after `v`, and the end of their array. -/
theorem run_itemTokens (js : List Written) (v : Read) (done : List Read) (stack : List Frame) :
    (State.complete v (.array done :: stack)).run (itemTokens js ++ [.closeArray]) =
      some (.complete (.array (done.reverse ++ v :: mapItems some some js)) stack) := by
  match js with
  | [] =>
    simp [itemTokens, mapItems, State.step]
  | j :: js =>
    simp only [itemTokens, List.cons_append, List.append_assoc]
    show (State.value (.array (v :: done) :: stack)).run _ = _
    rw [run_append, run_tokens j]
    simpa [mapItems, asRead] using run_itemTokens js j.asRead (v :: done) stack

/-- The members after `k` with `v`, and the end of their object. -/
theorem run_memberTokens (ms : List (String × Written)) (k : Option String) (v : Read)
    (done : List (Option String × Read)) (stack : List Frame) :
    (State.complete v (.object done k :: stack)).run (memberTokens ms ++ [.closeObject]) =
      some (.complete (.object (done.reverse ++ (k, v) :: mapMembers some some ms)) stack) := by
  match ms with
  | [] =>
    simp [memberTokens, mapMembers, State.step]
  | (k', j) :: ms =>
    simp only [memberTokens, List.cons_append, List.append_assoc]
    show (State.key ((k, v) :: done) stack).run _ = _
    rw [run_key rfl, run_append, run_tokens j]
    simpa [mapMembers, asRead] using run_memberTokens ms (some k') j.asRead ((k, v) :: done) stack

end

end Parser

theorem ofTokens?_tokens (j : Written) : ofTokens? (tokens j) = some j.asRead := by
  have h : (tokens j).foldlM Parser.State.step (.value []) = _ := Parser.run_tokens j []
  rw [ofTokens?, h]
  rfl

/-- **What is written is read back**, in every layout that puts nothing but
blanks between tokens. -/
theorem read?_render {l : Layout} (hl : l.Blank) (j : Written) :
    read? (render l j).toUTF8 = some j.asRead := by
  rw [read?, Text.Symbols.ofBytes_toUTF8, scan_render hl]
  exact ofTokens?_tokens j

end SegmentGate.Json
