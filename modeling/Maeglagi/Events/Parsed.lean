import Mathlib.Tactic.IntervalCases
import Maeglagi.Core.JsonTexts
import Maeglagi.Events.Sse

/-!
# The events that the client parses

`JSON.parse` reads what either writer of the backend writes: the value of an event comes back
with its texts in code units, its numbers as doubles and the last field of every key.
-/

namespace Maeglagi.Events

open Core Core.JsonTexts

/-! ## What is read -/

/-- The number that some digits go on with. -/
def appendDigits (start : ℕ) (digits : List (Fin 10)) : ℕ :=
  digits.foldl (fun value d => 10 * value + d.val) start

/-- The exponent that is written. -/
def JsonNumber.shift (n : JsonNumber) : ℤ :=
  match n.exponent with
  | none => 0
  | some (true, digits) => -(appendDigits 0 digits : ℤ)
  | some (false, digits) => appendDigits 0 digits

/-- The double that a number is read as. -/
def JsonNumber.seen (n : JsonNumber) : JsNumber :=
  .ofDecimal n.negative (appendDigits n.whole n.fraction) (n.shift - n.fraction.length)

mutual

/-- The value that a value is read as. -/
def Json.seen : Json → JsonValue
  | .null => .null
  | .bool b => .bool b
  | .number n => .number n.seen
  | .str t => .string (codeUnits t)
  | .arr items => .array (itemsSeen items)
  | .obj fields => .object (assignFields (fieldsSeen fields))

def itemsSeen : List Json → List JsonValue
  | [] => []
  | v :: items => v.seen :: itemsSeen items

def fieldsSeen : List (Text × Json) → List (JsString × JsonValue)
  | [] => []
  | (k, v) :: fields => (codeUnits k, v.seen) :: fieldsSeen fields

end

/-- An exponent has a digit. -/
def JsonNumber.Proper (n : JsonNumber) : Prop := ∀ e ∈ n.exponent, e.2 ≠ []

mutual

/-- The numbers of a value have digits. -/
def Json.Proper : Json → Prop
  | .number n => n.Proper
  | .arr items => ItemsProper items
  | .obj fields => FieldsProper fields
  | _ => True

def ItemsProper : List Json → Prop
  | [] => True
  | v :: items => v.Proper ∧ ItemsProper items

def FieldsProper : List (Text × Json) → Prop
  | [] => True
  | (_, v) :: fields => v.Proper ∧ FieldsProper fields

end

theorem codeUnits_cons (c : Char) (t : Text) : codeUnits (c :: t) = utf16 c ++ codeUnits t :=
  List.flatMap_cons

theorem codeUnits_append (s t : Text) : codeUnits (s ++ t) = codeUnits s ++ codeUnits t :=
  List.flatMap_append

theorem utf16_ne_nil (c : Char) : utf16 c ≠ [] := by
  unfold utf16
  split_ifs <;> simp

/-- No text has fewer code units than characters. -/
theorem length_le_codeUnits (t : Text) : t.length ≤ (codeUnits t).length := by
  induction t with
  | nil => exact le_rfl
  | cons c t ih =>
    have hc := List.length_pos_of_ne_nil (utf16_ne_nil c)
    rw [codeUnits_cons, List.length_cons, List.length_append]
    omega

/-! ## Strings -/

/-- The unit stands for itself within a string. -/
def IsRaw (u : CodeUnit) : Prop := 32 ≤ u.toNat ∧ u ≠ quotationMark ∧ u ≠ backslash

theorem readString_units {units : JsString} (h : ∀ u ∈ units, IsRaw u) (rest : JsString) :
    readString (units ++ rest) = (readString rest).map (Prod.map (units ++ ·) id) := by
  induction units with
  | nil => exact Option.map_id'.symm
  | cons u units ih =>
    rw [List.forall_mem_cons] at h
    obtain ⟨⟨hcontrol, hquote, hback⟩, hunits⟩ := h
    have hraw : ¬ u < 32 := by
      rw [UInt16.lt_iff_toNat_lt]
      exact Nat.not_lt.mpr hcontrol
    rw [List.cons_append, readString_raw hquote hback hraw, ih hunits, Option.map_map]
    rfl

/-- A unit of a character from the space on is raw, the quotation mark and the backslash apart. -/
theorem isRaw_utf16 {c : Char} (hcontrol : 32 ≤ c.toNat) (hquote : c ≠ '"') (hback : c ≠ '\\') :
    ∀ u ∈ utf16 c, IsRaw u := by
  have hne (d : Char) (hd : c ≠ d) : c.toNat ≠ d.toNat := fun h =>
    hd (Char.ext (UInt32.toNat_inj.mp h))
  have h34 : c.toNat ≠ 34 := hne '"' hquote
  have h92 : c.toNat ≠ 92 := hne '\\' hback
  have hof (n : ℕ) (hn : n < 65536) (h32 : 32 ≤ n) (h34 : n ≠ 34) (h92 : n ≠ 92) :
      IsRaw (.ofNat n) := by
    have hvalue : (UInt16.ofNat n).toNat = n := by
      rw [UInt16.toNat_ofNat']
      omega
    refine ⟨by rw [hvalue]; exact h32, ?_, ?_⟩
    · intro heq
      rw [heq] at hvalue
      exact h34 hvalue.symm
    · intro heq
      rw [heq] at hvalue
      exact h92 hvalue.symm
  have hmax : c.toNat < 0x110000 := by
    have := c.valid
    rcases this with h | h
    · exact lt_trans h (by decide)
    · exact h.2
  intro u hu
  unfold utf16 at hu
  split_ifs at hu with hsmall
  · rw [List.mem_singleton.mp hu]
    exact hof _ hsmall hcontrol h34 h92
  · rcases List.mem_pair.mp hu with rfl | rfl
    · exact hof _ (by omega) (by omega) (by omega) (by omega)
    · exact hof _ (by omega) (by omega) (by omega) (by omega)

/-- A short control character is written as a unit in hexadecimal digits. -/
theorem codeUnits_control {n : ℕ} (h : n < 32) :
    codeUnits ['\\', 'u', '0', '0', hexDigit (n / 16), hexDigit (n % 16)] =
      unicodeEscape (.ofNat n) := by
  interval_cases n <;> rfl

/-- A character is read from its escape. -/
theorem readString_escapeChar (c : Char) (rest : JsString) :
    readString (codeUnits (escapeChar c) ++ rest) =
      (readString rest).map (Prod.map (utf16 c ++ ·) id) := by
  have hone (u : CodeUnit) (hu : utf16 c = [u]) :
      before u = Prod.map (utf16 c ++ ·) (id : JsString → JsString) := by
    ext r <;> simp [before, hu]
  have hcode (n : ℕ) (hn : c.toNat = n) (hsmall : n < 0x10000) : utf16 c = [.ofNat n] := by
    rw [utf16, if_pos (hn ▸ hsmall), hn]
  unfold escapeChar
  split_ifs with hquote hback hn hr ht hb hf hcontrol
  · subst hquote
    exact readString_escape (by decide) (by decide) rest
  · subst hback
    exact readString_escape (by decide) (by decide) rest
  · subst hn
    exact readString_escape (by decide) (by decide) rest
  · subst hr
    exact readString_escape (by decide) (by decide) rest
  · subst ht
    exact readString_escape (by decide) (by decide) rest
  · rw [← hone 8 (hcode 8 hb (by decide))]
    exact readString_escape (by decide) (by decide) rest
  · rw [← hone 12 (hcode 12 hf (by decide))]
    exact readString_escape (by decide) (by decide) rest
  · rw [codeUnits_control hcontrol, readString_unicodeEscape,
      hone _ (hcode c.toNat rfl (by omega))]
  · rw [codeUnits_cons, codeUnits, List.flatMap_nil, List.append_nil]
    exact readString_units (isRaw_utf16 (Nat.le_of_not_lt hcontrol) hquote hback) rest

/-- A text is read from what stands between its quotation marks. -/
theorem readString_quoted (t : Text) (rest : JsString) :
    readString (codeUnits (t.flatMap escapeChar) ++ quotationMark :: rest) =
      some (codeUnits t, rest) := by
  induction t with
  | nil =>
    rw [List.flatMap_nil, codeUnits, List.flatMap_nil, List.nil_append, readString.eq_def]
    rfl
  | cons c t ih =>
    rw [List.flatMap_cons, codeUnits_append, List.append_assoc, readString_escapeChar, ih,
      codeUnits_cons]
    rfl

theorem codeUnits_quoted (t : Text) :
    codeUnits (quoted t) =
      quotationMark :: (codeUnits (t.flatMap escapeChar) ++ [quotationMark]) := by
  rw [quoted, List.cons_append, codeUnits_cons, codeUnits_append]
  rfl

/-! ## Numbers -/

theorem codeUnits_digitsText (digits : List (Fin 10)) :
    codeUnits (digitsText digits) = digits.map fun d : Fin 10 => .ofNat (48 + d.val) := by
  induction digits with
  | nil => rfl
  | cons d digits ih =>
    have hd : utf16 (hexDigit d.val) = [.ofNat (48 + d.val)] := by
      revert d
      decide
    rw [digitsText, List.map_cons, codeUnits_cons, hd, List.map_cons, ← ih]
    rfl

theorem allDigits_digitsText (digits : List (Fin 10)) :
    AllDigits (codeUnits (digitsText digits)) := by
  intro c hc
  rw [codeUnits_digitsText] at hc
  obtain ⟨d, -, rfl⟩ := List.mem_map.mp hc
  exact isJsDigit_digit d.isLt

/-- Digits behind others go on with the number. -/
theorem digitsValue_digitsText (s : JsString) (digits : List (Fin 10)) :
    digitsValue (s ++ codeUnits (digitsText digits)) = appendDigits (digitsValue s) digits := by
  induction digits using List.reverseRecOn with
  | nil =>
    rw [digitsText, List.map_nil, codeUnits, List.flatMap_nil, List.append_nil]
    rfl
  | append_singleton digits d ih =>
    rw [codeUnits_digitsText] at ih
    rw [codeUnits_digitsText, List.map_append, List.map_singleton, ← List.append_assoc,
      digitsValue_concat, ih, toNat_digit d.isLt, Nat.add_sub_cancel_left, appendDigits,
      appendDigits, List.foldl_append]
    rfl

/-- The digits of a number, one more behind them. -/
theorem decimalDigits_of_le {n : ℕ} (h : 10 ≤ n) :
    decimalDigits n = decimalDigits (n / 10) ++ [.ofNat (48 + n % 10)] := by
  have hdigits : Nat.digits 10 n = n % 10 :: Nat.digits 10 (n / 10) :=
    Nat.digits_def' (by decide) (by omega)
  rw [decimalDigits, if_neg (by omega), decimalDigits, if_neg (by omega), hdigits,
    List.reverse_cons, List.map_append]
  rfl

theorem codeUnits_toDigits (n : ℕ) : codeUnits (Nat.toDigits 10 n) = decimalDigits n := by
  have hdigit : ∀ d < 10, codeUnits [d.digitChar] = [.ofNat (48 + d)] := by decide
  induction n using Nat.strongRecOn with
  | ind n ih =>
    by_cases h : n < 10
    · rw [Nat.toDigits_of_lt_base h, hdigit n h]
      interval_cases n <;> rfl
    · rw [Nat.toDigits_of_base_le (by decide) (Nat.le_of_not_lt h), codeUnits_append,
        ih (n / 10) (by omega), hdigit _ (Nat.mod_lt n (by decide)),
        decimalDigits_of_le (Nat.le_of_not_lt h)]

/-- No number but zero begins with a zero, and zero is one digit. -/
theorem leading_decimalDigits (n : ℕ) :
    (decimalDigits n).head? ≠ some zeroDigit ∨ (decimalDigits n).length = 1 := by
  by_cases h : n = 0
  · subst h
    exact Or.inr rfl
  · exact Or.inl (head?_decimalDigits h)

/-- What a number is written with behind its digits. -/
def exponentUnits : Option (Bool × List (Fin 10)) → JsString
  | none => []
  | some (negative, digits) =>
    exponentSign :: (if negative then minusSign else plusSign) :: codeUnits (digitsText digits)

theorem readExponent_units {n : JsonNumber} (hn : n.Proper) {rest : JsString}
    (hrest : EndsNumber rest) :
    readExponent (exponentUnits n.exponent ++ rest) = some (n.shift, rest) := by
  unfold JsonNumber.Proper at hn
  unfold JsonNumber.shift
  cases hexp : n.exponent with
  | none =>
    cases rest with
    | nil => rfl
    | cons c rest =>
      obtain ⟨-, -, he, hE⟩ := hrest c rfl
      rw [exponentUnits, List.nil_append, readExponent, if_neg (not_or.mpr ⟨he, hE⟩)]
  | some e =>
    obtain ⟨negative, digits⟩ := e
    have hne : codeUnits (digitsText digits) ≠ [] := by
      rw [codeUnits_digitsText]
      simpa using hn _ hexp
    have hread := readDigits_append (allDigits_digitsText digits) hne hrest.digits
    have hvalue : digitsValue (codeUnits (digitsText digits)) = appendDigits 0 digits :=
      digitsValue_digitsText [] digits
    rw [exponentUnits, List.cons_append, List.cons_append, readExponent, if_pos (Or.inl rfl),
      readSigned]
    cases negative with
    | true => rw [if_pos rfl, if_pos rfl, hread, Option.map_some, hvalue]
    | false =>
      rw [if_neg Bool.false_ne_true, if_neg (by decide), if_pos rfl, hread, Option.map_some,
        hvalue]

theorem ends_exponentUnits (exponent : Option (Bool × List (Fin 10))) {rest : JsString}
    (hrest : EndsNumber rest) :
    ∀ c ∈ (exponentUnits exponent ++ rest).head?, isJsDigit c = false ∧ c ≠ decimalPoint := by
  cases exponent with
  | none => exact fun c hc => ⟨(hrest c hc).1, (hrest c hc).2.1⟩
  | some e =>
    rintro c ⟨⟩
    decide

/-- The code units of a number. -/
theorem codeUnits_number (n : JsonNumber) :
    codeUnits n.text = (if n.negative then [minusSign] else []) ++ (decimalDigits n.whole ++
      (fractionText (codeUnits (digitsText n.fraction)) ++ exponentUnits n.exponent)) := by
  have hsign : codeUnits (if n.negative then ['-'] else []) =
      if n.negative then [minusSign] else [] := by
    cases n.negative <;> rfl
  have hfraction : codeUnits (if n.fraction = [] then [] else '.' :: digitsText n.fraction) =
      fractionText (codeUnits (digitsText n.fraction)) := by
    cases n.fraction with
    | nil => rfl
    | cons d fraction =>
      have hne : codeUnits (digitsText (d :: fraction)) ≠ [] := by simp [codeUnits_digitsText]
      rw [if_neg (List.cons_ne_nil _ _), codeUnits_cons, fractionText, if_neg hne]
      rfl
  rw [JsonNumber.text, codeUnits_append, codeUnits_append, codeUnits_append, hsign, hfraction,
    codeUnits_toDigits, List.append_assoc, List.append_assoc]
  congr 3
  cases n.exponent with
  | none => rfl
  | some e =>
    obtain ⟨negative, digits⟩ := e
    cases negative <;> rfl

/-- A number is read from its text. -/
theorem readNumber_units {n : JsonNumber} (hn : n.Proper) {rest : JsString}
    (hrest : EndsNumber rest) : readNumber (codeUnits n.text ++ rest) = some (n.seen, rest) := by
  have hends := ends_exponentUnits n.exponent hrest
  have hunsigned : readUnsigned (decimalDigits n.whole ++
      (fractionText (codeUnits (digitsText n.fraction)) ++ (exponentUnits n.exponent ++ rest))) =
      some (appendDigits n.whole n.fraction, n.shift - n.fraction.length, rest) := by
    rw [readUnsigned, readWhole_append (allDigits_decimalDigits _) (decimalDigits_ne_nil _)
      (leading_decimalDigits _) (ends_fraction _ fun c hc => (hends c hc).1), Option.bind_some]
    dsimp only
    rw [readFraction_append (allDigits_digitsText _) (fun c hc => (hends c hc).1)
      fun c hc => (hends c hc).2, Option.bind_some]
    dsimp only
    rw [readExponent_units hn hrest, digitsValue_digitsText, digitsValue_decimalDigits,
      codeUnits_digitsText, List.length_map]
    rfl
  rw [codeUnits_number, List.append_assoc, List.append_assoc, List.append_assoc, JsonNumber.seen]
  cases n.negative with
  | true =>
    rw [if_pos rfl, List.singleton_append, readNumber, if_pos rfl, hunsigned]
    rfl
  | false =>
    obtain ⟨c, tail, htext, hc⟩ := exists_cons_of_readUnsigned hunsigned
    rw [if_neg Bool.false_ne_true, List.nil_append]
    rw [htext] at hunsigned ⊢
    rw [readNumber, if_neg (ne_minusSign_of_digit hc), hunsigned]
    rfl

/-- The text of a number begins with a digit or a sign. -/
theorem exists_cons_number (n : JsonNumber) :
    ∃ c tail, codeUnits n.text = c :: tail ∧ (isJsDigit c = true ∨ c = minusSign) := by
  rw [codeUnits_number]
  cases n.negative with
  | true => exact ⟨minusSign, _, rfl, Or.inr rfl⟩
  | false =>
    obtain ⟨c, tail, hdigits⟩ := List.exists_cons_of_ne_nil (decimalDigits_ne_nil n.whole)
    refine ⟨c, tail ++ (fractionText (codeUnits (digitsText n.fraction)) ++
      exponentUnits n.exponent), ?_, Or.inl (allDigits_decimalDigits n.whole c ?_)⟩
    · rw [if_neg Bool.false_ne_true, List.nil_append, hdigits, List.cons_append]
    · rw [hdigits]
      exact List.mem_cons_self

/-! ## Values -/

/-- The blank that a writer leaves behind a comma and a colon. -/
def JsonWriter.gap : JsonWriter → JsString
  | .dumps => [32]
  | .modelDumpJson => []

theorem codeUnits_comma (w : JsonWriter) : codeUnits w.comma = comma :: w.gap := by
  cases w <;> rfl

theorem codeUnits_colon (w : JsonWriter) : codeUnits w.colon = colon :: w.gap := by
  cases w <;> rfl

theorem skipBlanks_gap (w : JsonWriter) (s : JsString) :
    skipBlanks (w.gap ++ s) = skipBlanks s := by
  cases w <;> rfl

theorem readValue_gap (w : JsonWriter) (fuel : ℕ) (s : JsString) :
    readValue fuel (w.gap ++ s) = readValue fuel s := by
  cases fuel with
  | zero => rfl
  | succ fuel => rw [readValue, skipBlanks_gap, readValue]

theorem readItems_gap (w : JsonWriter) (fuel : ℕ) (s : JsString) :
    readItems fuel (w.gap ++ s) = readItems fuel s := by
  cases fuel with
  | zero => rfl
  | succ fuel => rw [readItems, readValue_gap, readItems]

theorem readFields_gap (w : JsonWriter) (fuel : ℕ) (s : JsString) :
    readFields fuel (w.gap ++ s) = readFields fuel s := by
  cases fuel with
  | zero => rfl
  | succ fuel => rw [readFields, expect, skipBlanks_gap, readFields, expect]

/-- The text of a value begins with a unit that is neither blank nor a closing bracket. -/
theorem exists_cons_units (w : JsonWriter) (v : Json) :
    ∃ c tail, codeUnits (v.text w) = c :: tail ∧ isJsonBlank c = false ∧ c ≠ rightBracket := by
  cases v with
  | null => exact ⟨_, _, rfl, by decide⟩
  | bool b => cases b <;> exact ⟨_, _, rfl, by decide⟩
  | number n =>
    obtain ⟨c, tail, htext, hc⟩ := exists_cons_number n
    obtain ⟨hblank, -, -, hbracket, -⟩ := ne_of_number hc
    exact ⟨c, tail, htext, hblank, hbracket⟩
  | str t => exact ⟨_, _, by rw [Json.text, codeUnits_quoted], by decide⟩
  | arr items => exact ⟨leftBracket, _, by rw [Json.text, List.cons_append]; rfl, by decide⟩
  | obj fields => exact ⟨leftBrace, _, by rw [Json.text, List.cons_append]; rfl, by decide⟩

theorem exists_cons_items (w : JsonWriter) (v : Json) (items : List Json) :
    ∃ c tail, codeUnits (itemsText w (v :: items)) = c :: tail ∧ isJsonBlank c = false ∧
      c ≠ rightBracket := by
  obtain ⟨c, tail, htext, hc⟩ := exists_cons_units w v
  cases items with
  | nil => exact ⟨c, tail, by rw [itemsText, htext], hc⟩
  | cons v' items =>
    refine ⟨c, tail ++ codeUnits (w.comma ++ itemsText w (v' :: items)), ?_, hc⟩
    rw [itemsText, List.append_assoc, codeUnits_append, htext, List.cons_append]
    simp

theorem length_text_pos (w : JsonWriter) (v : Json) : 0 < (v.text w).length := by
  obtain ⟨c, tail, htext, -⟩ := exists_cons_units w v
  refine List.length_pos_of_ne_nil fun hnil => ?_
  rw [hnil] at htext
  cases htext

theorem length_comma_pos (w : JsonWriter) : 0 < w.comma.length := by
  cases w <;> decide

/-- The code units of an array that is not empty, and what follows them. -/
theorem codeUnits_arr (w : JsonWriter) (items : List Json) (rest : JsString) :
    codeUnits ((Json.arr items).text w) ++ rest =
      leftBracket :: (codeUnits (itemsText w items) ++ rightBracket :: rest) := by
  rw [Json.text, List.cons_append, codeUnits_cons, codeUnits_append, List.append_assoc,
    List.append_assoc]
  rfl

theorem codeUnits_obj (w : JsonWriter) (fields : List (Text × Json)) (rest : JsString) :
    codeUnits ((Json.obj fields).text w) ++ rest =
      leftBrace :: (codeUnits (fieldsText w fields) ++ rightBrace :: rest) := by
  rw [Json.text, List.cons_append, codeUnits_cons, codeUnits_append, List.append_assoc,
    List.append_assoc]
  rfl

/-- The key of a field is read up to its colon. -/
theorem readFields_key (w : JsonWriter) (fuel : ℕ) (k : Text) (s : JsString) :
    readFields (fuel + 1) (codeUnits (quoted k) ++ (codeUnits w.colon ++ s)) =
      (readValue fuel s).bind fun (v, s) =>
        match expect comma s with
        | some s => (readFields fuel s).map fun (fields, s) => ((codeUnits k, v) :: fields, s)
        | none => (expect rightBrace s).map fun s => ([(codeUnits k, v)], s) := by
  rw [readFields, codeUnits_quoted, List.cons_append, expect_self (by decide), Option.bind_some,
    List.append_assoc, List.singleton_append, readString_quoted, Option.bind_some]
  dsimp only
  rw [codeUnits_colon, List.cons_append, expect_self (by decide), Option.bind_some]
  exact congrArg (Option.bind · _) (readValue_gap w fuel s)

mutual

/-- A value is read from its text, of which the length bounds the steps. -/
theorem readValue_text (w : JsonWriter) : ∀ (v : Json) (fuel : ℕ) (rest : JsString), v.Proper →
    (v.text w).length ≤ fuel → EndsNumber rest →
    readValue fuel (codeUnits (v.text w) ++ rest) = some (v.seen, rest)
  | v, 0, _, _, hfuel, _ => absurd hfuel (Nat.not_le.mpr (length_text_pos w v))
  | .null, fuel + 1, rest, _, _, _ =>
    (readValue_literal (by decide) (by decide) (by decide) (by decide) fuel _).trans
      (readLiteral_null rest)
  | .bool true, fuel + 1, rest, _, _, _ =>
    (readValue_literal (by decide) (by decide) (by decide) (by decide) fuel _).trans
      (readLiteral_bool true rest)
  | .bool false, fuel + 1, rest, _, _, _ =>
    (readValue_literal (by decide) (by decide) (by decide) (by decide) fuel _).trans
      (readLiteral_bool false rest)
  | .number n, fuel + 1, rest, hv, _, hrest => by
    rw [Json.Proper] at hv
    have hread := readNumber_units hv hrest
    obtain ⟨c, tail, htext, hc⟩ := exists_cons_number n
    obtain ⟨hblank, hquote, hbracket, -, hbrace, -⟩ := ne_of_number hc
    rw [htext, List.cons_append] at hread
    rw [Json.text, htext, List.cons_append, readValue_literal hblank hquote hbracket hbrace,
      readLiteral_number hc, hread]
    rfl
  | .str t, fuel + 1, rest, _, _, _ => by
    rw [Json.text, codeUnits_quoted, List.cons_append, List.append_assoc, List.singleton_append,
      readValue, skipBlanks_cons (by decide)]
    dsimp only
    rw [if_pos rfl, readString_quoted]
    rfl
  | .arr [], fuel + 1, rest, _, _, _ => rfl
  | .arr (v :: items), fuel + 1, rest, hv, hfuel, _ => by
    rw [Json.Proper] at hv
    have hlength : (itemsText w (v :: items)).length < fuel := by
      simp only [Json.text, List.length_cons, List.length_append, List.length_nil] at hfuel
      omega
    have hread := readItems_text w v items fuel rest hv hlength
    have hopen :
        expect rightBracket (codeUnits (itemsText w (v :: items)) ++ rightBracket :: rest) =
          none := by
      obtain ⟨c, tail, htext, hblank, hne⟩ := exists_cons_items w v items
      rw [htext, List.cons_append, expect_cons hblank, if_neg hne]
    rw [codeUnits_arr, readValue, skipBlanks_cons (by decide)]
    dsimp only
    rw [if_neg (by decide), if_pos rfl, hopen]
    dsimp only
    rw [hread]
    rfl
  | .obj [], fuel + 1, rest, _, _, _ => rfl
  | .obj (f :: fields), fuel + 1, rest, hv, hfuel, _ => by
    rw [Json.Proper] at hv
    have hlength : (fieldsText w (f :: fields)).length < fuel := by
      simp only [Json.text, List.length_cons, List.length_append, List.length_nil] at hfuel
      omega
    have hread := readFields_text w f fields fuel rest hv hlength
    have hopen :
        expect rightBrace (codeUnits (fieldsText w (f :: fields)) ++ rightBrace :: rest) =
          none := by
      cases fields <;> rfl
    rw [codeUnits_obj, readValue, skipBlanks_cons (by decide)]
    dsimp only
    rw [if_neg (by decide), if_neg (by decide), if_pos rfl, hopen]
    dsimp only
    rw [hread]
    rfl

theorem readItems_text (w : JsonWriter) : ∀ (v : Json) (items : List Json) (fuel : ℕ)
    (rest : JsString), ItemsProper (v :: items) → (itemsText w (v :: items)).length < fuel →
    readItems fuel (codeUnits (itemsText w (v :: items)) ++ rightBracket :: rest) =
      some (itemsSeen (v :: items), rest)
  | _, _, 0, _, _, hfuel => absurd hfuel (Nat.not_lt_zero _)
  | v, [], fuel + 1, rest, hv, hfuel => by
    rw [ItemsProper] at hv
    rw [itemsText] at hfuel
    have hread := readValue_text w v fuel (rightBracket :: rest) hv.1 (Nat.le_of_lt_succ hfuel)
      (endsNumber_cons (by decide) rest)
    rw [itemsText, readItems, hread]
    rfl
  | v, v' :: items, fuel + 1, rest, hv, hfuel => by
    rw [ItemsProper] at hv
    have htext : itemsText w (v :: v' :: items) =
        v.text w ++ (w.comma ++ itemsText w (v' :: items)) := by
      rw [itemsText, List.append_assoc]
      simp
    have hcomma := length_comma_pos w
    rw [htext, List.length_append, List.length_append] at hfuel
    have hread := readValue_text w v fuel (comma :: (w.gap ++
      (codeUnits (itemsText w (v' :: items)) ++ rightBracket :: rest))) hv.1 (by omega)
      (endsNumber_cons (by decide) _)
    have hitems := readItems_text w v' items fuel rest hv.2 (by omega)
    rw [htext, codeUnits_append, codeUnits_append, codeUnits_comma, List.append_assoc,
      List.append_assoc, List.cons_append, readItems, hread, Option.bind_some]
    dsimp only
    rw [expect_self (by decide)]
    dsimp only
    rw [readItems_gap, hitems]
    rfl

theorem readFields_text (w : JsonWriter) : ∀ (f : Text × Json) (fields : List (Text × Json))
    (fuel : ℕ) (rest : JsString), FieldsProper (f :: fields) →
    (fieldsText w (f :: fields)).length < fuel →
    readFields fuel (codeUnits (fieldsText w (f :: fields)) ++ rightBrace :: rest) =
      some (fieldsSeen (f :: fields), rest)
  | _, _, 0, _, _, hfuel => absurd hfuel (Nat.not_lt_zero _)
  | (k, v), [], fuel + 1, rest, hv, hfuel => by
    rw [FieldsProper] at hv
    have htext : fieldsText w [(k, v)] = quoted k ++ (w.colon ++ v.text w) := by
      rw [fieldsText, List.append_assoc]
    rw [htext, List.length_append, List.length_append] at hfuel
    have hread := readValue_text w v fuel (rightBrace :: rest) hv.1 (by omega)
      (endsNumber_cons (by decide) rest)
    rw [htext, codeUnits_append, codeUnits_append, List.append_assoc, List.append_assoc,
      readFields_key, hread]
    rfl
  | (k, v), g :: fields, fuel + 1, rest, hv, hfuel => by
    rw [FieldsProper] at hv
    have htext : fieldsText w ((k, v) :: g :: fields) =
        quoted k ++ (w.colon ++ (v.text w ++ (w.comma ++ fieldsText w (g :: fields)))) := by
      rw [fieldsText, List.append_assoc, List.append_assoc, List.append_assoc]
      simp
    have hcomma := length_comma_pos w
    rw [htext, List.length_append, List.length_append, List.length_append,
      List.length_append] at hfuel
    have hread := readValue_text w v fuel (comma :: (w.gap ++
      (codeUnits (fieldsText w (g :: fields)) ++ rightBrace :: rest))) hv.1 (by omega)
      (endsNumber_cons (by decide) _)
    have hfields := readFields_text w g fields fuel rest hv.2 (by omega)
    rw [htext, codeUnits_append, codeUnits_append, codeUnits_append, codeUnits_append,
      codeUnits_comma, List.append_assoc, List.append_assoc, List.append_assoc,
      List.append_assoc, List.cons_append, readFields_key, hread, Option.bind_some]
    dsimp only
    rw [expect_self (by decide)]
    dsimp only
    rw [readFields_gap, hfields]
    rfl

end

/-- `JSON.parse` reads what either writer wrote. -/
theorem parse_text (w : JsonWriter) {v : Json} (hv : v.Proper) :
    JsonValue.parse (codeUnits (v.text w)) = some v.seen := by
  have hread := readValue_text w v ((codeUnits (v.text w)).length + 1) [] hv
    (le_trans (length_le_codeUnits _) (Nat.le_succ _)) endsNumber_nil
  rw [List.append_nil] at hread
  rw [JsonValue.parse, hread]
  rfl

/-! ## Streams -/

/-- `JSON.parse`, of the payload of a frame. -/
def jsonParse (payload : Text) : Except Unit JsonValue :=
  match JsonValue.parse (codeUnits payload) with
  | some v => .ok v
  | none => .error ()

/-- The object that a frame carries. -/
def Frame.object : Frame → Option Json
  | .data event => some (.obj event)
  | .job response => some (.obj response)
  | .done | .heartbeat => none

/-- The frames are parsed one by one. -/
theorem yieldParsed_payloads {frames : List Frame}
    (h : ∀ frame ∈ frames, ∀ v ∈ frame.object, v.Proper) :
    yieldParsed jsonParse (frames.filterMap Frame.payload) =
      ((frames.filterMap Frame.object).map Json.seen, none) := by
  induction frames with
  | nil => rfl
  | cons frame frames ih =>
    rw [List.forall_mem_cons] at h
    have hobject (w : JsonWriter) (fields : List (Text × Json)) (hfields : (Json.obj fields).Proper)
        (payloads : List Text) (rest : List JsonValue)
        (hrest : yieldParsed jsonParse payloads = (rest, none)) :
        yieldParsed jsonParse (objectText w fields :: payloads) =
          ((Json.obj fields).seen :: rest, none) := by
      have hparse : jsonParse (objectText w fields) = .ok (Json.obj fields).seen := by
        rw [jsonParse, objectText, parse_text w hfields]
      rw [yieldParsed, hparse]
      dsimp only
      rw [hrest]
    have hframes := ih h.2
    cases frame with
    | done => exact hframes
    | heartbeat => exact hframes
    | data event => exact hobject .dumps event (h.1 _ rfl) _ _ hframes
    | job response => exact hobject .modelDumpJson response (h.1 _ rfl) _ _ hframes

/-- However the text of the backend is cut into chunks, the client parses every frame before the
terminal marker to the value that was sent, and throws nothing. -/
theorem parsed_of_frames {frames : List Frame}
    (hframes : ∀ frame ∈ frames, ∀ v ∈ frame.object, v.Proper) {chunks : List Text}
    (hchunks : chunks.flatten = (frames.map Frame.text).flatten) :
    apiStream jsonParse [] chunks =
      (((frames.takeWhile fun frame => !frame.isDone).filterMap Frame.object).map Json.seen,
        none) := by
  rw [apiStream_of_frames jsonParse frames hchunks]
  exact yieldParsed_payloads fun frame hframe => hframes frame (List.takeWhile_subset _ hframe)

/-- What the backend streams is what the client yields: `JSON.parse` of every frame before the
terminal marker gives the value that was written, whatever the chunks are. -/
theorem apiStream_parsed (frames : List Frame)
    (hframes : ∀ frame ∈ frames, ∀ v ∈ frame.object, v.Proper) (chunks : List Text)
    (hchunks : chunks.flatten = (frames.map Frame.text).flatten) :
    apiStream jsonParse [] chunks =
      (((frames.takeWhile fun frame => !frame.isDone).filterMap Frame.object).map Json.seen,
        none) :=
  parsed_of_frames hframes hchunks

/-- A quotation mark that is escaped, cut between its backslash and itself. -/
theorem apiStream_parsed_cut :
    apiStream jsonParse []
        ["data: \x7b\"type\": \"token\", \"text\": \"\\".toList,
          "\"\"\x7d\n\ndata: [DONE]\n\n".toList] =
      ([(Json.obj [("type".toList, .str "token".toList), ("text".toList, .str ['"'])]).seen],
        none) :=
  apiStream_parsed
    [.data [("type".toList, .str "token".toList), ("text".toList, .str ['"'])], .done]
    (by
      intro frame hframe v hv
      rcases List.mem_pair.mp hframe with rfl | rfl
      · cases hv
        simp [Json.Proper, FieldsProper]
      · cases hv)
    _ (by decide +kernel)

end Maeglagi.Events
