import Maeglagi.Core.Dict
import Maeglagi.Core.NumberTexts

/-!
# JSON of JavaScript

`JSON.stringify` of values without functions and `JSON.parse`. What is stringified and parsed is
the same value again where its numbers are finite and none of them is negative zero.
-/

namespace Maeglagi.Core.JsonTexts

/-- A value that JSON can be parsed to; the keys of an object are distinct. -/
inductive JsonValue where
  | null
  | bool (b : Bool)
  | number (n : JsNumber)
  | string (s : JsString)
  | array (items : List JsonValue)
  | object (fields : List (JsString × JsonValue))

abbrev quotationMark : CodeUnit := 34
abbrev comma : CodeUnit := 44
abbrev colon : CodeUnit := 58
abbrev leftBracket : CodeUnit := 91
abbrev backslash : CodeUnit := 92
abbrev rightBracket : CodeUnit := 93
abbrev leftBrace : CodeUnit := 123
abbrev rightBrace : CodeUnit := 125

/-- `u` -/
abbrev letterU : CodeUnit := 117

def nullText : JsString := codeUnits "null".toList

def boolText (b : Bool) : JsString := codeUnits (if b then "true" else "false").toList

/-! ## Writing -/

def isLeadSurrogate (c : CodeUnit) : Bool := 0xD800 ≤ c && c ≤ 0xDBFF

def isTrailSurrogate (c : CodeUnit) : Bool := 0xDC00 ≤ c && c ≤ 0xDFFF

/-- A hexadecimal digit in lower case. -/
def hexUnit (n : ℕ) : CodeUnit := if n < 10 then .ofNat (48 + n) else .ofNat (87 + n)

/-- `UnicodeEscape` -/
def unicodeEscape (c : CodeUnit) : JsString :=
  [backslash, letterU, hexUnit (c.toNat / 4096), hexUnit (c.toNat / 256 % 16),
    hexUnit (c.toNat / 16 % 16), hexUnit (c.toNat % 16)]

/-- A unit that is not half of a pair, within a string. -/
def escapeUnit (c : CodeUnit) : JsString :=
  if c = 8 then [backslash, 98]
  else if c = 9 then [backslash, 116]
  else if c = 10 then [backslash, 110]
  else if c = 12 then [backslash, 102]
  else if c = 13 then [backslash, 114]
  else if c = quotationMark then [backslash, quotationMark]
  else if c = backslash then [backslash, backslash]
  else if c < 32 ∨ isLeadSurrogate c ∨ isTrailSurrogate c then unicodeEscape c
  else [c]

/-- The unit is half of a pair of surrogates. -/
def isPaired (before : Option CodeUnit) (c : CodeUnit) (behind : Option CodeUnit) : Bool :=
  (isLeadSurrogate c && behind.any isTrailSurrogate) ||
    (isTrailSurrogate c && before.any isLeadSurrogate)

/-- The units of a string, the unit before them given. -/
def escapedFrom (before : Option CodeUnit) : JsString → JsString
  | [] => []
  | c :: rest =>
    (if isPaired before c rest.head? then [c] else escapeUnit c) ++ escapedFrom (some c) rest

/-- `QuoteJSONString` -/
def quoteJsonString (s : JsString) : JsString :=
  quotationMark :: (escapedFrom none s ++ [quotationMark])

mutual

/-- `JSON.stringify` -/
def JsonValue.stringify : JsonValue → JsString
  | .null => nullText
  | .bool b => boolText b
  | .number (.finite d) => d.text
  | .number _ => nullText
  | .string s => quoteJsonString s
  | .array items => leftBracket :: (itemsText items ++ [rightBracket])
  | .object fields => leftBrace :: (fieldsText fields ++ [rightBrace])

def itemsText : List JsonValue → JsString
  | [] => []
  | [v] => v.stringify
  | v :: items => v.stringify ++ comma :: itemsText items

def fieldsText : List (JsString × JsonValue) → JsString
  | [] => []
  | [(k, v)] => quoteJsonString k ++ colon :: v.stringify
  | (k, v) :: fields => quoteJsonString k ++ colon :: (v.stringify ++ comma :: fieldsText fields)

end

/-! ## Reading -/

/-- The unit that a backslash and a letter stand for. -/
def unescaped (e : CodeUnit) : Option CodeUnit :=
  if e = quotationMark ∨ e = backslash ∨ e = 47 then some e
  else if e = 98 then some 8
  else if e = 116 then some 9
  else if e = 110 then some 10
  else if e = 102 then some 12
  else if e = 114 then some 13
  else none

/-- The unit of four hexadecimal digits. -/
def hexDigitsUnit (a b c d : CodeUnit) : Option CodeUnit :=
  (hexValue a).bind fun a => (hexValue b).bind fun b => (hexValue c).bind fun c =>
    (hexValue d).map fun d => .ofNat (((a * 16 + b) * 16 + c) * 16 + d)

/-- A unit before what was read. -/
def before (c : CodeUnit) (read : JsString × JsString) : JsString × JsString :=
  (c :: read.1, read.2)

/-- A string up to its closing quotation mark, and what follows it. -/
def readString : JsString → Option (JsString × JsString)
  | [] => none
  | c :: rest =>
    if c = quotationMark then some ([], rest)
    else if c = backslash then
      match rest with
      | [] => none
      | e :: more =>
        if e = letterU then
          match more with
          | h₁ :: h₂ :: h₃ :: h₄ :: more =>
            (hexDigitsUnit h₁ h₂ h₃ h₄).bind fun u => (readString more).map (before u)
          | _ => none
        else (unescaped e).bind fun u => (readString more).map (before u)
    else if c < 32 then none
    else (readString rest).map (before c)

def isJsonBlank (c : CodeUnit) : Bool := c = 9 || c = 10 || c = 13 || c = 32

def skipBlanks (s : JsString) : JsString := s.dropWhile isJsonBlank

/-- What follows a unit. -/
def expect (c : CodeUnit) (s : JsString) : Option JsString :=
  match skipBlanks s with
  | [] => none
  | d :: rest => if d = c then some rest else none

/-- `null`, `true`, `false` or a number -/
def readLiteral (s : JsString) : Option (JsonValue × JsString) :=
  match s.dropPrefix? nullText, s.dropPrefix? (boolText true), s.dropPrefix? (boolText false) with
  | some rest, _, _ => some (.null, rest)
  | none, some rest, _ => some (.bool true, rest)
  | none, none, some rest => some (.bool false, rest)
  | none, none, none => (readNumber s).map fun (n, rest) => (.number n, rest)

/-- The fields of an object, of which the last one with a key counts. -/
def assignFields (fields : List (JsString × JsonValue)) : List (JsString × JsonValue) :=
  fields.foldl (fun object (k, v) => Dict.assign object k v) []

mutual

/-- A value and what follows it. -/
def readValue : ℕ → JsString → Option (JsonValue × JsString)
  | 0, _ => none
  | fuel + 1, s =>
    match skipBlanks s with
    | [] => none
    | c :: rest =>
      if c = quotationMark then (readString rest).map fun (t, rest) => (.string t, rest)
      else if c = leftBracket then
        match expect rightBracket rest with
        | some rest => some (.array [], rest)
        | none => (readItems fuel rest).map fun (items, rest) => (.array items, rest)
      else if c = leftBrace then
        match expect rightBrace rest with
        | some rest => some (.object [], rest)
        | none =>
          (readFields fuel rest).map fun (fields, rest) => (.object (assignFields fields), rest)
      else readLiteral (c :: rest)

/-- The items of an array up to its closing bracket. -/
def readItems : ℕ → JsString → Option (List JsonValue × JsString)
  | 0, _ => none
  | fuel + 1, s =>
    (readValue fuel s).bind fun (v, s) =>
      match expect comma s with
      | some s => (readItems fuel s).map fun (items, s) => (v :: items, s)
      | none => (expect rightBracket s).map fun s => ([v], s)

/-- The fields of an object up to its closing brace. -/
def readFields : ℕ → JsString → Option (List (JsString × JsonValue) × JsString)
  | 0, _ => none
  | fuel + 1, s =>
    (expect quotationMark s).bind fun s => (readString s).bind fun (k, s) =>
      (expect colon s).bind fun s => (readValue fuel s).bind fun (v, s) =>
        match expect comma s with
        | some s => (readFields fuel s).map fun (fields, s) => ((k, v) :: fields, s)
        | none => (expect rightBrace s).map fun s => ([(k, v)], s)

end

/-- `JSON.parse`, without a value where it throws. The length of a text bounds its steps. -/
def JsonValue.parse (s : JsString) : Option JsonValue :=
  (readValue (s.length + 1) s).bind fun (v, rest) =>
    if skipBlanks rest = [] then some v else none

/-! ## Strings -/

theorem readString_raw {c : CodeUnit} (hquote : c ≠ quotationMark) (hback : c ≠ backslash)
    (hcontrol : ¬ c < 32) (rest : JsString) :
    readString (c :: rest) = (readString rest).map (before c) := by
  rw [readString.eq_def]
  simp only [if_neg hquote, if_neg hback, if_neg hcontrol]

theorem readString_escape {e u : CodeUnit} (he : e ≠ letterU) (hu : unescaped e = some u)
    (rest : JsString) :
    readString (backslash :: e :: rest) = (readString rest).map (before u) := by
  rw [readString.eq_def]
  simp only [if_neg he, hu, Option.bind_some]
  rfl

theorem hexValue_hexUnit {n : ℕ} (h : n < 16) : hexValue (hexUnit n) = some n := by
  revert n
  decide

theorem readString_unicodeEscape (c : CodeUnit) (rest : JsString) :
    readString (unicodeEscape c ++ rest) = (readString rest).map (before c) := by
  have hlt := c.toNat_lt
  have hunit : hexDigitsUnit (hexUnit (c.toNat / 4096)) (hexUnit (c.toNat / 256 % 16))
      (hexUnit (c.toNat / 16 % 16)) (hexUnit (c.toNat % 16)) = some c := by
    unfold hexDigitsUnit
    rw [hexValue_hexUnit (by omega), hexValue_hexUnit (by omega), hexValue_hexUnit (by omega),
      hexValue_hexUnit (by omega)]
    simp only [Option.bind_some, Option.map_some]
    have hvalue : ((c.toNat / 4096 * 16 + c.toNat / 256 % 16) * 16 + c.toNat / 16 % 16) * 16 +
        c.toNat % 16 = c.toNat := by omega
    rw [hvalue, UInt16.ofNat_toNat]
  simp only [unicodeEscape, List.cons_append, List.nil_append]
  rw [readString.eq_def]
  simp only [hunit, Option.bind_some]
  rfl

/-- A unit is read from its escape. -/
theorem readString_escapeUnit (c : CodeUnit) (rest : JsString) :
    readString (escapeUnit c ++ rest) = (readString rest).map (before c) := by
  unfold escapeUnit
  split_ifs with h8 h9 h10 h12 h13 hquote hback hunicode
  · exact h8 ▸ readString_escape (by decide) (by decide) rest
  · exact h9 ▸ readString_escape (by decide) (by decide) rest
  · exact h10 ▸ readString_escape (by decide) (by decide) rest
  · exact h12 ▸ readString_escape (by decide) (by decide) rest
  · exact h13 ▸ readString_escape (by decide) (by decide) rest
  · subst hquote
    exact readString_escape (by decide) (by decide) rest
  · subst hback
    exact readString_escape (by decide) (by decide) rest
  · exact readString_unicodeEscape c rest
  · exact readString_raw hquote hback (fun h => hunicode (Or.inl h)) rest

/-- Half of a pair is no unit that would have to be escaped. -/
theorem readString_paired {c : CodeUnit} {b d : Option CodeUnit} (h : isPaired b c d = true)
    (rest : JsString) : readString (c :: rest) = (readString rest).map (before c) := by
  have hsurrogate : 0xD800 ≤ c.toNat := by
    simp only [isPaired, isLeadSurrogate, isTrailSurrogate, Bool.or_eq_true, Bool.and_eq_true,
      decide_eq_true_eq, UInt16.le_iff_toNat_le, UInt16.reduceToNat] at h
    omega
  refine readString_raw ?_ ?_ ?_ rest
  · rintro rfl
    exact absurd hsurrogate (by decide)
  · rintro rfl
    exact absurd hsurrogate (by decide)
  · rw [UInt16.lt_iff_toNat_lt]
    change ¬ c.toNat < 32
    omega

/-- A string is read from its units. -/
theorem readString_escapedFrom (b : Option CodeUnit) (s rest : JsString) :
    readString (escapedFrom b s ++ quotationMark :: rest) = some (s, rest) := by
  induction s generalizing b with
  | nil =>
    rw [escapedFrom, List.nil_append, readString.eq_def]
    rfl
  | cons c s ih =>
    rw [escapedFrom, List.append_assoc]
    split_ifs with hpaired
    · rw [List.singleton_append, readString_paired hpaired, ih]
      rfl
    · rw [readString_escapeUnit, ih]
      rfl

/-! ## Values -/

mutual

/-- The numbers of a value are finite, none is negative zero, and no object repeats a key. -/
def JsonValue.Storable : JsonValue → Prop
  | .number (.finite d) => d.size = 0 → d.negative = false
  | .number _ => False
  | .array items => ItemsStorable items
  | .object fields => (fields.map Prod.fst).Nodup ∧ FieldsStorable fields
  | _ => True

def ItemsStorable : List JsonValue → Prop
  | [] => True
  | v :: items => v.Storable ∧ ItemsStorable items

def FieldsStorable : List (JsString × JsonValue) → Prop
  | [] => True
  | (_, v) :: fields => v.Storable ∧ FieldsStorable fields

end

theorem itemsStorable_iff {items : List JsonValue} :
    ItemsStorable items ↔ ∀ v ∈ items, v.Storable := by
  induction items with
  | nil => simp [ItemsStorable]
  | cons v items ih => simp [ItemsStorable, ih]

theorem fieldsStorable_iff {fields : List (JsString × JsonValue)} :
    FieldsStorable fields ↔ ∀ f ∈ fields, f.2.Storable := by
  induction fields with
  | nil => simp [FieldsStorable]
  | cons f fields ih => simp [FieldsStorable, ih]

mutual

/-- The steps that it takes to read a value. -/
def JsonValue.steps : JsonValue → ℕ
  | .array items => 1 + itemsSteps items
  | .object fields => 1 + fieldsSteps fields
  | _ => 1

def itemsSteps : List JsonValue → ℕ
  | [] => 0
  | v :: items => 1 + max v.steps (itemsSteps items)

def fieldsSteps : List (JsString × JsonValue) → ℕ
  | [] => 0
  | (_, v) :: fields => 1 + max v.steps (fieldsSteps fields)

end

/-- Neither a digit nor a sign is blank, and no value but a number begins with one. -/
theorem ne_of_number {c : CodeUnit} (hc : isJsDigit c = true ∨ c = minusSign) :
    isJsonBlank c = false ∧ c ≠ quotationMark ∧ c ≠ leftBracket ∧ c ≠ rightBracket ∧
      c ≠ leftBrace ∧ c ≠ 110 ∧ c ≠ 116 ∧ c ≠ 102 := by
  have hbounds : 45 ≤ c.toNat ∧ c.toNat ≤ 57 := by
    rcases hc with hc | rfl
    · simp only [isJsDigit, Bool.and_eq_true, decide_eq_true_eq, UInt16.le_iff_toNat_le] at hc
      exact ⟨le_trans (by decide) hc.1, hc.2⟩
    · decide
  have hne (d : CodeUnit) (hd : ¬ (45 ≤ d.toNat ∧ d.toNat ≤ 57)) : c ≠ d := by
    rintro rfl
    exact hd hbounds
  refine ⟨?_, hne _ (by decide), hne _ (by decide), hne _ (by decide), hne _ (by decide),
    hne _ (by decide), hne _ (by decide), hne _ (by decide)⟩
  simp [isJsonBlank, hne 9 (by decide), hne 10 (by decide), hne 13 (by decide),
    hne 32 (by decide)]

/-- The text of a value begins with a unit that is neither blank nor a closing bracket. -/
theorem exists_cons_stringify (v : JsonValue) :
    ∃ c tail, v.stringify = c :: tail ∧ isJsonBlank c = false ∧ c ≠ rightBracket := by
  cases v with
  | null => exact ⟨_, _, rfl, by decide⟩
  | bool b => cases b <;> exact ⟨_, _, rfl, by decide⟩
  | string s => exact ⟨_, _, rfl, by decide⟩
  | array items => exact ⟨_, _, rfl, by decide⟩
  | object fields => exact ⟨_, _, rfl, by decide⟩
  | number n =>
    cases n with
    | nan => exact ⟨_, _, rfl, by decide⟩
    | infinity negative => exact ⟨_, _, rfl, by decide⟩
    | finite d =>
      obtain ⟨c, tail, htext, hc⟩ := exists_cons_text d
      obtain ⟨hblank, -, -, hbracket, -⟩ := ne_of_number hc
      exact ⟨c, tail, htext, hblank, hbracket⟩

theorem length_stringify_pos (v : JsonValue) : 1 ≤ v.stringify.length := by
  obtain ⟨c, tail, htext, -⟩ := exists_cons_stringify v
  rw [htext]
  exact Nat.le_add_left 1 _

theorem expect_cons {c d : CodeUnit} (hd : isJsonBlank d = false) (rest : JsString) :
    expect c (d :: rest) = if d = c then some rest else none := by
  rw [expect, skipBlanks, List.dropWhile_cons_of_neg (by simp [hd])]

theorem expect_self {c : CodeUnit} (hc : isJsonBlank c = false) (rest : JsString) :
    expect c (c :: rest) = some rest := by
  rw [expect_cons hc, if_pos rfl]

/-- The reading of a value whose first unit is not blank. -/
theorem skipBlanks_cons {c : CodeUnit} (hc : isJsonBlank c = false) (rest : JsString) :
    skipBlanks (c :: rest) = c :: rest :=
  List.dropWhile_cons_of_neg (by simp [hc])

theorem dropPrefix?_of_ne {c d : CodeUnit} (h : c ≠ d) (rest p : JsString) :
    (c :: rest).dropPrefix? (d :: p) = none := by
  simp [List.dropPrefix?, h]

theorem dropPrefix?_append (p rest : JsString) : (p ++ rest).dropPrefix? p = some rest :=
  List.dropPrefix?_eq_some_iff.mpr ⟨p, rfl, beq_self_eq_true p⟩

theorem readLiteral_number {c : CodeUnit} (hc : isJsDigit c = true ∨ c = minusSign)
    (rest : JsString) :
    readLiteral (c :: rest) = (readNumber (c :: rest)).map fun (n, rest) => (.number n, rest) := by
  obtain ⟨-, -, -, -, -, hn, ht, hf⟩ := ne_of_number hc
  have hnull : (c :: rest).dropPrefix? nullText = none := dropPrefix?_of_ne hn rest _
  have htrue : (c :: rest).dropPrefix? (boolText true) = none := dropPrefix?_of_ne ht rest _
  have hfalse : (c :: rest).dropPrefix? (boolText false) = none := dropPrefix?_of_ne hf rest _
  rw [readLiteral, hnull, htrue, hfalse]

theorem readLiteral_null (rest : JsString) :
    readLiteral (nullText ++ rest) = some (.null, rest) := by
  rw [readLiteral, dropPrefix?_append]

theorem readLiteral_bool (b : Bool) (rest : JsString) :
    readLiteral (boolText b ++ rest) = some (.bool b, rest) := by
  have hnull : (boolText b ++ rest).dropPrefix? nullText = none := by
    cases b
    · exact dropPrefix?_of_ne (by decide) _ _
    · exact dropPrefix?_of_ne (by decide) _ _
  cases b with
  | true => rw [readLiteral, hnull, dropPrefix?_append]
  | false =>
    have htrue : (boolText false ++ rest).dropPrefix? (boolText true) = none :=
      dropPrefix?_of_ne (by decide) _ _
    rw [readLiteral, hnull, htrue, dropPrefix?_append]

/-- A text that begins with no quotation mark, bracket, brace or blank is read as a literal. -/
theorem readValue_literal {c : CodeUnit} (hblank : isJsonBlank c = false)
    (hquote : c ≠ quotationMark) (hbracket : c ≠ leftBracket) (hbrace : c ≠ leftBrace) (fuel : ℕ)
    (rest : JsString) :
    readValue (fuel + 1) (c :: rest) = readLiteral (c :: rest) := by
  rw [readValue, skipBlanks_cons hblank]
  dsimp only
  rw [if_neg hquote, if_neg hbracket, if_neg hbrace]

theorem endsNumber_cons {c : CodeUnit}
    (hc : isJsDigit c = false ∧ c ≠ decimalPoint ∧ c ≠ exponentSign ∧ c ≠ 69) (rest : JsString) :
    EndsNumber (c :: rest) := by
  rintro d ⟨⟩
  exact hc

/-- Fields with distinct keys are assigned as they are. -/
theorem assignFields_of_nodup {fields : List (JsString × JsonValue)}
    (h : (fields.map Prod.fst).Nodup) : assignFields fields = fields := by
  induction fields using List.reverseRecOn with
  | nil => rfl
  | append_singleton fields f ih =>
    rw [List.map_append, List.map_singleton, List.nodup_append] at h
    have hnew : f.1 ∉ fields.map Prod.fst := by
      intro hmem
      exact h.2.2 _ hmem _ (List.mem_singleton_self _) rfl
    have hfields := ih h.1
    unfold assignFields at hfields ⊢
    rw [List.foldl_append, hfields]
    exact Dict.assign_of_notMem hnew f.2

theorem exists_succ_of_steps {v : JsonValue} {fuel : ℕ} (h : v.steps ≤ fuel) :
    ∃ n, fuel = n + 1 := by
  have hpos : 1 ≤ v.steps := by
    cases v <;> simp [JsonValue.steps]
  exact ⟨fuel - 1, by omega⟩

theorem exists_cons_itemsText (v : JsonValue) (items : List JsonValue) :
    ∃ c tail, itemsText (v :: items) = c :: tail ∧ isJsonBlank c = false ∧ c ≠ rightBracket := by
  obtain ⟨c, tail, htext, hc⟩ := exists_cons_stringify v
  cases items with
  | nil => exact ⟨c, tail, by rw [itemsText, htext], hc⟩
  | cons w items => exact ⟨c, _, by rw [itemsText, htext, List.cons_append]; simp, hc⟩

/-- The key of a field is read up to its colon. -/
theorem readFields_quoted (fuel : ℕ) (k s : JsString) :
    readFields (fuel + 1) (quoteJsonString k ++ colon :: s) =
      (readValue fuel s).bind fun (v, s) =>
        match expect comma s with
        | some s => (readFields fuel s).map fun (fields, s) => ((k, v) :: fields, s)
        | none => (expect rightBrace s).map fun s => ([(k, v)], s) := by
  rw [readFields, quoteJsonString, List.cons_append, expect_self (by decide), Option.bind_some,
    List.append_assoc, List.singleton_append, readString_escapedFrom, Option.bind_some]
  dsimp only
  rw [expect_self (by decide), Option.bind_some]

mutual

/-- A value that can be stored is read from its text. -/
theorem readValue_stringify : ∀ (v : JsonValue) (fuel : ℕ) (rest : JsString), v.Storable →
    v.steps ≤ fuel → EndsNumber rest → readValue fuel (v.stringify ++ rest) = some (v, rest)
  | .null, fuel, rest, _, hfuel, _ => by
    obtain ⟨fuel, rfl⟩ := exists_succ_of_steps hfuel
    exact (readValue_literal (by decide) (by decide) (by decide) (by decide) fuel _).trans
      (readLiteral_null rest)
  | .bool b, fuel, rest, _, hfuel, _ => by
    obtain ⟨fuel, rfl⟩ := exists_succ_of_steps hfuel
    rw [JsonValue.stringify, ← readLiteral_bool b rest]
    cases b
    · exact readValue_literal (by decide) (by decide) (by decide) (by decide) fuel _
    · exact readValue_literal (by decide) (by decide) (by decide) (by decide) fuel _
  | .number (.finite d), fuel, rest, hv, hfuel, hrest => by
    obtain ⟨fuel, rfl⟩ := exists_succ_of_steps hfuel
    rw [JsonValue.Storable] at hv
    have hread := readNumber_text hv hrest
    obtain ⟨c, tail, htext, hc⟩ := exists_cons_text d
    obtain ⟨hblank, hquote, hbracket, -, hbrace, -⟩ := ne_of_number hc
    rw [htext, List.cons_append] at hread
    rw [JsonValue.stringify, htext, List.cons_append,
      readValue_literal hblank hquote hbracket hbrace, readLiteral_number hc, hread]
    rfl
  | .string s, fuel, rest, _, hfuel, _ => by
    obtain ⟨fuel, rfl⟩ := exists_succ_of_steps hfuel
    rw [JsonValue.stringify, quoteJsonString, List.cons_append, List.append_assoc,
      List.singleton_append, readValue, skipBlanks_cons (by decide)]
    dsimp only
    rw [if_pos rfl, readString_escapedFrom]
    rfl
  | .array [], fuel, rest, _, hfuel, _ => by
    obtain ⟨fuel, rfl⟩ := exists_succ_of_steps hfuel
    rfl
  | .array (v :: items), fuel, rest, hv, hfuel, _ => by
    obtain ⟨fuel, rfl⟩ := exists_succ_of_steps hfuel
    rw [JsonValue.Storable] at hv
    rw [JsonValue.steps] at hfuel
    have hread := readItems_itemsText v items fuel rest hv (by omega)
    have hopen : expect rightBracket (itemsText (v :: items) ++ rightBracket :: rest) = none := by
      obtain ⟨c, tail, htext, hblank, hne⟩ := exists_cons_itemsText v items
      rw [htext, List.cons_append, expect_cons hblank, if_neg hne]
    rw [JsonValue.stringify, List.cons_append, List.append_assoc, List.singleton_append,
      readValue, skipBlanks_cons (by decide)]
    dsimp only
    rw [if_neg (by decide), if_pos rfl, hopen]
    dsimp only
    rw [hread]
    rfl
  | .object [], fuel, rest, _, hfuel, _ => by
    obtain ⟨fuel, rfl⟩ := exists_succ_of_steps hfuel
    rfl
  | .object (f :: fields), fuel, rest, hv, hfuel, _ => by
    obtain ⟨fuel, rfl⟩ := exists_succ_of_steps hfuel
    rw [JsonValue.Storable] at hv
    rw [JsonValue.steps] at hfuel
    have hread := readFields_fieldsText f fields fuel rest hv.2 (by omega)
    have hopen : expect rightBrace (fieldsText (f :: fields) ++ rightBrace :: rest) = none := by
      cases fields <;> rfl
    rw [JsonValue.stringify, List.cons_append, List.append_assoc, List.singleton_append,
      readValue, skipBlanks_cons (by decide)]
    dsimp only
    rw [if_neg (by decide), if_neg (by decide), if_pos rfl, hopen]
    dsimp only
    rw [hread, Option.map_some]
    dsimp only
    rw [assignFields_of_nodup hv.1]

theorem readItems_itemsText : ∀ (v : JsonValue) (items : List JsonValue) (fuel : ℕ)
    (rest : JsString), ItemsStorable (v :: items) → itemsSteps (v :: items) ≤ fuel →
    readItems fuel (itemsText (v :: items) ++ rightBracket :: rest) = some (v :: items, rest)
  | v, [], fuel, rest, hv, hfuel => by
    rw [ItemsStorable] at hv
    rw [itemsSteps] at hfuel
    obtain ⟨fuel, rfl⟩ : ∃ n, fuel = n + 1 := ⟨fuel - 1, by omega⟩
    have hread := readValue_stringify v fuel (rightBracket :: rest) hv.1 (by omega)
      (endsNumber_cons (by decide) rest)
    rw [itemsText, readItems, hread]
    rfl
  | v, w :: items, fuel, rest, hv, hfuel => by
    rw [ItemsStorable] at hv
    rw [itemsSteps] at hfuel
    obtain ⟨fuel, rfl⟩ : ∃ n, fuel = n + 1 := ⟨fuel - 1, by omega⟩
    have hread := readValue_stringify v fuel (comma :: (itemsText (w :: items) ++
      rightBracket :: rest)) hv.1 (by omega) (endsNumber_cons (by decide) _)
    have hitems := readItems_itemsText w items fuel rest hv.2 (by omega)
    rw [itemsText, List.append_assoc, List.cons_append, readItems, hread, Option.bind_some]
    · dsimp only
      rw [expect_self (by decide)]
      dsimp only
      rw [hitems]
      rfl
    · simp

theorem readFields_fieldsText : ∀ (f : JsString × JsonValue)
    (fields : List (JsString × JsonValue)) (fuel : ℕ) (rest : JsString),
    FieldsStorable (f :: fields) → fieldsSteps (f :: fields) ≤ fuel →
    readFields fuel (fieldsText (f :: fields) ++ rightBrace :: rest) = some (f :: fields, rest)
  | (k, v), [], fuel, rest, hv, hfuel => by
    rw [FieldsStorable] at hv
    rw [fieldsSteps] at hfuel
    obtain ⟨fuel, rfl⟩ : ∃ n, fuel = n + 1 := ⟨fuel - 1, by omega⟩
    have hread := readValue_stringify v fuel (rightBrace :: rest) hv.1 (by omega)
      (endsNumber_cons (by decide) rest)
    rw [fieldsText, List.append_assoc, List.cons_append, readFields_quoted, hread]
    rfl
  | (k, v), g :: fields, fuel, rest, hv, hfuel => by
    rw [FieldsStorable] at hv
    rw [fieldsSteps] at hfuel
    obtain ⟨fuel, rfl⟩ : ∃ n, fuel = n + 1 := ⟨fuel - 1, by omega⟩
    have hread := readValue_stringify v fuel (comma :: (fieldsText (g :: fields) ++
      rightBrace :: rest)) hv.1 (by omega) (endsNumber_cons (by decide) _)
    have hfields := readFields_fieldsText g fields fuel rest hv.2 (by omega)
    rw [fieldsText, List.append_assoc, List.cons_append, List.append_assoc, List.cons_append,
      readFields_quoted, hread, Option.bind_some]
    · dsimp only
      rw [expect_self (by decide)]
      dsimp only
      rw [hfields]
      rfl
    · simp

end

mutual

/-- The text of a value is long enough for the steps that reading it takes. -/
theorem steps_le_length : ∀ v : JsonValue, v.steps ≤ v.stringify.length
  | .array items => by
    have hitems := itemsSteps_le_length items
    simp only [JsonValue.steps, JsonValue.stringify, List.length_cons, List.length_append,
      List.length_nil]
    omega
  | .object fields => by
    have hfields := fieldsSteps_le_length fields
    simp only [JsonValue.steps, JsonValue.stringify, List.length_cons, List.length_append,
      List.length_nil]
    omega
  | .null => length_stringify_pos _
  | .bool _ => length_stringify_pos _
  | .number _ => length_stringify_pos _
  | .string _ => length_stringify_pos _

theorem itemsSteps_le_length : ∀ items : List JsonValue,
    itemsSteps items ≤ (itemsText items).length + 1
  | [] => by simp [itemsSteps]
  | [v] => by
    have hv := steps_le_length v
    simp only [itemsSteps, itemsText]
    omega
  | v :: w :: items => by
    have hv := steps_le_length v
    have hitems := itemsSteps_le_length (w :: items)
    rw [itemsSteps, itemsText, List.length_append, List.length_cons]
    · omega
    · simp

theorem fieldsSteps_le_length : ∀ fields : List (JsString × JsonValue),
    fieldsSteps fields ≤ (fieldsText fields).length + 1
  | [] => by simp [fieldsSteps]
  | [(k, v)] => by
    have hv := steps_le_length v
    simp only [fieldsSteps, fieldsText, List.length_append, List.length_cons]
    omega
  | (k, v) :: g :: fields => by
    have hv := steps_le_length v
    have hfields := fieldsSteps_le_length (g :: fields)
    rw [fieldsSteps, fieldsText, List.length_append, List.length_cons, List.length_append,
      List.length_cons]
    · omega
    · simp

end

/-- What was stringified is parsed to the value again. -/
theorem parse_stringify {v : JsonValue} (h : v.Storable) :
    JsonValue.parse v.stringify = some v := by
  have hread := readValue_stringify v (v.stringify.length + 1) [] h
    (Nat.le_succ_of_le (steps_le_length v)) endsNumber_nil
  rw [List.append_nil] at hread
  rw [JsonValue.parse, hread]
  rfl

end Maeglagi.Core.JsonTexts
