import Maeglagi.Core.Text

/-!
# The JSON of events

The values that the backend sends in events, and the texts of `json.dumps` and of
`model_dump_json` for them, which contain no line break.
-/

namespace Maeglagi.Events

open Core

/-- A JSON number as it is written. -/
structure JsonNumber where
  negative : Bool
  whole : Nat
  fraction : List (Fin 10)
  exponent : Option (Bool × List (Fin 10))

/-- A JSON value. -/
inductive Json where
  | null
  | bool (b : Bool)
  | number (n : JsonNumber)
  | str (t : Text)
  | arr (items : List Json)
  | obj (fields : List (Text × Json))

/-- `json.dumps(_, ensure_ascii=False)` and `model_dump_json`, which leaves out blanks. -/
inductive JsonWriter where
  | dumps | modelDumpJson
  deriving DecidableEq, Repr

/-- What stands between items. -/
def JsonWriter.comma : JsonWriter → Text
  | .dumps => ", ".toList
  | .modelDumpJson => ",".toList

/-- What stands between a key and its value. -/
def JsonWriter.colon : JsonWriter → Text
  | .dumps => ": ".toList
  | .modelDumpJson => ":".toList

/-- A digit from `0` to `f`. -/
def hexDigit (n : Nat) : Char := if n < 10 then Char.ofNat (48 + n) else Char.ofNat (87 + n)

/-- A character in a JSON text. -/
def escapeChar (c : Char) : Text :=
  if c = '"' then ['\\', '"']
  else if c = '\\' then ['\\', '\\']
  else if c = '\n' then ['\\', 'n']
  else if c = '\r' then ['\\', 'r']
  else if c = '\t' then ['\\', 't']
  else if c.toNat = 8 then ['\\', 'b']
  else if c.toNat = 12 then ['\\', 'f']
  else if c.toNat < 32 then
    ['\\', 'u', '0', '0', hexDigit (c.toNat / 16), hexDigit (c.toNat % 16)]
  else [c]

/-- A text between quotation marks. -/
def quoted (t : Text) : Text := '"' :: t.flatMap escapeChar ++ ['"']

/-- The text of some digits. -/
def digitsText (digits : List (Fin 10)) : Text := digits.map fun d : Fin 10 => hexDigit d.val

def JsonNumber.text (n : JsonNumber) : Text :=
  (if n.negative then ['-'] else []) ++ Nat.toDigits 10 n.whole ++
    (if n.fraction = [] then [] else '.' :: digitsText n.fraction) ++
    match n.exponent with
    | none => []
    | some (negative, digits) => 'e' :: (if negative then '-' else '+') :: digitsText digits

def openBrace : Char := Char.ofNat 123

def closeBrace : Char := Char.ofNat 125

mutual

/-- The text of a value. -/
def Json.text (w : JsonWriter) : Json → Text
  | .null => "null".toList
  | .bool true => "true".toList
  | .bool false => "false".toList
  | .number n => n.text
  | .str t => quoted t
  | .arr items => '[' :: itemsText w items ++ [']']
  | .obj fields => openBrace :: fieldsText w fields ++ [closeBrace]

/-- The texts of the items of an array. -/
def itemsText (w : JsonWriter) : List Json → Text
  | [] => []
  | [v] => v.text w
  | v :: items => v.text w ++ w.comma ++ itemsText w items

/-- The texts of the fields of an object. -/
def fieldsText (w : JsonWriter) : List (Text × Json) → Text
  | [] => []
  | [(k, v)] => quoted k ++ w.colon ++ v.text w
  | (k, v) :: fields => quoted k ++ w.colon ++ v.text w ++ w.comma ++ fieldsText w fields

end

/-- The text of an object. -/
def objectText (w : JsonWriter) (fields : List (Text × Json)) : Text := (Json.obj fields).text w

/-- The text has no control characters, and so no line breaks. -/
def Printable (t : Text) : Prop := ∀ c ∈ t, 32 ≤ c.toNat

instance (t : Text) : Decidable (Printable t) :=
  List.decidableBAll (fun c : Char => 32 ≤ c.toNat) t

theorem printable_append {s t : Text} : Printable (s ++ t) ↔ Printable s ∧ Printable t :=
  List.forall_mem_append

theorem printable_cons {c : Char} {t : Text} : Printable (c :: t) ↔ 32 ≤ c.toNat ∧ Printable t :=
  List.forall_mem_cons

theorem printable_nil : Printable [] := by
  intro c hc
  cases hc

theorem printable_hexDigit {n : Nat} (h : n < 16) : 32 ≤ (hexDigit n).toNat := by
  revert n
  decide

theorem printable_escapeChar (c : Char) : Printable (escapeChar c) := by
  unfold escapeChar
  split_ifs with hquote hback hn hr ht hb hf hcontrol
  iterate 7 · decide
  · have hhigh : c.toNat / 16 < 16 := by omega
    have hlow : c.toNat % 16 < 16 := by omega
    simp only [printable_cons, printable_nil, printable_hexDigit hhigh, printable_hexDigit hlow]
    decide
  · rw [printable_cons]
    exact ⟨Nat.le_of_not_lt hcontrol, printable_nil⟩

theorem printable_quoted (t : Text) : Printable (quoted t) := by
  unfold quoted
  rw [List.cons_append, printable_cons, printable_append]
  refine ⟨by decide, fun c hc => ?_, by decide⟩
  obtain ⟨d, -, hd⟩ := List.mem_flatMap.mp hc
  exact printable_escapeChar d c hd

theorem printable_digitsText (digits : List (Fin 10)) : Printable (digitsText digits) := by
  intro c hc
  obtain ⟨d, -, rfl⟩ := List.mem_map.mp hc
  exact printable_hexDigit (d.isLt.trans (by decide))

theorem printable_toDigits (n : Nat) : Printable (Nat.toDigits 10 n) := by
  intro c hc
  have hdigit := Nat.isDigit_of_mem_toDigits (by decide) (by decide) hc
  simp only [Char.isDigit, ge_iff_le, Bool.and_eq_true, decide_eq_true_eq] at hdigit
  exact le_trans (by decide) (UInt32.le_iff_toNat_le.mp hdigit.1)

theorem printable_number (n : JsonNumber) : Printable n.text := by
  unfold JsonNumber.text
  simp only [printable_append, printable_toDigits]
  refine ⟨⟨⟨?_, trivial⟩, ?_⟩, ?_⟩
  · split <;> decide
  · split
    · exact printable_nil
    · exact printable_cons.mpr ⟨by decide, printable_digitsText _⟩
  · split
    · exact printable_nil
    · refine printable_cons.mpr ⟨by decide, printable_cons.mpr ⟨?_, printable_digitsText _⟩⟩
      split <;> decide

theorem printable_comma (w : JsonWriter) : Printable w.comma := by
  cases w <;> decide

theorem printable_colon (w : JsonWriter) : Printable w.colon := by
  cases w <;> decide

mutual

/-- The text of a value is one line. -/
theorem printable_text (w : JsonWriter) : ∀ v : Json, Printable (v.text w)
  | .null => by
    rw [Json.text]
    decide
  | .bool true => by
    rw [Json.text]
    decide
  | .bool false => by
    rw [Json.text]
    decide
  | .number n => printable_number n
  | .str t => printable_quoted t
  | .arr items => by
    rw [Json.text, List.cons_append, printable_cons, printable_append]
    exact ⟨by decide, printable_items w items, by decide⟩
  | .obj fields => by
    rw [Json.text, List.cons_append, printable_cons, printable_append]
    exact ⟨by decide, printable_fields w fields, by decide⟩

theorem printable_items (w : JsonWriter) : ∀ items : List Json, Printable (itemsText w items)
  | [] => printable_nil
  | [v] => printable_text w v
  | v :: v' :: items => by
    rw [itemsText, printable_append, printable_append]
    · exact ⟨⟨printable_text w v, printable_comma w⟩, printable_items w (v' :: items)⟩
    · simp

theorem printable_fields (w : JsonWriter) :
    ∀ fields : List (Text × Json), Printable (fieldsText w fields)
  | [] => printable_nil
  | [(k, v)] => by
    rw [fieldsText, printable_append, printable_append]
    exact ⟨⟨printable_quoted k, printable_colon w⟩, printable_text w v⟩
  | (k, v) :: field :: fields => by
    rw [fieldsText, printable_append, printable_append, printable_append, printable_append]
    · exact ⟨⟨⟨⟨printable_quoted k, printable_colon w⟩, printable_text w v⟩, printable_comma w⟩,
        printable_fields w (field :: fields)⟩
    · simp

end

end Maeglagi.Events
