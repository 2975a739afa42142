import Mathlib.Data.Nat.Digits.Lemmas
import Maeglagi.Core.Doubles
import Maeglagi.Core.JsStrings

/-!
# The texts of doubles

`Number::toString` writes the fewest digits that are read as the double again, and the grammar of
JSON reads them.
-/

namespace Maeglagi.Core

/-- `0` -/
abbrev zeroDigit : CodeUnit := 48

/-- `.` -/
abbrev decimalPoint : CodeUnit := 46

/-- `-` -/
abbrev minusSign : CodeUnit := 45

/-- `+` -/
abbrev plusSign : CodeUnit := 43

/-- `e` -/
abbrev exponentSign : CodeUnit := 101

/-- The number that a run of decimal digits stands for. -/
def digitsValue (digits : JsString) : ℕ :=
  digits.foldl (fun value c => 10 * value + (c.toNat - 48)) 0

/-- The decimal digits of a number. -/
def decimalDigits (n : ℕ) : JsString :=
  if n = 0 then [zeroDigit] else (Nat.digits 10 n).reverse.map fun d => .ofNat (48 + d)

/-! ## Writing -/

/-- The number of digits before the decimal point. -/
def places (x : ℚ) : ℤ := Int.log 10 x + 1

/-- The two numbers of `k` digits around a number, the nearer one first. -/
def candidates (x : ℚ) (k : ℕ) : List ℕ :=
  let scaled := x / 10 ^ (places x - k)
  let near := roundHalfEven scaled
  let low := ⌊scaled⌋₊
  [near, if near = low then low + 1 else low]

/-- The fewest digits, from `k` on, that are read as `x`, and the exponent of the last of them. -/
def shortestFrom (x : ℚ) : ℕ → ℕ → ℕ × ℤ
  | 0, _ => (⌊x * 10 ^ (1074 : ℤ)⌋₊, -1074)
  | tries + 1, k =>
    match (candidates x k).find? fun s : ℕ => nearest (s * 10 ^ (places x - k)) = some x with
    | some s => if s = 10 ^ k then (1, places x) else (s, places x - k)
    | none => shortestFrom x tries (k + 1)

/-- Seventeen digits tell any two doubles apart. -/
def shortest (x : ℚ) : ℕ × ℤ := shortestFrom x 17 1

/-- The digits behind the decimal point, with it. -/
def fractionText (fraction : JsString) : JsString :=
  if fraction = [] then [] else decimalPoint :: fraction

/-- An exponent. -/
def exponentText : Option ℤ → JsString
  | none => []
  | some e =>
    exponentSign :: (if e < 0 then minusSign else plusSign) :: decimalDigits e.natAbs

/-- A number as it is written. -/
def numeral (whole fraction : JsString) (exponent : Option ℤ) : JsString :=
  whole ++ (fractionText fraction ++ exponentText exponent)

/-- `Number::toString` of `s * 10 ^ p` -/
def decimalText (s : ℕ) (p : ℤ) : JsString :=
  let digits := decimalDigits s
  let k := digits.length
  let n := p + k
  if 0 ≤ p ∧ n ≤ 21 then numeral (digits ++ List.replicate p.toNat zeroDigit) [] none
  else if 0 < n ∧ n ≤ 21 then numeral (digits.take n.toNat) (digits.drop n.toNat) none
  else if -6 < n ∧ n ≤ 0 then
    numeral [zeroDigit] (List.replicate (-n).toNat zeroDigit ++ digits) none
  else numeral (digits.take 1) (digits.drop 1) (some (n - 1))

/-- `Number::toString` of a finite number, of which zero has no sign. -/
def Double.text (d : Double) : JsString :=
  if d.size = 0 then [zeroDigit]
  else
    (if d.negative then [minusSign] else []) ++
      decimalText (shortest d.size).1 (shortest d.size).2

/-! ## Reading -/

/-- A run of digits and what follows it. -/
def readDigits (s : JsString) : Option (JsString × JsString) :=
  if s.takeWhile isJsDigit = [] then none
  else some (s.takeWhile isJsDigit, s.dropWhile isJsDigit)

/-- The digits before the decimal point, without leading zeros. -/
def readWhole (s : JsString) : Option (JsString × JsString) :=
  (readDigits s).filter fun r => r.1.head? ≠ some zeroDigit ∨ r.1.length = 1

def readFraction : JsString → Option (JsString × JsString)
  | [] => some ([], [])
  | c :: rest => if c = decimalPoint then readDigits rest else some ([], c :: rest)

/-- `SignedInteger` -/
def readSigned : JsString → Option (ℤ × JsString)
  | [] => none
  | c :: rest =>
    if c = minusSign then (readDigits rest).map fun r => (-(digitsValue r.1 : ℤ), r.2)
    else if c = plusSign then (readDigits rest).map fun r => ((digitsValue r.1 : ℤ), r.2)
    else (readDigits (c :: rest)).map fun r => ((digitsValue r.1 : ℤ), r.2)

def readExponent : JsString → Option (ℤ × JsString)
  | [] => some (0, [])
  | c :: rest =>
    if c = exponentSign ∨ c = 69 then readSigned rest else some (0, c :: rest)

/-- A number without its sign: its digits, the exponent of the last of them and what follows. -/
def readUnsigned (s : JsString) : Option (ℕ × ℤ × JsString) :=
  (readWhole s).bind fun (whole, s) =>
    (readFraction s).bind fun (fraction, s) =>
      (readExponent s).map fun (exponent, s) =>
        (digitsValue (whole ++ fraction), exponent - fraction.length, s)

/-- `JSONNumber` -/
def readNumber : JsString → Option (JsNumber × JsString)
  | [] => none
  | c :: rest =>
    if c = minusSign then
      (readUnsigned rest).map fun (digits, exponent, s) => (.ofDecimal true digits exponent, s)
    else
      (readUnsigned (c :: rest)).map fun (digits, exponent, s) =>
        (.ofDecimal false digits exponent, s)

/-! ## Digits -/

/-- All units are digits. -/
def AllDigits (s : JsString) : Prop := ∀ c ∈ s, isJsDigit c = true

theorem digitsValue_concat (s : JsString) (c : CodeUnit) :
    digitsValue (s ++ [c]) = 10 * digitsValue s + (c.toNat - 48) := by
  simp [digitsValue]

theorem digitsValue_append (s t : JsString) :
    digitsValue (s ++ t) = digitsValue s * 10 ^ t.length + digitsValue t := by
  induction t using List.reverseRecOn with
  | nil => simp [digitsValue]
  | append_singleton t c ih =>
    rw [← List.append_assoc, digitsValue_concat, ih, digitsValue_concat, List.length_append,
      List.length_singleton, pow_succ]
    ring

theorem digitsValue_zeros (n : ℕ) : digitsValue (List.replicate n zeroDigit) = 0 := by
  induction n with
  | zero => rfl
  | succ n ih =>
    rw [List.replicate_succ', digitsValue_concat, ih]
    rfl

theorem toNat_digit {d : ℕ} (h : d < 10) : (UInt16.ofNat (48 + d)).toNat = 48 + d := by
  rw [UInt16.toNat_ofNat']
  omega

theorem isJsDigit_digit {d : ℕ} (h : d < 10) : isJsDigit (.ofNat (48 + d)) = true := by
  revert d
  decide

theorem digitsValue_reverse (ds : List ℕ) (h : ∀ d ∈ ds, d < 10) :
    digitsValue (ds.reverse.map fun d => .ofNat (48 + d)) = Nat.ofDigits 10 ds := by
  induction ds with
  | nil => rfl
  | cons d ds ih =>
    rw [List.forall_mem_cons] at h
    rw [List.reverse_cons, List.map_append, List.map_singleton, digitsValue_concat, ih h.2,
      toNat_digit h.1, Nat.ofDigits_cons]
    omega

/-- The digits of a number are read as the number. -/
theorem digitsValue_decimalDigits (n : ℕ) : digitsValue (decimalDigits n) = n := by
  unfold decimalDigits
  split_ifs with h
  · rw [h]
    rfl
  · rw [digitsValue_reverse _ fun d hd => Nat.digits_lt_base (by decide) hd,
      Nat.ofDigits_digits]

theorem allDigits_decimalDigits (n : ℕ) : AllDigits (decimalDigits n) := by
  intro c hc
  unfold decimalDigits at hc
  split_ifs at hc with h
  · rw [List.mem_singleton.mp hc]
    rfl
  · obtain ⟨d, hd, rfl⟩ := List.mem_map.mp hc
    exact isJsDigit_digit (Nat.digits_lt_base (by decide) (List.mem_reverse.mp hd))

theorem decimalDigits_ne_nil (n : ℕ) : decimalDigits n ≠ [] := by
  unfold decimalDigits
  split_ifs with h
  · simp
  · simpa [Nat.digits_eq_nil_iff_eq_zero] using h

/-- No number but zero begins with a zero. -/
theorem head?_decimalDigits {n : ℕ} (h : n ≠ 0) :
    (decimalDigits n).head? ≠ some zeroDigit := by
  have hne : Nat.digits 10 n ≠ [] := Nat.digits_ne_nil_iff_ne_zero.mpr h
  have hlast := Nat.getLast_digit_ne_zero 10 h
  have hlt : (Nat.digits 10 n).getLast hne < 10 :=
    Nat.digits_lt_base (by decide) (List.getLast_mem hne)
  unfold decimalDigits
  rw [if_neg h, List.head?_map, List.head?_reverse, List.getLast?_eq_some_getLast hne]
  simp only [Option.map_some, ne_eq, Option.some.injEq]
  intro hzero
  have hvalue := congrArg UInt16.toNat hzero
  rw [toNat_digit hlt] at hvalue
  change 48 + _ = 48 at hvalue
  omega

theorem allDigits_nil : AllDigits [] := by
  intro c hc
  cases hc

theorem allDigits_zeros (n : ℕ) : AllDigits (List.replicate n zeroDigit) := by
  intro c hc
  rw [List.eq_of_mem_replicate hc]
  rfl

theorem AllDigits.append {s t : JsString} (hs : AllDigits s) (ht : AllDigits t) :
    AllDigits (s ++ t) := by
  intro c hc
  rcases List.mem_append.mp hc with hc | hc
  · exact hs c hc
  · exact ht c hc

/-! ## What was written is read -/

/-- The text does not go on with a number. -/
def EndsNumber (rest : JsString) : Prop :=
  ∀ c ∈ rest.head?, isJsDigit c = false ∧ c ≠ decimalPoint ∧ c ≠ exponentSign ∧ c ≠ 69

/-- The text does not go on with a digit. -/
def EndsDigits (rest : JsString) : Prop := ∀ c ∈ rest.head?, isJsDigit c = false

theorem endsNumber_nil : EndsNumber [] := by
  rintro c ⟨⟩

theorem EndsNumber.digits {rest : JsString} (h : EndsNumber rest) : EndsDigits rest :=
  fun c hc => (h c hc).1

theorem takeWhile_digits {ds rest : JsString} (hds : AllDigits ds) (hrest : EndsDigits rest) :
    (ds ++ rest).takeWhile isJsDigit = ds ∧ (ds ++ rest).dropWhile isJsDigit = rest := by
  have hstop : rest.takeWhile isJsDigit = [] ∧ rest.dropWhile isJsDigit = rest := by
    cases rest with
    | nil => simp
    | cons c rest =>
      have hc := hrest c rfl
      simp [hc]
  rw [List.takeWhile_append_of_pos hds, List.dropWhile_append_of_pos hds, hstop.1, hstop.2]
  simp

theorem readDigits_append {ds rest : JsString} (hds : AllDigits ds) (hne : ds ≠ [])
    (hrest : EndsDigits rest) : readDigits (ds ++ rest) = some (ds, rest) := by
  obtain ⟨htake, hdrop⟩ := takeWhile_digits hds hrest
  rw [readDigits, htake, hdrop, if_neg hne]

theorem readWhole_append {whole rest : JsString} (hds : AllDigits whole) (hne : whole ≠ [])
    (hzero : whole.head? ≠ some zeroDigit ∨ whole.length = 1) (hrest : EndsDigits rest) :
    readWhole (whole ++ rest) = some (whole, rest) := by
  rw [readWhole, readDigits_append hds hne hrest]
  exact Option.filter_some_pos (decide_eq_true hzero)

theorem readFraction_append {fraction rest : JsString} (hds : AllDigits fraction)
    (hrest : EndsDigits rest) (hpoint : ∀ c ∈ rest.head?, c ≠ decimalPoint) :
    readFraction (fractionText fraction ++ rest) = some (fraction, rest) := by
  unfold fractionText
  split_ifs with h
  · subst h
    cases rest with
    | nil => rfl
    | cons c rest => rw [List.nil_append, readFraction, if_neg (hpoint c rfl)]
  · rw [List.cons_append, readFraction, if_pos rfl, readDigits_append hds h hrest]

theorem readExponent_append (exponent : Option ℤ) {rest : JsString} (hrest : EndsNumber rest) :
    readExponent (exponentText exponent ++ rest) = some (exponent.getD 0, rest) := by
  cases exponent with
  | none =>
    cases rest with
    | nil => rfl
    | cons c rest =>
      obtain ⟨-, -, he, hE⟩ := hrest c rfl
      rw [exponentText, List.nil_append, readExponent, if_neg (not_or.mpr ⟨he, hE⟩)]
      rfl
  | some e =>
    have hread := readDigits_append (allDigits_decimalDigits e.natAbs)
      (decimalDigits_ne_nil e.natAbs) hrest.digits
    rw [exponentText, List.cons_append, List.cons_append, readExponent, if_pos (Or.inl rfl),
      readSigned]
    by_cases hneg : e < 0
    · rw [if_pos hneg, if_pos rfl, hread, Option.map_some, digitsValue_decimalDigits,
        Option.getD_some]
      congr 2
      omega
    · rw [if_neg hneg, if_neg (by decide), if_pos rfl, hread, Option.map_some,
        digitsValue_decimalDigits, Option.getD_some]
      congr 2
      omega

/-- What follows the digits of a numeral is no digit. -/
theorem ends_exponent (exponent : Option ℤ) {rest : JsString} (hrest : EndsNumber rest) :
    ∀ c ∈ (exponentText exponent ++ rest).head?, isJsDigit c = false ∧ c ≠ decimalPoint := by
  cases exponent with
  | none => exact fun c hc => ⟨(hrest c hc).1, (hrest c hc).2.1⟩
  | some e =>
    rintro c ⟨⟩
    decide

theorem ends_fraction (fraction : JsString) {rest : JsString}
    (hrest : EndsDigits rest) : EndsDigits (fractionText fraction ++ rest) := by
  unfold fractionText
  split_ifs
  · exact hrest
  · rintro c ⟨⟩
    decide

/-- A numeral is read as its digits and its exponent. -/
theorem readUnsigned_numeral {whole fraction rest : JsString} (exponent : Option ℤ)
    (hwhole : AllDigits whole) (hne : whole ≠ [])
    (hzero : whole.head? ≠ some zeroDigit ∨ whole.length = 1) (hfraction : AllDigits fraction)
    (hrest : EndsNumber rest) :
    readUnsigned (numeral whole fraction exponent ++ rest) =
      some (digitsValue (whole ++ fraction), exponent.getD 0 - fraction.length, rest) := by
  have hends := ends_exponent exponent hrest
  rw [numeral, List.append_assoc, List.append_assoc, readUnsigned,
    readWhole_append hwhole hne hzero (ends_fraction fraction fun c hc => (hends c hc).1),
    Option.bind_some]
  dsimp only
  rw [readFraction_append hfraction (fun c hc => (hends c hc).1) fun c hc => (hends c hc).2,
    Option.bind_some]
  dsimp only
  rw [readExponent_append exponent hrest]
  rfl

/-- The text of a decimal is read as the decimal. -/
theorem readUnsigned_decimalText {s : ℕ} (p : ℤ) (hs : s ≠ 0) {rest : JsString}
    (hrest : EndsNumber rest) :
    ∃ (m : ℕ) (q : ℤ), readUnsigned (decimalText s p ++ rest) = some (m, q, rest) ∧
      (m : ℚ) * 10 ^ q = s * 10 ^ p := by
  have hds := allDigits_decimalDigits s
  have hne := decimalDigits_ne_nil s
  have hhead := head?_decimalDigits hs
  have hvalue := digitsValue_decimalDigits s
  unfold decimalText
  dsimp only
  generalize decimalDigits s = ds at hds hne hhead hvalue
  have hlen := List.length_pos_of_ne_nil hne
  by_cases hinteger : 0 ≤ p ∧ p + ds.length ≤ 21
  · rw [if_pos hinteger]
    have hzeros := allDigits_zeros p.toNat
    refine ⟨_, _, readUnsigned_numeral none (hds.append hzeros) (by simp [hne]) (Or.inl ?_)
      allDigits_nil hrest, ?_⟩
    · rwa [List.head?_append_of_ne_nil _ hne]
    · have hp : (10 : ℚ) ^ p = 10 ^ p.toNat := by
        rw [← zpow_natCast, Int.toNat_of_nonneg hinteger.1]
      rw [List.append_nil, digitsValue_append, digitsValue_zeros, hvalue, List.length_replicate, hp]
      simp
  rw [if_neg hinteger]
  by_cases hpoint : 0 < p + ds.length ∧ p + ds.length ≤ 21
  · rw [if_pos hpoint]
    have hn : 0 < (p + ds.length).toNat := by omega
    have htake : AllDigits (ds.take (p + ds.length).toNat) :=
      fun c hc => hds c (List.mem_of_mem_take hc)
    have hdrop : AllDigits (ds.drop (p + ds.length).toNat) :=
      fun c hc => hds c (List.mem_of_mem_drop hc)
    refine ⟨_, _, readUnsigned_numeral none htake ?_ (Or.inl ?_) hdrop hrest, ?_⟩
    · simpa [List.take_eq_nil_iff, hne] using by omega
    · rwa [List.head?_take, if_neg (by omega)]
    · rw [List.take_append_drop, hvalue, List.length_drop, Option.getD_none]
      congr 2
      omega
  rw [if_neg hpoint]
  by_cases hsmall : -6 < p + ds.length ∧ p + (ds.length : ℤ) ≤ 0
  · rw [if_pos hsmall]
    have hzeros := allDigits_zeros (-(p + ds.length)).toNat
    refine ⟨_, _, readUnsigned_numeral none (allDigits_zeros 1) (by simp) (Or.inr rfl)
      (hzeros.append hds) hrest, ?_⟩
    have hlead (n : ℕ) : digitsValue ([zeroDigit] ++ List.replicate n zeroDigit) = 0 :=
      digitsValue_zeros (n + 1)
    change ((digitsValue ([zeroDigit] ++ _) : ℕ) : ℚ) * _ = _
    rw [← List.append_assoc, digitsValue_append, hlead, hvalue, List.length_append,
      List.length_replicate, Option.getD_none, zero_mul, zero_add]
    congr 2
    push_cast
    omega
  · rw [if_neg hsmall]
    have htake : AllDigits (ds.take 1) := fun c hc => hds c (List.mem_of_mem_take hc)
    have hdrop : AllDigits (ds.drop 1) := fun c hc => hds c (List.mem_of_mem_drop hc)
    refine ⟨_, _, readUnsigned_numeral _ htake (by simp [hne]) (Or.inl ?_) hdrop hrest, ?_⟩
    · rwa [List.head?_take, if_neg (by decide)]
    · rw [List.take_append_drop, hvalue, List.length_drop, Option.getD_some]
      congr 2
      omega

/-- What is read without a sign begins with a digit. -/
theorem exists_cons_of_readUnsigned {s : JsString} {r : ℕ × ℤ × JsString}
    (h : readUnsigned s = some r) : ∃ c tail, s = c :: tail ∧ isJsDigit c = true := by
  cases s with
  | nil => cases h
  | cons c tail =>
    refine ⟨c, tail, rfl, ?_⟩
    by_contra hc
    have hnone : readDigits (c :: tail) = none := by
      rw [readDigits, List.takeWhile_cons_of_neg hc, if_pos rfl]
    rw [readUnsigned, readWhole, hnone] at h
    cases h

theorem ne_minusSign_of_digit {c : CodeUnit} (h : isJsDigit c = true) : c ≠ minusSign := by
  rintro rfl
  cases h

/-- The candidates that are accepted are read as the number. -/
theorem shortestFrom_sound {x : ℚ} (hx : 0 < x) (hdouble : nearest x = some x) (tries k : ℕ) :
    (shortestFrom x tries k).1 ≠ 0 ∧
      nearest ((shortestFrom x tries k).1 * 10 ^ (shortestFrom x tries k).2) = some x := by
  induction tries generalizing k with
  | zero =>
    -- every double is a multiple of the last bit of the smallest ones
    obtain ⟨n, hn⟩ := exists_multiple_of_nearest hdouble
    have hscaled : x * 10 ^ (1074 : ℤ) = n := hn
    have hfloor : shortestFrom x 0 k = (n, -1074) := by
      rw [shortestFrom, hscaled, Nat.floor_natCast]
    have hback : (n : ℚ) * 10 ^ (-1074 : ℤ) = x := by
      rw [← hscaled, mul_assoc, ← zpow_add₀ (by norm_num)]
      simp
    rw [hfloor]
    dsimp only
    rw [hback]
    refine ⟨?_, hdouble⟩
    rintro rfl
    rw [Nat.cast_zero, zero_mul] at hback
    exact hx.ne hback
  | succ tries ih =>
    rw [shortestFrom]
    cases hfind : (candidates x k).find?
        fun s : ℕ => nearest (s * 10 ^ (places x - k)) = some x with
    | none => exact ih (k + 1)
    | some s =>
      have hs : nearest (s * 10 ^ (places x - k)) = some x := by
        simpa using List.find?_some hfind
      dsimp only
      split_ifs with hpower
      · refine ⟨one_ne_zero, ?_⟩
        have hplace : ((10 ^ k : ℕ) : ℚ) * 10 ^ (places x - k) = 10 ^ places x := by
          push_cast
          rw [← zpow_natCast, ← zpow_add₀ (by norm_num)]
          congr 1
          omega
        rw [hpower, hplace] at hs
        simpa using hs
      · refine ⟨?_, hs⟩
        rintro rfl
        rw [Nat.cast_zero, zero_mul, nearest_zero] at hs
        exact hx.ne (Option.some.inj hs)

/-- The text of a number begins with a digit or a sign. -/
theorem exists_cons_text (d : Double) :
    ∃ c tail, d.text = c :: tail ∧ (isJsDigit c = true ∨ c = minusSign) := by
  unfold Double.text
  split_ifs with hzero hsign
  · exact ⟨zeroDigit, [], rfl, Or.inl rfl⟩
  · exact ⟨minusSign, _, rfl, Or.inr rfl⟩
  · have hpos : 0 < d.size := lt_of_le_of_ne d.size_nonneg (Ne.symm hzero)
    obtain ⟨hs, -⟩ := shortestFrom_sound hpos d.nearest_size 17 1
    obtain ⟨m, q, hread, -⟩ := readUnsigned_decimalText (shortest d.size).2 hs endsNumber_nil
    obtain ⟨c, tail, htext, hc⟩ := exists_cons_of_readUnsigned hread
    rw [List.append_nil] at htext
    exact ⟨c, tail, htext, Or.inl hc⟩

/-- A finite number is read from its text, negative zero apart. -/
theorem readNumber_text {d : Double} (hd : d.size = 0 → d.negative = false) {rest : JsString}
    (hrest : EndsNumber rest) : readNumber (d.text ++ rest) = some (.finite d, rest) := by
  unfold Double.text
  by_cases hzero : d.size = 0
  · have hread : readUnsigned (zeroDigit :: rest) = _ :=
      readUnsigned_numeral none (allDigits_zeros 1) (by simp) (Or.inr rfl) allDigits_nil hrest
    rw [if_pos hzero, List.singleton_append, readNumber, if_neg (by decide), hread,
      Option.map_some]
    dsimp only
    rw [← hd hzero, JsNumber.ofDecimal_eq]
    rw [hzero, List.append_nil, digitsValue_zeros, Nat.cast_zero, zero_mul, nearest_zero]
  · rw [if_neg hzero]
    have hpos : 0 < d.size := lt_of_le_of_ne d.size_nonneg (Ne.symm hzero)
    obtain ⟨hs, hnearest⟩ : (shortest d.size).1 ≠ 0 ∧
        nearest ((shortest d.size).1 * 10 ^ (shortest d.size).2) = some d.size :=
      shortestFrom_sound hpos d.nearest_size 17 1
    obtain ⟨m, q, hread, hvalue⟩ := readUnsigned_decimalText (shortest d.size).2 hs hrest
    have hdecimal : JsNumber.ofDecimal d.negative m q = .finite d := by
      rw [← hvalue] at hnearest
      exact JsNumber.ofDecimal_eq hnearest
    cases hsign : d.negative with
    | true =>
      rw [hsign] at hdecimal
      rw [if_pos rfl, List.append_assoc, List.singleton_append, readNumber, if_pos rfl, hread,
        Option.map_some]
      dsimp only
      rw [hdecimal]
    | false =>
      rw [hsign] at hdecimal
      rw [if_neg (by decide), List.nil_append]
      obtain ⟨c, tail, htext, hc⟩ := exists_cons_of_readUnsigned hread
      rw [htext] at hread ⊢
      rw [readNumber, if_neg (ne_minusSign_of_digit hc), hread, Option.map_some]
      dsimp only
      rw [hdecimal]

end Maeglagi.Core
