import SafeKiddo.Httpd

/-!
# Reading typed integers

`TypedInteger::FromString` and the stream operators, for a C++ integer type of any width. A type of
one byte is read as an `int32_t` and then narrowed. A failed `boost::lexical_cast` is an exception,
which is `none` here.

Results:
1. `decimal_natText`: the digits that are printed denote the number.
2. `wrap_eq_iff`: narrowing keeps the numbers of the type, and no others.
3. `lexicalCast_denotes`, `fromString_denotes`: what is read from a decimal text.
4. `typedInteger_text`: which values are read back, and which texts are read as another number.
-/

namespace SafeKiddo

open ByteString

/-! ## 1. The code -/

/-- `std::numeric_limits<TInt>::min()`. -/
def IntType.min (t : IntType) : Int := if t.signed then -2 ^ (t.bits - 1) else 0

/-- The values of the type. -/
def IntType.InRange (t : IntType) (value : Int) : Prop := t.min ≤ value ∧ value ≤ t.max

instance (t : IntType) (value : Int) : Decidable (t.InRange value) := by
  unfold IntType.InRange; infer_instance

/-- The conversion of an integer to the type. -/
def IntType.wrap (t : IntType) (value : Int) : Int :=
  if t.signed then (value + 2 ^ (t.bits - 1)) % 2 ^ t.bits - 2 ^ (t.bits - 1)
  else value % 2 ^ t.bits

def uint8 : IntType := ⟨8, false⟩

/-- The digits behind an optional sign. -/
def unsignedPart (text : Bytes) : Bytes :=
  if text.head? = some (chr '-') ∨ text.head? = some (chr '+') then text.tail else text

/-- `boost::lexical_cast<TInt>`: an optional sign and digits. An unsigned type takes a minus sign,
too: what is negated is the value of the type. -/
def lexicalCast (t : IntType) (text : Bytes) : Option Int :=
  let negative := text.head? = some (chr '-')
  let digits := unsignedPart text
  let magnitude : Int := decimal digits
  if digits ≠ [] ∧ digits.all isdigit then
    if t.signed then
      let value := if negative then -magnitude else magnitude
      if t.InRange value then some value else none
    else if magnitude ≤ t.max then
      some (if negative then t.wrap (-magnitude) else magnitude)
    else
      none
  else
    none

namespace TypedInteger

def fromString (t : IntType) (str : Bytes) : Option Int :=
  if t.bits ≤ 8 then
    -- FIXME of the source: that the number fits in the type is not checked.
    (lexicalCast int32 str).map t.wrap
  else
    lexicalCast t str

/-- `is >> s` -/
def extractWord (is : Bytes) : Bytes := (is.dropWhile isspace).takeWhile fun c => !isspace c

/-- `operator>>`. -/
def read (t : IntType) (is : Bytes) : Option Int := fromString t (extractWord is)

end TypedInteger

theorem inRange_int32 {value : Int} :
    int32.InRange value ↔ -2 ^ 31 ≤ value ∧ value < 2 ^ 31 := by
  have hmin : int32.min = -2 ^ 31 := by decide
  have hmax : int32.max = 2 ^ 31 - 1 := by decide
  rw [IntType.InRange, hmin, hmax, Int.le_sub_one_iff]

/-- The cast to `int32_t` is the one that reads the header `UserAction`. -/
theorem lexicalCast_int32 (text : Bytes) : lexicalCast int32 text = lexicalCastInt32 text := by
  have hcast : lexicalCastInt32 text =
      let value : Int := if text.head? = some (chr '-') then -decimal (unsignedPart text)
        else decimal (unsignedPart text)
      if unsignedPart text ≠ [] ∧ (unsignedPart text).all isdigit ∧ -2 ^ 31 ≤ value ∧
        value < 2 ^ 31 then some value else none := rfl
  have hsigned : int32.signed = true := rfl
  rw [hcast, lexicalCast]
  simp only [hsigned, inRange_int32, if_true]
  by_cases hdigits : unsignedPart text ≠ [] ∧ (unsignedPart text).all isdigit
  · obtain ⟨hne, hall⟩ := hdigits
    simp only [hne, hall, ne_eq, not_false_eq_true, true_and, and_self, if_true]
  · rw [if_neg hdigits, if_neg fun h => hdigits ⟨h.1, h.2.1⟩]

/-! ## 2. Decimal texts -/

/-- The text is a decimal number with an optional sign, and this is the number. -/
def Denotes (text : Bytes) (value : Int) : Prop :=
  ∃ digits, digits ≠ [] ∧ (∀ c ∈ digits, isdigit c) ∧
    ((text = digits ∧ value = decimal digits) ∨ (text = chr '+' :: digits ∧ value = decimal digits) ∨
      (text = chr '-' :: digits ∧ value = -decimal digits))

theorem digit_value {d : Nat} (hd : d < 10) : (digit d).val - 48 = d := by
  interval_cases d <;> decide

theorem decimal_natText (n : Nat) : decimal (natText n) = n := by
  unfold natText
  split
  · next hn =>
    rw [hn]
    rfl
  · have hdigits : ∀ ds : List Nat, (∀ d ∈ ds, d < 10) →
        ds.foldr (fun d n => 10 * n + ((digit d).val - 48)) 0 = Nat.ofDigits 10 ds := by
      intro ds hds
      induction ds with
      | nil => rfl
      | cons d ds ih =>
        obtain ⟨hd, hds⟩ := List.forall_mem_cons.mp hds
        rw [List.foldr_cons, ih hds, digit_value hd, Nat.ofDigits_cons, Nat.add_comm]
    rw [decimal, List.foldl_map, List.foldl_reverse,
      hdigits _ fun d hd => Nat.digits_lt_base (by decide) hd, Nat.ofDigits_digits]

theorem natText_ne_nil (n : Nat) : natText n ≠ [] := by
  unfold natText
  split
  · exact List.cons_ne_nil _ _
  · next hn => simpa [Nat.digits_eq_nil_iff_eq_zero] using hn

theorem denotes_intText (n : Int) : Denotes (intText n) n := by
  refine ⟨natText n.natAbs, natText_ne_nil _, fun c hc => isdigit_of_mem_natText hc, ?_⟩
  rw [decimal_natText]
  unfold intText
  split
  · next hneg => exact .inr (.inr ⟨rfl, by rw [Int.ofNat_natAbs_of_nonpos hneg.le, neg_neg]⟩)
  · next hpos => exact .inl ⟨rfl, (Int.natAbs_of_nonneg (not_lt.mp hpos)).symm⟩

theorem unsignedPart_digits {digits : Bytes} (hdigits : ∀ c ∈ digits, isdigit c) :
    unsignedPart digits = digits ∧ digits.head? ≠ some (chr '-') := by
  have hsign : ∀ c ∈ digits.head?, c ≠ chr '-' ∧ c ≠ chr '+' := by
    intro c hc
    have hdigit := hdigits c (List.mem_of_head? hc)
    constructor <;> rintro rfl <;> exact absurd hdigit (by decide)
  refine ⟨if_neg ?_, fun h => (hsign _ h).1 rfl⟩
  rintro (h | h)
  · exact (hsign _ h).1 rfl
  · exact (hsign _ h).2 rfl

/-- The parts of a decimal text that `lexicalCast` looks at. -/
theorem parts_of_denotes {text : Bytes} {value : Int} (h : Denotes text value) :
    unsignedPart text ≠ [] ∧ (unsignedPart text).all isdigit = true ∧
      value = if text.head? = some (chr '-') then -(decimal (unsignedPart text) : Int)
        else decimal (unsignedPart text) := by
  obtain ⟨digits, hne, hdigits, ⟨rfl, rfl⟩ | ⟨rfl, rfl⟩ | ⟨rfl, rfl⟩⟩ := h
  · obtain ⟨hpart, hhead⟩ := unsignedPart_digits hdigits
    rw [hpart, if_neg hhead]
    exact ⟨hne, List.all_eq_true.mpr hdigits, rfl⟩
  · exact ⟨hne, List.all_eq_true.mpr hdigits, rfl⟩
  · exact ⟨hne, List.all_eq_true.mpr hdigits, rfl⟩

/-! ## 3. Narrowing -/

theorem two_pow_bits {t : IntType} (ht : 0 < t.bits) :
    (2 : Int) ^ t.bits = 2 * 2 ^ (t.bits - 1) := by
  rw [← pow_succ', Nat.sub_add_cancel ht]

theorem emod_eq_self_iff {a b : Int} (hb : 0 < b) : a % b = a ↔ 0 ≤ a ∧ a < b :=
  ⟨fun h => ⟨h ▸ Int.emod_nonneg a hb.ne', h ▸ Int.emod_lt_of_pos a hb⟩,
    fun h => Int.emod_eq_of_lt h.1 h.2⟩

/-- Narrowing keeps exactly the values of the type. -/
theorem wrap_eq_iff {t : IntType} (ht : 0 < t.bits) (value : Int) :
    t.wrap value = value ↔ t.InRange value := by
  have hpos : (0 : Int) < 2 ^ t.bits := by positivity
  unfold IntType.wrap IntType.InRange IntType.min IntType.max
  cases t.signed with
  | true =>
    simp only [if_true]
    rw [sub_eq_iff_eq_add, emod_eq_self_iff hpos, two_pow_bits ht]
    omega
  | false =>
    simp only [Bool.false_eq_true, if_false]
    rw [emod_eq_self_iff hpos]
    omega

theorem inRange_of_small {t : IntType} (ht : 0 < t.bits) (hsmall : t.bits ≤ 8) {value : Int}
    (h : t.InRange value) : int32.InRange value := by
  obtain ⟨bits, signed⟩ := t
  rw [inRange_int32]
  revert h
  simp only [IntType.InRange, IntType.min, IntType.max] at *
  interval_cases bits <;> cases signed <;> simp <;> omega

/-! ## 4. Reading -/

theorem lexicalCast_denotes {t : IntType} {text : Bytes} {value : Int} (h : Denotes text value) :
    lexicalCast t text =
      if t.signed then if t.InRange value then some value else none
      else if value.natAbs ≤ t.max then some (if value < 0 then t.wrap value else value)
      else none := by
  obtain ⟨hne, hdigits, hvalue⟩ := parts_of_denotes h
  rw [lexicalCast]
  simp only [hne, hdigits, ne_eq, not_false_eq_true, and_self, if_true]
  cases hsigned : t.signed with
  | true => simp only [if_true, ← hvalue]
  | false =>
    simp only [Bool.false_eq_true, if_false]
    split at hvalue
    · next hneg =>
      have habs : value.natAbs = decimal (unsignedPart text) := by
        rw [hvalue, Int.natAbs_neg, Int.natAbs_natCast]
      rw [if_pos hneg, ← hvalue, habs]
      -- A minus sign before a zero is no negative number.
      have hzero : t.wrap 0 = 0 := by simp [IntType.wrap, hsigned]
      by_cases hvalue0 : value < 0
      · rw [if_pos hvalue0]
      · have h0 : value = 0 := by omega
        rw [if_neg hvalue0, h0, hzero]
    · next hpos =>
      have hnonneg : 0 ≤ value := by
        rw [hvalue]
        exact Int.natCast_nonneg _
      rw [if_neg hpos, if_neg (not_lt.mpr hnonneg), ← hvalue, Int.natAbs_of_nonneg hnonneg]

namespace TypedInteger

variable {t : IntType} {text : Bytes} {value : Int}

/-- The number is outside the type and still within what the cast takes: of a type of one byte, the
range of `int32_t`; of a wider unsigned type, the negatives of its values. -/
def Wraps (t : IntType) (value : Int) : Prop :=
  ¬ t.InRange value ∧
    if t.bits ≤ 8 then int32.InRange value else t.signed = false ∧ value < 0 ∧ -value ≤ t.max

theorem fromString_denotes (ht : 0 < t.bits) (h : Denotes text value) :
    (fromString t text = none ∨ fromString t text = some value) ↔ ¬ Wraps t value := by
  have hsigned : int32.signed = true := rfl
  unfold fromString Wraps
  by_cases hsmall : t.bits ≤ 8
  · rw [if_pos hsmall, if_pos hsmall, lexicalCast_denotes h, if_pos hsigned]
    by_cases hcast : int32.InRange value
    · simp [hcast, wrap_eq_iff ht]
    · simp [hcast]
  · rw [if_neg hsmall, if_neg hsmall, lexicalCast_denotes h]
    cases hsign : t.signed with
    | true =>
      by_cases hrange : t.InRange value
      · simp [hrange]
      · simp [hrange]
    | false =>
      have hmin : t.min = 0 := by simp [IntType.min, hsign]
      by_cases hmax : (value.natAbs : Int) ≤ t.max
      · by_cases hneg : value < 0
        · have hrange : ¬ t.InRange value := by
            rw [IntType.InRange, hmin]
            omega
          have hwrap : t.wrap value ≠ value := (wrap_eq_iff ht value).not.mpr hrange
          have hle : -value ≤ t.max := by omega
          rw [if_neg Bool.false_ne_true, if_pos hmax, if_pos hneg]
          simp [hneg, hrange, hwrap, hle]
        · rw [if_neg Bool.false_ne_true, if_pos hmax, if_neg hneg]
          simp [hneg]
      · have hno : value < 0 → ¬ -value ≤ t.max := by omega
        simp only [hmax, Bool.false_eq_true, if_false, true_or, true_iff]
        exact fun hwraps => hno hwraps.2.2.1 hwraps.2.2.2

/-- A value of the type is read from its digits. -/
theorem fromString_intText (ht : 0 < t.bits) (hvalue : t.InRange value) :
    fromString t (intText value) = some value := by
  have hsigned : int32.signed = true := rfl
  unfold fromString
  split
  · next hsmall =>
    rw [lexicalCast_denotes (denotes_intText value), if_pos hsigned,
      if_pos (inRange_of_small ht hsmall hvalue), Option.map_some, (wrap_eq_iff ht value).mpr hvalue]
  · rw [lexicalCast_denotes (denotes_intText value)]
    cases hsign : t.signed with
    | true => rw [if_pos rfl, if_pos hvalue]
    | false =>
      have hmin : t.min = 0 := by simp [IntType.min, hsign]
      obtain ⟨hlow, hhigh⟩ := hvalue
      rw [hmin] at hlow
      rw [if_neg Bool.false_ne_true, Int.natAbs_of_nonneg hlow, if_pos hhigh,
        if_neg (not_lt.mpr hlow)]

/-- The mark of the largest value is no number. -/
theorem fromString_marked (digits : Bytes) (hdigits : digits ≠ []) :
    fromString t (digits ++ bytes "==Max") = none := by
  have hmark : chr '=' ∈ unsignedPart (digits ++ bytes "==Max") := by
    obtain ⟨d, digits, rfl⟩ := List.exists_cons_of_ne_nil hdigits
    have hmem : chr '=' ∈ digits ++ bytes "==Max" :=
      List.mem_append_right _ (by decide)
    unfold unsignedPart
    split
    · exact hmem
    · exact List.mem_cons_of_mem _ hmem
  have hcast : ∀ t, lexicalCast t (digits ++ bytes "==Max") = none := by
    intro t
    have hall : ¬ (unsignedPart (digits ++ bytes "==Max")).all isdigit = true := by
      intro hall
      exact absurd (List.all_eq_true.mp hall _ hmark) (by decide)
    rw [lexicalCast]
    exact if_neg fun h => hall h.2
  unfold fromString
  split
  · rw [hcast, Option.map_none]
  · exact hcast t

/-- What is printed is one word. -/
theorem extractWord_print (t : IntType) (value : Int) :
    extractWord (print t value) = print t value := by
  have hclass : ∀ c, isdigit c ∨ c = chr '-' ∨ c ∈ bytes "==Max" → isspace c = false := by
    decide +kernel
  have hword : ∀ c ∈ print t value, isspace c = false := fun c hc => hclass c (mem_print hc)
  have hskip : (print t value).dropWhile isspace = print t value := by
    rw [List.dropWhile_eq_self_iff]
    intro hlen
    simp [hword _ (List.getElem_mem hlen)]
  rw [extractWord, hskip, List.takeWhile_eq_self_iff]
  intro c hc
  rw [hword c hc]
  rfl

theorem read_print (ht : 0 < t.bits) (hvalue : t.InRange value) :
    read t (print t value) = some value ↔ value ≠ t.max := by
  rw [read, extractWord_print]
  by_cases hmax : value = t.max
  · have hprint : print t value = intText value ++ bytes "==Max" := by
      rw [print, if_pos hmax, toString]
    have hne : intText value ≠ [] := by
      unfold intText
      split
      · exact List.cons_ne_nil _ _
      · exact natText_ne_nil _
    rw [hprint, fromString_marked _ hne]
    exact iff_of_false (fun h => nomatch h) (not_not.mpr hmax)
  · rw [print_eq_intText.mpr hmax, fromString_intText ht hvalue]
    exact iff_of_true rfl hmax

/-- A value is read back from what is printed for it exactly when it is not the largest one, and a
decimal text is read as its number or not at all exactly when the number does not wrap. -/
theorem typedInteger_text (t : IntType) (ht : 0 < t.bits) :
    (∀ value, t.InRange value → (read t (print t value) = some value ↔ value ≠ t.max)) ∧
    ∀ text value, Denotes text value →
      ((fromString t text = none ∨ fromString t text = some value) ↔ ¬ Wraps t value) :=
  ⟨fun _ => read_print ht, fun _ _ => fromString_denotes ht⟩

theorem typedInteger_text_uint8 :
    (∀ value, uint8.InRange value →
      (read uint8 (print uint8 value) = some value ↔ value ≠ uint8.max)) ∧
    ∀ text value, Denotes text value →
      ((fromString uint8 text = none ∨ fromString uint8 text = some value) ↔ ¬ Wraps uint8 value) :=
  typedInteger_text uint8 (by decide)

/-- The largest value is not read back, and a status of 256 is read as 0. -/
theorem typedInteger_text_fails :
    (int32.InRange 2147483647 ∧
      read int32 (print int32 2147483647) ≠ some 2147483647) ∧
    Denotes (bytes "256") 256 ∧
      ¬ (fromString uint8 (bytes "256") = none ∨ fromString uint8 (bytes "256") = some 256) :=
  ⟨by decide +kernel, ⟨bytes "256", by decide +kernel⟩, by decide +kernel⟩

/-- The status of a child is read so from the number of its row. -/
theorem fromString_status (status : Int32) :
    fromString uint8 (intText status.toInt) = some (status.toUInt32.toUInt8.toNat : Int) := by
  have hsigned : int32.signed = true := rfl
  have hrange : int32.InRange status.toInt :=
    inRange_int32.mpr ⟨Int32.le_toInt status, Int32.toInt_lt status⟩
  rw [fromString, if_pos (by decide), lexicalCast_denotes (denotes_intText _), if_pos hsigned,
    if_pos hrange, Option.map_some]
  have hint : status.toInt = status.toUInt32.toBitVec.toInt := rfl
  rw [hint, BitVec.toInt_eq_toNat_cond, UInt32.toNat_toUInt8]
  have hlt := status.toUInt32.toNat_lt
  have hnat : status.toUInt32.toBitVec.toNat = status.toUInt32.toNat := rfl
  have hwrap : ∀ n : Int, uint8.wrap n = n % 256 := fun n => rfl
  rw [hwrap, hnat]
  congr 1
  split <;> omega

end TypedInteger

end SafeKiddo
