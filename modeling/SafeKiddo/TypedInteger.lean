import SafeKiddo.Lib.ByteString

/-!
# Typed integers

`TypedInteger` of `typedInteger.h` wraps a C++ integer type. Its stream operator prints the decimal
digits and marks the largest value of the type.

Results:
1. `mem_intText`: a decimal text has digits and a minus sign only.
2. `print_eq_intText`: a typed integer prints as a decimal text, except the largest one.
-/

namespace SafeKiddo

open ByteString

/-! ## 1. Decimal texts -/

def digit (d : Nat) : Byte := Fin.ofNat 256 (48 + d)

def natText (n : Nat) : Bytes :=
  if n = 0 then [chr '0'] else (Nat.digits 10 n).reverse.map digit

/-- What a stream and `boost::lexical_cast` print for an integer. -/
def intText (n : Int) : Bytes := if n < 0 then chr '-' :: natText n.natAbs else natText n.natAbs

theorem isdigit_digit {d : Nat} (hd : d < 10) : isdigit (digit d) := by
  interval_cases d <;> decide

theorem isdigit_of_mem_natText {n : Nat} {c : Byte} (hc : c ∈ natText n) : isdigit c := by
  unfold natText at hc
  split at hc
  · rw [List.mem_singleton] at hc
    subst hc
    decide
  · rw [List.mem_map] at hc
    obtain ⟨d, hd, rfl⟩ := hc
    exact isdigit_digit (Nat.digits_lt_base (by decide) (List.mem_reverse.mp hd))

theorem mem_intText {n : Int} {c : Byte} (hc : c ∈ intText n) : isdigit c ∨ c = chr '-' := by
  unfold intText at hc
  split at hc
  · rcases List.mem_cons.mp hc with rfl | hc
    · exact .inr rfl
    · exact .inl (isdigit_of_mem_natText hc)
  · exact .inl (isdigit_of_mem_natText hc)

/-! ## 2. The code -/

/-- A C++ integer type. -/
structure IntType where
  bits : Nat
  signed : Bool

/-- `std::numeric_limits<TInt>::max()`. -/
def IntType.max (t : IntType) : Int := if t.signed then 2 ^ (t.bits - 1) - 1 else 2 ^ t.bits - 1

def int32 : IntType := ⟨32, true⟩

namespace TypedInteger

/-- `toString`. A type of one byte is printed as a number, too. -/
def toString (value : Int) : Bytes := intText value

/-- `operator<<`. -/
def print (t : IntType) (value : Int) : Bytes :=
  toString value ++ if value = t.max then bytes "==Max" else []

theorem print_eq_intText {t : IntType} {value : Int} :
    print t value = intText value ↔ value ≠ t.max := by
  unfold print toString
  split
  · next h =>
    have hne : bytes "==Max" ≠ [] := by decide
    simp [h, hne]
  · next h => simp [h]

theorem mem_print {t : IntType} {value : Int} {c : Byte} (hc : c ∈ print t value) :
    isdigit c ∨ c = chr '-' ∨ c ∈ bytes "==Max" := by
  unfold print at hc
  rcases List.mem_append.mp hc with hc | hc
  · exact (mem_intText hc).imp id .inl
  · split at hc
    · exact .inr (.inr hc)
    · exact absurd hc List.not_mem_nil

end TypedInteger

example : TypedInteger.print int32 (-120) = bytes "-120" ∧
    TypedInteger.print int32 2147483647 = bytes "2147483647==Max" := by
  decide +kernel

end SafeKiddo
