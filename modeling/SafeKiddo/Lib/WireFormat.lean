import SafeKiddo.Lib.ByteString

/-!
# A wire format of fields

Texts of fields, each behind its key: numbers in groups of seven bits, and texts behind their
length. A reader takes what it reads off the front of a text.

Results:
1. `parses_varint`, `parses_chunk`: a reader gives back what was written, whatever follows.
2. `Parses.field`, `Parses.optional`: the same for a field, and for one that may be missing.
-/

namespace WireFormat

open ByteString

abbrev Reader (α : Type) := Bytes → Option (α × Bytes)

/-- The reader takes the text off, and nothing of what follows. -/
def Parses {α : Type} (read : Reader α) (text : Bytes) (a : α) : Prop :=
  ∀ rest, read (text ++ rest) = some (a, rest)

/-! ## 1. Numbers and texts -/

/-- Seven bits in a byte, the low ones first, in `fuel` bytes at most. The last byte has no high
bit. -/
def groups : Nat → Nat → Bytes
  | 0, _ => []
  | fuel + 1, n =>
    if n < 128 then [Fin.ofNat 256 n]
    else Fin.ofNat 256 (n % 128 + 128) :: groups fuel (n / 128)

def varint (n : Nat) : Bytes := groups (n + 1) n

def readVarint : Reader Nat
  | [] => none
  | b :: rest =>
    if b.val < 128 then some (b.val, rest)
    else (readVarint rest).map fun (n, rest) => (b.val - 128 + 128 * n, rest)

/-- A text behind its length. -/
def chunk (text : Bytes) : Bytes := varint text.length ++ text

def readChunk : Reader Bytes := fun text => do
  let (length, rest) ← readVarint text
  if length ≤ rest.length then some (rest.take length, rest.drop length) else none

theorem val_ofNat {n : Nat} (h : n < 256) : (Fin.ofNat 256 n).val = n :=
  Nat.mod_eq_of_lt h

theorem parses_groups {fuel n : Nat} (h : n < fuel) : Parses readVarint (groups fuel n) n := by
  induction fuel generalizing n with
  | zero => exact absurd h (Nat.not_lt_zero n)
  | succ fuel ih =>
    intro rest
    rw [groups]
    split
    · next hn =>
      have hval : (Fin.ofNat 256 n).val = n := val_ofNat (by omega)
      rw [List.singleton_append, readVarint, if_pos (hval.symm ▸ hn), hval]
    · next hn =>
      have hval : (Fin.ofNat 256 (n % 128 + 128)).val = n % 128 + 128 := val_ofNat (by omega)
      have hrest := ih (show n / 128 < fuel by omega) rest
      have hsum : n % 128 + 128 - 128 + 128 * (n / 128) = n := by
        rw [Nat.add_sub_cancel]
        exact Nat.mod_add_div n 128
      rw [List.cons_append, readVarint, if_neg (by omega), hrest, hval, Option.map_some]
      simp only [hsum]

theorem parses_varint (n : Nat) : Parses readVarint (varint n) n :=
  parses_groups (Nat.lt_succ_self n)

theorem parses_chunk (text : Bytes) : Parses readChunk (chunk text) text := by
  intro rest
  have hlength := parses_varint text.length (text ++ rest)
  simp [readChunk, chunk, hlength]

/-! ## 2. Fields -/

/-- The key of a field: its number and how its value is written. -/
def key (number wireType : Nat) : Byte := Fin.ofNat 256 (8 * number + wireType)

section Fields

variable {α β : Type} {read : Reader α} {text : Bytes} {a : α} {k : Byte}

def readField (k : Byte) (read : Reader α) : Reader α
  | [] => none
  | b :: rest => if b = k then read rest else none

def readOptional (k : Byte) (read : Reader α) : Reader (Option α)
  | [] => some (none, [])
  | b :: rest =>
    if b = k then (read rest).map fun (a, rest) => (some a, rest) else some (none, b :: rest)

/-- What follows a text of optional fields does not start with a field that could be read. -/
def Ends (k : Byte) (rest : Bytes) : Prop := ∀ b ∈ rest.head?, b ≠ k

theorem Parses.field (h : Parses read text a) (k : Byte) :
    Parses (readField k read) (k :: text) a := by
  intro rest
  rw [List.cons_append, readField, if_pos rfl]
  exact h rest

theorem Parses.optional (h : Parses read text a) (k : Byte) :
    Parses (readOptional k read) (k :: text) (some a) := by
  intro rest
  rw [List.cons_append, readOptional, if_pos rfl, h rest]
  rfl

theorem readOptional_of_ends {rest : Bytes} (h : Ends k rest) :
    readOptional k read rest = some (none, rest) := by
  cases rest with
  | nil => rfl
  | cons b rest => rw [readOptional, if_neg (h b rfl)]

end Fields

end WireFormat
