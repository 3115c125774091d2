import Mathlib

/-!
# Byte strings

`std::string` and the part of `<string>`, `<cctype>` and `<cstring>` that works on it, over bytes.
A `char` is compared as an unsigned byte, as `std::char_traits<char>` does. The locale is "C".

* A position is a `Nat`, and `none` is `std::string::npos`.
* `Checked` is a computation that may stop the process: `none` stands for a failed assertion or an
  exception of the standard library.
-/

namespace ByteString

/-! ## 1. Strings and checked computations -/

/-- A `char`. -/
abbrev Byte := Fin 256

-- Named here once, so that no definition below carries a proof of its own.
instance byteNeZero : NeZero 256 := ⟨by decide⟩
instance byteLawfulBEq : LawfulBEq Byte := inferInstance

/-- A `std::string`. -/
abbrev Bytes := List Byte

/-- The byte of an ASCII character. -/
def chr (c : Char) : Byte := Fin.ofNat 256 c.toNat

instance : Coe Char Byte := ⟨chr⟩

/-- The bytes of an ASCII string literal. -/
def bytes (s : String) : Bytes := s.toList.map chr

/-- A computation that may stop the process. -/
abbrev Checked := Option

/-- `ASSERT(cond, ...)`: a failed condition stops the process. -/
def assert (cond : Prop) [Decidable cond] : Checked Unit := if cond then some () else none

theorem chr_eq_chr {a b : Char} : chr a = chr b ↔ a.toNat % 256 = b.toNat % 256 := by
  simp [chr, Fin.ext_iff]

@[simp] theorem assert_true {cond : Prop} [Decidable cond] (h : cond) : assert cond = some () :=
  if_pos h

/-! ## 2. Searching and cutting -/

/-- `s.find(c, pos)`. -/
def find (s : Bytes) (c : Byte) (pos : Nat) : Option Nat :=
  ((s.drop pos).findIdx? (· = c)).map (· + pos)

/-- `s.find_first_of(cs, pos)`. -/
def findFirstOf (s cs : Bytes) (pos : Nat) : Option Nat :=
  ((s.drop pos).findIdx? (· ∈ cs)).map (· + pos)

/-- `s.rfind(c)`. -/
def rfind (s : Bytes) (c : Byte) : Option Nat :=
  (s.reverse.findIdx? (· = c)).map fun i => s.length - 1 - i

/-- `s.find_first_not_of(c, pos)`. -/
def findFirstNotOf (s : Bytes) (c : Byte) (pos : Nat) : Option Nat :=
  ((s.drop pos).findIdx? (· ≠ c)).map (· + pos)

/-- `s.find_last_not_of(c)`. -/
def findLastNotOf (s : Bytes) (c : Byte) : Option Nat :=
  (s.reverse.findIdx? (· ≠ c)).map fun i => s.length - 1 - i

/-- `s.substr(pos, len)`, for a `pos` inside `s`; `none` as `len` is `npos`. -/
def substr (s : Bytes) (pos : Nat) (len : Option Nat) : Bytes :=
  match len with
  | some n => (s.drop pos).take n
  | none => s.drop pos

/-- `s.compare(pos, len, str) == 0`, which throws `std::out_of_range` when `pos` is past the end. -/
def compareAt (s : Bytes) (pos len : Nat) (str : Bytes) : Checked Bool :=
  if pos ≤ s.length then some ((s.drop pos).take len = str) else none

/-- `str.find(text) != npos`. -/
def contains (str text : Bytes) : Bool := decide (text <:+: str)

theorem substr_front (a b : Bytes) : substr (a ++ b) 0 (some a.length) = a := List.take_left

theorem substr_rest (a b : Bytes) : substr (a ++ b) a.length none = b := List.drop_left

/-- Cutting behind a prefix is cutting what follows it. -/
theorem substr_append_length (a b : Bytes) (n : Nat) (len : Option Nat) :
    substr (a ++ b) (a.length + n) len = substr b n len := by
  cases len with
  | none => exact List.drop_length_add_append n
  | some m => exact congrArg (List.take m) (List.drop_length_add_append n)

section Find

variable {s a b cs : Bytes} {c : Byte} {n : Nat}

theorem find_eq_none (h : c ∉ s.drop n) : find s c n = none := by
  simp only [find, Option.map_eq_none_iff, List.findIdx?_eq_none_iff, decide_eq_false_iff_not]
  intro x hx hxc
  exact h (hxc ▸ hx)

/-- What holds no delimiter is kept up to it. -/
theorem keep_of_notMem (h : c ∉ a) : ∀ x ∈ a, decide (x ≠ c) = true := by
  intro x hx
  rw [decide_eq_true_eq]
  rintro rfl
  exact h hx

/-- A prefix without the delimiter is skipped. -/
theorem find_skip (h : c ∉ a) (b : Bytes) :
    find (a ++ b) c 0 = (find b c 0).map (a.length + ·) := by
  have ha : a.findIdx? (· = c) = none := by
    simp only [List.findIdx?_eq_none_iff, decide_eq_false_iff_not]
    exact fun x hx hxc => h (hxc ▸ hx)
  simp only [find, List.drop_zero, List.findIdx?_append, ha, Option.none_or, Option.map_map]
  exact congrArg (Option.map · _) (funext fun i => Nat.add_comm i a.length)

theorem find_head (c : Byte) (b : Bytes) : find (c :: b) c 0 = some 0 := by
  simp [find, List.findIdx?_cons]

theorem find_cons {d : Byte} (hd : d ≠ c) (b : Bytes) :
    find (d :: b) c 0 = (find b c 0).map (1 + ·) := by
  have h : c ∉ [d] := by simpa using Ne.symm hd
  exact find_skip h b

/-- The first delimiter of `a ++ c :: b` is the shown one, when `a` has none. -/
theorem find_append (h : c ∉ a) : find (a ++ c :: b) c 0 = some a.length := by
  rw [find_skip h, find_head]
  rfl

/-- A found position is where the first delimiter stands. -/
theorem find_eq_some {i : Nat} (h : find s c 0 = some i) :
    ∃ a b, s = a ++ c :: b ∧ c ∉ a ∧ a.length = i := by
  by_cases hmem : c ∈ s
  · obtain ⟨a, b, rfl, ha⟩ := List.eq_append_cons_of_mem hmem
    rw [find_append ha] at h
    exact ⟨a, b, rfl, ha, Option.some.inj h⟩
  · rw [find_eq_none (n := 0) hmem] at h
    exact nomatch h

/-- Searching from the end of a prefix is searching in what follows it. -/
theorem find_append_length (p s : Bytes) (c : Byte) (n : Nat) :
    find (p ++ s) c (p.length + n) = (find s c n).map (p.length + ·) := by
  simp only [find, List.drop_length_add_append, Option.map_map]
  exact congrArg (Option.map · _) (funext fun i => by simp; omega)

theorem findFirstOf_append_length (p s cs : Bytes) (n : Nat) :
    findFirstOf (p ++ s) cs (p.length + n) = (findFirstOf s cs n).map (p.length + ·) := by
  simp only [findFirstOf, List.drop_length_add_append, Option.map_map]
  exact congrArg (Option.map · _) (funext fun i => by simp; omega)

theorem findFirstOf_eq_none (h : ∀ x ∈ s, x ∉ cs) : findFirstOf s cs 0 = none := by
  simpa [findFirstOf, List.findIdx?_eq_none_iff] using h

theorem findFirstOf_skip (ha : ∀ x ∈ a, x ∉ cs) (b : Bytes) :
    findFirstOf (a ++ b) cs 0 = (findFirstOf b cs 0).map (a.length + ·) := by
  have h : a.findIdx? (· ∈ cs) = none := by
    simpa [List.findIdx?_eq_none_iff] using ha
  simp only [findFirstOf, List.drop_zero, List.findIdx?_append, h, Option.none_or, Option.map_map]
  exact congrArg (Option.map · _) (funext fun i => Nat.add_comm i a.length)

theorem findFirstOf_cons {d : Byte} (hd : d ∉ cs) (b : Bytes) :
    findFirstOf (d :: b) cs 0 = (findFirstOf b cs 0).map (1 + ·) := by
  have h : ∀ x ∈ [d], x ∉ cs := by simpa using hd
  exact findFirstOf_skip h b

theorem findFirstOf_head (hc : c ∈ cs) (b : Bytes) : findFirstOf (c :: b) cs 0 = some 0 := by
  simp [findFirstOf, List.findIdx?_cons, hc]

/-- A string with a delimiter has a last one. -/
theorem exists_last (h : c ∈ s) : ∃ a b, s = a ++ c :: b ∧ c ∉ b := by
  obtain ⟨a, b, hab, ha⟩ := List.eq_append_cons_of_mem (List.mem_reverse.mpr h)
  refine ⟨b.reverse, a.reverse, ?_, fun hm => ha (List.mem_reverse.mp hm)⟩
  rw [← List.reverse_reverse s, hab]
  simp

/-- The last delimiter of `a ++ c :: b` is the shown one, when `b` has none. -/
theorem rfind_append (h : c ∉ b) : rfind (a ++ c :: b) c = some a.length := by
  have hb : b.reverse.findIdx? (· = c) = none := by
    simp only [List.findIdx?_eq_none_iff, decide_eq_false_iff_not, List.mem_reverse]
    exact fun x hx hxc => h (hxc ▸ hx)
  simp [rfind, List.findIdx?_append, hb, List.findIdx?_cons]

/-- The first other byte stands behind a run of the byte. -/
theorem findFirstNotOf_append {d : Byte} (q : Bytes) (ha : ∀ x ∈ a, x = c) (hd : d ≠ c)
    (b : Bytes) : findFirstNotOf (q ++ (a ++ d :: b)) c q.length = some (q.length + a.length) := by
  have hrun : a.findIdx? (fun x => !decide (x = c)) = none := by
    simpa [List.findIdx?_eq_none_iff] using ha
  simp [findFirstNotOf, List.findIdx?_append, hrun, List.findIdx?_cons, hd, Nat.add_comm]

theorem findFirstNotOf_eq_none (q : Bytes) (ha : ∀ x ∈ a, x = c) :
    findFirstNotOf (q ++ a) c q.length = none := by
  simpa [findFirstNotOf, List.findIdx?_eq_none_iff] using ha

/-- The last other byte stands before a run of the byte. -/
theorem findLastNotOf_append {d : Byte} (hd : d ≠ c) (hb : ∀ x ∈ b, x = c) :
    findLastNotOf (a ++ d :: b) c = some a.length := by
  have hrun : b.reverse.findIdx? (fun x => !decide (x = c)) = none := by
    simpa [List.findIdx?_eq_none_iff] using hb
  simp [findLastNotOf, List.findIdx?_append, hrun, List.findIdx?_cons, hd]

/-- A found position is inside the string. -/
theorem find_lt {i : Nat} (h : find s c n = some i) : n ≤ i ∧ i < s.length := by
  simp only [find, Option.map_eq_some_iff] at h
  obtain ⟨j, hj, rfl⟩ := h
  obtain ⟨hlt, -⟩ := List.findIdx?_eq_some_iff_getElem.mp hj
  rw [List.length_drop] at hlt
  omega

end Find

/-! ## 3. Character classes and case -/

def isdigit (c : Byte) : Bool := chr '0' ≤ c && c ≤ chr '9'

def isupper (c : Byte) : Bool := chr 'A' ≤ c && c ≤ chr 'Z'

def islower (c : Byte) : Bool := chr 'a' ≤ c && c ≤ chr 'z'

def isalnum (c : Byte) : Bool := isdigit c || isupper c || islower c

def isxdigit (c : Byte) : Bool :=
  isdigit c || (chr 'A' ≤ c && c ≤ chr 'F') || (chr 'a' ≤ c && c ≤ chr 'f')

def isspace (c : Byte) : Bool := c = chr ' ' || (chr '\t' ≤ c && c ≤ chr '\r')

def tolower (c : Byte) : Byte := if isupper c then c + 32 else c

/-- The number that a run of digits denotes. -/
def decimal (digits : Bytes) : Nat := digits.foldl (fun n c => 10 * n + (c.val - 48)) 0

/-- `std::transform(s.begin(), s.end(), s.begin(), ::tolower)`. -/
def lowercase (s : Bytes) : Bytes := s.map tolower

/-- `strncasecmp(prefix, string, prefix.size()) == 0` on two long enough strings. -/
def equalNoCase (s t : Bytes) : Bool := lowercase s = lowercase t

/-- A byte that is no upper-case letter and no lower-case letter is neither made nor changed by
`tolower`. -/
theorem tolower_eq_iff {c d : Byte} (hu : isupper d = false) (hl : islower d = false) :
    tolower c = d ↔ c = d := by
  unfold tolower
  split
  · next hc =>
    simp [isupper, islower, chr, Fin.le_def, Fin.ext_iff, Fin.val_add] at *
    omega
  · exact Iff.rfl

theorem mem_lowercase {s : Bytes} {d : Byte} (hu : isupper d = false) (hl : islower d = false) :
    d ∈ lowercase s ↔ d ∈ s := by
  simp [lowercase, tolower_eq_iff hu hl]

theorem tolower_tolower (c : Byte) : tolower (tolower c) = tolower c := by
  revert c
  decide +kernel

theorem lowercase_lowercase (s : Bytes) : lowercase (lowercase s) = lowercase s := by
  simp [lowercase, tolower_tolower]

@[simp] theorem lowercase_append (s t : Bytes) : lowercase (s ++ t) = lowercase s ++ lowercase t :=
  List.map_append

end ByteString
