import SafeKiddo.Lib.ByteString

/-!
# Input streams

`std::istream` over the bytes that a buffer has: words, unsigned numbers and lines. Reading up to
the end of the buffer sets a flag, and from then on nothing is read.

Results:
1. `readWord_eq`, `readUnsigned_eq`, `getline_eq`: what is read when more follows it.
2. `getline_shorter`: the buffer gets shorter with each line.
-/

namespace ByteString

structure InputStream where
  buf : Bytes
  eof : Bool
  fail : Bool

namespace InputStream

def good (s : InputStream) : Bool := !s.eof && !s.fail

/-- Blanks in front are left out. -/
def skipws (s : InputStream) : InputStream :=
  let buf := s.buf.dropWhile isspace
  if s.good then
    if buf = [] then ⟨[], true, true⟩ else { s with buf }
  else { s with fail := true }

/-- `>>` of a string. -/
def readWord (s : InputStream) : Bytes × InputStream :=
  let s := s.skipws
  if s.fail then ([], s)
  else
    let buf := s.buf.dropWhile fun c => !isspace c
    (s.buf.takeWhile fun c => !isspace c, { s with buf, eof := buf = [] })

/-- `>>` of an `unsigned int`. A number with a minus sign is negated in the type. -/
def readUnsigned (s : InputStream) : UInt32 × InputStream :=
  let s := s.skipws
  if s.fail then (0, s)
  else
    let negative := s.buf.head? = some (chr '-')
    let text := if negative ∨ s.buf.head? = some (chr '+') then s.buf.tail else s.buf
    let digits := text.takeWhile isdigit
    let buf := text.dropWhile isdigit
    let s := { s with buf, eof := buf = [] }
    let magnitude := decimal digits
    if digits = [] then (0, { s with fail := true })
    else if magnitude < 2 ^ 32 then
      (if negative then -UInt32.ofNat magnitude else UInt32.ofNat magnitude, s)
    else (UInt32.ofNat (2 ^ 32 - 1), { s with fail := true })

/-- A line without an end of line is one, unless it is empty. -/
def getline (s : InputStream) : Bytes × InputStream :=
  if s.good then
    let line := s.buf.takeWhile (· ≠ chr '\n')
    match s.buf.dropWhile (· ≠ chr '\n') with
    | [] => (line, ⟨[], true, line = []⟩)
    | _ :: buf => (line, { s with buf })
  else ([], { s with fail := true })

/-- A stream that can be read. -/
def of (buf : Bytes) : InputStream := ⟨buf, false, false⟩

variable {blanks word digits line rest : Bytes} {c d : Byte}

theorem skipws_of (hblanks : ∀ b ∈ blanks, isspace b = true) (hc : isspace c = false) :
    (of (blanks ++ c :: rest)).skipws = of (c :: rest) := by
  have hdrop : (blanks ++ c :: rest).dropWhile isspace = c :: rest := by
    rw [List.dropWhile_append_of_pos hblanks, List.dropWhile_cons_of_neg (by simp [hc])]
  simp only [skipws, of, hdrop, good, List.cons_ne_nil, Bool.not_false, Bool.and_self, if_true,
    if_false]

theorem readWord_eq (hne : word ≠ []) (hword : ∀ c ∈ word, isspace c = false)
    (hd : isspace d = true) : (of (word ++ d :: rest)).readWord = (word, of (d :: rest)) := by
  obtain ⟨c, word, rfl⟩ := List.exists_cons_of_ne_nil hne
  have hskip : (of (c :: word ++ d :: rest)).skipws = of (c :: word ++ d :: rest) :=
    skipws_of (List.forall_mem_nil _) (hword c List.mem_cons_self)
  have hall : ∀ b ∈ c :: word, (!isspace b) = true := fun b hb => by rw [hword b hb]; rfl
  have htake : (c :: word ++ d :: rest).takeWhile (fun b => !isspace b) = c :: word := by
    rw [List.takeWhile_append_of_pos hall, List.takeWhile_cons_of_neg (by simp [hd]),
      List.append_nil]
  have hdrop : (c :: word ++ d :: rest).dropWhile (fun b => !isspace b) = d :: rest := by
    rw [List.dropWhile_append_of_pos hall, List.dropWhile_cons_of_neg (by simp [hd])]
  unfold readWord
  rw [hskip]
  simp only [of, htake, hdrop, List.cons_ne_nil, decide_false, Bool.false_eq_true, if_false]

theorem plain_of_isdigit : ∀ c : Byte, isdigit c = true →
    isspace c = false ∧ c ≠ chr '-' ∧ c ≠ chr '+' := by
  decide +kernel

theorem readUnsigned_eq (hblanks : ∀ b ∈ blanks, isspace b = true) (hne : digits ≠ [])
    (hdigits : ∀ c ∈ digits, isdigit c = true) (hlt : decimal digits < 2 ^ 32)
    (hd : isdigit d = false) : (of (blanks ++ (digits ++ d :: rest))).readUnsigned =
      (UInt32.ofNat (decimal digits), of (d :: rest)) := by
  obtain ⟨c, digits, rfl⟩ := List.exists_cons_of_ne_nil hne
  obtain ⟨hspace, hminus, hplus⟩ := plain_of_isdigit c (hdigits c List.mem_cons_self)
  have hskip : (of (blanks ++ (c :: digits ++ d :: rest))).skipws = of (c :: digits ++ d :: rest) :=
    skipws_of hblanks hspace
  have htake : (c :: digits ++ d :: rest).takeWhile isdigit = c :: digits := by
    rw [List.takeWhile_append_of_pos hdigits, List.takeWhile_cons_of_neg (by simp [hd]),
      List.append_nil]
  have hdrop : (c :: digits ++ d :: rest).dropWhile isdigit = d :: rest := by
    rw [List.dropWhile_append_of_pos hdigits, List.dropWhile_cons_of_neg (by simp [hd])]
  have hhead : (c :: digits ++ d :: rest).head? = some c := rfl
  unfold readUnsigned
  rw [hskip]
  simp only [of, hhead, Option.some_inj, hminus, hplus, or_self, if_false, htake, hdrop,
    List.cons_ne_nil, decide_false, hlt, Bool.false_eq_true, if_true]

theorem getline_eq (hline : chr '\n' ∉ line) :
    (of (line ++ chr '\n' :: rest)).getline = (line, of rest) := by
  have hall : ∀ c ∈ line, decide (c ≠ chr '\n') = true :=
    fun c hc => decide_eq_true fun h => hline (h ▸ hc)
  have htake : (line ++ chr '\n' :: rest).takeWhile (· ≠ chr '\n') = line := by
    rw [List.takeWhile_append_of_pos hall, List.takeWhile_cons_of_neg (by simp), List.append_nil]
  have hdrop : (line ++ chr '\n' :: rest).dropWhile (· ≠ chr '\n') = chr '\n' :: rest := by
    rw [List.dropWhile_append_of_pos hall, List.dropWhile_cons_of_neg (by simp)]
  simp only [getline, of, good, htake, hdrop, Bool.not_false, Bool.and_self, if_true]

theorem getline_shorter (s : InputStream) (h : s.getline.2.fail = false) :
    s.getline.2.buf.length < s.buf.length := by
  unfold getline at h ⊢
  split
  · next hgood =>
    simp only [if_pos hgood] at h
    cases hdrop : s.buf.dropWhile (· ≠ chr '\n') with
    | nil =>
      simp only [hdrop] at h ⊢
      refine List.length_pos_iff.mpr fun hnil => ?_
      rw [hnil] at h
      exact absurd h (by decide)
    | cons c buf =>
      have hlength := (List.dropWhile_suffix (l := s.buf) fun c => decide (c ≠ chr '\n')).length_le
      rw [hdrop] at hlength
      exact hlength
  · next hgood =>
    rw [if_neg hgood] at h
    cases h

end InputStream

end ByteString
