import SafeKiddo.Lib.ByteString

/-!
# COPY text

The text format of PostgreSQL's `COPY ... FROM STDIN`, as its reader takes it: a backslash takes the
next byte with it, a newline ends a row, a tab separates two columns, and `\N` is null.

Results:
1. `tokens_append_cons`: all that a text can do to the byte after it is to take it by a backslash.
   `paired_iff`: a text whose backslashes are paired does not.
2. `column_eq_self`: a text reads as itself exactly when it has no backslash.
3. `rows_terminated`: when a text with its final newline is one row, and which.
4. `plain_of_field`: a text written raw between two columns comes back only if it is plain.
-/

namespace CopyText

open ByteString

/-! ## 1. The reader -/

/-- A byte, or a byte with the backslash before it. -/
inductive Token
  | raw (c : Byte)
  | escaped (c : Byte)
  deriving DecidableEq

open Token

/-- A backslash at the very end is dropped. -/
def tokens : Bytes → List Token
  | [] => []
  | [c] => if c = '\\' then [] else [raw c]
  | c :: d :: s => if c = '\\' then escaped d :: tokens s else raw c :: tokens (d :: s)

def octalDigit (c : Byte) : Option Nat :=
  if chr '0' ≤ c ∧ c ≤ chr '7' then some (c.val - 48) else none

def hexDigit (c : Byte) : Option Nat :=
  if isdigit c then some (c.val - 48)
  else if isxdigit c then some ((tolower c).val - 87)
  else none

/-- At most `n` digits from the front. -/
def digits (value : Byte → Option Nat) : Nat → List Token → List Nat
  | n + 1, raw c :: ts => match value c with
    | some d => d :: digits value n ts
    | none => []
  | _, _ => []

/-- The byte that the digits denote, higher bits cut off. -/
def number (base : Nat) (ds : List Nat) : Byte := Fin.ofNat 256 (ds.foldl (base * · + ·) 0)

def control (c : Byte) : Option Byte :=
  if c = 'b' then some 8
  else if c = 't' then some 9
  else if c = 'n' then some 10
  else if c = 'v' then some 11
  else if c = 'f' then some 12
  else if c = 'r' then some 13
  else none

/-- What `\c` before `ts` denotes, and how many tokens of `ts` belong to it. -/
def escape (c : Byte) (ts : List Token) : Byte × Nat :=
  match control c, octalDigit c with
  | some d, _ => (d, 0)
  | none, some d => (number 8 (d :: digits octalDigit 2 ts), (digits octalDigit 2 ts).length)
  | none, none =>
    if c = 'x' ∧ digits hexDigit 2 ts ≠ [] then
      (number 16 (digits hexDigit 2 ts), (digits hexDigit 2 ts).length)
    else (c, 0)

/-- Leaves out `n` tokens and decodes the others. -/
def decodeSkip : Nat → List Token → Bytes
  | _, [] => []
  | n + 1, _ :: ts => decodeSkip n ts
  | 0, raw c :: ts => c :: decodeSkip 0 ts
  | 0, escaped c :: ts => (escape c ts).1 :: decodeSkip (escape c ts).2 ts

abbrev decode : List Token → Bytes := decodeSkip 0

/-- A column: `none` is null. -/
def column (ts : List Token) : Option Bytes :=
  if ts = [escaped 'N'] then none else some (decode ts)

def columns (ts : List Token) : List (Option Bytes) := (ts.splitOn (raw '\t')).map column

/-- The lines; the last one needs no newline. -/
def lines (ts : List Token) : List (List Token) :=
  if (ts.splitOn (raw '\n')).getLast? = some [] then (ts.splitOn (raw '\n')).dropLast
  else ts.splitOn (raw '\n')

/-- The rows of a text, or `none` for an error. The server also refuses a carriage return as data
in a text whose lines end with newlines: this is the reading with `strict`. -/
def rows (strict : Bool) (text : Bytes) : Option (List (List (Option Bytes))) :=
  if strict ∧ raw '\r' ∈ tokens text then none
  else some ((lines (tokens text)).map columns)

example : rows true (bytes "1\\t2\ta\\\\\t\\N\n3\t\t\\101\\x4a\n") =
    some [[some (bytes "1\t2"), some (bytes "a\\"), none],
      [some (bytes "3"), some [], some (bytes "AJ")]] := by
  decide +kernel

/-! ## 2. Tokens -/

section Tokens

variable {s t : Bytes} {c d : Byte}

theorem tokens_cons (hc : c ≠ chr '\\') (s : Bytes) : tokens (c :: s) = raw c :: tokens s := by
  cases s <;> simp [tokens, hc]

theorem tokens_escape (d : Byte) (s : Bytes) :
    tokens (chr '\\' :: d :: s) = escaped d :: tokens s := by
  simp [tokens]

/-- The text does not end inside an escape. -/
def Closed (s : Bytes) : Prop := ∀ t, tokens (s ++ t) = tokens s ++ tokens t

theorem Closed.append (hs : Closed s) (ht : Closed t) : Closed (s ++ t) := by
  intro u
  rw [List.append_assoc, hs, ht, hs, List.append_assoc]

theorem Closed.nil : Closed [] := fun _ => rfl

theorem Closed.single (hc : c ≠ chr '\\') : Closed [c] := by
  intro t
  rw [List.singleton_append, tokens_cons hc, tokens_cons hc, tokens, List.singleton_append]

theorem Closed.escape (d : Byte) : Closed [chr '\\', d] := by
  intro t
  change tokens (chr '\\' :: d :: t) = _
  rw [tokens_escape, tokens_escape, tokens, List.singleton_append]

/-- A text without a backslash. -/
theorem tokens_plain (hs : chr '\\' ∉ s) : tokens s = s.map raw := by
  induction s with
  | nil => rfl
  | cons c s ih =>
    rw [List.mem_cons, not_or] at hs
    obtain ⟨hc, hs⟩ := hs
    rw [tokens_cons (Ne.symm hc), ih hs, List.map_cons]

theorem Closed.plain (hs : chr '\\' ∉ s) : Closed s := by
  intro t
  induction s with
  | nil => rfl
  | cons c s ih =>
    rw [List.mem_cons, not_or] at hs
    obtain ⟨hc, hs⟩ := hs
    rw [List.cons_append, tokens_cons (Ne.symm hc), tokens_cons (Ne.symm hc), ih hs,
      List.cons_append]

/-- A backslash costs a byte. -/
theorem length_tokens (s : Bytes) :
    (tokens s).length ≤ s.length ∧ (chr '\\' ∈ s → (tokens s).length < s.length) := by
  induction s using tokens.induct with
  | case1 => simp [tokens]
  | case2 => simp [tokens]
  | case3 c hc => simp [tokens, hc, eq_comm]
  | case4 d s ih =>
    rw [tokens_escape]
    obtain ⟨hle, -⟩ := ih
    exact ⟨by simp; omega, fun _ => by simp; omega⟩
  | case5 c d s hc ih =>
    rw [tokens_cons hc]
    obtain ⟨hle, hlt⟩ := ih
    refine ⟨by simpa using hle, ?_⟩
    intro h
    have hmem : chr '\\' ∈ d :: s := (List.mem_cons.mp h).resolve_left (Ne.symm hc)
    simpa using hlt hmem

/-- A byte after a text is raw, or the text ends with a backslash that takes it. Either way the text
after the byte is read on its own. -/
theorem tokens_append_cons (s : Bytes) (hc : c ≠ chr '\\') :
    ∃ ts, (∀ t, tokens (s ++ c :: t) = ts ++ tokens t) ∧
      (ts = tokens s ++ [raw c] ∨
        ∃ v, s = v ++ [chr '\\'] ∧ ts = tokens v ++ [escaped c]) := by
  induction s using tokens.induct with
  | case1 => exact ⟨[raw c], tokens_cons hc, .inl rfl⟩
  | case2 => exact ⟨[escaped c], tokens_escape c, .inr ⟨[], rfl, rfl⟩⟩
  | case3 d hd =>
    refine ⟨[raw d, raw c], fun t => ?_, .inl ?_⟩
    · rw [List.singleton_append, tokens_cons hd, tokens_cons hc]
      rfl
    · rw [tokens_cons hd]
      rfl
  | case4 d s ih =>
    have hcons : ∀ u, tokens (chr '\\' :: d :: u) = escaped d :: tokens u := tokens_escape d
    obtain ⟨ts, ht, hts⟩ := ih
    refine ⟨escaped d :: ts, fun t => ?_, ?_⟩
    · rw [List.cons_append, List.cons_append, hcons, ht, List.cons_append]
    · rcases hts with rfl | ⟨v, rfl, rfl⟩
      · exact .inl (by rw [hcons, List.cons_append])
      · exact .inr ⟨chr '\\' :: d :: v, rfl, by rw [hcons, List.cons_append]⟩
  | case5 d e s hd ih =>
    obtain ⟨ts, ht, hts⟩ := ih
    refine ⟨raw d :: ts, fun t => ?_, ?_⟩
    · rw [List.cons_append, tokens_cons hd, ht, List.cons_append]
    · rcases hts with rfl | ⟨v, hv, rfl⟩
      · exact .inl (by rw [tokens_cons hd, List.cons_append])
      · exact .inr ⟨d :: v, by rw [hv]; rfl, by rw [tokens_cons hd, List.cons_append]⟩

/-- Whatever stands before a byte that is no backslash, only the text after it matters. -/
theorem Closed.after (s : Bytes) (hc : c ≠ chr '\\') (ht : Closed t) : Closed (s ++ c :: t) := by
  intro w
  obtain ⟨ts, h, -⟩ := tokens_append_cons s hc
  rw [List.append_assoc, List.cons_append, h, h, ht, List.append_assoc]

theorem Closed.tokens_append_cons (hs : Closed s) (hc : c ≠ chr '\\') (t : Bytes) :
    tokens (s ++ c :: t) = tokens s ++ raw c :: tokens t := by
  rw [hs, tokens_cons hc]

/-- Read from left to right, each backslash takes one of these bytes. -/
inductive Paired (escapes : Bytes) : Bytes → Prop
  | nil : Paired escapes []
  | plain {c : Byte} {s : Bytes} : c ≠ chr '\\' → Paired escapes s → Paired escapes (c :: s)
  | escape {d : Byte} {s : Bytes} : d ∈ escapes → Paired escapes s →
      Paired escapes (chr '\\' :: d :: s)

theorem Paired.append {escapes : Bytes} (hs : Paired escapes s) (ht : Paired escapes t) :
    Paired escapes (s ++ t) := by
  induction hs with
  | nil => exact ht
  | plain hc _ ih => exact .plain hc ih
  | escape hd _ ih => exact .escape hd ih

theorem Paired.flatMap {escapes : Bytes} {f : Byte → Bytes} (hf : ∀ c, Paired escapes (f c))
    (s : Bytes) : Paired escapes (s.flatMap f) := by
  induction s with
  | nil => exact .nil
  | cons c s ih =>
    rw [List.flatMap_cons]
    exact (hf c).append ih

/-- The text does not end inside an escape, and the escapes it has are these. -/
theorem paired_iff {escapes : Bytes} :
    Paired escapes s ↔ Closed s ∧ ∀ d, escaped d ∈ tokens s → d ∈ escapes := by
  constructor
  · intro h
    induction h with
    | nil => exact ⟨.nil, fun d hd => nomatch hd⟩
    | @plain c s hc _ ih =>
      refine ⟨(Closed.single hc).append ih.1, fun d hd => ih.2 d ?_⟩
      rw [tokens_cons hc] at hd
      simpa using hd
    | @escape e s he _ ih =>
      refine ⟨(Closed.escape e).append ih.1, fun d hd => ?_⟩
      rw [tokens_escape] at hd
      rcases List.mem_cons.mp hd with hd | hd
      · cases hd
        exact he
      · exact ih.2 d hd
  · rintro ⟨hclosed, hescapes⟩
    induction s using tokens.induct with
    | case1 => exact .nil
    | case2 =>
      -- A backslash at the end takes what is put behind the text.
      cases hclosed [chr 'n']
    | case3 c hc => exact .plain hc .nil
    | case4 d s ih =>
      have htokens := tokens_escape d s
      have hrest : Closed s := fun t => by
        have h := hclosed t
        rw [htokens, List.cons_append, List.cons_append, tokens_escape] at h
        exact (List.cons.inj h).2
      rw [htokens] at hescapes
      exact .escape (hescapes d List.mem_cons_self)
        (ih hrest fun e he => hescapes e (List.mem_cons_of_mem _ he))
    | case5 c d s hc ih =>
      have htokens := tokens_cons hc (d :: s)
      have hrest : Closed (d :: s) := fun t => by
        have h := hclosed t
        rw [htokens, List.cons_append, tokens_cons hc] at h
        exact (List.cons.inj h).2
      rw [htokens] at hescapes
      exact .plain hc (ih hrest fun e he => hescapes e (List.mem_cons_of_mem _ he))

end Tokens

/-! ## 3. Columns -/

theorem decodeSkip_length (n : Nat) (ts : List Token) : (decodeSkip n ts).length ≤ ts.length := by
  induction ts generalizing n with
  | nil => cases n <;> simp [decodeSkip]
  | cons t ts ih =>
    cases n with
    | zero =>
      cases t with
      | raw c => simpa [decodeSkip] using ih 0
      | escaped c => simpa [decodeSkip] using ih (escape c ts).2
    | succ n => exact Nat.le_succ_of_le (ih n)

theorem decode_map_raw (s : Bytes) : decode (s.map raw) = s := by
  induction s with
  | nil => rfl
  | cons c s ih => exact congrArg (c :: ·) ih

theorem column_map_raw (s : Bytes) : column (s.map raw) = some s := by
  rw [column, if_neg, decode_map_raw]
  cases s <;> simp

theorem column_length {ts : List Token} {s : Bytes} (h : column ts = some s) :
    s.length ≤ ts.length := by
  unfold column at h
  split at h
  · cases h
  · cases h
    exact decodeSkip_length 0 ts

/-- A text reads as itself exactly when it has no backslash. -/
theorem column_eq_self {s : Bytes} : column (tokens s) = some s ↔ chr '\\' ∉ s := by
  constructor
  · intro h hs
    have hle := column_length h
    have hlt := (length_tokens s).2 hs
    omega
  · intro hs
    rw [tokens_plain hs, column_map_raw]

/-! ## 4. Rows -/

theorem length_splitOn {α : Type} [DecidableEq α] (a : α) (xs : List α) :
    (xs.splitOn a).length = xs.count a + 1 := by
  induction xs with
  | nil => rfl
  | cons x xs ih =>
    rw [List.splitOn_cons_eq_if_modifyHead, List.count_cons]
    split
    · rw [List.length_cons, ih]
    · rw [List.length_modifyHead, ih]

theorem columns_append (xs ys : List Token) :
    columns (xs ++ raw '\t' :: ys) = columns xs ++ columns ys := by
  rw [columns, List.splitOn_append_cons_self, List.map_append, columns, columns]

theorem columns_single {xs : List Token} (h : raw '\t' ∉ xs) : columns xs = [column xs] := by
  rw [columns, List.splitOn_eq_singleton h, List.map_singleton]

theorem length_columns (xs : List Token) : (columns xs).length = xs.count (raw '\t') + 1 := by
  rw [columns, List.length_map, length_splitOn]

/-- A text that ends with a newline is one row when nothing before it ends the row. -/
theorem rows_terminated {strict : Bool} {text : Bytes} {ts : List Token}
    (h : tokens text = ts ++ [raw '\n']) {row : List (Option Bytes)} :
    rows strict text = some [row] ↔
      (strict = true → raw '\r' ∉ ts) ∧ raw '\n' ∉ ts ∧ row = columns ts := by
  have hlines : lines (tokens text) = ts.splitOn (raw '\n') := by
    have hsplit : (tokens text).splitOn (raw '\n') = ts.splitOn (raw '\n') ++ [[]] := by
      rw [h, List.splitOn_append_cons_self, List.splitOn_nil]
    simp [lines, hsplit]
  have hcr : raw '\r' ∈ tokens text ↔ raw '\r' ∈ ts := by
    simp [h, chr_eq_chr]
  unfold rows
  simp only [hlines, hcr]
  by_cases hbad : strict = true ∧ raw '\r' ∈ ts
  · rw [if_pos hbad]
    constructor
    · nofun
    · rintro ⟨hno, -⟩
      exact absurd hbad.2 (hno hbad.1)
  · rw [if_neg hbad]
    have hgood : strict = true → raw '\r' ∉ ts := fun hs hmem => hbad ⟨hs, hmem⟩
    by_cases hnl : raw '\n' ∈ ts
    · have hcount := List.count_pos_iff.mpr hnl
      have hlen := length_splitOn (raw '\n') ts
      constructor
      · intro hrow
        have := congrArg List.length (Option.some.inj hrow)
        simp at this
        omega
      · rintro ⟨-, hno, -⟩
        exact absurd hnl hno
    · rw [List.splitOn_eq_singleton hnl, List.map_singleton]
      constructor
      · intro hrow
        cases hrow
        exact ⟨hgood, hnl, rfl⟩
      · rintro ⟨-, -, rfl⟩
        rfl

theorem columns_field {s : Bytes} (hs : Closed s) (htab : raw '\t' ∉ tokens s) (t : Bytes) :
    columns (tokens (s ++ chr '\t' :: t)) = column (tokens s) :: columns (tokens t) := by
  rw [hs.tokens_append_cons (by decide), columns_append, columns_single htab,
    List.singleton_append]

/-- A text is written raw before a tab. When the columns from there on are one more than those
after the tab, and the first of them is the text, then the text has no tab and no backslash. -/
theorem plain_of_field {u t : Bytes} {cells : List (Option Bytes)}
    (hlen : cells.length = (columns (tokens t)).length)
    (h : columns (tokens (u ++ chr '\t' :: t)) = some u :: cells) :
    chr '\\' ∉ u ∧ chr '\t' ∉ u := by
  have hcount := congrArg List.length h
  rw [length_columns, List.length_cons, hlen, length_columns] at hcount
  obtain ⟨ts, ht, hts⟩ := tokens_append_cons u (c := chr '\t') (by decide)
  rw [ht] at h hcount
  rcases hts with rfl | ⟨v, rfl, rfl⟩
  · -- The tab is raw, so the text holds no other raw tab and is the first column.
    rw [List.append_assoc, List.singleton_append] at h hcount
    rw [List.count_append, List.count_cons_self] at hcount
    have hno : raw (chr '\t') ∉ tokens u := List.count_eq_zero.mp (by omega)
    rw [columns_append, columns_single hno] at h
    have hself := column_eq_self.mp (List.cons.inj h).1
    rw [tokens_plain hself] at hno
    exact ⟨hself, fun hmem => hno (List.mem_map_of_mem hmem)⟩
  · -- The tab is taken, so a raw tab stands in the text and the first column is too short.
    rw [List.append_assoc, List.singleton_append] at h hcount
    rw [List.count_append, List.count_cons_of_ne (by simp)] at hcount
    have hmem : raw (chr '\t') ∈ tokens v := List.count_pos_iff.mp (by omega)
    obtain ⟨xs, ys, hv, hxs⟩ := List.eq_append_cons_of_mem hmem
    rw [hv, List.append_assoc, List.cons_append, columns_append, columns_single hxs] at h
    have hcol := column_length (List.cons.inj h).1
    have hle := (length_tokens v).1
    have hlong : (tokens v).length = xs.length + ys.length + 1 := by
      rw [hv]
      simp
      omega
    simp at hcol
    omega

end CopyText
