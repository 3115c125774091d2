import SafeKiddo.UrlNormalization
import SafeKiddo.Lib.Machine

/-!
# The bounds of urldecode

The loop of `urldecode` as it moves its two pointers, round by round. The source is a C string, and
the destination may be larger than it has to be. Each byte is read under a check, those behind a
percent sign and those of the written part as well.

Results:
1. `nextChar_eq`: which bytes of the source a round reads.
2. `put_spec`: where a round writes, whatever it steps back over.
3. `inv_of_run`: what holds between two rounds; `urldecode_eq_result` connects the rounds with
   `urldecode`.
4. `urldecode_in_bounds`: every round finds its bytes, the loop ends, and the root slash is kept.
-/

namespace SafeKiddo

open ByteString

/-! ## 1. The code -/

/-- The bytes of a C string before its terminator. -/
structure CString where
  chars : Bytes
  zero_notMem : 0 ∉ chars

namespace CString

def length (src : CString) : Nat := src.chars.length

/-- `src[pos]`. Behind the terminator there is nothing to read. -/
def read (src : CString) (pos : Nat) : Checked Byte := (src.chars ++ [0])[pos]?

/-- `s.c_str()` -/
def ofString (s : Bytes) : CString :=
  ⟨s.takeWhile (· ≠ 0), fun h => by simpa using List.mem_takeWhile_imp h⟩

end CString

namespace DecodeState

/-- `while (dst > org_dst && *--dst != '/')`. Each byte is read from the buffer. -/
def popSegmentChecked (buf : Bytes) : Nat → Checked Nat
  | 0 => some 0
  | dst + 1 => do
    if (← buf[dst]?) = chr '/' then some dst else popSegmentChecked buf dst

/-- The case of the terminator. The byte of the root slash is read at the start of the buffer. -/
def endSegmentChecked (st : DecodeState) (ch : Byte) : Checked DecodeState :=
  if st.slashDotDot > 1 then do
    let back ← st.back st.slashDotDot
    let dst ← (if st.slashDotDot = 3 then popSegmentChecked back.buf back.dst else some back.dst)
    if ch = chr '/' then
      return { back with dst := dst, slashDotDot := 1 }
    else if dst = 0 then
      if (← back.buf[0]?) = chr '/' then
        return { back with dst := 1, slashDotDot := 0 }
      else
        return { back with dst := 0, slashDotDot := 0 }
    else
      return { back with dst := dst, slashDotDot := 0 }
  else
    some st

def normalizeCharChecked (st : DecodeState) (ch : Byte) : Checked DecodeState :=
  if ch = chr '/' then
    if st.slashDotDot < 3 then do
      let back ← st.back st.slashDotDot
      return { back with slashDotDot := 1 }
    else
      st.endSegmentChecked ch
  else if ch = chr '?' then
    endSegmentChecked { st with normalize := false } ch
  else if ch = 0 then
    st.endSegmentChecked ch
  else if ch = chr '.' ∧ (st.slashDotDot = 1 ∨ st.slashDotDot = 2) then
    some { st with slashDotDot := st.slashDotDot + 1 }
  else
    some { st with slashDotDot := 0 }

def putChecked (st : DecodeState) (ch : Byte) : Checked DecodeState := do
  let st ← if st.normalize then st.normalizeCharChecked ch else some st
  st.write ch

end DecodeState

/-- The decoding of one character: the character, and where the next one begins. -/
def nextChar (src : CString) (pos : Nat) : Checked (Byte × Nat) := do
  let ch ← src.read pos
  if ch = chr '%' then
    let a ← src.read (pos + 1)
    if isxdigit a then
      let b ← src.read (pos + 2)
      if isxdigit b then
        return (16 * hexDigit a + hexDigit b, pos + 3)
      else
        return (ch, pos + 1)
    else
      return (ch, pos + 1)
  else
    return (ch, pos + 1)

/-- The pointers and the variables of the loop; `returned` behind its end. -/
structure Decoder where
  src : Nat
  out : DecodeState
  returned : Bool

namespace Decoder

/-- One round of the loop. -/
def round (src : CString) (s : Decoder) : Checked Decoder := do
  let (ch, pos) ← nextChar src s.src
  let out ← s.out.putChecked ch
  return ⟨pos, out, decide (ch = 0)⟩

def step (src : CString) (s : Decoder) (_ : Unit) : Checked Decoder :=
  if s.returned then none else s.round src

/-- `urldecode(buf, src, normalize)` -/
def machine (src : CString) (buf : Bytes) (normalize : Bool) : Machine Decoder Unit :=
  ⟨⟨0, ⟨buf, 0, 0, normalize⟩, false⟩, step src⟩

/-- The valid characters of the destination. -/
def result (s : Decoder) : Bytes := s.out.buf.take (s.out.dst - 1)

end Decoder

/-! ## 2. Reading the source -/

/-- The first decoded character of what is left of the source, and how many bytes it takes; behind
the last byte it is the terminator. -/
def firstChar : Bytes → Byte × Nat
  | [] => (0, 1)
  | ch :: a :: b :: _ =>
    if ch = chr '%' ∧ isxdigit a ∧ isxdigit b then (16 * hexDigit a + hexDigit b, 3) else (ch, 1)
  | ch :: _ => (ch, 1)

/-- The loop over the list takes this character and goes on behind it. -/
theorem urldecodeLoop_firstChar (src : Bytes) (st : DecodeState) :
    urldecodeLoop src st =
      st.putAndThen (firstChar src).1 (urldecodeLoop (src.drop (firstChar src).2)) := by
  match src with
  | [] =>
    simp [urldecodeLoop, firstChar, DecodeState.putAndThen]
  | [ch] => rfl
  | [ch, a] => rfl
  | ch :: a :: b :: rest =>
    rw [urldecodeLoop, firstChar]
    split <;> rfl

/-- Only the terminator lies behind the source. -/
theorem firstChar_bounds (src : Bytes) :
    1 ≤ (firstChar src).2 ∧ ((firstChar src).2 ≤ src.length ∨ firstChar src = (0, src.length + 1)) := by
  match src with
  | [] => exact ⟨le_rfl, .inr rfl⟩
  | [ch] => exact ⟨le_rfl, .inl le_rfl⟩
  | [ch, a] => exact ⟨le_rfl, .inl (Nat.le_succ 1)⟩
  | ch :: a :: b :: rest =>
    rw [firstChar]
    split
    · exact ⟨Nat.le_add_left 1 2, .inl (by simp)⟩
    · exact ⟨le_rfl, .inl (by simp)⟩

section Source

variable {src : CString} {pos : Nat}

theorem CString.read_add (h : pos ≤ src.length) (i : Nat) :
    src.read (pos + i) = (src.chars.drop pos ++ [0])[i]? := by
  rw [read, ← List.drop_append_of_le_length h, List.getElem?_drop]

/-- Every byte that a round asks for is there, the terminator included. -/
theorem nextChar_eq (h : pos ≤ src.length) :
    nextChar src pos = some ((firstChar (src.chars.drop pos)).1,
      pos + (firstChar (src.chars.drop pos)).2) := by
  have hread := CString.read_add h
  have hzero : isxdigit 0 = false := by decide
  unfold nextChar
  rw [show src.read pos = (src.chars.drop pos ++ [0])[0]? from hread 0, hread 1, hread 2]
  match src.chars.drop pos with
  | [] => rfl
  | [ch] =>
    -- No digit follows a percent sign at the end.
    simp [firstChar, hzero]
  | [ch, a] => simp [firstChar, hzero]
  | ch :: a :: b :: rest =>
    by_cases hch : ch = chr '%'
    · cases ha : isxdigit a <;> cases hb : isxdigit b <;> simp [firstChar, hch, ha, hb]
    · simp [firstChar, hch]

end Source

/-! ## 3. Writing to the buffer -/

namespace DecodeState

/-- What is stepped back over has been written, and nothing is changed in the buffer. -/
structure Back (st st' : DecodeState) : Prop where
  buf : st'.buf = st.buf
  dst_le : st'.dst ≤ st.dst
  marker_le : st'.slashDotDot ≤ st'.dst + 1

/-- One character is written, at most one place further than the last. -/
structure PutAt (st : DecodeState) (ch : Byte) (st' : DecodeState) : Prop where
  buf : st'.buf = st.buf.set (st'.dst - 1) ch
  pos : 1 ≤ st'.dst
  dst_le : st'.dst ≤ st.dst + 1
  marker_le : st'.slashDotDot ≤ st'.dst

variable {st : DecodeState}

theorem popSegment_le (buf : Bytes) (dst : Nat) : popSegment buf dst ≤ dst := by
  induction dst with
  | zero => exact le_rfl
  | succ dst ih =>
    rw [popSegment]
    split
    · exact Nat.le_succ dst
    · exact ih.trans (Nat.le_succ dst)

theorem popSegmentChecked_eq {buf : Bytes} {dst : Nat} (h : dst ≤ buf.length) :
    popSegmentChecked buf dst = some (popSegment buf dst) := by
  induction dst with
  | zero => rfl
  | succ dst ih =>
    obtain ⟨c, hget⟩ : ∃ c, buf[dst]? = some c := ⟨_, List.getElem?_eq_getElem h⟩
    rw [popSegmentChecked, popSegment, hget, ih (Nat.le_of_succ_le h)]
    by_cases hslash : c = chr '/' <;> simp [hslash]

/-- The marker counts characters that have been written. -/
theorem back_marker (hmarker : st.slashDotDot ≤ st.dst) :
    st.back st.slashDotDot = some { st with dst := st.dst - st.slashDotDot } :=
  if_pos hmarker

/-- Where a segment ends, with its parent after two dots. -/
theorem exists_segmentStart {buf : Bytes} {dst : Nat} (h : dst ≤ buf.length) (slashDotDot : Nat) :
    ∃ start, (if slashDotDot = 3 then popSegmentChecked buf dst else some dst) = some start ∧
      (if slashDotDot = 3 then popSegment buf dst else dst) = start ∧ start ≤ dst := by
  split
  · exact ⟨_, popSegmentChecked_eq h, rfl, popSegment_le buf dst⟩
  · exact ⟨dst, rfl, rfl, le_rfl⟩

theorem endSegment_spec (hmarker : st.slashDotDot ≤ st.dst) (hroom : st.dst < st.buf.length)
    (ch : Byte) : ∃ st', st.endSegmentChecked ch = some st' ∧ st.endSegment ch = some st' ∧
      Back st st' := by
  unfold endSegmentChecked endSegment
  by_cases hdots : st.slashDotDot > 1
  · obtain ⟨first, hget⟩ : ∃ first, st.buf[0]? = some first :=
      ⟨_, List.getElem?_eq_getElem (Nat.zero_lt_of_lt hroom)⟩
    have hback_le : st.dst - st.slashDotDot ≤ st.dst := Nat.sub_le _ _
    obtain ⟨dst, hchecked, hdst, hstart_le⟩ :=
      exists_segmentStart (hback_le.trans hroom.le) st.slashDotDot
    have hle : dst ≤ st.dst := hstart_le.trans hback_le
    simp only [if_pos hdots, back_marker hmarker, Option.bind_eq_bind, Option.bind_some, hchecked,
      hdst]
    by_cases hslash : ch = chr '/'
    · rw [if_pos hslash, if_pos hslash]
      exact ⟨_, rfl, rfl, rfl, hle, Nat.le_add_left 1 dst⟩
    rw [if_neg hslash, if_neg hslash]
    by_cases hstart : dst = 0
    · subst hstart
      by_cases hroot : first = chr '/'
      · have hone : 1 ≤ st.dst := (Nat.le_of_lt hdots).trans hmarker
        refine ⟨{ st with dst := 1, slashDotDot := 0 }, ?_, ?_, rfl, hone, Nat.zero_le _⟩
        · simp [hget, hroot]
        · simp [hget, hroot]
      · refine ⟨{ st with dst := 0, slashDotDot := 0 }, ?_, ?_, rfl, Nat.zero_le _, Nat.zero_le _⟩
        · simp [hget, hroot]
        · simp [hget, hroot]
    · rw [if_neg hstart, if_neg fun h => hstart h.1]
      exact ⟨_, rfl, rfl, rfl, hle, Nat.zero_le _⟩
  · rw [if_neg hdots, if_neg hdots]
    exact ⟨st, rfl, rfl, rfl, le_rfl, hmarker.trans (Nat.le_succ _)⟩

theorem normalizeChar_spec (hmarker : st.slashDotDot ≤ st.dst) (hroom : st.dst < st.buf.length)
    (ch : Byte) : ∃ st', st.normalizeCharChecked ch = some st' ∧ st.normalizeChar ch = some st' ∧
      Back st st' := by
  unfold normalizeCharChecked normalizeChar
  split
  · split
    · rw [back_marker hmarker]
      exact ⟨_, rfl, rfl, rfl, Nat.sub_le _ _, Nat.le_add_left 1 _⟩
    · exact endSegment_spec hmarker hroom ch
  · split
    · -- The flag is cleared before a query; closing the segment does not look at it.
      obtain ⟨st', hchecked, hst', hback⟩ :=
        @endSegment_spec { st with normalize := false } hmarker hroom ch
      exact ⟨st', hchecked, hst', hback.buf, hback.dst_le, hback.marker_le⟩
    · split
      · exact endSegment_spec hmarker hroom ch
      · split
        · exact ⟨_, rfl, rfl, rfl, le_rfl, Nat.succ_le_succ hmarker⟩
        · exact ⟨_, rfl, rfl, rfl, le_rfl, Nat.zero_le _⟩

/-- The step lemma: no step back leaves the buffer, and one place further is room for one more
character. -/
theorem put_spec (hmarker : st.slashDotDot ≤ st.dst) (hroom : st.dst < st.buf.length) (ch : Byte) :
    ∃ st', st.putChecked ch = some st' ∧ st.put ch = some st' ∧ PutAt st ch st' := by
  -- Both flags of the loop step back inside the buffer.
  obtain ⟨st₁, hput, ⟨hbuf, hdst, hmarker₁⟩⟩ : ∃ st₁, (st.putChecked ch = st₁.write ch ∧
      st.put ch = st₁.write ch) ∧ Back st st₁ := by
    unfold putChecked put
    cases st.normalize with
    | true =>
      obtain ⟨st₁, hchecked, hst₁, hback⟩ := normalizeChar_spec hmarker hroom ch
      refine ⟨st₁, ⟨?_, ?_⟩, hback⟩
      · simp [hchecked]
      · simp [hst₁]
    | false => exact ⟨st, ⟨rfl, rfl⟩, rfl, le_rfl, hmarker.trans (Nat.le_succ _)⟩
  have hwrite : st₁.write ch = some { st₁ with buf := st₁.buf.set st₁.dst ch, dst := st₁.dst + 1 } :=
    if_pos (by rw [hbuf]; exact hdst.trans_lt hroom)
  refine ⟨{ st₁ with buf := st₁.buf.set st₁.dst ch, dst := st₁.dst + 1 }, hput.1.trans hwrite,
    hput.2.trans hwrite, ?_, Nat.le_add_left 1 st₁.dst, Nat.succ_le_succ hdst, hmarker₁⟩
  rw [Nat.add_sub_cancel, hbuf]

end DecodeState

/-! ## 4. The rounds -/

namespace Decoder

/-- What holds after so many rounds. The loop over the list has the same left to do. -/
structure Inv (src : CString) (buf : Bytes) (normalize : Bool) (rounds : List Unit) (s : Decoder) :
    Prop where
  rounds_le : rounds.length ≤ s.src
  length : s.out.buf.length = buf.length
  marker_le : s.out.slashDotDot ≤ s.out.dst
  dst_le : s.out.dst ≤ s.src
  running : s.returned = false → s.src ≤ src.length ∧
    urldecodeLoop src.chars ⟨buf, 0, 0, normalize⟩ = urldecodeLoop (src.chars.drop s.src) s.out
  returned : s.returned = true → s.src ≤ src.length + 1 ∧ 1 ≤ s.out.dst ∧
    urldecodeLoop src.chars ⟨buf, 0, 0, normalize⟩ = some s.out

section Rounds

variable {src : CString} {buf : Bytes} {normalize : Bool} {rounds : List Unit} {s s' : Decoder}

theorem inv_init : Inv src buf normalize [] (machine src buf normalize).init :=
  ⟨Nat.zero_le _, rfl, le_rfl, le_rfl, fun _ => ⟨Nat.zero_le _, rfl⟩, fun h => nomatch h⟩

/-- The step lemma: a round finds its bytes, writes one character and goes on in the source. -/
theorem round_spec (h : Inv src buf normalize rounds s) (hbuf : src.length < buf.length)
    (hrun : s.returned = false) :
    ∃ s', s.round src = some s' ∧ Inv src buf normalize (rounds ++ [()]) s' ∧ s.src < s'.src ∧
      ∃ ch, DecodeState.PutAt s.out ch s'.out := by
  obtain ⟨hsrc, hleft⟩ := h.running hrun
  have hroom : s.out.dst < s.out.buf.length := by
    rw [h.length]
    exact (h.dst_le.trans hsrc).trans_lt hbuf
  obtain ⟨out, hchecked, hput, hat⟩ :=
    DecodeState.put_spec h.marker_le hroom (firstChar (src.chars.drop s.src)).1
  obtain ⟨hone, hcount⟩ := firstChar_bounds (src.chars.drop s.src)
  rw [List.length_drop] at hcount
  rw [urldecodeLoop_firstChar (src.chars.drop s.src), DecodeState.putAndThen, hput,
    Option.bind_eq_bind, Option.bind_some, List.drop_drop] at hleft
  have hround : s.round src = some ⟨s.src + (firstChar (src.chars.drop s.src)).2, out,
      decide ((firstChar (src.chars.drop s.src)).1 = 0)⟩ := by
    rw [round, nextChar_eq hsrc]
    simp [hchecked]
  generalize firstChar (src.chars.drop s.src) = first at *
  obtain ⟨ch, count⟩ := first
  refine ⟨_, hround, ⟨?_, ?_, hat.marker_le, ?_, fun hmore => ?_, fun hend => ?_⟩,
    Nat.lt_add_of_pos_right hone, ch, hat⟩
  · rw [List.length_append, List.length_singleton]
    exact Nat.add_le_add h.rounds_le hone
  · rw [hat.buf, List.length_set, h.length]
  · exact hat.dst_le.trans (Nat.add_le_add h.dst_le hone)
  · -- More is left, so the character was not the terminator.
    have hch : ch ≠ 0 := of_decide_eq_false hmore
    have hle : count ≤ src.length - s.src :=
      hcount.resolve_right fun hlast => hch (Prod.mk.inj hlast).1
    rw [if_neg hch] at hleft
    exact ⟨Nat.add_le_of_le_sub' hsrc hle, hleft⟩
  · have hch : ch = 0 := of_decide_eq_true hend
    have hle : count ≤ src.length - s.src + 1 :=
      hcount.elim (fun hle => hle.trans (Nat.le_succ _)) fun hlast => (Prod.mk.inj hlast).2.le
    rw [if_pos hch] at hleft
    refine ⟨?_, hat.pos, hleft⟩
    show s.src + count ≤ src.length + 1
    omega

theorem inv_of_run (hbuf : src.length < buf.length)
    (h : (machine src buf normalize).run (machine src buf normalize).init rounds = some s) :
    Inv src buf normalize rounds s := by
  have hstep : ∀ rounds s l s', Inv src buf normalize rounds s →
      (machine src buf normalize).step s l = some s' →
      Inv src buf normalize (rounds ++ [l]) s' := by
    intro rounds s l s' hinv hs
    cases hreturned : s.returned with
    | true =>
      simp only [machine, step, hreturned] at hs
      cases hs
    | false =>
      obtain ⟨next, hround, hnext, -⟩ := round_spec hinv hbuf hreturned
      simp only [machine, step, hreturned, hround] at hs
      cases hs
      exact hnext
  exact Machine.run_history hstep inv_init h

/-- From any state the loop comes to its end: each round goes on in the source. -/
theorem exists_returned (hbuf : src.length < buf.length) {left : Nat}
    (h : Inv src buf normalize rounds s) (hleft : src.length + 1 ≤ s.src + left) :
    ∃ more t, (machine src buf normalize).run s more = some t ∧ t.returned = true := by
  induction left generalizing rounds s with
  | zero =>
    cases hreturned : s.returned with
    | true => exact ⟨[], s, rfl, hreturned⟩
    | false => exact absurd (hleft.trans (h.running hreturned).1) (Nat.not_succ_le_self _)
  | succ left ih =>
    cases hreturned : s.returned with
    | true => exact ⟨[], s, rfl, hreturned⟩
    | false =>
      obtain ⟨next, hround, hnext, hlt, -⟩ := round_spec h hbuf hreturned
      obtain ⟨more, t, hrun, ht⟩ := ih hnext (by omega)
      refine ⟨() :: more, t, ?_, ht⟩
      have hstep : (machine src buf normalize).step s () = some next := by
        simp only [machine, step, hreturned, hround, Bool.false_eq_true, if_false]
      rw [Machine.run, hstep, Option.bind_some, hrun]

end Rounds

/-! ## 5. Calls -/

/-- Between two rounds both positions are inside, and the next round finds all its bytes, steps back
inside the buffer and writes one byte, at the position of the terminator at most. -/
structure InBounds (src : CString) (s : Decoder) : Prop where
  src_le : s.src ≤ src.length + 1
  dst_le : s.out.dst ≤ src.length + 1
  running : s.returned = false → s.src ≤ src.length ∧ s.out.dst ≤ src.length ∧
    ∃ s' ch, s.round src = some s' ∧ 1 ≤ s'.out.dst ∧ s'.out.dst - 1 ≤ src.length ∧
      s'.out.buf = s.out.buf.set (s'.out.dst - 1) ch

/-- A call stays in bounds in every round, and it returns. -/
structure RunsInside (src : CString) (buf : Bytes) (normalize : Bool) : Prop where
  inside : ∀ rounds s,
    (machine src buf normalize).run (machine src buf normalize).init rounds = some s →
      InBounds src s ∧ rounds.length ≤ src.length + 1
  returns : ∃ s, (machine src buf normalize).Reachable s ∧ s.returned = true
  result : ∀ s, (machine src buf normalize).Reachable s → s.returned = true →
    s.result.length + 1 = s.out.dst ∧ s.result.length ≤ src.length ∧
      (normalize = true → src.chars.head? = some (chr '/') → s.result.head? = some (chr '/'))

section Results

variable {src : CString} {buf : Bytes} {normalize : Bool} {rounds : List Unit} {s : Decoder}

theorem Inv.src_le (h : Inv src buf normalize rounds s) : s.src ≤ src.length + 1 := by
  cases hreturned : s.returned with
  | true => exact (h.returned hreturned).1
  | false => exact (h.running hreturned).1.trans (Nat.le_succ _)

theorem Inv.inBounds (h : Inv src buf normalize rounds s) (hbuf : src.length < buf.length) :
    InBounds src s := by
  refine ⟨h.src_le, h.dst_le.trans h.src_le, fun hrun => ?_⟩
  obtain ⟨next, hround, hnext, -, ch, hat⟩ := round_spec h hbuf hrun
  have hsrc := (h.running hrun).1
  exact ⟨hsrc, h.dst_le.trans hsrc, next, ch, hround, hat.pos,
    Nat.sub_le_of_le_add (hnext.dst_le.trans hnext.src_le), hat.buf⟩

/-- The characters in front of the terminator. -/
theorem Inv.length_result (h : Inv src buf normalize rounds s) (hbuf : src.length < buf.length)
    (hreturned : s.returned = true) : s.result.length + 1 = s.out.dst := by
  obtain ⟨hsrc, hone, -⟩ := h.returned hreturned
  have hle : s.out.dst - 1 ≤ s.out.buf.length := by
    rw [h.length]
    exact (Nat.sub_le _ _).trans ((h.dst_le.trans hsrc).trans hbuf)
  rw [result, List.length_take, min_eq_left hle, Nat.sub_add_cancel hone]

theorem runsInside (src : CString) {buf : Bytes} (normalize : Bool)
    (hbuf : src.length < buf.length) : RunsInside src buf normalize := by
  refine ⟨fun rounds s hrun => ?_, ?_, ?_⟩
  · have hinv := inv_of_run hbuf hrun
    exact ⟨hinv.inBounds hbuf, hinv.rounds_le.trans hinv.src_le⟩
  · obtain ⟨rounds, s, hrun, hreturned⟩ :=
      @exists_returned src buf normalize [] _ hbuf (src.length + 1) inv_init (Nat.le_add_left _ _)
    exact ⟨s, ⟨rounds, hrun⟩, hreturned⟩
  · rintro s ⟨rounds, hrun⟩ hreturned
    have hinv := inv_of_run hbuf hrun
    have hlength := hinv.length_result hbuf hreturned
    refine ⟨hlength, ?_, ?_⟩
    · exact Nat.le_of_succ_le_succ (hlength.le.trans (hinv.dst_le.trans hinv.src_le))
    · rintro rfl hslash
      obtain ⟨st, hst, hw⟩ := urldecodeLoop_rooted hslash hbuf
      cases hst.symm.trans (hinv.returned hreturned).2.2
      rw [result, DecodeLemmas.take_valid hw]
      exact UrlNormalizationLemmas.head?_normalizePath _

/-- What is left in the buffer is what the loop over the list computes. -/
theorem result_of_returned (hbuf : src.length < buf.length)
    (h : (machine src buf normalize).Reachable s) (hreturned : s.returned = true) :
    urldecodeLoop src.chars ⟨buf, 0, 0, normalize⟩ = some s.out := by
  obtain ⟨rounds, hrun⟩ := h
  exact ((inv_of_run hbuf hrun).returned hreturned).2.2

end Results

end Decoder

/-- What stands behind a zero byte is not decoded. -/
theorem decodeEscapes_takeWhile (s : Bytes) :
    decodeEscapes (s.takeWhile (· ≠ 0)) = decodeEscapes s := by
  have hzero : isxdigit 0 = false := by decide
  have hkeep : ∀ {c : Byte}, c ≠ 0 → ∀ t : Bytes,
      (c :: t).takeWhile (· ≠ 0) = c :: t.takeWhile (· ≠ 0) :=
    fun hc t => List.takeWhile_cons_of_pos (by simpa using hc)
  have hcut : ∀ t : Bytes, ((0 : Byte) :: t).takeWhile (· ≠ 0) = [] :=
    fun t => List.takeWhile_cons_of_neg (by simp)
  induction s using decodeEscapes.induct with
  | case1 => rfl
  | case2 ch a b src hesc ih =>
    have hch : ch ≠ 0 := by rw [hesc.1]; decide
    have ha : a ≠ 0 := by rintro rfl; exact Bool.false_ne_true (hzero.symm.trans hesc.2.1)
    have hb : b ≠ 0 := by rintro rfl; exact Bool.false_ne_true (hzero.symm.trans hesc.2.2)
    rw [hkeep hch, hkeep ha, hkeep hb, decodeEscapes, decodeEscapes, if_pos hesc, if_pos hesc, ih]
  | case3 ch a b src hesc ih =>
    rcases eq_or_ne ch 0 with rfl | hch
    · rw [hcut, decodeEscapes, decodeEscapes, if_neg hesc]
      exact (if_pos rfl).symm
    · -- A zero byte among the next two is no digit, so the character is decoded alone.
      rw [hkeep hch, decodeEscapes.eq_2, if_neg hesc, ← ih]
      rcases eq_or_ne a 0 with rfl | ha
      · rw [hcut]
        rfl
      rcases eq_or_ne b 0 with rfl | hb
      · rw [hkeep ha, hcut]
        rfl
      · rw [hkeep ha, hkeep hb, decodeEscapes.eq_2, if_neg hesc]
  | case4 ch a ih =>
    rcases eq_or_ne ch 0 with rfl | hch
    · rw [hcut]
      rfl
    · rw [hkeep hch]
      rcases eq_or_ne a 0 with rfl | ha
      · rfl
      · rw [hkeep ha]
        rfl
  | case5 ch =>
    rcases eq_or_ne ch 0 with rfl | hch
    · rfl
    · rw [hkeep hch]
      rfl

open Decoder

/-- A call with a string, which may hold zero bytes, and a destination of its size and one more. -/
theorem urldecode_eq_result (s : Bytes) (normalize : Bool) :
    ∃ t, (machine (CString.ofString s) (List.replicate (s.length + 1) 0) normalize).Reachable t ∧
      t.returned = true ∧ urldecode s normalize = some t.result := by
  have hroom : (CString.ofString s).length < (List.replicate (s.length + 1) (0 : Byte)).length := by
    rw [List.length_replicate]
    exact Nat.lt_succ_of_le (List.takeWhile_prefix _).length_le
  obtain ⟨t, ht, hreturned⟩ := (runsInside (CString.ofString s) normalize hroom).returns
  have hloop := result_of_returned hroom ht hreturned
  rw [urldecodeLoop_eq, CString.ofString, decodeEscapes_takeWhile, ← urldecodeLoop_eq] at hloop
  refine ⟨t, ht, hreturned, ?_⟩
  unfold urldecode
  rw [hloop]
  rfl

/-- The matchers find the slash of a url, and no position outside it. -/
theorem exists_matchesUrl (p : UrlPattern) {u : Bytes} (hu : chr '/' ∈ u) :
    ∃ answer, p.matchesUrl u = some answer := by
  obtain ⟨h, t, rfl, hh⟩ := UrlPatternLemmas.exists_slash hu
  unfold UrlPattern.matchesUrl
  cases p.kind with
  | matchAllSubdomains => exact ⟨_, UrlPattern.hostNameMatches_eq p hh true⟩
  | matchDomainWithPath =>
    simp only [UrlPattern.hostNameMatches_eq p hh, UrlPattern.pathMatches_eq p hh,
      Option.bind_eq_bind, Option.bind_some]
    split
    · exact ⟨_, rfl⟩
    · exact ⟨_, rfl⟩

/-- In both modes every round of a call stays in bounds and the loop ends; the root slash is kept
when the path is normalized, so that for every url the assertion of `normalizeUrl` holds and the
matchers find the slash. -/
theorem urldecode_in_bounds :
    (∀ (src : CString) (buf : Bytes) (normalize : Bool), src.length < buf.length →
      RunsInside src buf normalize) ∧
    ∀ url, ∃ normalized slashPos, normalizeUrl url = some normalized ∧
      find normalized (chr '/') 0 = some slashPos ∧
      ∀ pattern : UrlPattern, ∃ answer, pattern.matchesUrl normalized = some answer := by
  refine ⟨fun src buf normalize hbuf => runsInside src normalize hbuf, fun url => ?_⟩
  obtain ⟨path, hpath⟩ := exists_normalizeUrl url
  exact ⟨_, _, hpath, find_append (slash_notMem_hostName url),
    fun pattern => exists_matchesUrl pattern (by simp)⟩

/-- A path that ends inside an escape, and a buffer of its size and one more. -/
theorem urldecode_in_bounds_dots :
    RunsInside ⟨bytes "/a/%2e%2E/%2", by decide +kernel⟩ (List.replicate 13 255) true :=
  urldecode_in_bounds.1 _ _ _ (by decide)

end SafeKiddo
