import SafeKiddo.Lib.RootedPath

/-!
# urldecode

The percent decoder of `urlNormalization.cpp` with its path normalization. The loop works in the
destination buffer: it steps back over a redundant slash, over a slash and dots, and over the parent
directory of two dots.

Results:
1. `urldecodeLoop_eq`: the loop puts the decoded characters of the source, then the terminator.
2. `Rep.put`: while normalizing, the written part of the buffer is the rendering of a stack of path
   segments and an open segment.
3. `urldecode_rooted`: on a source that begins with a slash nothing is written or stepped back
   outside the buffer, and the result is `normalizePath` of the decoded characters.
4. `urldecode_plain`: without normalization the result is the decoded characters.
-/

namespace SafeKiddo

open ByteString ByteString.PathState

/-! ## 1. The code -/

/-- The value of a hexadecimal digit. -/
def hexDigit (a : Byte) : Byte :=
  if a < chr 'A' then a - chr '0'
  else if a < chr 'a' then a - (chr 'A' - 10)
  else a - (chr 'a' - 10)

/-- The destination buffer and the variables of the loop. -/
structure DecodeState where
  buf : Bytes
  dst : Nat
  slashDotDot : Nat
  normalize : Bool

namespace DecodeState

/-- `dst -= n`, not before the buffer. -/
def back (st : DecodeState) (n : Nat) : Checked DecodeState :=
  if n ≤ st.dst then some { st with dst := st.dst - n } else none

/-- `*dst++ = ch`, not behind the buffer. -/
def write (st : DecodeState) (ch : Byte) : Checked DecodeState :=
  if st.dst < st.buf.length then
    some { st with buf := st.buf.set st.dst ch, dst := st.dst + 1 }
  else
    none

/-- `while (dst > org_dst && *--dst != '/')` -/
def popSegment (buf : Bytes) : Nat → Nat
  | 0 => 0
  | dst + 1 => if buf[dst]? = some (chr '/') then dst else popSegment buf dst

/-- The case of the terminator, which a question mark and two dots before a slash fall through
to. -/
def endSegment (st : DecodeState) (ch : Byte) : Checked DecodeState :=
  if st.slashDotDot > 1 then do
    -- remove trailing slash-dot-(dot), and the parent directory if it was two dots
    let back ← st.back st.slashDotDot
    let dst := if st.slashDotDot = 3 then popSegment back.buf back.dst else back.dst
    if ch = chr '/' then
      return { back with dst := dst, slashDotDot := 1 }
    -- keep the root slash if any
    else if dst = 0 ∧ back.buf[0]? = some (chr '/') then
      return { back with dst := 1, slashDotDot := 0 }
    else
      return { back with dst := dst, slashDotDot := 0 }
  else
    some st

/-- `switch (ch)` -/
def normalizeChar (st : DecodeState) (ch : Byte) : Checked DecodeState :=
  if ch = chr '/' then
    if st.slashDotDot < 3 then do
      -- compress consecutive slashes and remove slash-dot
      let back ← st.back st.slashDotDot
      return { back with slashDotDot := 1 }
    else
      st.endSegment ch
  else if ch = chr '?' then
    -- at start of query, stop normalizing
    endSegment { st with normalize := false } ch
  else if ch = 0 then
    st.endSegment ch
  else if ch = chr '.' ∧ (st.slashDotDot = 1 ∨ st.slashDotDot = 2) then
    some { st with slashDotDot := st.slashDotDot + 1 }
  else
    some { st with slashDotDot := 0 }

/-- The body of the loop after the decoding of one character. -/
def put (st : DecodeState) (ch : Byte) : Checked DecodeState := do
  let st ← if st.normalize then st.normalizeChar ch else some st
  st.write ch

/-- What the loop does after a character: it ends at a zero byte. -/
def putAndThen (st : DecodeState) (ch : Byte)
    (next : DecodeState → Checked DecodeState) : Checked DecodeState := do
  let st ← st.put ch
  if ch = 0 then return st else next st

end DecodeState

/-- The loop. The end of the list is the terminator of the C string, which no escape reaches. -/
def urldecodeLoop : Bytes → DecodeState → Checked DecodeState
  | [], st => st.put 0
  | ch :: a :: b :: src, st =>
    if ch = chr '%' ∧ isxdigit a ∧ isxdigit b then
      st.putAndThen (16 * hexDigit a + hexDigit b) (urldecodeLoop src)
    else
      st.putAndThen ch (urldecodeLoop (a :: b :: src))
  | [ch, a], st => st.putAndThen ch (urldecodeLoop [a])
  | [ch], st => st.putAndThen ch fun st => st.put 0

/-- The valid characters of a destination buffer that holds the source and a terminator. -/
def urldecode (src : Bytes) (normalize : Bool) : Checked Bytes := do
  let st ← urldecodeLoop src ⟨List.replicate (src.length + 1) 0, 0, 0, normalize⟩
  return st.buf.take (st.dst - 1)

/-! ## 2. The decoded characters -/

/-- A decoded character before others; a zero byte ends the string. -/
def decodedCons (ch : Byte) (chars : Bytes) : Bytes := if ch = 0 then [] else ch :: chars

/-- The characters of the source with every escape decoded, up to the first zero byte. -/
def decodeEscapes : Bytes → Bytes
  | [] => []
  | ch :: a :: b :: src =>
    if ch = chr '%' ∧ isxdigit a ∧ isxdigit b then
      decodedCons (16 * hexDigit a + hexDigit b) (decodeEscapes src)
    else
      decodedCons ch (decodeEscapes (a :: b :: src))
  | [ch, a] => decodedCons ch (decodeEscapes [a])
  | [ch] => decodedCons ch []

theorem putAndThen_eq {next : DecodeState → Checked DecodeState} {chars : Bytes}
    (hnext : ∀ st, next st = (chars.foldlM DecodeState.put st).bind fun st => st.put 0)
    (ch : Byte) (st : DecodeState) :
    st.putAndThen ch next =
      ((decodedCons ch chars).foldlM DecodeState.put st).bind fun st => st.put 0 := by
  unfold DecodeState.putAndThen decodedCons
  by_cases hch : ch = 0
  · simp [hch]
  · simp only [hch, if_false, List.foldlM_cons, Option.bind_eq_bind, Option.bind_assoc, hnext]

/-- The loop puts the decoded characters one by one, then the terminator. -/
theorem urldecodeLoop_eq (src : Bytes) (st : DecodeState) :
    urldecodeLoop src st =
      ((decodeEscapes src).foldlM DecodeState.put st).bind fun st => st.put 0 := by
  induction src using decodeEscapes.induct generalizing st with
  | case1 => rfl
  | case2 ch a b src hesc ih =>
    rw [urldecodeLoop, decodeEscapes, if_pos hesc, if_pos hesc]
    exact putAndThen_eq ih _ st
  | case3 ch a b src hesc ih =>
    rw [urldecodeLoop, decodeEscapes, if_neg hesc, if_neg hesc]
    exact putAndThen_eq ih _ st
  | case4 ch a ih => exact putAndThen_eq ih _ st
  | case5 ch => exact @putAndThen_eq (fun st => st.put 0) [] (fun _ => rfl) _ st

theorem decodedCons_of_ne {ch : Byte} (hch : ch ≠ 0) (chars : Bytes) :
    decodedCons ch chars = ch :: chars := if_neg hch

/-- A character that is no percent sign is decoded as it is. -/
theorem decodeEscapes_of_ne {ch : Byte} (hp : ch ≠ chr '%') (src : Bytes) :
    decodeEscapes (ch :: src) = decodedCons ch (decodeEscapes src) := by
  match src with
  | [] => rfl
  | [a] => rfl
  | a :: b :: src => rw [decodeEscapes, if_neg fun h => absurd h.1 hp]

theorem length_decodedCons_le (ch : Byte) (chars : Bytes) :
    (decodedCons ch chars).length ≤ chars.length + 1 := by
  unfold decodedCons
  split <;> simp

theorem length_decodeEscapes_le (src : Bytes) : (decodeEscapes src).length ≤ src.length := by
  induction src using decodeEscapes.induct with
  | case1 => exact le_rfl
  | case2 ch a b src hesc ih =>
    rw [decodeEscapes, if_pos hesc]
    exact (length_decodedCons_le _ _).trans (by simp only [List.length_cons]; omega)
  | case3 ch a b src hesc ih =>
    rw [decodeEscapes, if_neg hesc]
    exact (length_decodedCons_le _ _).trans (Nat.add_le_add_right ih 1)
  | case4 ch a ih => exact (length_decodedCons_le _ _).trans (Nat.add_le_add_right ih 1)
  | case5 ch => exact length_decodedCons_le _ _

theorem zero_notMem_decodedCons {ch : Byte} {chars : Bytes} (h : 0 ∉ chars) :
    0 ∉ decodedCons ch chars := by
  unfold decodedCons
  split
  · exact List.not_mem_nil
  · next hch => simpa [h] using Ne.symm hch

/-- No decoded character is the terminator. -/
theorem zero_notMem_decodeEscapes (src : Bytes) : 0 ∉ decodeEscapes src := by
  induction src using decodeEscapes.induct with
  | case1 => exact List.not_mem_nil
  | case2 ch a b src hesc ih =>
    rw [decodeEscapes, if_pos hesc]
    exact zero_notMem_decodedCons ih
  | case3 ch a b src hesc ih =>
    rw [decodeEscapes, if_neg hesc]
    exact zero_notMem_decodedCons ih
  | case4 ch a ih => exact zero_notMem_decodedCons ih
  | case5 ch => exact zero_notMem_decodedCons List.not_mem_nil

/-! ## 3. The normalized path -/

/-- The normal form of the decoded characters of a path and query. -/
def normalizePath (chars : Bytes) : Bytes :=
  ((chars.tail.takeWhile (· ≠ chr '?')).foldl PathState.step PathState.root).finish ++
    chars.dropWhile (· ≠ chr '?')

/-! ## 4. The buffer holds the path -/

/-- The written part of the buffer. -/
def Written (st : DecodeState) (out : Bytes) : Prop := st.dst = out.length ∧ out <+: st.buf

namespace DecodeLemmas

variable {st : DecodeState} {out a b : Bytes}

theorem Written.write (h : Written st out) (hroom : st.dst < st.buf.length) (ch : Byte) :
    ∃ st', st.write ch = some st' ∧ Written st' (out ++ [ch]) ∧
      st'.slashDotDot = st.slashDotDot ∧ st'.normalize = st.normalize ∧
      st'.buf.length = st.buf.length := by
  obtain ⟨hdst, rest, hbuf⟩ := h
  refine ⟨_, if_pos hroom, ⟨by simp [hdst], ?_⟩, rfl, rfl, by simp⟩
  cases rest with
  | nil =>
    rw [List.append_nil] at hbuf
    rw [hdst, hbuf] at hroom
    exact absurd hroom (lt_irrefl _)
  | cons x rest =>
    refine ⟨rest, ?_⟩
    simp only [← hbuf, hdst, List.set_append_right _ _ le_rfl, Nat.sub_self, List.set_cons_zero,
      List.append_assoc, List.singleton_append]

theorem Written.back (h : Written st (a ++ b)) :
    ∃ st', st.back b.length = some st' ∧ Written st' a ∧ st'.buf = st.buf ∧
      st'.slashDotDot = st.slashDotDot ∧ st'.normalize = st.normalize := by
  obtain ⟨hdst, hbuf⟩ := h
  rw [List.length_append] at hdst
  refine ⟨_, if_pos (by omega), ⟨?_, (List.prefix_append a b).trans hbuf⟩, rfl, rfl, rfl⟩
  show st.dst - b.length = a.length
  omega

/-- Stepping back to the last slash. -/
theorem popSegment_eq {buf : Bytes} {seg : Bytes} (hseg : chr '/' ∉ seg)
    (h : a ++ chr '/' :: seg <+: buf) :
    DecodeState.popSegment buf (a ++ chr '/' :: seg).length = a.length := by
  induction seg using List.reverseRecOn with
  | nil =>
    obtain ⟨rest, rfl⟩ := h
    rw [List.length_append, List.length_singleton, DecodeState.popSegment, if_pos (by simp)]
  | append_singleton seg c ih =>
    obtain ⟨rest, rfl⟩ := h
    have hc : chr '/' ≠ c := fun he => hseg (by simp [he])
    have hlen : (a ++ chr '/' :: (seg ++ [c])).length = (a ++ chr '/' :: seg).length + 1 := by
      simp
      omega
    have hget : (a ++ chr '/' :: (seg ++ [c]) ++ rest)[(a ++ chr '/' :: seg).length]? = some c := by
      rw [show a ++ chr '/' :: (seg ++ [c]) ++ rest = (a ++ chr '/' :: seg) ++ c :: rest by simp]
      simp
    rw [hlen, DecodeState.popSegment, hget, if_neg (by simpa using Ne.symm hc)]
    exact ih (fun he => hseg (by simp [he])) ⟨c :: rest, by simp⟩

theorem popSegment_renderStack {buf : Bytes} {stack : List Bytes}
    (hclean : ∀ seg ∈ stack, chr '/' ∉ seg) (h : PathState.renderStack stack <+: buf) :
    DecodeState.popSegment buf (PathState.renderStack stack).length =
      (PathState.renderStack stack.tail).length := by
  cases stack with
  | nil => rfl
  | cons seg below => exact popSegment_eq (hclean seg List.mem_cons_self) h

end DecodeLemmas

open DecodeLemmas

/-- While normalizing, the buffer holds the rendering of a path. -/
structure Rep (st : DecodeState) (p : PathState) : Prop where
  written : Written st p.render
  marker : st.slashDotDot = p.marker

namespace Rep

variable {st : DecodeState} {p : PathState} {ch : Byte}

/-- Closing the open segment with one step back. -/
theorem back_closed (h : Rep st p) (hm : p.marker ≠ 3) :
    ∃ st', st.back st.slashDotDot = some st' ∧ Written st' (PathState.renderStack p.closed) ∧
      st'.buf = st.buf ∧ st'.normalize = st.normalize := by
  have hw := h.written
  rw [h.marker]
  rcases current_cases p with ⟨hc, hk, hcl, -⟩ | ⟨hc, hk, hcl⟩ | ⟨-, hk, -⟩ | ⟨hk, hcl, -⟩
  · rw [PathState.render, hc] at hw
    obtain ⟨st', hst', hw', hb, -, hn⟩ := Written.back hw
    exact ⟨st', by rw [hk]; exact hst', by rw [hcl]; exact hw', hb, hn⟩
  · rw [PathState.render, hc] at hw
    obtain ⟨st', hst', hw', hb, -, hn⟩ := Written.back hw
    exact ⟨st', by rw [hk]; exact hst', by rw [hcl]; exact hw', hb, hn⟩
  · exact absurd hk hm
  · rw [← List.append_nil p.render] at hw
    obtain ⟨st', hst', hw', hb, -, hn⟩ := Written.back hw
    exact ⟨st', by rw [hk]; exact hst', by rw [hcl]; exact hw', hb, hn⟩

/-- After two dots, one more step back takes the parent. -/
theorem back_parent (h : Rep st p) (hm : p.marker = 3) :
    ∃ st', st.back st.slashDotDot = some st' ∧
      DecodeState.popSegment st'.buf st'.dst = (PathState.renderStack p.closed).length ∧
      PathState.renderStack p.closed <+: st'.buf ∧ st'.buf = st.buf ∧
      st'.normalize = st.normalize := by
  have hw := h.written
  rw [h.marker, hm]
  rcases current_cases p with ⟨-, hk, -⟩ | ⟨-, hk, -⟩ | ⟨hc, -, hcl⟩ | ⟨hk, -⟩
  · exact absurd (hk.symm.trans hm) (by decide)
  · exact absurd (hk.symm.trans hm) (by decide)
  · rw [PathState.render, hc] at hw
    obtain ⟨st', hst', ⟨hdst, hpre⟩, hb, -, hn⟩ := Written.back hw
    refine ⟨st', hst', ?_, ?_, hb, hn⟩
    · rw [hdst, hcl]
      exact popSegment_renderStack (fun seg hs => p.clean seg (List.mem_cons_of_mem _ hs)) hpre
    · rw [hcl]
      refine List.IsPrefix.trans ?_ hpre
      cases p.stack with
      | nil => exact List.prefix_rfl
      | cons seg below => exact List.prefix_append _ _
  · exact absurd (hk.symm.trans hm) (by decide)

/-- The buffer begins with the root slash. -/
theorem root_slash (h : Rep st p) : st.buf[0]? = some (chr '/') := by
  obtain ⟨-, rest, hbuf⟩ := h.written
  rw [← hbuf, ← List.head?_eq_getElem?, List.head?_append, PathState.render,
    head?_renderStack_append]
  rfl

end Rep

namespace DecodeLemmas

variable {st : DecodeState} {p : PathState} {ch : Byte}

/-- The end of the terminator case: the root slash stays when nothing else does. -/
theorem keep_root {stack : List Bytes} (hpre : PathState.renderStack stack <+: st.buf)
    (hroot : st.buf[0]? = some (chr '/')) :
    ∃ st', (if (PathState.renderStack stack).length = 0 ∧ st.buf[0]? = some (chr '/') then
        some { st with dst := 1, slashDotDot := 0 }
      else
        some { st with dst := (PathState.renderStack stack).length, slashDotDot := 0 }) =
        some st' ∧
      Written st' (if stack = [] then [chr '/'] else PathState.renderStack stack) ∧
      st'.buf = st.buf ∧ st'.normalize = st.normalize := by
  cases stack with
  | nil =>
    refine ⟨_, if_pos ⟨rfl, hroot⟩, ⟨rfl, ?_⟩, rfl, rfl⟩
    show [chr '/'] <+: st.buf
    cases hb : st.buf with
    | nil => rw [hb] at hroot; exact nomatch hroot
    | cons c rest =>
      rw [hb] at hroot
      cases hroot
      exact ⟨rest, rfl⟩
  | cons seg below =>
    have hne : (PathState.renderStack (seg :: below)).length ≠ 0 := by
      simp [PathState.renderStack]
    exact ⟨_, if_neg fun hz => hne hz.1, ⟨rfl, hpre⟩, rfl, rfl⟩

/-- The terminator case, for any character but a slash. -/
theorem endSegment_finish (h : Rep st p) (hch : ch ≠ chr '/') :
    ∃ st', st.endSegment ch = some st' ∧ Written st' p.finish ∧ st'.buf = st.buf ∧
      st'.normalize = st.normalize := by
  have hmarker := h.marker
  rcases current_cases p with ⟨-, hk, -, hf⟩ | ⟨hc, hk, hcl⟩ | ⟨hc, hk, hcl⟩ | ⟨hk, -, hf, -⟩
  · rw [hf]
    exact ⟨st, if_neg (by omega), h.written, rfl, rfl⟩
  · obtain ⟨st1, hst1, ⟨hdst, hpre⟩, hb, hn⟩ := h.back_closed (by omega)
    obtain ⟨st2, hst2, hw, hb2, hn2⟩ := keep_root hpre (by rw [hb]; exact h.root_slash)
    refine ⟨st2, ?_, ?_, hb2.trans hb, hn2.trans hn⟩
    · unfold DecodeState.endSegment
      have hne : st.slashDotDot ≠ 3 := by omega
      rw [if_pos (by omega), hst1]
      simp only [Option.bind_eq_bind, Option.bind_some, hch, hne, if_false, hdst]
      exact hst2
    · rw [PathState.finish, if_pos (.inl hc)]
      exact hw
  · obtain ⟨st1, hst1, hpop, hpre, hb, hn⟩ := h.back_parent hk
    obtain ⟨st2, hst2, hw, hb2, hn2⟩ := keep_root hpre (by rw [hb]; exact h.root_slash)
    refine ⟨st2, ?_, ?_, hb2.trans hb, hn2.trans hn⟩
    · unfold DecodeState.endSegment
      rw [if_pos (by omega), hst1]
      simp only [Option.bind_eq_bind, Option.bind_some, hch, hmarker.trans hk, if_true, if_false,
        hpop]
      exact hst2
    · rw [PathState.finish, if_pos (.inr hc)]
      exact hw
  · rw [hf]
    exact ⟨st, if_neg (by omega), h.written, rfl, rfl⟩

end DecodeLemmas

namespace Rep

variable {st : DecodeState} {p : PathState} {ch : Byte}

/-- Writing a slash where the closed segments end. -/
theorem write_slash (h : Rep st p) (st2 : DecodeState)
    (hdst : st2.dst = (PathState.renderStack p.closed).length)
    (hpre : PathState.renderStack p.closed <+: st2.buf) (hbuf : st2.buf = st.buf)
    (hroom : st.dst < st.buf.length) (hmarker : st2.slashDotDot = 1) :
    ∃ st', st2.write (chr '/') = some st' ∧ Rep st' (p.step (chr '/')) ∧
      st'.normalize = st2.normalize ∧ st'.buf.length = st.buf.length := by
  have hclosed := length_closed_le p
  have hlen := h.written.1
  obtain ⟨st', hst', hw, hk, hn, hl⟩ := Written.write ⟨hdst, hpre⟩ (by rw [hbuf]; omega) _
  exact ⟨st', hst', ⟨hw, hk.trans hmarker⟩, hn, hl.trans (by rw [hbuf])⟩

/-- The step lemma: a path character moves the buffer and the path alike. -/
theorem put (h : Rep st p) (hn : st.normalize = true) (hroom : st.dst < st.buf.length)
    (hq : ch ≠ chr '?') (h0 : ch ≠ 0) :
    ∃ st', st.put ch = some st' ∧ Rep st' (p.step ch) ∧ st'.normalize = true ∧
      st'.buf.length = st.buf.length := by
  have hmarker := h.marker
  unfold DecodeState.put DecodeState.normalizeChar
  rw [if_pos hn]
  simp only [hq, h0, if_false]
  by_cases hs : ch = chr '/'
  · subst hs
    by_cases hm : p.marker = 3
    · obtain ⟨st1, hst1, hpop, hpre, hb, hn1⟩ := h.back_parent hm
      have hsdd : st.slashDotDot = 3 := hmarker.trans hm
      obtain ⟨st', hst', hrep, hn', hl⟩ := h.write_slash
        { st1 with dst := DecodeState.popSegment st1.buf st1.dst, slashDotDot := 1 }
        hpop hpre hb hroom rfl
      refine ⟨st', ?_, hrep, hn'.trans (hn1.trans hn), hl⟩
      unfold DecodeState.endSegment
      rw [hsdd] at hst1
      simp [hsdd, hst1, hst']
    · obtain ⟨st1, hst1, ⟨hdst, hpre⟩, hb, hn1⟩ := h.back_closed hm
      have hsdd : st.slashDotDot < 3 := by have := marker_le p; omega
      obtain ⟨st', hst', hrep, hn', hl⟩ := h.write_slash { st1 with slashDotDot := 1 }
        hdst hpre hb hroom rfl
      refine ⟨st', ?_, hrep, hn'.trans (hn1.trans hn), hl⟩
      simp [hsdd, hst1, hst']
  · have hrender : (p.step ch).render = p.render ++ [ch] := by
      simp [PathState.step, hs, PathState.render]
    simp only [hs, if_false]
    by_cases hd : ch = chr '.' ∧ (st.slashDotDot = 1 ∨ st.slashDotDot = 2)
    · obtain ⟨st', hst', hw, hk, hn', hl⟩ :=
        @Written.write { st with slashDotDot := st.slashDotDot + 1 } p.render h.written hroom ch
      refine ⟨st', ?_, ⟨by rwa [hrender], ?_⟩, hn'.trans hn, hl⟩
      · rw [if_pos hd]
        exact hst'
      · rw [hk, hd.1, marker_dot, ← hmarker, if_pos hd.2]
    · obtain ⟨st', hst', hw, hk, hn', hl⟩ :=
        @Written.write { st with slashDotDot := 0 } p.render h.written hroom ch
      refine ⟨st', ?_, ⟨by rwa [hrender], ?_⟩, hn'.trans hn, hl⟩
      · rw [if_neg hd]
        exact hst'
      · rw [hk]
        by_cases hdot : ch = chr '.'
        · rw [hdot, marker_dot, ← hmarker, if_neg fun hm => hd ⟨hdot, hm⟩]
        · exact (marker_other p hs hdot).symm

/-- The run lemma: a whole path, as long as there is room for it. -/
theorem putAll {chars : Bytes} (hq : chr '?' ∉ chars) (h0 : 0 ∉ chars) :
    ∀ {st : DecodeState} {p : PathState}, Rep st p → st.normalize = true →
      st.dst + chars.length ≤ st.buf.length →
      ∃ st', chars.foldlM DecodeState.put st = some st' ∧
        Rep st' (chars.foldl PathState.step p) ∧ st'.normalize = true ∧
        st'.dst ≤ st.dst + chars.length ∧ st'.buf.length = st.buf.length := by
  induction chars with
  | nil => exact fun h hn _ => ⟨_, rfl, h, hn, le_rfl, rfl⟩
  | cons ch chars ih =>
    intro st p h hn hroom
    rw [List.length_cons] at hroom
    obtain ⟨st1, hst1, hrep1, hn1, hl1⟩ := h.put hn (by omega)
      (fun he => hq (he ▸ List.mem_cons_self)) (fun he => h0 (he ▸ List.mem_cons_self))
    have hdst1 : st1.dst ≤ st.dst + 1 := by
      rw [hrep1.written.1, h.written.1]
      exact length_step_le p ch
    obtain ⟨st', hst', hrep', hn', hdst', hl'⟩ := ih
      (fun hm => hq (List.mem_cons_of_mem _ hm)) (fun hm => h0 (List.mem_cons_of_mem _ hm))
      hrep1 hn1 (by omega)
    refine ⟨st', ?_, hrep', hn', ?_, hl'.trans hl1⟩
    · rw [List.foldlM_cons, hst1]
      exact hst'
    · rw [List.length_cons]
      omega

end Rep

namespace DecodeLemmas

/-- Without normalization a character is written as it is. -/
theorem put_plain {st : DecodeState} {out : Bytes} (h : Written st out)
    (hn : st.normalize = false) (hroom : st.dst < st.buf.length) (ch : Byte) :
    ∃ st', st.put ch = some st' ∧ Written st' (out ++ [ch]) ∧ st'.normalize = false ∧
      st'.buf.length = st.buf.length := by
  obtain ⟨st', hst', hw, -, hn', hl⟩ := Written.write h hroom ch
  refine ⟨st', ?_, hw, hn'.trans hn, hl⟩
  unfold DecodeState.put
  rw [if_neg (by rw [hn]; exact Bool.false_ne_true)]
  exact hst'

theorem putAll_plain {chars : Bytes} : ∀ {st : DecodeState} {out : Bytes}, Written st out →
    st.normalize = false → st.dst + chars.length ≤ st.buf.length →
    ∃ st', chars.foldlM DecodeState.put st = some st' ∧ Written st' (out ++ chars) ∧
      st'.normalize = false ∧ st'.buf.length = st.buf.length := by
  induction chars with
  | nil => exact fun h hn _ => ⟨_, rfl, by rwa [List.append_nil], hn, rfl⟩
  | cons ch chars ih =>
    intro st out h hn hroom
    rw [List.length_cons] at hroom
    obtain ⟨st1, hst1, hw1, hn1, hl1⟩ := put_plain h hn (by omega) ch
    have hdst1 : st1.dst = st.dst + 1 := by rw [hw1.1, h.1]; simp
    obtain ⟨st', hst', hw', hn', hl'⟩ := ih hw1 hn1 (by omega)
    refine ⟨st', ?_, by simpa using hw', hn', hl'.trans hl1⟩
    rw [List.foldlM_cons, hst1]
    exact hst'

/-- The terminator is one character more than the valid ones. -/
theorem take_valid {st : DecodeState} {out : Bytes} (h : Written st (out ++ [0])) :
    st.buf.take (st.dst - 1) = out := by
  obtain ⟨hdst, rest, hbuf⟩ := h
  rw [hdst, ← hbuf]
  simp

/-- A question mark or the terminator ends the path. -/
theorem put_end {st : DecodeState} {p : PathState} {ch : Byte} (h : Rep st p)
    (hn : st.normalize = true) (hch : ch = chr '?' ∨ ch = 0) (hroom : st.dst < st.buf.length) :
    ∃ st', st.put ch = some st' ∧ Written st' (p.finish ++ [ch]) ∧
      (ch = chr '?' → st'.normalize = false) ∧ st'.dst ≤ st.dst + 1 ∧
      st'.buf.length = st.buf.length := by
  have hs : ch ≠ chr '/' := by rcases hch with rfl | rfl <;> decide
  -- The flag is cleared before a query; closing the segment does not look at it.
  have hflag : Rep { st with normalize := decide (ch ≠ chr '?') } p := ⟨h.written, h.marker⟩
  obtain ⟨st1, hst1, hw1, hb1, hn1⟩ := endSegment_finish hflag hs
  have hfinish := length_finish_le p
  have hlen := h.written.1
  obtain ⟨st', hst', hw', -, hn', hl'⟩ :=
    Written.write hw1 (by rw [hb1, hw1.1]; exact lt_of_le_of_lt hfinish (hlen ▸ hroom)) ch
  refine ⟨st', ?_, hw', ?_, ?_, hl'.trans (by rw [hb1])⟩
  · unfold DecodeState.put DecodeState.normalizeChar
    rw [if_pos hn, if_neg hs]
    rcases hch with rfl | rfl
    · rw [if_pos rfl]
      simp only [ne_eq, not_true_eq_false, decide_false] at hst1
      rw [hst1]
      exact hst'
    · rw [if_neg (by decide), if_pos rfl]
      have hst : { st with normalize := decide ((0 : Byte) ≠ chr '?') } = st := by
        rw [show decide ((0 : Byte) ≠ chr '?') = true by decide, ← hn]
      rw [hst] at hst1
      rw [hst1]
      exact hst'
  · rintro rfl
    rw [hn', hn1]
    simp
  · rw [hw'.1, List.length_append, List.length_singleton]
    omega

/-- The query behind a path, and the terminator. -/
theorem put_query {query : Bytes} (hquery : ∀ c ∈ query.head?, c = chr '?') {st : DecodeState}
    {p : PathState} (h : Rep st p) (hn : st.normalize = true)
    (hroom : st.dst + query.length < st.buf.length) :
    ∃ st', (query.foldlM DecodeState.put st).bind (DecodeState.put · 0) = some st' ∧
      Written st' (p.finish ++ query ++ [0]) := by
  cases query with
  | nil =>
    obtain ⟨st1, hst1, hw1, -⟩ := put_end h hn (.inr rfl) hroom
    exact ⟨st1, hst1, by rwa [List.append_nil]⟩
  | cons c query =>
    obtain rfl := hquery c rfl
    rw [List.length_cons] at hroom
    obtain ⟨st1, hst1, hw1, hn1, hdst1, hl1⟩ := put_end h hn (.inl rfl) (by omega)
    obtain ⟨st2, hst2, hw2, hn2, hl2⟩ := @putAll_plain query _ _ hw1 (hn1 rfl) (by omega)
    have hdst2 : st2.dst = st1.dst + query.length := by
      rw [hw2.1, hw1.1, List.length_append]
    obtain ⟨st3, hst3, hw3, -⟩ := put_plain hw2 hn2 (by omega) 0
    refine ⟨st3, ?_, by simpa using hw3⟩
    rw [List.foldlM_cons, hst1]
    simp only [Option.bind_eq_bind, Option.bind_some, hst2, hst3]

end DecodeLemmas

/-! ## 5. The result -/

/-- Without normalization the result is the decoded characters, for every source. -/
theorem urldecode_plain (src : Bytes) : urldecode src false = some (decodeEscapes src) := by
  have hlen := length_decodeEscapes_le src
  have hroom : (0 : Nat) + (decodeEscapes src).length ≤
      (List.replicate (src.length + 1) (0 : Byte)).length := by
    rw [List.length_replicate]
    omega
  obtain ⟨st1, hst1, hw1, hn1, hl1⟩ := @putAll_plain (decodeEscapes src)
    ⟨List.replicate (src.length + 1) 0, 0, 0, false⟩ [] ⟨rfl, List.nil_prefix⟩ rfl hroom
  obtain ⟨st2, hst2, hw2, -⟩ := put_plain hw1 hn1
    (by rw [hw1.1, hl1, List.nil_append, List.length_replicate]; omega) 0
  unfold urldecode
  rw [urldecodeLoop_eq, hst1]
  simp only [Option.bind_eq_bind, Option.bind_some, hst2]
  exact congrArg some (take_valid hw2)

/-- The root slash is put first. -/
theorem put_root {buf : Bytes} (hroom : 0 < buf.length) :
    ∃ st, DecodeState.put ⟨buf, 0, 0, true⟩ (chr '/') = some st ∧ Rep st PathState.root ∧
      st.normalize = true ∧ st.buf.length = buf.length := by
  have hpre : [chr '/'] <+: buf.set 0 (chr '/') := by
    cases buf with
    | nil => cases hroom
    | cons c buf => exact ⟨buf, rfl⟩
  have hput : DecodeState.put ⟨buf, 0, 0, true⟩ (chr '/') =
      some ⟨buf.set 0 (chr '/'), 1, 1, true⟩ := if_pos hroom
  exact ⟨_, hput, ⟨⟨rfl, hpre⟩, rfl⟩, rfl, List.length_set⟩

/-- On a source that begins with a slash the loop leaves the normal form of the decoded characters
and the terminator in any buffer that is large enough. -/
theorem urldecodeLoop_rooted {src buf : Bytes} (hsrc : src.head? = some (chr '/'))
    (hbuf : src.length < buf.length) :
    ∃ st, urldecodeLoop src ⟨buf, 0, 0, true⟩ = some st ∧
      Written st (normalizePath (decodeEscapes src) ++ [0]) := by
  obtain ⟨tail, rfl⟩ : ∃ tail, src = chr '/' :: tail := by
    cases src with
    | nil => exact nomatch hsrc
    | cons c tail => cases hsrc; exact ⟨tail, rfl⟩
  rw [List.length_cons] at hbuf
  have hchars : decodeEscapes (chr '/' :: tail) = chr '/' :: decodeEscapes tail :=
    (decodeEscapes_of_ne (by decide) tail).trans (decodedCons_of_ne (by decide) _)
  have h0 := zero_notMem_decodeEscapes tail
  have hlen := length_decodeEscapes_le tail
  -- The path ends at the first decoded question mark.
  have hsplit := (List.takeWhile_append_dropWhile (p := (· ≠ chr '?'))
    (l := decodeEscapes tail)).symm
  have hpath : chr '?' ∉ (decodeEscapes tail).takeWhile (· ≠ chr '?') := fun h => by
    simpa using List.mem_takeWhile_imp h
  have hquery : ∀ c ∈ ((decodeEscapes tail).dropWhile (· ≠ chr '?')).head?, c = chr '?' := by
    intro c hc
    have := List.head?_dropWhile_not (· ≠ chr '?') (decodeEscapes tail)
    rw [hc] at this
    simpa using this
  have hnorm : normalizePath (decodeEscapes (chr '/' :: tail)) =
      (((decodeEscapes tail).takeWhile (· ≠ chr '?')).foldl PathState.step
        PathState.root).finish ++ (decodeEscapes tail).dropWhile (· ≠ chr '?') := by
    rw [hchars]
    rfl
  rw [hnorm]
  generalize (decodeEscapes tail).takeWhile (· ≠ chr '?') = path at *
  generalize (decodeEscapes tail).dropWhile (· ≠ chr '?') = query at *
  obtain ⟨st0, hst0, hrep0, hn0, hl0⟩ := put_root (Nat.zero_lt_of_lt hbuf)
  have hdst0 : st0.dst = 1 := hrep0.written.1
  have hcount := congrArg List.length hsplit
  rw [List.length_append] at hcount
  rw [hsplit] at h0
  obtain ⟨st1, hst1, hrep1, hn1, hdst1, hl1⟩ := Rep.putAll hpath
    (fun h => h0 (List.mem_append_left _ h)) hrep0 hn0 (by omega)
  rw [urldecodeLoop_eq, hchars, List.foldlM_cons, hsplit]
  simp only [hst0, List.foldlM_append, Option.bind_eq_bind, Option.bind_some, hst1]
  exact put_query hquery hrep1 hn1 (by omega)

/-- On a source that begins with a slash every write and every step back stays inside the buffer,
and the result is the normal form of the decoded characters. -/
theorem urldecode_rooted {src : Bytes} (hsrc : src.head? = some (chr '/')) :
    urldecode src true = some (normalizePath (decodeEscapes src)) := by
  obtain ⟨st, hst, hw⟩ := @urldecodeLoop_rooted src (List.replicate (src.length + 1) 0) hsrc
    (by rw [List.length_replicate]; exact Nat.lt_succ_self _)
  unfold urldecode
  rw [hst]
  exact congrArg some (take_valid hw)

end SafeKiddo
