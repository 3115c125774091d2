import SafeKiddo.LogRecord

/-!
# The logged part of a url

What `escapeString` leaves of a url, said without positions: the text up to and with its first
question mark, where `%3F` is a question mark too. The scan remembers the positions of the last `%`
and of the last `3`, and begins as if a `%` stood in front of the text.

Results:
1. `cutFrom_eq`: a scan that starts after some text cuts at the first mark that ends behind it.
2. `loggedPart_eq`: the text that is escaped, with the one url that is cut at no mark.
3. `escapeString_cut_iff`: when the logged text is the url up to its first mark.
-/

namespace SafeKiddo

open ByteString
open CopyText (tokens)

/-! ## 1. Marks -/

/-- The text ends with a question mark, plain or encoded. -/
def EndsMark (s : Bytes) : Prop := bytes "?" <:+ s ∨ bytes "%3F" <:+ s

instance (s : Bytes) : Decidable (EndsMark s) := by
  unfold EndsMark; infer_instance

/-- The shortest beginning that ends with a mark, or all of the text. -/
def cutAtMark (src : Bytes) : Bytes := (src.inits.find? EndsMark).getD src

/-- What a scan has seen after the text `p`. -/
def Seen.after (p : Bytes) : Seen :=
  if bytes "%" <:+ p then .percent else if bytes "%3" <:+ p then .percent3 else .nothing

namespace LoggedUrlLemmas

theorem snoc_suffix_snoc {l p : Bytes} {a c : Byte} :
    l ++ [a] <:+ p ++ [c] ↔ a = c ∧ l <:+ p := by
  rw [← List.reverse_prefix, List.reverse_append, List.reverse_append, List.reverse_singleton,
    List.reverse_singleton, List.singleton_append, List.singleton_append, List.cons_prefix_cons,
    List.reverse_prefix]

/-- A text ends in one way only. -/
theorem percent3_not_percent {p : Bytes} (h : bytes "%3" <:+ p) : ¬ bytes "%" <:+ p := by
  obtain ⟨q, rfl⟩ := h
  intro hp
  have hlast : bytes "%" <:+ (q ++ [chr '%']) ++ [chr '3'] := by
    rw [List.append_assoc]
    exact hp
  exact absurd (snoc_suffix_snoc (l := []) (a := chr '%').mp hlast).1 (by decide)

theorem after_eq_percent3 {p : Bytes} : Seen.after p = .percent3 ↔ bytes "%3" <:+ p := by
  unfold Seen.after
  constructor
  · intro h
    split_ifs at h with h1 h2
    exact h2
  · intro h
    rw [if_neg (percent3_not_percent h), if_pos h]

/-- What has been seen is known from the text alone. -/
theorem next_after (p : Bytes) (c : Byte) : (Seen.after p).next c = Seen.after (p ++ [c]) := by
  have hpercent : bytes "%" <:+ p ++ [c] ↔ c = chr '%' :=
    (snoc_suffix_snoc (l := []) (a := chr '%')).trans ((and_iff_left (List.nil_suffix)).trans eq_comm)
  have hthree : bytes "%3" <:+ p ++ [c] ↔ c = chr '3' ∧ bytes "%" <:+ p :=
    (snoc_suffix_snoc (l := bytes "%") (a := chr '3')).trans (and_congr_left' eq_comm)
  have hseen : Seen.after p = .percent ↔ bytes "%" <:+ p := by
    unfold Seen.after
    split_ifs <;> simp_all
  have hafter : Seen.after (p ++ [c]) =
      if c = chr '%' then .percent
      else if c = chr '3' ∧ bytes "%" <:+ p then .percent3 else .nothing := by
    unfold Seen.after
    simp only [hpercent, hthree]
  rw [hafter, Seen.next]
  simp only [hseen]

theorem endsMark_snoc {p : Bytes} {c : Byte} :
    EndsMark (p ++ [c]) ↔ c = chr '?' ∨ (c = chr 'F' ∧ Seen.after p = .percent3) := by
  have hplain : bytes "?" <:+ p ++ [c] ↔ c = chr '?' :=
    (snoc_suffix_snoc (l := []) (a := chr '?')).trans ((and_iff_left (List.nil_suffix)).trans eq_comm)
  have hcoded : bytes "%3F" <:+ p ++ [c] ↔ c = chr 'F' ∧ bytes "%3" <:+ p :=
    (snoc_suffix_snoc (l := bytes "%3") (a := chr 'F')).trans (and_congr_left' eq_comm)
  rw [EndsMark, hplain, hcoded, after_eq_percent3]

end LoggedUrlLemmas

open LoggedUrlLemmas

/-! ## 2. The scan -/

/-- After a text that ends with no mark, the scan cuts where the first mark ends. -/
theorem cutFrom_eq (src : Bytes) {p : Bytes} (hp : ¬ EndsMark p) :
    cutFrom (Seen.after p) src =
      (src.inits.find? fun q => EndsMark (p ++ q)).getD src := by
  induction src generalizing p with
  | nil =>
    rw [cutFrom, List.inits]
    simp [hp]
  | cons c src ih =>
    have hmore : (src.inits.map (c :: ·)).find? (fun q => decide (EndsMark (p ++ q))) =
        (src.inits.find? fun q => decide (EndsMark ((p ++ [c]) ++ q))).map (c :: ·) := by
      rw [List.find?_map]
      congr 2
      funext q
      simp
    rw [List.inits_cons, List.find?_cons_of_neg (by simpa using hp), hmore, cutFrom]
    split
    · next hmark =>
      -- The mark ends here.
      rw [← endsMark_snoc] at hmark
      cases src with
      | nil => simp [hmark]
      | cons d src => simp [hmark]
    · next hmark =>
      rw [← endsMark_snoc] at hmark
      rw [next_after, ih hmark]
      cases src.inits.find? fun q => decide (EndsMark ((p ++ [c]) ++ q)) <;> rfl

theorem cutFrom_nothing (src : Bytes) : cutFrom .nothing src = cutAtMark src :=
  cutFrom_eq src (p := []) (by decide)

theorem cutFrom_eq_nil {seen : Seen} {src : Bytes} : cutFrom seen src = [] ↔ src = [] := by
  cases src with
  | nil => exact iff_of_true rfl rfl
  | cons c src =>
    rw [cutFrom]
    split <;> simp

/-- Without a `%` before it, `3F` is no mark. -/
theorem cutFrom_threeF (rest : Bytes) :
    cutFrom .nothing (bytes "3F" ++ rest) = bytes "3F" ++ cutFrom .nothing rest := by
  have hbytes : bytes "3F" = [chr '3', chr 'F'] := rfl
  have h3 : chr '3' ≠ chr '?' ∧ chr '3' ≠ chr 'F' := by decide
  have hF : chr 'F' ≠ chr '?' := by decide
  have hnext : Seen.next .nothing (chr '3') = .nothing ∧ Seen.next .nothing (chr 'F') = .nothing := by
    decide
  simp [hbytes, cutFrom, h3, hF, hnext]

/-- At the start a `%` counts as read, so that `3F` in front is taken for a mark. -/
theorem loggedPart_eq (url : Bytes) :
    loggedPart url = if bytes "3F" <+: url then bytes "3F" else cutAtMark url := by
  rw [← cutFrom_nothing, loggedPart]
  cases url with
  | nil => rfl
  | cons c url =>
    have hpercent : chr '3' ≠ chr '%' := by decide
    have hquestion : chr '3' ≠ chr '?' := by decide
    have hF : chr '3' ≠ chr 'F' := by decide
    by_cases hc : c = chr '3'
    · subst hc
      have hnext : Seen.next .percent (chr '3') = .percent3 := by decide
      have hnext' : Seen.next .nothing (chr '3') = .nothing := by decide
      simp only [cutFrom, hnext, hnext', hquestion, hF, false_and, or_self, if_false]
      cases url with
      | nil => rfl
      | cons d url =>
        have hstart : bytes "3F" <+: chr '3' :: d :: url ↔ d = chr 'F' := by
          have hbytes : bytes "3F" = [chr '3', chr 'F'] := rfl
          simp [hbytes, List.cons_prefix_cons, eq_comm]
        -- Behind a `3` and behind nothing a byte is remembered alike.
        have hsame : Seen.next .percent3 d = Seen.next .nothing d := by
          simp [Seen.next]
        by_cases hd : d = chr 'F'
        · rw [if_pos (hstart.mpr hd), cutFrom, if_pos (.inr ⟨hd, rfl⟩), hd]
          rfl
        · rw [if_neg (hstart.not.mpr hd), cutFrom, cutFrom, hsame]
          simp [hd]
    · have hstart : ¬ bytes "3F" <+: c :: url := by
        have hbytes : bytes "3F" = [chr '3', chr 'F'] := rfl
        simp [hbytes, List.cons_prefix_cons, Ne.symm hc]
      have hsame : Seen.next .percent c = Seen.next .nothing c := by simp [Seen.next, hc]
      rw [if_neg hstart, cutFrom, cutFrom, hsame]
      simp

/-! ## 3. The logged text -/

/-- Undoing the escapes of the logged text gives the url in ASCII up to its first mark, except when
more follows a `3F` at the start of the url. -/
theorem escapeString_cut_iff (src : Bytes) :
    CopyText.decode (tokens (escapeString src)) = (cutAtMark src).map asciiByte ↔
      ∀ rest, src = bytes "3F" ++ rest → rest = [] := by
  rw [tokens_escapeString, decode_map_escapeToken, loggedPart_eq]
  by_cases hstart : bytes "3F" <+: src
  · obtain ⟨rest, rfl⟩ := hstart
    rw [if_pos (List.prefix_append _ _)]
    constructor
    · intro h rest' hrest
      cases List.append_cancel_left hrest
      rw [← cutFrom_nothing, cutFrom_threeF] at h
      have hlength := congrArg List.length h
      rw [List.length_map, List.length_map, List.length_append] at hlength
      exact cutFrom_eq_nil.mp (List.length_eq_zero_iff.mp (Nat.left_eq_add.mp hlength))
    · intro h
      rw [h rest rfl]
      decide +kernel
  · rw [if_neg hstart]
    refine iff_of_true rfl ?_
    rintro rest rfl
    exact absurd (List.prefix_append _ _) hstart

/-- Of a host name that begins with `3F` nothing else is logged. -/
theorem escapeString_cut_host :
    CopyText.decode (tokens (escapeString (bytes "3Fonts.com/"))) ≠
      (cutAtMark (bytes "3Fonts.com/")).map asciiByte := by
  decide +kernel

end SafeKiddo
