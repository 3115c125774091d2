import SafeKiddo.LogRecord

/-!
# The escaped url

What can be said of `escapeString` wherever it returns. The loop appends the escape of one byte in
each round, so what it returns is the escape of a beginning of the url. Which beginning, the
remembered positions decide; what is said here holds for any positions.

Results:
1. `escapeLoop_cut`: the loop returns the escape of a beginning.
2. `escapesOf_flatMap`: what the escape of a beginning is made of.
3. `logRequest_runs`: the assertion of `logRequest` does not fire.
-/

namespace SafeKiddo

open ByteString
open CopyText (Paired tokens)

/-! ## 1. The loop -/

/-- From any round on, with any remembered positions. -/
theorem escapeLoop_cut (src : Bytes) (i first second : Int) (ret : Bytes) :
    ∃ cut, cut <+: src ∧ escapeLoop src i first second ret = ret ++ cut.flatMap escapeByte := by
  induction src generalizing i first second ret with
  | nil => exact ⟨[], List.prefix_rfl, (List.append_nil ret).symm⟩
  | cons c src ih =>
    -- A round that goes on, and one that returns.
    have keep : ∀ i' first' second', ∃ cut, cut <+: c :: src ∧
        escapeLoop src i' first' second' (ret ++ escapeByte c) =
          ret ++ cut.flatMap escapeByte := by
      intro i' first' second'
      obtain ⟨cut, hcut, hloop⟩ := ih i' first' second' (ret ++ escapeByte c)
      refine ⟨c :: cut, List.cons_prefix_cons.mpr ⟨rfl, hcut⟩, ?_⟩
      rw [hloop, List.flatMap_cons, List.append_assoc]
    have stop : ∃ cut, cut <+: c :: src ∧ ret ++ escapeByte c = ret ++ cut.flatMap escapeByte :=
      ⟨[c], List.cons_prefix_cons.mpr ⟨rfl, List.nil_prefix⟩, by rw [List.flatMap_singleton]⟩
    rcases eq_or_ne c '%' with rfl | hp
    · exact keep (i + 1) i second
    rcases eq_or_ne c '3' with rfl | h3
    · exact keep (i + 1) first i
    rcases eq_or_ne c 'F' with rfl | hF
    · rw [escapeLoop, if_neg hp, if_neg h3, if_pos rfl]
      split
      · exact stop
      · exact keep (i + 1) first second
    rcases eq_or_ne c '?' with rfl | hq
    · exact stop
    · rw [escapeLoop_other hp h3 hF hq]
      exact keep (i + 1) first second

/-! ## 2. The escape of a beginning -/

/-- A text that stands in the column of a log record without a separator, in ASCII and not too
long, with each backslash in one of the three escapes. -/
structure EscapesOf (url text : Bytes) : Prop where
  no_tab : chr '\t' ∉ text
  no_newline : chr '\n' ∉ text
  ascii : ∀ c ∈ text, c.val < 128
  length_le : text.length ≤ 2 * url.length
  paired : Paired [chr 'n', chr 't', chr '\\'] text

theorem escapeByte_bytes (c : Byte) : (escapeByte c).length ≤ 2 ∧
    ∀ d ∈ escapeByte c, d ≠ chr '\t' ∧ d ≠ chr '\n' ∧ d.val < 128 := by
  unfold escapeByte
  split_ifs with hnl htab hbs hascii
  · decide +kernel
  · decide +kernel
  · decide +kernel
  · refine ⟨Nat.le_succ 1, fun d hd => ?_⟩
    rw [List.mem_singleton.mp hd]
    exact ⟨htab, hnl, hascii⟩
  · decide +kernel

theorem escapeByte_paired (c : Byte) : Paired [chr 'n', chr 't', chr '\\'] (escapeByte c) := by
  rw [CopyText.paired_iff]
  refine ⟨(escapeByte_closed c).2, fun d hd => ?_⟩
  rw [(escapeByte_closed c).1, List.mem_singleton] at hd
  unfold escapeToken at hd
  split_ifs at hd <;> cases hd <;> decide

theorem escapesOf_flatMap {url cut : Bytes} (h : cut <+: url) :
    EscapesOf url (cut.flatMap escapeByte) := by
  have hbytes : ∀ d ∈ cut.flatMap escapeByte, d ≠ chr '\t' ∧ d ≠ chr '\n' ∧ d.val < 128 := by
    intro d hd
    obtain ⟨c, -, hd⟩ := List.mem_flatMap.mp hd
    exact (escapeByte_bytes c).2 d hd
  refine ⟨fun hm => (hbytes _ hm).1 rfl, fun hm => (hbytes _ hm).2.1 rfl,
    fun c hc => (hbytes c hc).2.2, ?_, .flatMap escapeByte_paired cut⟩
  have hsum : ((cut.map fun c => (escapeByte c).length).sum) ≤
      (cut.map fun c => (escapeByte c).length).length • 2 := by
    refine List.sum_le_card_nsmul _ 2 fun n hn => ?_
    obtain ⟨c, -, rfl⟩ := List.mem_map.mp hn
    exact (escapeByte_bytes c).1
  rw [List.length_flatMap]
  rw [List.length_map, smul_eq_mul, Nat.mul_comm] at hsum
  exact hsum.trans (Nat.mul_le_mul_left 2 h.length_le)

/-! ## 3. The logged url -/

/-- Wherever the loop returns the text is fit for a column. So the assertion of `logRequest` does not
fire, and the separator behind the url separates. -/
theorem logRequest_runs (url : Bytes) :
    EscapesOf url (escapeString url) ∧
    (∀ i first second, EscapesOf url (escapeLoop url i first second [])) ∧
    (∀ rest, tokens (escapeString url ++ chr '\t' :: rest) =
      tokens (escapeString url) ++ .raw '\t' :: tokens rest) ∧
    ∀ toSimpleString childUuid (result : BackendQueryResult),
      (logRequest toSimpleString url childUuid result).isSome = result.responseCode.isSome := by
  have hloop : ∀ i first second, EscapesOf url (escapeLoop url i first second []) := by
    intro i first second
    obtain ⟨cut, hcut, h⟩ := escapeLoop_cut url i first second []
    rw [h]
    exact escapesOf_flatMap hcut
  have hescaped : EscapesOf url (escapeString url) := hloop 0 (-1) (-1)
  refine ⟨hescaped, hloop, fun rest => ?_, fun toSimpleString childUuid result => ?_⟩
  · exact (CopyText.paired_iff.mp hescaped.paired).1.tokens_append_cons (by decide) rest
  · have hassert : findFirstOf (escapeString url) [chr '\t', chr '\n'] 0 = none := by
      refine findFirstOf_eq_none fun c hc hmem => ?_
      rcases List.mem_cons.mp hmem with rfl | hmem
      · exact hescaped.no_tab hc
      · exact hescaped.no_newline (List.mem_singleton.mp hmem ▸ hc)
    cases hcode : result.responseCode with
    | none =>
      unfold logRequest
      simp only [hassert, hcode]
      rfl
    | some responseCode =>
      rw [logRequest_eq toSimpleString url childUuid hcode]
      rfl

end SafeKiddo
