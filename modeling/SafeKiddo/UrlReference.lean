import SafeKiddo.UrlDecode

/-!
# urldecode in two passes

What `urldecode` computes in one pass over its buffer, said in two: first every escape is replaced by
its byte, then the path is cut at its slashes and its segments are put on a stack.

Results:
1. `decodeEscapes_eq`: the decoded characters are the replaced ones up to the first zero byte.
2. `normalizePath_eq`: the normal form of a path is its resolved segments.
3. `urldecode_eq_reference`: the one pass computes the two.
-/

namespace SafeKiddo

open ByteString ByteString.PathState

/-! ## 1. First pass -/

/-- The place of a digit of either case among the hexadecimal digits. -/
def hexValue (c : Byte) : Option Nat := (bytes "0123456789abcdef").idxOf? (tolower c)

/-- The byte of a percent sign and two hexadecimal digits. -/
def escapedByte (percent high low : Byte) : Option Byte :=
  if percent = chr '%' then do
    let high ← hexValue high
    let low ← hexValue low
    return Fin.ofNat 256 (16 * high + low)
  else
    none

/-- Every escape replaced by its byte, from left to right. A replaced byte is not looked at again. -/
def replaceEscapes : Bytes → Bytes
  | c :: a :: b :: src =>
    match escapedByte c a b with
    | some byte => byte :: replaceEscapes src
    | none => c :: replaceEscapes (a :: b :: src)
  | src => src

/-- The replaced bytes before the first zero byte. -/
def decodedReference (src : Bytes) : Bytes := (replaceEscapes src).takeWhile (· ≠ 0)

/-! ## 2. Second pass -/

/-- The path before the first question mark with its segments resolved, and the query as it is. -/
def normalReference (src : Bytes) : Bytes :=
  let decoded := decodedReference src
  let path := decoded.takeWhile (· ≠ chr '?')
  let query := decoded.dropWhile (· ≠ chr '?')
  let segments := path.tail.splitOn (chr '/')
  renderSegments (resolve segments) (decide (segments.getLast? = some [])) ++ query

/-! ## 3. One pass -/

namespace ReferenceLemmas

theorem hexValue_eq (c : Byte) :
    hexValue c = if isxdigit c then some (hexDigit c).val else none := by
  revert c
  decide +kernel

theorem escapedByte_eq (percent high low : Byte) :
    escapedByte percent high low =
      if percent = chr '%' ∧ isxdigit high ∧ isxdigit low then
        some (16 * hexDigit high + hexDigit low)
      else
        none := by
  have hbyte : Fin.ofNat 256 (16 * (hexDigit high).val + (hexDigit low).val) =
      16 * hexDigit high + hexDigit low := by
    refine Fin.ext ?_
    simp [Fin.val_add, Fin.val_mul]
  unfold escapedByte
  rw [hexValue_eq, hexValue_eq]
  rcases eq_or_ne percent (chr '%') with rfl | hpercent
  · cases hhigh : isxdigit high with
    | false => simp
    | true =>
      cases hlow : isxdigit low with
      | false => simp
      | true => simpa using hbyte
  · rw [if_neg hpercent, if_neg fun h => hpercent h.1]

theorem takeWhile_zero (ch : Byte) (chars : Bytes) :
    (ch :: chars).takeWhile (· ≠ 0) = decodedCons ch (chars.takeWhile (· ≠ 0)) := by
  unfold decodedCons
  split
  · next h => exact List.takeWhile_cons_of_neg (by simpa using h)
  · next h => exact List.takeWhile_cons_of_pos (by simpa using h)

end ReferenceLemmas

open ReferenceLemmas

theorem decodeEscapes_eq (src : Bytes) : decodeEscapes src = decodedReference src := by
  unfold decodedReference
  induction src using decodeEscapes.induct with
  | case1 => rfl
  | case2 ch a b src hesc ih =>
    rw [decodeEscapes, if_pos hesc, replaceEscapes, escapedByte_eq, if_pos hesc, takeWhile_zero, ih]
  | case3 ch a b src hesc ih =>
    rw [decodeEscapes, if_neg hesc, replaceEscapes, escapedByte_eq, if_neg hesc, takeWhile_zero, ih]
  | case4 ch a ih =>
    rw [decodeEscapes, ih, ← takeWhile_zero]
    rfl
  | case5 ch =>
    rw [decodeEscapes, replaceEscapes, takeWhile_zero]
    · rfl
    · rintro _ _ _ _ ⟨⟩

theorem normalizePath_eq (tail : Bytes) :
    normalizePath (chr '/' :: tail) =
      renderSegments (resolve ((tail.takeWhile (· ≠ chr '?')).splitOn (chr '/')))
        (decide (((tail.takeWhile (· ≠ chr '?')).splitOn (chr '/')).getLast? = some [])) ++
      tail.dropWhile (· ≠ chr '?') := by
  have hquery : (chr '/' :: tail).dropWhile (· ≠ chr '?') = tail.dropWhile (· ≠ chr '?') :=
    List.dropWhile_cons_of_pos (by decide)
  rw [normalizePath, hquery, List.tail_cons, finish_foldl_root]

/-- A path that begins with a slash is decoded and normalized as by the two passes, and any string
is decoded as by the first one. -/
theorem urldecode_eq_reference (tail src : Bytes) :
    urldecode (chr '/' :: tail) true = some (normalReference (chr '/' :: tail)) ∧
      urldecode src false = some (decodedReference src) := by
  refine ⟨?_, by rw [urldecode_plain, decodeEscapes_eq]⟩
  have hroot : decodedReference (chr '/' :: tail) = chr '/' :: decodeEscapes tail := by
    rw [← decodeEscapes_eq, decodeEscapes_of_ne (by decide), decodedCons_of_ne (by decide)]
  have hpath : (chr '/' :: decodeEscapes tail).takeWhile (· ≠ chr '?') =
      chr '/' :: (decodeEscapes tail).takeWhile (· ≠ chr '?') :=
    List.takeWhile_cons_of_pos (by decide)
  have hquery : (chr '/' :: decodeEscapes tail).dropWhile (· ≠ chr '?') =
      (decodeEscapes tail).dropWhile (· ≠ chr '?') :=
    List.dropWhile_cons_of_pos (by decide)
  rw [urldecode_rooted rfl, decodeEscapes_eq, hroot, normalizePath_eq, normalReference, hroot]
  simp only [hpath, hquery, List.tail_cons]

example : normalReference (bytes "/a/./b%2f%2E%2e//c/?x/../y") = bytes "/a/c/?x/../y" := by
  decide +kernel

end SafeKiddo
