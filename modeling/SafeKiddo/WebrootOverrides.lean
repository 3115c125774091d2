import SafeKiddo.DbClient
import SafeKiddo.UrlNormalization

/-!
# Webroot overrides

`WebrootOverridesProvider` of `webrootOverrides.cpp`: the rows of the table of overrides are loaded
into a map from the digest of a key of the address, and a request is looked up by the keys of its
url. The parser of keys and the digest are those of the webroot SDK. An alert only logs.

Results:
1. `getCategory_forCategory`: a category id is read back.
2. `getElem?_fetchOverrides`: the loaded map holds, for a key, the first row with this first key.
3. `findCategorization_override`: the first key of a url that is the first key of a row decides, and
   of the rows with it the first one.
-/

namespace SafeKiddo

open ByteString

namespace Webroot

/-! ## 1. The code -/

/-- `TYPE_CC`: the category in the upper byte, the confidence in the lower one. -/
structure Categorization where
  CC : UInt16
  deriving DecidableEq

namespace Categorization

def category (self : Categorization) : UInt32 := (self.CC.toUInt32 &&& 0x7f00) >>> 8

def verify (self : Categorization) : Bool := self.category ≥ 1 && self.category ≤ 82

def getCategory (self : Categorization) : Checked UInt32 := do
  assert (self.verify = true)
  return self.category

def forCategory (category : UInt32) : Categorization := ⟨((category <<< 8) + 100).toUInt16⟩

end Categorization

/-- The SDK: the keys that `cLcpParse` finds in a url, in the order of `nGetLcp`, and the digest
that `c_md5` makes of a key. -/
structure Sdk (Key : Type) where
  lcp : Bytes → List Bytes
  setByUrl : Bytes → Key

/-- The keys that the SDK finds in any url. -/
def Sdk.Lcp {Key : Type} (sdk : Sdk Key) : Set Bytes := {key | ∃ url, key ∈ sdk.lcp url}

/-- A row of `get_overrides`. -/
structure OverrideRow where
  address : Bytes
  codeCategoriesExtId : Int32

/-- `static_cast<webroot::Category>(boost::lexical_cast<unsigned int>(row.at(1)))` -/
def OverrideRow.category (row : OverrideRow) : UInt32 := row.codeCategoriesExtId.toUInt32

section Code

variable {Key : Type} [Ord Key]

abbrev CategorizationsMap (Key : Type) [Ord Key] := Std.TreeMap Key Categorization

/-- What the lookups and the update thread share. -/
structure WebrootOverridesProvider (Key : Type) [Ord Key] where
  categorizationsMap : CategorizationsMap Key
  stopped : Bool
  forceUpdateRequired : Bool
  ready : Bool

/-- One row. An address without keys is logged, and so is a key that is already in the map. -/
def addOverride (sdk : Sdk Key) (result : CategorizationsMap Key) (row : OverrideRow) :
    CategorizationsMap Key :=
  let url := shortenUrl row.address
  let category := row.category
  match sdk.lcp (lowercase url) with
  | [] => result
  | lcpBuffer :: _ =>
    result.insertIfNew (sdk.setByUrl lcpBuffer) (Categorization.forCategory category)

/-- `none` is a failed query. -/
def fetchOverrides (sdk : Sdk Key) (queryResult : Result (List OverrideRow)) :
    Option (CategorizationsMap Key) :=
  match queryResult with
  | .error _ => none
  | .ok rows => some (rows.foldl (addOverride sdk) ∅)

/-- The loop over the keys of a url, which ends at the first one that is in the map. -/
def lookUpKeys (sdk : Sdk Key) (categorizationsMap : CategorizationsMap Key) :
    List Bytes → List Categorization
  | [] => []
  | lcpBuffer :: keys =>
    match categorizationsMap[sdk.setByUrl lcpBuffer]? with
    | some categorization => [categorization]
    | none => lookUpKeys sdk categorizationsMap keys

def WebrootOverridesProvider.findCategorization (self : WebrootOverridesProvider Key)
    (sdk : Sdk Key) (url : Bytes) : Checked (List Categorization) := do
  assert (self.ready = true)
  return lookUpKeys sdk self.categorizationsMap (sdk.lcp (lowercase url))

end Code

/-! ## 2. Categories -/

theorem getCategory_forCategory {row : OverrideRow} (h : 1 ≤ row.codeCategoriesExtId)
    (h' : row.codeCategoriesExtId ≤ 82) :
    (Categorization.forCategory row.category).getCategory = some row.category := by
  have hall : ∀ n < 83, 1 ≤ n → (Categorization.forCategory (Int32.ofNat n).toUInt32).getCategory =
      some (Int32.ofNat n).toUInt32 := by
    decide +kernel
  rw [Int32.le_iff_toInt_le] at h h'
  have hlow : 1 ≤ row.codeCategoriesExtId.toInt := h
  have hhigh : row.codeCategoriesExtId.toInt ≤ 82 := h'
  have hid : Int32.ofNat row.codeCategoriesExtId.toInt.toNat = row.codeCategoriesExtId := by
    rw [← Int32.ofInt_eq_ofNat, Int.toNat_of_nonneg (Int.le_trans (by decide) hlow),
      Int32.ofInt_toInt]
  have hcat := hall row.codeCategoriesExtId.toInt.toNat
    ((Int.toNat_lt (Int.le_trans (by decide) hlow)).mpr (Int.lt_of_le_of_lt hhigh (by decide)))
    ((Int.le_toNat (Int.le_trans (by decide) hlow)).mpr hlow)
  rwa [hid] at hcat

/-! ## 3. The loaded map -/

section Lookup

variable {Key : Type} (sdk : Sdk Key)

/-- The first key of the address of a row. -/
def firstKey (row : OverrideRow) : Option Bytes :=
  (sdk.lcp (lowercase (shortenUrl row.address))).head?

/-- The row that decides a url: of the keys of the url the first one that is the first key of a
row, and of the rows with this first key the first one. -/
def overrideOf (rows : List OverrideRow) (url : Bytes) : Option OverrideRow :=
  ((sdk.lcp (lowercase url)).find? fun key => rows.any fun row => firstKey sdk row = some key).bind
    fun key => rows.find? fun row => firstKey sdk row = some key

variable {sdk} {rows : List OverrideRow} {key : Bytes}

theorem firstKey_mem_lcp {row : OverrideRow} (h : firstKey sdk row = some key) : key ∈ sdk.Lcp :=
  ⟨_, List.mem_of_head? h⟩

/-- The own address of a row, when no earlier row has its first key. -/
theorem overrideOf_own {before after : List OverrideRow} {row : OverrideRow} {url : Bytes}
    (hkey : firstKey sdk row = some key) (hfirst : ∀ r ∈ before, firstKey sdk r ≠ some key)
    (hurl : lowercase url = lowercase (shortenUrl row.address)) :
    overrideOf sdk (before ++ row :: after) url = some row := by
  obtain ⟨keys, hkeys⟩ := List.head?_eq_some_iff.mp hkey
  have hany : ((before ++ row :: after).any fun r => firstKey sdk r = some key) = true := by
    rw [List.any_eq_true]
    exact ⟨row, List.mem_append_right _ List.mem_cons_self, decide_eq_true hkey⟩
  have hbefore : before.find? (fun r => firstKey sdk r = some key) = none :=
    List.find?_eq_none.mpr fun r hr => by simpa using hfirst r hr
  rw [overrideOf, hurl, hkeys, List.find?_cons, hany, Option.bind_some, List.find?_append, hbefore,
    Option.none_or, List.find?_cons, decide_eq_true hkey]

variable [Ord Key] [Std.TransOrd Key] [Std.LawfulEqOrd Key]

theorem getElem?_addOverride (hinj : Set.InjOn sdk.setByUrl sdk.Lcp) (hkey : key ∈ sdk.Lcp)
    (result : CategorizationsMap Key) (row : OverrideRow) :
    (addOverride sdk result row)[sdk.setByUrl key]? =
      result[sdk.setByUrl key]?.or
        (if firstKey sdk row = some key then some (Categorization.forCategory row.category)
          else none) := by
  unfold addOverride
  simp only
  split
  · next hnone =>
    have hno : firstKey sdk row ≠ some key := by simp [firstKey, hnone]
    rw [if_neg hno, Option.or_none]
  · next lcpBuffer keys hkeys =>
    have hfirst : firstKey sdk row = some lcpBuffer := by rw [firstKey, hkeys, List.head?_cons]
    rw [hfirst, Std.TreeMap.getElem?_insertIfNew]
    rcases eq_or_ne lcpBuffer key with rfl | hne
    · rw [if_pos rfl]
      cases hget : result[sdk.setByUrl lcpBuffer]? with
      | none =>
        have hnew : sdk.setByUrl lcpBuffer ∉ result := by
          rw [Std.TreeMap.mem_iff_isSome_getElem?, hget]
          exact Bool.false_ne_true
        rw [if_pos ⟨Std.compare_self, hnew⟩, Option.none_or]
      | some categorization =>
        have hold : sdk.setByUrl lcpBuffer ∈ result := by
          rw [Std.TreeMap.mem_iff_isSome_getElem?, hget]
          rfl
        rw [if_neg fun h => h.2 hold, Option.some_or]
    · have hdigest : sdk.setByUrl lcpBuffer ≠ sdk.setByUrl key :=
        fun h => hne (hinj (firstKey_mem_lcp hfirst) hkey h)
      rw [if_neg fun h => hdigest (Std.compare_eq_iff_eq.mp h.1),
        if_neg fun h => hne (Option.some.inj h), Option.or_none]

theorem getElem?_foldl_addOverride (hinj : Set.InjOn sdk.setByUrl sdk.Lcp) (hkey : key ∈ sdk.Lcp)
    (result : CategorizationsMap Key) :
    (rows.foldl (addOverride sdk) result)[sdk.setByUrl key]? =
      result[sdk.setByUrl key]?.or ((rows.find? fun row => firstKey sdk row = some key).map
        fun row => Categorization.forCategory row.category) := by
  induction rows generalizing result with
  | nil => rw [List.foldl_nil, List.find?_nil, Option.map_none, Option.or_none]
  | cons row rows ih =>
    rw [List.foldl_cons, ih, getElem?_addOverride hinj hkey, Option.or_assoc, List.find?_cons]
    split
    · next hfirst => simp only [hfirst, decide_true, Option.some_or, Option.map_some]
    · next hfirst => simp only [hfirst, decide_false, Option.none_or]

/-- A key leads to the first row with it. -/
theorem getElem?_fetchOverrides (hinj : Set.InjOn sdk.setByUrl sdk.Lcp) (hkey : key ∈ sdk.Lcp) :
    (rows.foldl (addOverride sdk) ∅)[sdk.setByUrl key]? =
      (rows.find? fun row => firstKey sdk row = some key).map
        fun row => Categorization.forCategory row.category := by
  rw [getElem?_foldl_addOverride hinj hkey, Std.TreeMap.getElem?_emptyc, Option.none_or]

/-! ## 4. Lookups -/

theorem lookUpKeys_eq (hinj : Set.InjOn sdk.setByUrl sdk.Lcp) {keys : List Bytes}
    (hkeys : ∀ key ∈ keys, key ∈ sdk.Lcp) :
    lookUpKeys sdk (rows.foldl (addOverride sdk) ∅) keys =
      (((keys.find? fun key => rows.any fun row => firstKey sdk row = some key).bind
        fun key => rows.find? fun row => firstKey sdk row = some key).map
          fun row => Categorization.forCategory row.category).toList := by
  induction keys with
  | nil => rfl
  | cons key keys ih =>
    rw [lookUpKeys, getElem?_fetchOverrides hinj (hkeys key List.mem_cons_self), List.find?_cons]
    cases hfind : rows.find? fun row => firstKey sdk row = some key with
    | none =>
      have hany : (rows.any fun row => firstKey sdk row = some key) = false := by
        rw [List.any_eq_false]
        exact List.find?_eq_none.mp hfind
      rw [hany]
      exact ih fun key hkey => hkeys key (List.mem_cons_of_mem _ hkey)
    | some row =>
      have hany : (rows.any fun row => firstKey sdk row = some key) = true := by
        rw [List.any_eq_true]
        have hfirst := List.find?_some hfind
        exact ⟨row, List.mem_of_find?_eq_some hfind, hfirst⟩
      rw [hany, Option.bind_some, hfind]
      rfl

/-- The most specific override wins. The own address of an override in any letter case leads to
its category, unless an earlier row has the same first key. -/
theorem findCategorization_override (hinj : Set.InjOn sdk.setByUrl sdk.Lcp)
    (hrows : ∀ row ∈ rows, 1 ≤ row.codeCategoriesExtId ∧ row.codeCategoriesExtId ≤ 82) :
    ∃ categorizationsMap, fetchOverrides sdk (.ok rows) = some categorizationsMap ∧
      ∀ (self : WebrootOverridesProvider Key) (url : Bytes), self.ready = true →
        self.categorizationsMap = categorizationsMap →
        ∃ result, self.findCategorization sdk url = some result ∧
          result.mapM Categorization.getCategory =
            some ((overrideOf sdk rows url).map OverrideRow.category).toList ∧
          ∀ before row after key, rows = before ++ row :: after → firstKey sdk row = some key →
            (∀ r ∈ before, firstKey sdk r ≠ some key) →
            lowercase url = lowercase (shortenUrl row.address) →
            result.mapM Categorization.getCategory = some [row.category] := by
  refine ⟨_, rfl, ?_⟩
  intro self url hready hmap
  have hcategory : ((overrideOf sdk rows url).map fun row =>
      Categorization.forCategory row.category).toList.mapM Categorization.getCategory =
      some ((overrideOf sdk rows url).map OverrideRow.category).toList := by
    cases hrow : overrideOf sdk rows url with
    | none => rfl
    | some row =>
      obtain ⟨key, -, hfind⟩ := Option.bind_eq_some_iff.mp hrow
      obtain ⟨hlow, hhigh⟩ := hrows row (List.mem_of_find?_eq_some hfind)
      simp only [Option.map_some, Option.toList_some, List.mapM_cons, List.mapM_nil,
        getCategory_forCategory hlow hhigh]
      rfl
  refine ⟨_, ?_, hcategory, ?_⟩
  · rw [WebrootOverridesProvider.findCategorization, assert_true hready, hmap]
    exact congrArg some (lookUpKeys_eq hinj fun key hkey => ⟨_, hkey⟩)
  · rintro before row after key rfl hkey hfirst hurl
    rw [hcategory, overrideOf_own hkey hfirst hurl]
    rfl

end Lookup

/-- The keys of an address and of an address in its domain. -/
def onetSdk : Sdk Bytes where
  lcp url :=
    if url = bytes "onet.pl" then [bytes "onet.pl"]
    else if url = bytes "www.onet.pl/" then
      [bytes "www.onet.pl/", bytes "www.onet.pl", bytes "onet.pl"]
    else []
  setByUrl := id

/-- An address without keys and two rows for one key. -/
def onetRows : List OverrideRow := [⟨bytes "@#$", 7⟩, ⟨bytes "Onet.pl", 11⟩, ⟨bytes "onet.pl", 23⟩]

theorem findCategorization_override_onet :
    ∃ categorizationsMap, fetchOverrides onetSdk (.ok onetRows) = some categorizationsMap ∧
      ∃ result, WebrootOverridesProvider.findCategorization ⟨categorizationsMap, false, false, true⟩
        onetSdk (bytes "WWW.Onet.pl/") = some result ∧
        result.mapM Categorization.getCategory = some [11] := by
  obtain ⟨categorizationsMap, hmap, hfind⟩ := @findCategorization_override _ onetSdk onetRows _ _ _
    (Set.injOn_id _) (by decide)
  obtain ⟨result, hresult, hcategory, -⟩ := hfind ⟨categorizationsMap, false, false, true⟩
    (bytes "WWW.Onet.pl/") rfl rfl
  have hrow : ((overrideOf onetSdk onetRows (bytes "WWW.Onet.pl/")).map
      OverrideRow.category).toList = [11] := by
    decide +kernel
  exact ⟨categorizationsMap, hmap, result, hresult, by rw [hcategory, hrow]⟩

end Webroot

end SafeKiddo
