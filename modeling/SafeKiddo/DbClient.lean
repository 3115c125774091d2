import SafeKiddo.BoostTime
import SafeKiddo.UrlPattern

/-!
# The database client

The lookups of `dbClient.cpp`: the child, its access times, its profile with the decision maps, the
categories and the category groups. A connection answers each prepared statement with an error code
or with a list of rows; columns that the schema types as integer or boolean are taken as such, and
the others as the text that is parsed.

Results:
1. `Decisions.get_ofRows`: in a map filled from rows, the mark of an id is the mark of its last row.
2. `Decisions.markOf_isSome`: the ids with a mark are the ids of the rows.
3. `Decisions.get_applyOverrides`: an override wins, and every other decision stays.
4. `Profile.create_eq_ok`, `CategoryGroup.create_eq_ok`: what a created value is made of.
-/

namespace SafeKiddo

open ByteString

/-! ## 1. Rows and connections -/

abbrev Uuid := Bytes
abbrev ChildId := Int32
abbrev ProfileId := Int32
abbrev CategoryGroupId := Int32
abbrev CategoryId := Int32
abbrev Status := UInt8

/-- `safekiddo::utils::Result<int, Value>`. -/
abbrev Result := Except Int

/-- A row of `get_child`. -/
structure ChildRow where
  id : ChildId
  name : Bytes
  birthDate : Bytes
  defaultCustomCodeProfileId : ProfileId
  timezone : Bytes
  status : Int32

/-- A row of `check_tmp_access_control`. -/
structure TmpAccessRow where
  startDate : Bytes
  duration : Bytes

/-- A row of `categories`. -/
structure CategoryRow where
  extId : CategoryId
  name : Bytes
  codeCategoriesGroupsId : CategoryGroupId

/-- The answer of the server to each statement, for its parameters. -/
structure DBConnection where
  getChild : Uuid → Result (List ChildRow)
  checkTmpAccessControl : ChildId → Result (List TmpAccessRow)
  /-- The parameters are the child, the day of the week and the time; the columns are irrelevant. -/
  checkAccessControl : ChildId → Nat → Bytes → Result (List Unit)
  /-- The name of the profile. -/
  getProfile : ProfileId → Result (List Bytes)
  /-- The address and the `blocked` flag. -/
  getProfileUrlList : ProfileId → Result (List (UrlPatternId × Bool))
  /-- The group and the `blocked` flag. -/
  getProfileCategoriesGroupsList : ProfileId → Result (List (CategoryGroupId × Bool))
  /-- The name of the group. -/
  getCategoryGroup : CategoryGroupId → Result (List Bytes)
  /-- The query of `Category::list`, with the ids between the parentheses. -/
  queryCategories : List CategoryId → Result (List CategoryRow)

/-! ## 2. Child -/

structure Child where
  childId : ChildId
  name : Bytes
  birthDate : Int
  defaultProfileId : ProfileId
  uuid : Uuid
  timezone : Bytes
  status : Status

/-- An empty value is a child that is not found. The status is stored in eight bits. -/
def Child.create (conn : DBConnection) (uuid : Uuid) : Checked (Result (Option Child)) :=
  match conn.getChild uuid with
  | .error e => some (.error e)
  | .ok [] => some (.ok none)
  | .ok [row] => do
    match ← parseDate row.birthDate with
    | none => return .error (-1)
    | some birthDate =>
      return .ok (some ⟨row.id, row.name, birthDate, row.defaultCustomCodeProfileId, uuid,
        row.timezone, row.status.toUInt32.toUInt8⟩)
  | .ok (_ :: _ :: _) => some (.error (-1))

/-! ## 3. Internet access time limit -/

/-- `boost::local_time::local_date_time`, for a moment that is no special value: the date, the
microseconds since midnight, and those of `local_time()`. -/
structure LocalDateTime where
  date : Int
  timeOfDay : Int
  localTimeOfDay : Int

/-- The clock, the time zone file and the printing of times. A clock reading is no special value. -/
structure TimeEnv where
  getCurrentUtcTime : Int
  convertToTimezoneTime : Int → Bytes → LocalDateTime
  toSimpleString : Int → Bytes

/-- `date.day_of_week().as_number()`: Sunday is 0. -/
def dayOfWeekNumber (date : Int) : Nat := ((date + 1) % 7).toNat

/-- The loop over the rows: a row that does not parse is skipped. -/
def anyRowCovers (currentUtcTime : Int) : List TmpAccessRow → Checked Bool
  | [] => some false
  | row :: rows => do
    let startDate ← parseDateTime row.startDate
    let duration ← parseTime row.duration
    match startDate, duration with
    | some startDate, some duration =>
      if currentUtcTime ≤ startDate + duration then return true
      else anyRowCovers currentUtcTime rows
    | _, _ => anyRowCovers currentUtcTime rows

def hasTemporaryInternetAccess (conn : DBConnection) (childId : ChildId) (currentUtcTime : Int) :
    Checked Bool :=
  match conn.checkTmpAccessControl childId with
  | .error _ => some true
  | .ok rows => anyRowCovers currentUtcTime rows

def hasInternetAccess (env : TimeEnv) (conn : DBConnection) (childId : ChildId)
    (childLocalTime : LocalDateTime) : Checked Bool := do
  let dayOfWeek := dayOfWeekNumber childLocalTime.date
  assert (dayOfWeek < 7)
  match conn.checkAccessControl childId dayOfWeek
      (env.toSimpleString childLocalTime.localTimeOfDay) with
  | .error _ => return true
  | .ok rows => return !rows.isEmpty

/-- The assertion on the day of the week never fires. -/
theorem hasInternetAccess_isSome (env : TimeEnv) (conn : DBConnection) (childId : ChildId)
    (childLocalTime : LocalDateTime) :
    (hasInternetAccess env conn childId childLocalTime).isSome := by
  have hday : dayOfWeekNumber childLocalTime.date < 7 := by
    unfold dayOfWeekNumber
    omega
  simp only [hasInternetAccess, assert_true hday, Option.bind_eq_bind, Option.bind_some]
  split <;> rfl

/-! ## 4. Decisions -/

/-- The invalid value of the default constructor is never stored. -/
inductive Decision
  | blocked
  | allowed
  deriving DecidableEq

def Decision.ofBlocked (blocked : Bool) : Decision := if blocked then .blocked else .allowed

structure Decisions (Id : Type) [Ord Id] where
  decisionMap : Std.TreeMap Id Decision

namespace Decisions

variable {Id : Type} [Ord Id]

def empty : Decisions Id := ⟨∅⟩

def setElementDecision (self : Decisions Id) (id : Id) (decision : Decision) : Decisions Id :=
  ⟨self.decisionMap.insert id decision⟩

def getElementDecisionIfExists (self : Decisions Id) (id : Id) : Option Decision :=
  self.decisionMap[id]?

def getIds (self : Decisions Id) : List Id := self.decisionMap.keys

def applyOverrides (self other : Decisions Id) : Decisions Id :=
  other.decisionMap.foldl setElementDecision self

/-- The loop of `createDecisionsForUrls` and of `createDecisionsForCategoryGroups`. -/
def ofRows (rows : List (Id × Bool)) : Decisions Id :=
  rows.foldl (fun decisions row => decisions.setElementDecision row.1 (.ofBlocked row.2)) empty

/-- The mark of an id: what its last row says. -/
def markOf [DecidableEq Id] (rows : List (Id × Bool)) (id : Id) : Option Decision :=
  (rows.reverse.find? (·.1 = id)).map fun row => .ofBlocked row.2

@[simp] theorem get_empty [Std.TransOrd Id] (id : Id) :
    (empty : Decisions Id).getElementDecisionIfExists id = none := by
  simp [empty, getElementDecisionIfExists]

theorem mem_getIds [Std.TransOrd Id] [Std.LawfulEqOrd Id] {self : Decisions Id} {id : Id} :
    id ∈ self.getIds ↔ (self.getElementDecisionIfExists id).isSome := by
  rw [getIds, getElementDecisionIfExists, Std.TreeMap.mem_keys,
    Std.TreeMap.mem_iff_isSome_getElem?]

theorem markOf_isSome {Id : Type} [DecidableEq Id] {rows : List (Id × Bool)} {id : Id} :
    (markOf rows id).isSome ↔ id ∈ rows.map (·.1) := by
  simp [markOf]

section Lemmas

variable [Std.TransOrd Id] [Std.LawfulEqOrd Id] [DecidableEq Id]

@[simp] theorem get_set (self : Decisions Id) (id id' : Id) (decision : Decision) :
    (self.setElementDecision id decision).getElementDecisionIfExists id' =
      if id = id' then some decision else self.getElementDecisionIfExists id' := by
  simp [setElementDecision, getElementDecisionIfExists, Std.TreeMap.getElem?_insert]

/-- Filling a map from rows: the last row of an id decides, and a map that had a decision for an id
without a row keeps it. -/
theorem get_foldl_set (rows : List (Id × Decision)) (id : Id) :
    ∀ self : Decisions Id,
      (rows.foldl (fun decisions row => decisions.setElementDecision row.1 row.2)
        self).getElementDecisionIfExists id =
      ((rows.reverse.find? (·.1 = id)).map (·.2)).or (self.getElementDecisionIfExists id) := by
  induction rows with
  | nil => intro self; simp
  | cons row rows ih =>
    intro self
    rw [List.foldl_cons, ih, get_set, List.reverse_cons, List.find?_append]
    by_cases hrow : row.1 = id
    · cases rows.reverse.find? (·.1 = id) <;> simp [hrow]
    · cases rows.reverse.find? (·.1 = id) <;> simp [hrow]

theorem get_ofRows (rows : List (Id × Bool)) (id : Id) :
    (ofRows rows).getElementDecisionIfExists id = markOf rows id := by
  have h := get_foldl_set (rows.map fun row => (row.1, Decision.ofBlocked row.2)) id empty
  rw [List.foldl_map] at h
  rw [ofRows, h, get_empty, Option.or_none, markOf, ← List.map_reverse, List.find?_map,
    Option.map_map]
  rfl

/-- Overrides win; the other decisions stay. -/
theorem get_applyOverrides (self other : Decisions Id) (id : Id) :
    (self.applyOverrides other).getElementDecisionIfExists id =
      (other.getElementDecisionIfExists id).or (self.getElementDecisionIfExists id) := by
  rw [applyOverrides, Std.TreeMap.foldl_eq_foldl_toList, get_foldl_set]
  congr 1
  cases hrow : other.decisionMap.toList.reverse.find? (·.1 = id) with
  | none =>
    cases hget : other.getElementDecisionIfExists id with
    | none => rfl
    | some decision =>
      have hmem := Std.TreeMap.mem_toList_iff_getElem?_eq_some.mpr hget
      have hno := List.find?_eq_none.mp hrow (id, decision) (List.mem_reverse.mpr hmem)
      simp at hno
  | some row =>
    have hid : row.1 = id := by simpa using List.find?_some hrow
    have hmem := List.mem_reverse.mp (List.mem_of_find?_eq_some hrow)
    have hget := Std.TreeMap.mem_toList_iff_getElem?_eq_some.mp hmem
    rw [hid] at hget
    exact hget.symm

end Lemmas

end Decisions

/-! ## 5. Profile -/

structure Profile where
  profileId : ProfileId
  name : Bytes
  decisionsForUrls : Decisions UrlPatternId
  decisionsForCategoryGroups : Decisions CategoryGroupId

namespace Profile

def createDecisionsForUrls (conn : DBConnection) (profileId : ProfileId) :
    Result (Decisions UrlPatternId) :=
  match conn.getProfileUrlList profileId with
  | .error _ => .error (-1)
  | .ok rows => .ok (.ofRows rows)

def createDecisionsForCategoryGroups (conn : DBConnection) (profileId : ProfileId) :
    Result (Decisions CategoryGroupId) :=
  match conn.getProfileCategoriesGroupsList profileId with
  | .error _ => .error (-1)
  | .ok rows => .ok (.ofRows rows)

def create (conn : DBConnection) (profileId : ProfileId) : Result Profile :=
  match conn.getProfile profileId with
  | .error e => .error e
  | .ok [] => .error (-1)
  | .ok (name :: _) =>
    match createDecisionsForUrls conn profileId with
    | .error _ => .error (-1)
    | .ok decisionsForUrls =>
      match createDecisionsForCategoryGroups conn profileId with
      | .error _ => .error (-1)
      | .ok decisionsForCategoryGroups =>
        .ok ⟨profileId, name, decisionsForUrls, decisionsForCategoryGroups⟩

/-- A profile is created exactly when its row exists and both lists are read; the lists become the
decision maps. -/
theorem create_eq_ok {conn : DBConnection} {profileId : ProfileId} {profile : Profile} :
    create conn profileId = .ok profile ↔
      ∃ name names urls groups, conn.getProfile profileId = .ok (name :: names) ∧
        conn.getProfileUrlList profileId = .ok urls ∧
        conn.getProfileCategoriesGroupsList profileId = .ok groups ∧
        profile = ⟨profileId, name, .ofRows urls, .ofRows groups⟩ := by
  unfold create createDecisionsForUrls createDecisionsForCategoryGroups
  rcases conn.getProfile profileId with e | _ | ⟨name, names⟩
  · simp
  · simp
  · cases conn.getProfileUrlList profileId <;>
      cases conn.getProfileCategoriesGroupsList profileId <;> simp [eq_comm]

end Profile

/-! ## 6. Categories and category groups -/

structure Category where
  categoryId : CategoryId
  name : Bytes
  categoryGroupId : CategoryGroupId

/-- No query is made for no ids. -/
def Category.list (conn : DBConnection) (categoryIds : List CategoryId) : Result (List Category) :=
  if categoryIds.isEmpty then
    .ok []
  else
    match conn.queryCategories categoryIds with
    | .error _ => .error (-1)
    | .ok rows => .ok (rows.map fun row => ⟨row.extId, row.name, row.codeCategoriesGroupsId⟩)

structure CategoryGroup where
  groupId : CategoryGroupId
  name : Bytes

/-- One row is expected. -/
def CategoryGroup.create (conn : DBConnection) (groupId : CategoryGroupId) :
    Result CategoryGroup :=
  match conn.getCategoryGroup groupId with
  | .error e => .error e
  | .ok [name] => .ok ⟨groupId, name⟩
  | .ok _ => .error (-1)

/-- A category group is created exactly when there is one row for it. -/
theorem CategoryGroup.create_eq_ok {conn : DBConnection} {groupId : CategoryGroupId}
    {group : CategoryGroup} :
    CategoryGroup.create conn groupId = .ok group ↔
      ∃ name, conn.getCategoryGroup groupId = .ok [name] ∧ group = ⟨groupId, name⟩ := by
  unfold CategoryGroup.create
  rcases conn.getCategoryGroup groupId with e | _ | ⟨name, _ | ⟨name', names⟩⟩
  · simp
  · simp
  · simp [eq_comm]
  · simp

end SafeKiddo
