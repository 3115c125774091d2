import SafeKiddo.Verdict
import SafeKiddo.Worker

/-!
# What the worker answers

Two laws about every reply of the worker, whatever the database and webroot answer.

Results:
1. `lookUp_codes`: the response codes that the worker has; no user is answered as unknown.
2. `responses_complete`: a result is complete enough for the response that is built from it, and a
   block by category reports a blocked group of the site.
3. `failures_open`: a lookup that fails never blocks a request that is let in without the failure.
-/

namespace SafeKiddo

open ByteString

/-! ## 1. Response codes -/

section Codes

variable {env : TimeEnv} {conn : DBConnection} {webroot : Webroot}

theorem lookUp_codes {userId : Uuid} {notTooLongUrl normalizedUrl : Bytes}
    {result : BackendQueryResult} (hu : chr '/' ∈ normalizedUrl)
    (h : lookUp env conn webroot userId notTooLongUrl normalizedUrl = some result) :
    ∃ code ∈ [ResponseCode.resOk, .resInternetAccessForbidden, .resUrlBlockedCustom,
      .resCategoryBlockedCustom], result.responseCode = some code := by
  obtain ⟨r, -, h⟩ := Option.bind_eq_some_iff.mp h
  rcases r with e | _ | child
  · cases h; exact ⟨.resOk, by simp, rfl⟩
  · cases h; exact ⟨.resOk, by simp, rfl⟩
  · exact queryDatabase_codes hu h

end Codes

/-! ## 2. Complete results -/

/-- The rows of the category query are rows of categories that it asks for. -/
def AnswersAskedIds (conn : DBConnection) : Prop :=
  ∀ ids rows, conn.queryCategories ids = .ok rows → ∀ row ∈ rows, row.extId ∈ ids

/-- The group of a category of the site. A site whose categorizations have no category in the
database has the group of the uncategorized sites. -/
def GroupOfSite (conn : DBConnection) (categorizations : List Categorization)
    (g : CategoryGroupId) : Prop :=
  (∃ c ∈ categorizations, ∃ rows,
    conn.queryCategories (categorizations.map fun c => Int32.ofNat c.category) = .ok rows ∧
      ∃ row ∈ rows, row.extId = Int32.ofNat c.category ∧ row.codeCategoriesGroupsId = g) ∨
  Category.list conn (categorizations.map fun c => Int32.ofNat c.category) = .ok [] ∧
    g = uncategorizedGroupId

def Blocks (result : BackendQueryResult) : Prop :=
  result.responseCode = some .resUrlBlockedCustom ∨
    result.responseCode = some .resCategoryBlockedCustom

/-- What a response to the child needs of a result. -/
structure Complete (conn : DBConnection) (child : Child) (categorizations : List Categorization)
    (result : BackendQueryResult) : Prop where
  profile : Blocks result → ∃ name names,
    conn.getProfile child.defaultProfileId = .ok (name :: names) ∧
      result.profileInfo = some (child.defaultProfileId, name)
  group : Blocks result → result.categoryGroupInfo.isSome
  /-- A block by category reports a group of the site that the profile blocks. -/
  blockedGroup : result.responseCode = some .resCategoryBlockedCustom → ∃ g name groups,
    result.categoryGroupInfo = some (g, name) ∧
      conn.getProfileCategoriesGroupsList child.defaultProfileId = .ok groups ∧
      Decisions.markOf groups g = some .blocked ∧ GroupOfSite conn categorizations g

section Complete

variable {env : TimeEnv} {conn : DBConnection} {child : Child}
  {categorizations : List Categorization}

/-- A result that blocks nothing is complete. -/
theorem Complete.of_not_blocks {result : BackendQueryResult} (h : ¬ Blocks result) :
    Complete conn child categorizations result :=
  ⟨fun hb => absurd hb h, fun hb => absurd hb h, fun hb => absurd (.inr hb) h⟩

theorem groupOfSite_of_mem (hrows : AnswersAskedIds conn) {ids : List CategoryGroupId}
    (hids : getCategoryGroupIds conn categorizations = .ok ids) {g : CategoryGroupId}
    (hg : g ∈ matchingGroups ids) : GroupOfSite conn categorizations g := by
  unfold getCategoryGroupIds at hids
  split at hids
  · cases hids
  · next categories hcategories =>
    cases hids
    cases categories with
    | nil => exact .inr ⟨hcategories, by simpa [matchingGroups] using hg⟩
    | cons category categories =>
      unfold Category.list at hcategories
      split at hcategories
      · cases hcategories
      · split at hcategories
        · cases hcategories
        · next rows hquery =>
          obtain ⟨category', hmem, rfl⟩ := List.mem_map.mp hg
          rw [← Except.ok.inj hcategories] at hmem
          obtain ⟨row, hrow, rfl⟩ := List.mem_map.mp hmem
          obtain ⟨c, hc, hext⟩ := List.mem_map.mp (hrows _ _ hquery row hrow)
          exact .inl ⟨c, hc, rows, hquery, row, hrow, hext.symm, rfl⟩

/-- The reported group of a blocked site is a blocked group of the site. -/
theorem categoryInfo_blocked {forCategoryGroups : Decisions CategoryGroupId} {info : CategoryInfo}
    (h : categoryInfo conn forCategoryGroups categorizations = some info)
    (hblocked : info.blocked = true) :
    ∃ ids, getCategoryGroupIds conn categorizations = .ok ids ∧
      info.group.1 ∈ matchingGroups ids ∧
      forCategoryGroups.getElementDecisionIfExists info.group.1 = some .blocked := by
  unfold categoryInfo at h
  split at h
  · cases h
  · next ids hids =>
    split at h
    · cases h
    · next group hgroup =>
      cases h
      obtain ⟨g, hg⟩ := Option.isSome_iff_exists.mp hblocked
      have hselected : selectedGroup forCategoryGroups ids = g := by
        rw [selectedGroup, hg, Option.getD_some]
      have hreported : group.groupId = g := by
        obtain ⟨name, -, rfl⟩ := CategoryGroup.create_eq_ok.mp hgroup
        exact hselected
      have hmark : forCategoryGroups.getElementDecisionIfExists g = some .blocked := by
        simpa using List.find?_some hg
      refine ⟨ids, hids, ?_⟩
      simp only [hreported]
      exact ⟨List.mem_of_find?_eq_some hg, hmark⟩

theorem resultOf_complete (hrows : AnswersAskedIds conn) (requestUrl : Bytes) (access : Bool) :
    Complete conn child categorizations
      (resultOf env conn child categorizations requestUrl access) := by
  cases access with
  | false => exact .of_not_blocks (by simp [Blocks, resultOf])
  | true =>
    cases hprofile : Profile.create conn child.defaultProfileId with
    | error e => exact .of_not_blocks (by simp [Blocks, resultOf, hprofile])
    | ok profile =>
      cases hinfo : categoryInfo conn (EffectiveDecisions.ofProfile profile).forCategoryGroups
          categorizations with
      | none => exact .of_not_blocks (by simp [Blocks, resultOf, hprofile, hinfo, profileCode])
      | some info =>
        obtain ⟨name, names, urls, groups, hname, -, hgroups, rfl⟩ :=
          Profile.create_eq_ok.mp hprofile
        constructor
        case profile => exact fun _ => ⟨name, names, hname, by simp [resultOf, hprofile]⟩
        case group => exact fun _ => by simp [resultOf, hprofile, hinfo]
        case blockedGroup =>
          intro hcode
          simp only [resultOf, if_true, hprofile, hinfo, profileCode, Option.some.injEq] at hcode
          have hblocked : info.blocked = true := by
            obtain h | h | ⟨-, h⟩ := codeByRules_cases
              (EffectiveDecisions.ofProfile ⟨_, name, .ofRows urls, .ofRows groups⟩).forUrls
              info.blocked requestUrl
            · cases hcode.symm.trans h
            · cases hcode.symm.trans h
            · exact h
          obtain ⟨ids, hids, hmem, hmark⟩ := categoryInfo_blocked hinfo hblocked
          refine ⟨info.group.1, info.group.2, groups, by simp [resultOf, hprofile, hinfo], hgroups,
            ?_, groupOfSite_of_mem hrows hids hmem⟩
          rw [EffectiveDecisions.ofProfile, get_effective] at hmark
          exact hmark

end Complete

section Worker

variable {env : TimeEnv} {conn : DBConnection} {webroot : Webroot}

/-- The url that the rules are matched with has a slash. -/
theorem slash_mem_normalizeUrl {url normalizedUrl : Bytes}
    (h : normalizeUrl url = some normalizedUrl) : chr '/' ∈ normalizedUrl := by
  obtain ⟨path, hpath⟩ := exists_normalizeUrl url
  cases h.symm.trans hpath
  simp

/-- A result of the lookups that blocks is the complete result of a child that was found. -/
theorem lookUp_complete (hrows : AnswersAskedIds conn) {userId : Uuid}
    {notTooLongUrl normalizedUrl : Bytes} {result : BackendQueryResult}
    (hu : chr '/' ∈ normalizedUrl)
    (h : lookUp env conn webroot userId notTooLongUrl normalizedUrl = some result)
    (hblocks : Blocks result) :
    ∃ child, Child.create conn userId = some (.ok (some child)) ∧
      Complete conn child (categorize webroot child notTooLongUrl) result := by
  obtain ⟨r, hr, h⟩ := Option.bind_eq_some_iff.mp h
  rcases r with e | _ | child
  · cases h; exact absurd hblocks (by simp [Blocks])
  · cases h; exact absurd hblocks (by simp [Blocks])
  · refine ⟨child, hr, ?_⟩
    obtain ⟨access, -, rfl⟩ := Option.map_eq_some_iff.mp ((queryDatabase_eq hu).symm.trans h)
    exact resultOf_complete hrows _ access

/-- With a code, and a profile where it is needed, no empty value is read. -/
theorem createResponse_isSome {result : BackendQueryResult} (hcode : result.responseCode.isSome)
    (hprofile : Blocks result → result.profileInfo.isSome) (categoryGroupQuery : Bool) :
    (createResponse categoryGroupQuery result).isSome := by
  obtain ⟨code, hcode⟩ := Option.isSome_iff_exists.mp hcode
  have hused : (usedProfile code result.profileInfo).isSome := by
    unfold usedProfile
    split
    · next hblock =>
      rw [Option.isSome_map]
      exact hprofile (by simpa [Blocks, hcode] using hblock)
    · rfl
  obtain ⟨profile, hused⟩ := Option.isSome_iff_exists.mp hused
  simp [createResponse, hcode, hused]

/-- Whatever fails, there is a response code, and a result that blocks is complete, so that the
response is built without reading an empty value. -/
theorem responses_complete (hrows : AnswersAskedIds conn) {request : Request}
    {normalizedUrl : Bytes} {result : BackendQueryResult}
    (hurl : normalizeUrl (shortenUrl request.url) = some normalizedUrl)
    (hresult : lookUp env conn webroot request.userId (shortenUrl request.url) normalizedUrl =
      some result) :
    result.responseCode.isSome ∧
      (Blocks result → ∃ child, Child.create conn request.userId = some (.ok (some child)) ∧
        Complete conn child (categorize webroot child (shortenUrl request.url)) result) ∧
      (createResponse (request.userAction = .categoryGroupQuery) result).isSome := by
  have hu := slash_mem_normalizeUrl hurl
  obtain ⟨code, -, hcode⟩ := lookUp_codes hu hresult
  have hset : result.responseCode.isSome := by rw [hcode]; rfl
  have hcomplete := lookUp_complete hrows hu hresult
  refine ⟨hset, hcomplete, createResponse_isSome hset (fun hblocks => ?_) _⟩
  obtain ⟨child, -, hchild⟩ := hcomplete hblocks
  obtain ⟨name, names, -, hprofile⟩ := hchild.profile hblocks
  rw [hprofile]
  rfl

theorem responses_complete_uncategorized :
    ∃ child result,
      lookUp midnightClock smallDatabase ⟨fun _ => [], fun _ => []⟩ (bytes "ola") (bytes "wp.pl/")
        (bytes "wp.pl/") = some result ∧
      result.responseCode = some .resCategoryBlockedCustom ∧
      Complete smallDatabase child [] result := by
  have hcode : (lookUp midnightClock smallDatabase ⟨fun _ => [], fun _ => []⟩ (bytes "ola")
      (bytes "wp.pl/") (bytes "wp.pl/")).map BackendQueryResult.responseCode =
        some (some .resCategoryBlockedCustom) := by decide +kernel
  obtain ⟨result, hresult, hcode⟩ := Option.map_eq_some_iff.mp hcode
  have hrows : AnswersAskedIds smallDatabase := by
    rintro ids rows h row hrow
    cases h
    exact nomatch hrow
  have hshort : shortenUrl (bytes "wp.pl/") = bytes "wp.pl/" := by decide +kernel
  have hcomplete := @responses_complete midnightClock smallDatabase ⟨fun _ => [], fun _ => []⟩
    hrows ⟨bytes "wp.pl/", bytes "ola", .intentionalRequest⟩ (bytes "wp.pl/") result
    (by decide +kernel) (by rw [hshort]; exact hresult)
  obtain ⟨child, -, hchild⟩ := hcomplete.2.1 (.inr hcode)
  exact ⟨child, result, hresult, hcode, by simpa [categorize, filterOutPrivateIPs] using hchild⟩

end Worker

/-! ## 3. Failures only open -/

/-- The second answer is the first one, or a failure. -/
def FailsTo {Value : Type} (result result' : Result Value) : Prop :=
  result' = result ∨ ∃ e, result' = .error e

/-- The same database, of which some lookups fail. -/
structure FailsFrom (conn conn' : DBConnection) : Prop where
  child : ∀ uuid, FailsTo (conn.getChild uuid) (conn'.getChild uuid)
  tmpAccess : ∀ id, FailsTo (conn.checkTmpAccessControl id) (conn'.checkTmpAccessControl id)
  access : ∀ id day time,
    FailsTo (conn.checkAccessControl id day time) (conn'.checkAccessControl id day time)
  profile : ∀ id, FailsTo (conn.getProfile id) (conn'.getProfile id)
  urlList : ∀ id, FailsTo (conn.getProfileUrlList id) (conn'.getProfileUrlList id)
  groupList : ∀ id,
    FailsTo (conn.getProfileCategoriesGroupsList id) (conn'.getProfileCategoriesGroupsList id)
  categoryGroup : ∀ id, FailsTo (conn.getCategoryGroup id) (conn'.getCategoryGroup id)
  categories : ∀ ids, FailsTo (conn.queryCategories ids) (conn'.queryCategories ids)

section FailsTo

variable {conn conn' : DBConnection} {child : Child} {categorizations : List Categorization}

/-- What succeeds with failures succeeds without, with the same value. -/
theorem FailsTo.eq_of_ok {Value : Type} {result result' : Result Value} {value : Value}
    (h : FailsTo result result') (hok : result' = .ok value) : result = .ok value := by
  obtain h | ⟨e, he⟩ := h
  · exact h.symm.trans hok
  · exact nomatch he.symm.trans hok

theorem Profile.create_of_failsFrom (h : FailsFrom conn conn') {profileId : ProfileId}
    {profile : Profile} (hok : Profile.create conn' profileId = .ok profile) :
    Profile.create conn profileId = .ok profile := by
  obtain ⟨name, names, urls, groups, hname, hurls, hgroups, rfl⟩ := Profile.create_eq_ok.mp hok
  exact Profile.create_eq_ok.mpr ⟨name, names, urls, groups, (h.profile _).eq_of_ok hname,
    (h.urlList _).eq_of_ok hurls, (h.groupList _).eq_of_ok hgroups, rfl⟩

theorem getCategoryGroupIds_of_failsFrom (h : FailsFrom conn conn') {ids : List CategoryGroupId}
    (hok : getCategoryGroupIds conn' categorizations = .ok ids) :
    getCategoryGroupIds conn categorizations = .ok ids := by
  obtain hsame | ⟨e, he⟩ := h.categories (categorizations.map fun c => Int32.ofNat c.category)
  · rw [← hok, getCategoryGroupIds, getCategoryGroupIds, Category.list, Category.list, hsame]
  · rw [getCategoryGroupIds, Category.list, he] at hok
    cases categorizations with
    | nil => exact hok
    | cons c cs => exact nomatch hok

theorem CategoryGroup.create_of_failsFrom (h : FailsFrom conn conn') {groupId : CategoryGroupId}
    {group : CategoryGroup} (hok : CategoryGroup.create conn' groupId = .ok group) :
    CategoryGroup.create conn groupId = .ok group := by
  obtain ⟨name, hname, rfl⟩ := CategoryGroup.create_eq_ok.mp hok
  exact CategoryGroup.create_eq_ok.mpr ⟨name, (h.categoryGroup _).eq_of_ok hname, rfl⟩

/-- What is known about the categories with failures is known without. -/
theorem categoryInfo_of_failsFrom (h : FailsFrom conn conn')
    {forCategoryGroups : Decisions CategoryGroupId} {info : CategoryInfo}
    (hinfo : categoryInfo conn' forCategoryGroups categorizations = some info) :
    categoryInfo conn forCategoryGroups categorizations = some info := by
  unfold categoryInfo at hinfo
  split at hinfo
  · cases hinfo
  · next ids hids =>
    split at hinfo
    · cases hinfo
    · next group hgroup =>
      rw [categoryInfo, getCategoryGroupIds_of_failsFrom h hids]
      simp only [CategoryGroup.create_of_failsFrom h hgroup]
      exact hinfo

/-- A failed lookup of the access times counts as access. -/
theorem hasInternetAccess_of_failsFrom (h : FailsFrom conn conn') (env : TimeEnv)
    (childId : ChildId) (childLocalTime : LocalDateTime) :
    hasInternetAccess env conn' childId childLocalTime =
        hasInternetAccess env conn childId childLocalTime ∨
      hasInternetAccess env conn' childId childLocalTime = some true := by
  obtain hsame | ⟨e, he⟩ := h.access childId (dayOfWeekNumber childLocalTime.date)
    (env.toSimpleString childLocalTime.localTimeOfDay)
  · exact .inl (by simp only [hasInternetAccess, hsame])
  · have hsome := hasInternetAccess_isSome env conn' childId childLocalTime
    rw [hasInternetAccess] at hsome ⊢
    simp only [he] at hsome ⊢
    cases hassert : assert (dayOfWeekNumber childLocalTime.date < 7) with
    | none =>
      rw [hassert] at hsome
      cases hsome
    | some _ => exact .inr rfl

theorem hasTemporaryInternetAccess_of_failsFrom (h : FailsFrom conn conn') (childId : ChildId)
    (currentUtcTime : Int) :
    hasTemporaryInternetAccess conn' childId currentUtcTime =
        hasTemporaryInternetAccess conn childId currentUtcTime ∨
      hasTemporaryInternetAccess conn' childId currentUtcTime = some true := by
  unfold hasTemporaryInternetAccess
  obtain hsame | ⟨e, he⟩ := h.tmpAccess childId
  · exact .inl (by rw [hsame])
  · exact .inr (by rw [he])

theorem accessOf_of_failsFrom {env : TimeEnv} (h : FailsFrom conn conn')
    (haccess : accessOf env conn child = some true) : accessOf env conn' child = some true := by
  unfold accessOf hasAccessNow at haccess ⊢
  simp only [Option.bind_eq_bind] at haccess ⊢
  obtain hsame | hopen := hasInternetAccess_of_failsFrom h env child.childId
    (env.convertToTimezoneTime env.getCurrentUtcTime child.timezone)
  · obtain ⟨access, hknown, hrest⟩ := Option.bind_eq_some_iff.mp haccess
    rw [hsame, hknown, Option.bind_some]
    split
    · rfl
    · next hno =>
      rw [if_neg hno] at hrest
      obtain htmp | htmp := hasTemporaryInternetAccess_of_failsFrom h child.childId
        env.getCurrentUtcTime
      · exact htmp.trans hrest
      · exact htmp
  · rw [hopen]
    rfl

/-- A failed lookup of the child counts as a child that may use the internet. -/
theorem Child.create_of_failsFrom (h : FailsFrom conn conn') (uuid : Uuid) :
    Child.create conn' uuid = Child.create conn uuid ∨
      ∃ e, Child.create conn' uuid = some (.error e) := by
  unfold Child.create
  obtain hsame | ⟨e, he⟩ := h.child uuid
  · exact .inl (by rw [hsame])
  · exact .inr ⟨e, by rw [he]⟩

theorem queryDatabase_failures_open {env : TimeEnv} {requestUrl : Bytes}
    (hu : chr '/' ∈ requestUrl) (h : FailsFrom conn conn') {result : BackendQueryResult}
    (hresult : queryDatabase env conn child categorizations requestUrl = some result)
    (hok : result.responseCode = some .resOk) :
    ∃ result', queryDatabase env conn' child categorizations requestUrl = some result' ∧
      result'.responseCode = some .resOk := by
  rw [queryDatabase_eq hu, Option.map_eq_some_iff] at hresult
  obtain ⟨access, haccess, rfl⟩ := hresult
  cases access with
  | false => exact nomatch hok
  | true =>
    refine ⟨_, by rw [queryDatabase_eq hu, accessOf_of_failsFrom h haccess, Option.map_some], ?_⟩
    cases hprofile : Profile.create conn' child.defaultProfileId with
    | error e => simp [resultOf, hprofile]
    | ok profile =>
      have hprofile₀ := Profile.create_of_failsFrom h hprofile
      simp only [resultOf, if_true, hprofile₀, hprofile] at hok ⊢
      cases hinfo : categoryInfo conn' (EffectiveDecisions.ofProfile profile).forCategoryGroups
          categorizations with
      | none => rfl
      | some info =>
        rw [categoryInfo_of_failsFrom h hinfo] at hok
        exact hok

theorem lookUp_failures_open {env : TimeEnv} {webroot : Webroot} {userId : Uuid}
    {notTooLongUrl normalizedUrl : Bytes} (hu : chr '/' ∈ normalizedUrl)
    (h : FailsFrom conn conn') {result : BackendQueryResult}
    (hresult : lookUp env conn webroot userId notTooLongUrl normalizedUrl = some result)
    (hok : result.responseCode = some .resOk) :
    ∃ result', lookUp env conn' webroot userId notTooLongUrl normalizedUrl = some result' ∧
      result'.responseCode = some .resOk := by
  unfold lookUp at hresult ⊢
  simp only [Option.bind_eq_bind] at hresult ⊢
  obtain hsame | ⟨e, he⟩ := Child.create_of_failsFrom h userId
  · obtain ⟨r, hr, hresult⟩ := Option.bind_eq_some_iff.mp hresult
    rw [hsame, hr, Option.bind_some]
    rcases r with e | _ | child
    · exact ⟨result, hresult, hok⟩
    · exact ⟨result, hresult, hok⟩
    · exact queryDatabase_failures_open hu h hresult hok
  · rw [he]
    exact ⟨_, rfl, rfl⟩

end FailsTo

/-- The code of a response is the one of the result. -/
theorem createResponse_result {categoryGroupQuery : Bool} {result : BackendQueryResult}
    {response : Response} (h : createResponse categoryGroupQuery result = some response) :
    result.responseCode = some response.result := by
  obtain ⟨code, hcode, h⟩ := Option.bind_eq_some_iff.mp h
  obtain ⟨used, -, h⟩ := Option.bind_eq_some_iff.mp h
  cases h
  exact hcode

/-- A request that is let in is let in as well when any of the lookups fail. -/
theorem failures_open {env : TimeEnv} {conn conn' : DBConnection} {webroot : Webroot}
    {request : Request} {round : Round} (h : FailsFrom conn conn')
    (hround : handleRequest env conn webroot request = some round)
    (hok : round.response.result = .resOk) :
    ∃ round', handleRequest env conn' webroot request = some round' ∧
      round'.response.result = .resOk := by
  obtain ⟨normalizedUrl, result, response, hurl, hresult, hresponse, rfl⟩ :=
    handleRequest_eq_some.mp hround
  have hcode : result.responseCode = some .resOk := by
    rw [createResponse_result hresponse, hok]
  obtain ⟨result', hresult', hcode'⟩ :=
    lookUp_failures_open (slash_mem_normalizeUrl hurl) h hresult hcode
  have hnot : ¬ Blocks result' := by simp [Blocks, hcode']
  obtain ⟨response', hresponse'⟩ := Option.isSome_iff_exists.mp (createResponse_isSome
    (by rw [hcode']; rfl) (fun hb => absurd hb hnot) (request.userAction = .categoryGroupQuery))
  refine ⟨_, handleRequest_eq_some.mpr ⟨normalizedUrl, result', response', hurl, hresult',
    hresponse', rfl⟩, ?_⟩
  exact Option.some.inj ((createResponse_result hresponse').symm.trans hcode')

/-- The small database, with an allowed host, while the lookup of the groups fails. -/
theorem failures_open_small :
    ∃ round, handleRequest midnightClock
      { smallDatabase with
        getProfileUrlList := fun _ => .ok [(bytes "onet.pl", false)]
        getProfileCategoriesGroupsList := fun _ => .error (-1) }
      ⟨fun _ => [], fun _ => []⟩ ⟨bytes "onet.pl/", bytes "ola", .intentionalRequest⟩ =
        some round ∧ round.response.result = .resOk := by
  have hcode : (handleRequest midnightClock
      { smallDatabase with getProfileUrlList := fun _ => .ok [(bytes "onet.pl", false)] }
      ⟨fun _ => [], fun _ => []⟩ ⟨bytes "onet.pl/", bytes "ola", .intentionalRequest⟩).map
        (fun round => round.response.result) = some .resOk := by decide +kernel
  obtain ⟨round, hround, hcode⟩ := Option.map_eq_some_iff.mp hcode
  refine failures_open ⟨?_, ?_, ?_, ?_, ?_, ?_, ?_, ?_⟩ hround hcode
  case refine_6 => exact fun _ => .inr ⟨-1, rfl⟩
  all_goals intros; exact .inl rfl

end SafeKiddo
