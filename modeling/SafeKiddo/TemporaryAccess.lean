import SafeKiddo.DbClient

/-!
# Temporary internet access

The grants of `tmp_access_control`: a row has a start and a duration, and the loop of
`hasTemporaryInternetAccess` looks for a row that allows the current time. It compares the time with
the end of a grant only.

Results:
1. `anyRowCovers_eq_find`: the first row that does not leave the question open answers it.
2. `rowCovers_eq_true`, `rowCovers_eq_none`: which rows answer.
3. `anyRowCovers_isSome`, `anyRowCovers_eq_some`: when there is an answer, and which.
4. `hasTemporaryInternetAccess_iff`: when the answer is that of the intervals of the rows.
-/

namespace SafeKiddo

open ByteString

/-! ## 1. The loop over the rows -/

/-- What one row does to the loop; a row whose date does not exist stops the process. -/
def rowCovers (currentUtcTime : Int) (row : TmpAccessRow) : Checked Bool := do
  let startDate ← parseDateTime row.startDate
  let duration ← parseTime row.duration
  match startDate, duration with
  | some startDate, some duration => return decide (currentUtcTime ≤ startDate + duration)
  | _, _ => return false

variable {currentUtcTime : Int} {row : TmpAccessRow}

theorem anyRowCovers_cons (row : TmpAccessRow) (rows : List TmpAccessRow) :
    anyRowCovers currentUtcTime (row :: rows) =
      (rowCovers currentUtcTime row).bind fun covers =>
        if covers then some true else anyRowCovers currentUtcTime rows := by
  rw [anyRowCovers, rowCovers]
  rcases parseDateTime row.startDate with _ | startDate
  · rfl
  rcases parseTime row.duration with _ | duration
  · rfl
  rcases startDate with _ | startDate
  · rfl
  rcases duration with _ | duration
  · rfl
  rcases Decidable.em (currentUtcTime ≤ startDate + duration) with hcovers | hpast
  · simp [hcovers]
  · simp [hpast]

/-- The first row that allows the time or stops the process decides. -/
theorem anyRowCovers_eq_find (rows : List TmpAccessRow) :
    anyRowCovers currentUtcTime rows =
      match rows.find? fun row => rowCovers currentUtcTime row ≠ some false with
      | none => some false
      | some row => rowCovers currentUtcTime row := by
  induction rows with
  | nil => rfl
  | cons row rows ih =>
    rw [anyRowCovers_cons]
    rcases hrow : rowCovers currentUtcTime row with _ | _ | _
    · rw [List.find?_cons_of_pos (by simp [hrow])]
      exact hrow.symm
    · rw [List.find?_cons_of_neg (by simp [hrow])]
      exact ih
    · rw [List.find?_cons_of_pos (by simp [hrow])]
      exact hrow.symm

/-! ## 2. Grants -/

/-- Both texts of the row are read, as this start and this duration. -/
def Reads (row : TmpAccessRow) (startDate duration : Int) : Prop :=
  parseDateTime row.startDate = some (some startDate) ∧
    parseTime row.duration = some (some duration)

/-- The interval of the row contains the time. -/
def Contains (currentUtcTime : Int) (row : TmpAccessRow) : Prop :=
  ∃ startDate duration, Reads row startDate duration ∧ startDate ≤ currentUtcTime ∧
    currentUtcTime ≤ startDate + duration

/-- The interval of the row begins later. -/
def StartsLater (currentUtcTime : Int) (row : TmpAccessRow) : Prop :=
  ∃ startDate duration, Reads row startDate duration ∧ currentUtcTime < startDate

/-- The row has a text that is no value of its column: an empty one, or a date that the calendar
does not have. -/
def StopsProcess (row : TmpAccessRow) : Prop :=
  parseDateTime row.startDate = none ∨ parseTime row.duration = none

theorem duration_nonneg {time : Bytes} {duration : Int}
    (h : parseTime time = some (some duration)) : 0 ≤ duration := by
  obtain ⟨-, -, h⟩ := Option.bind_eq_some_iff.mp h
  split at h
  · cases h
  · cases h
    unfold timeDuration
    positivity

theorem rowCovers_eq_none : rowCovers currentUtcTime row = none ↔ StopsProcess row := by
  unfold rowCovers StopsProcess
  rcases parseDateTime row.startDate with _ | startDate
  · simp
  rcases parseTime row.duration with _ | duration
  · simp
  rcases startDate with _ | startDate
  · simp
  rcases duration with _ | duration
  · simp
  · simp

theorem rowCovers_of_reads {startDate duration : Int} (h : Reads row startDate duration) :
    rowCovers currentUtcTime row = some (decide (currentUtcTime ≤ startDate + duration)) := by
  rw [rowCovers, h.1, h.2]
  rfl

theorem reads_of_rowCovers (h : rowCovers currentUtcTime row = some true) :
    ∃ startDate duration, Reads row startDate duration ∧
      currentUtcTime ≤ startDate + duration := by
  unfold rowCovers at h
  rcases hstart : parseDateTime row.startDate with _ | _ | startDate
  · simp [hstart] at h
  · rcases hduration : parseTime row.duration with _ | duration
    · simp [hstart, hduration] at h
    · simp [hstart, hduration] at h
  · rcases hduration : parseTime row.duration with _ | _ | duration
    · simp [hstart, hduration] at h
    · simp [hstart, hduration] at h
    · simp [hstart, hduration] at h
      exact ⟨startDate, duration, ⟨hstart, hduration⟩, h⟩

/-- A grant that has not ended allows the time, whether it has begun or not. -/
theorem rowCovers_eq_true : rowCovers currentUtcTime row = some true ↔
    Contains currentUtcTime row ∨ StartsLater currentUtcTime row := by
  constructor
  · intro h
    obtain ⟨startDate, duration, hreads, hend⟩ := reads_of_rowCovers h
    rcases le_or_gt startDate currentUtcTime with hle | hlt
    · exact .inl ⟨startDate, duration, hreads, hle, hend⟩
    · exact .inr ⟨startDate, duration, hreads, hlt⟩
  · rintro (⟨startDate, duration, hreads, -, hend⟩ | ⟨startDate, duration, hreads, hlt⟩)
    · rw [rowCovers_of_reads hreads, decide_eq_true hend]
    · have hend : currentUtcTime ≤ startDate + duration :=
        hlt.le.trans (le_add_of_nonneg_right (duration_nonneg hreads.2))
      rw [rowCovers_of_reads hreads, decide_eq_true hend]

/-! ## 3. The answer -/

/-- An answer tells whether some row allows the time. -/
theorem anyRowCovers_eq_some {rows : List TmpAccessRow} {access : Bool}
    (h : anyRowCovers currentUtcTime rows = some access) :
    access = true ↔ ∃ row ∈ rows, Contains currentUtcTime row ∨ StartsLater currentUtcTime row := by
  simp only [← rowCovers_eq_true]
  rw [anyRowCovers_eq_find] at h
  cases hfind : rows.find? fun row => rowCovers currentUtcTime row ≠ some false with
  | none =>
    rw [hfind] at h
    cases h
    refine iff_of_false Bool.false_ne_true ?_
    rintro ⟨row, hrow, htrue⟩
    have hopen : rowCovers currentUtcTime row = some false := by
      simpa using List.find?_eq_none.mp hfind row hrow
    cases hopen.symm.trans htrue
  | some row =>
    rw [hfind] at h
    have hdecides : rowCovers currentUtcTime row ≠ some false := by simpa using List.find?_some hfind
    cases access with
    | false => exact absurd h hdecides
    | true => exact iff_of_true rfl ⟨row, List.mem_of_find?_eq_some hfind, h⟩

/-- There is an answer when each row that stops the process stands behind one that allows the
time. -/
theorem anyRowCovers_isSome {rows : List TmpAccessRow} :
    (anyRowCovers currentUtcTime rows).isSome ↔ ∀ before row after,
      rows = before ++ row :: after → rowCovers currentUtcTime row = none →
        ∃ r ∈ before, rowCovers currentUtcTime r = some true := by
  induction rows with
  | nil => exact iff_of_true rfl (by simp)
  | cons row rows ih =>
    rw [anyRowCovers_cons]
    rcases hrow : rowCovers currentUtcTime row with _ | _ | _
    · refine iff_of_false Bool.false_ne_true fun h => ?_
      obtain ⟨r, hr, -⟩ := h [] row rows rfl hrow
      cases hr
    · -- The row leaves the question open.
      rw [Option.bind_some, if_neg Bool.false_ne_true, ih]
      constructor
      · rintro h (_ | ⟨first, before⟩) row' after hsplit hnone
        · cases hsplit
          cases hrow.symm.trans hnone
        · cases hsplit
          obtain ⟨r, hr, htrue⟩ := h before row' after rfl hnone
          exact ⟨r, List.mem_cons_of_mem _ hr, htrue⟩
      · rintro h before row' after rfl hnone
        obtain ⟨r, hr, htrue⟩ := h (row :: before) row' after rfl hnone
        rcases List.mem_cons.mp hr with rfl | hr
        · cases hrow.symm.trans htrue
        · exact ⟨r, hr, htrue⟩
    · refine iff_of_true rfl ?_
      rintro (_ | ⟨first, before⟩) row' after hsplit hnone
      · cases hsplit
        cases hrow.symm.trans hnone
      · cases hsplit
        exact ⟨row, List.mem_cons_self, hrow⟩

/-- The answer is that of the intervals exactly when a grant that begins later comes with one that
contains the time, and a row that stops the process comes behind one that allows the time. -/
theorem hasTemporaryInternetAccess_iff (conn : DBConnection) (childId : ChildId)
    (currentUtcTime : Int) {rows : List TmpAccessRow}
    (hrows : conn.checkTmpAccessControl childId = .ok rows) :
    (∃ access, hasTemporaryInternetAccess conn childId currentUtcTime = some access ∧
      (access = true ↔ ∃ row ∈ rows, Contains currentUtcTime row)) ↔
    ((∃ row ∈ rows, StartsLater currentUtcTime row) → ∃ row ∈ rows, Contains currentUtcTime row) ∧
      ∀ before row after, rows = before ++ row :: after → StopsProcess row →
        ∃ r ∈ before, Contains currentUtcTime r ∨ StartsLater currentUtcTime r := by
  have hstops : (∀ before row after, rows = before ++ row :: after → StopsProcess row →
      ∃ r ∈ before, Contains currentUtcTime r ∨ StartsLater currentUtcTime r) ↔
      (anyRowCovers currentUtcTime rows).isSome := by
    simp only [anyRowCovers_isSome, rowCovers_eq_none, rowCovers_eq_true]
  rw [hasTemporaryInternetAccess, hrows, hstops]
  constructor
  · rintro ⟨access, hany, hiff⟩
    refine ⟨?_, Option.isSome_iff_exists.mpr ⟨access, hany⟩⟩
    rintro ⟨row, hrow, hlater⟩
    exact hiff.mp ((anyRowCovers_eq_some hany).mpr ⟨row, hrow, .inr hlater⟩)
  · rintro ⟨hlater, hsome⟩
    obtain ⟨access, hany⟩ := Option.isSome_iff_exists.mp hsome
    refine ⟨access, hany, (anyRowCovers_eq_some hany).trans ⟨?_, ?_⟩⟩
    · rintro ⟨row, hrow, hcontains | hstart⟩
      · exact ⟨row, hrow, hcontains⟩
      · exact hlater ⟨row, hrow, hstart⟩
    · rintro ⟨row, hrow, hcontains⟩
      exact ⟨row, hrow, .inl hcontains⟩

/-- A database with these grants and nothing else. -/
def grantsDatabase (rows : List TmpAccessRow) : DBConnection where
  getChild _ := .ok []
  checkTmpAccessControl _ := .ok rows
  checkAccessControl _ _ _ := .ok []
  getProfile _ := .ok []
  getProfileUrlList _ := .ok []
  getProfileCategoriesGroupsList _ := .ok []
  getCategoryGroup _ := .ok []
  queryCategories _ := .ok []

/-- A grant from eight o'clock on, for two hours and twelve minutes. -/
def eveningGrant : TmpAccessRow := ⟨bytes "2014-03-21 20:00:00", bytes "02:12:00"⟩

/-- So many hours into the day of the grant. -/
def hourOfDay (hours : Nat) : Int := 2456738 * ticksPerDay + timeDuration hours 0 0

theorem hasTemporaryInternetAccess_running :
    (∃ access, hasTemporaryInternetAccess (grantsDatabase [eveningGrant]) 37 (hourOfDay 21) =
        some access ∧
      (access = true ↔ ∃ row ∈ [eveningGrant], Contains (hourOfDay 21) row)) ↔
    ((∃ row ∈ [eveningGrant], StartsLater (hourOfDay 21) row) →
        ∃ row ∈ [eveningGrant], Contains (hourOfDay 21) row) ∧
      ∀ before row after, [eveningGrant] = before ++ row :: after → StopsProcess row →
        ∃ r ∈ before, Contains (hourOfDay 21) r ∨ StartsLater (hourOfDay 21) r :=
  hasTemporaryInternetAccess_iff (grantsDatabase [eveningGrant]) 37 (hourOfDay 21) rfl

theorem reads_eveningGrant :
    Reads eveningGrant (2456738 * ticksPerDay + 72000000000) 7920000000 :=
  ⟨by decide +kernel, by decide +kernel⟩

/-- An hour before its start the grant gives access. -/
theorem hasTemporaryInternetAccess_early :
    ¬ ∃ access, hasTemporaryInternetAccess (grantsDatabase [eveningGrant]) 37 (hourOfDay 19) =
        some access ∧
      (access = true ↔ ∃ row ∈ [eveningGrant], Contains (hourOfDay 19) row) := by
  have haccess : hasTemporaryInternetAccess (grantsDatabase [eveningGrant]) 37 (hourOfDay 19) =
      some true := by decide +kernel
  rintro ⟨access, h, hiff⟩
  cases haccess.symm.trans h
  obtain ⟨row, hrow, startDate, duration, hreads, hstart, -⟩ := hiff.mp rfl
  cases List.mem_singleton.mp hrow
  cases reads_eveningGrant.1.symm.trans hreads.1
  exact absurd hstart (by decide +kernel)

end SafeKiddo
