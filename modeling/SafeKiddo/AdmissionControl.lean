import SafeKiddo.Lib.ByteString
import SafeKiddo.Lib.Machine

/-!
# Admission control of httpd

`AdmissionControlContainer` of `admissionControlContainer.cpp`: the attempts that are counted for
each client address, and the limits that they are compared with. A call of `getAccess` and a call of
`addInvalidCredentialsPenalty` is one critical section each.

Results:
1. `compare_eq`: `operator<` is the lexicographic order of the words; `compare_eq_iff_equal`: the
   maps take two addresses for one when `operator==` does.
2. `getAccess_eq`: what a call answers and counts; `attempts_getAccess` and `attempts_addPenalty`
   say that no other address is touched.
3. `limited_of_steps`: as long as no counter wraps around, the limits hold.
-/

namespace SafeKiddo

/-! ## 1. Addresses -/

/-- `in6_addr`. -/
structure In6Addr where
  s6_addr32 : Vector UInt32 4
  deriving DecidableEq

namespace In6Addr

/-- The loop of `operator<`. -/
def lessLoop : List UInt32 → List UInt32 → Bool
  | l :: ls, r :: rs => if l < r then true else if l > r then false else lessLoop ls rs
  | _, _ => false

/-- `operator<`. -/
def less (l r : In6Addr) : Bool := lessLoop l.s6_addr32.toList r.s6_addr32.toList

/-- `std::map` takes two keys for equivalent when neither is less. -/
instance instOrd : Ord In6Addr where
  compare l r := if less l r then .lt else if less r l then .gt else .eq

theorem lessLoop_eq (ls rs : List UInt32) (h : ls.length = rs.length) :
    (if lessLoop ls rs then Ordering.lt else if lessLoop rs ls then .gt else .eq) =
      compare ls rs := by
  induction ls generalizing rs with
  | nil =>
    cases rs with
    | nil => rfl
    | cons r rs => cases h
  | cons l ls ih =>
    cases rs with
    | nil => cases h
    | cons r rs =>
      rw [List.compare_cons_cons, ← ih rs (Nat.succ.inj h)]
      simp only [lessLoop]
      cases hc : compare l r with
      | lt =>
        have hlt : l < r := Std.compare_eq_lt.mp hc
        simp [hlt]
      | gt =>
        have hlt : r < l := Std.compare_eq_gt.mp hc
        simp [hlt, UInt32.le_of_lt hlt]
      | eq =>
        cases Std.compare_eq_iff_eq.mp hc
        simp

theorem compare_eq (l r : In6Addr) : compare l r = compare l.s6_addr32 r.s6_addr32 := by
  rw [Vector.compare_eq_compare_toList, ← lessLoop_eq _ _ (by simp)]
  rfl

/-- The loop of `operator==`. -/
def equalLoop : List UInt32 → List UInt32 → Bool
  | l :: ls, r :: rs => if l ≠ r then false else equalLoop ls rs
  | _, _ => true

/-- `operator==`. -/
def equal (l r : In6Addr) : Bool := equalLoop l.s6_addr32.toList r.s6_addr32.toList

theorem equalLoop_iff {ls rs : List UInt32} (h : ls.length = rs.length) :
    equalLoop ls rs = true ↔ ls = rs := by
  induction ls generalizing rs with
  | nil =>
    cases rs with
    | nil => exact iff_of_true rfl rfl
    | cons r rs => cases h
  | cons l ls ih =>
    cases rs with
    | nil => cases h
    | cons r rs =>
      rw [equalLoop, List.cons.injEq]
      rcases eq_or_ne l r with rfl | hne
      · rw [if_neg (not_not_intro rfl), ih (Nat.succ.inj h), eq_self_iff_true, true_and]
      · rw [if_pos hne]
        exact iff_of_false Bool.false_ne_true fun h => hne h.1

theorem equal_iff {l r : In6Addr} : equal l r = true ↔ l = r := by
  rw [equal, equalLoop_iff (by simp), Vector.toList_inj]
  exact ⟨fun h => by cases l; cases r; exact congrArg _ h, congrArg _⟩

/-- The order of the maps is consistent with the equality. -/
theorem compare_eq_iff_equal {l r : In6Addr} : compare l r = .eq ↔ equal l r = true := by
  rw [compare_eq, Std.compare_eq_iff_eq, equal, equalLoop_iff (by simp), Vector.toList_inj]

instance instTransOrd : Std.TransOrd In6Addr where
  eq_swap {a b} := by
    rw [compare_eq, compare_eq]
    exact Std.OrientedCmp.eq_swap
  isLE_trans {a b c} hab hbc := by
    rw [compare_eq] at hab hbc ⊢
    exact Std.TransCmp.isLE_trans hab hbc

instance instLawfulEqOrd : Std.LawfulEqOrd In6Addr where
  compare_self {a} := by
    rw [compare_eq]
    exact Std.ReflCmp.compare_self
  eq_of_compare h := equal_iff.mp (compare_eq_iff_equal.mp h)

end In6Addr

/-! ## 2. The code -/

structure CustomSettings where
  connectionLimitAbsolute : UInt32
  connectionLimitSlowDown : UInt32

/-- The period, the file name and the thread that clears the map are left out. -/
structure AdmissionControlContainer where
  ipMap : Std.TreeMap In6Addr UInt32
  customSettingsMap : Std.TreeMap In6Addr CustomSettings
  connectionLimitAbsolute : UInt32
  connectionLimitSlowDown : UInt32
  invalidCredentialsPenalty : UInt32
  slowDownDuration : UInt32

namespace AdmissionControlContainer

def getSettingsForIp (self : AdmissionControlContainer) (ip : In6Addr) : CustomSettings :=
  match self.customSettingsMap[ip]? with
  | none => ⟨self.connectionLimitAbsolute, self.connectionLimitSlowDown⟩
  | some customSettings => customSettings

/-- The counter of the address, and the map in which it is. -/
def findOrCreate (self : AdmissionControlContainer) (ip : In6Addr) :
    UInt32 × Std.TreeMap In6Addr UInt32 :=
  let ipMap := self.ipMap.insertIfNew ip 0
  (ipMap.getD ip 0, ipMap)

/-- What `getAccess` returns, and the attempts that it reports. -/
structure Access where
  value : Int32
  attempts : UInt32

def getAccess (self : AdmissionControlContainer) (ip : In6Addr) :
    Access × AdmissionControlContainer :=
  let customSettings := self.getSettingsForIp ip
  let (second, ipMap) := self.findOrCreate ip
  let attempts := second + 1
  let self := { self with ipMap := ipMap.insert ip attempts }
  if attempts > customSettings.connectionLimitAbsolute then (⟨-1, attempts⟩, self)
  else if attempts > customSettings.connectionLimitSlowDown then
    (⟨self.slowDownDuration.toInt32, attempts⟩, self)
  else (⟨0, attempts⟩, self)

def addInvalidCredentialsPenalty (self : AdmissionControlContainer) (ip : In6Addr) :
    AdmissionControlContainer :=
  let (second, ipMap) := self.findOrCreate ip
  { self with ipMap := ipMap.insert ip (second + self.invalidCredentialsPenalty) }

end AdmissionControlContainer

/-! ## 3. What a call answers and counts -/

namespace AdmissionControlContainer

variable (self : AdmissionControlContainer) (ip ip' : In6Addr)

/-- The attempts that are counted for the address. -/
def attempts : UInt32 := self.ipMap.getD ip 0

/-- What settings answer to a number of attempts. -/
def answer (customSettings : CustomSettings) (slowDownDuration attempts : UInt32) : Int32 :=
  if attempts > customSettings.connectionLimitAbsolute then -1
  else if attempts > customSettings.connectionLimitSlowDown then slowDownDuration.toInt32
  else 0

theorem findOrCreate_fst : (self.findOrCreate ip).1 = self.attempts ip := by
  simp only [findOrCreate, attempts, Std.TreeMap.getD_insertIfNew, Std.compare_self, true_and]
  split
  · next h => exact (Std.TreeMap.getD_eq_fallback h).symm
  · rfl

theorem getD_insert_findOrCreate (v : UInt32) :
    ((self.findOrCreate ip).2.insert ip v).getD ip' 0 =
      if ip = ip' then v else self.attempts ip' := by
  rw [findOrCreate, attempts, Std.TreeMap.getD_insert, Std.TreeMap.getD_insertIfNew]
  simp only [Std.compare_eq_iff_eq]
  split
  · rfl
  · next hne => simp [hne]

theorem getAccess_eq : self.getAccess ip =
    (⟨answer (self.getSettingsForIp ip) self.slowDownDuration (self.attempts ip + 1),
      self.attempts ip + 1⟩,
      { self with ipMap := (self.findOrCreate ip).2.insert ip (self.attempts ip + 1) }) := by
  rw [← findOrCreate_fst]
  simp only [getAccess, answer]
  split_ifs <;> rfl

@[simp] theorem attempts_getAccess : (self.getAccess ip).2.attempts ip' =
    if ip = ip' then self.attempts ip + 1 else self.attempts ip' := by
  rw [getAccess_eq]
  exact getD_insert_findOrCreate self ip ip' _

@[simp] theorem attempts_addPenalty : (self.addInvalidCredentialsPenalty ip).attempts ip' =
    if ip = ip' then self.attempts ip + self.invalidCredentialsPenalty
    else self.attempts ip' := by
  rw [← self.findOrCreate_fst ip]
  exact getD_insert_findOrCreate self ip ip' _

/-- Only the counters change. -/
structure SameConfig (c c' : AdmissionControlContainer) : Prop where
  settings : ∀ ip, c'.getSettingsForIp ip = c.getSettingsForIp ip
  penalty : c'.invalidCredentialsPenalty = c.invalidCredentialsPenalty
  slowDown : c'.slowDownDuration = c.slowDownDuration

theorem SameConfig.trans {c c' c'' : AdmissionControlContainer} (h : SameConfig c c')
    (h' : SameConfig c' c'') : SameConfig c c'' :=
  ⟨fun ip => (h'.settings ip).trans (h.settings ip), h'.penalty.trans h.penalty,
    h'.slowDown.trans h.slowDown⟩

theorem sameConfig_getAccess : SameConfig self (self.getAccess ip).2 := by
  rw [getAccess_eq]
  exact ⟨fun _ => rfl, rfl, rfl⟩

theorem sameConfig_addPenalty : SameConfig self (self.addInvalidCredentialsPenalty ip) :=
  ⟨fun _ => rfl, rfl, rfl⟩

/-- A wait is below `2 ^ 31` milliseconds, so it is not taken for a refusal. -/
theorem answer_eq_neg_one {customSettings : CustomSettings} {slowDownDuration attempts : UInt32}
    (hslow : slowDownDuration.toNat < 2 ^ 31) :
    answer customSettings slowDownDuration attempts = -1 ↔
      customSettings.connectionLimitAbsolute < attempts := by
  unfold answer
  split
  · next h => exact iff_of_true rfl h
  · next h =>
    refine iff_of_false ?_ h
    split
    · intro heq
      have hall : slowDownDuration = 4294967295 := by
        rw [← UInt32.toUInt32_toInt32 slowDownDuration, heq]
        rfl
      rw [hall] at hslow
      exact absurd hslow (by decide)
    · decide

end AdmissionControlContainer

/-! ## 4. Histories of calls -/

namespace AdmissionControl

/-- The container, and what `getAccess` has returned to which address, in order. -/
structure State where
  container : AdmissionControlContainer
  replies : List (In6Addr × Int32)

inductive Call
  | getAccess (ip : In6Addr)
  | addInvalidCredentialsPenalty (ip : In6Addr)

def step (s : State) : Call → Option State
  | .getAccess ip =>
    let (access, container) := s.container.getAccess ip
    some ⟨container, s.replies ++ [(ip, access.value)]⟩
  | .addInvalidCredentialsPenalty ip =>
    some { s with container := s.container.addInvalidCredentialsPenalty ip }

/-- The calls of all threads, from a container on. -/
def machine (container : AdmissionControlContainer) : Machine State Call :=
  ⟨⟨container, []⟩, step⟩

def repliesTo (ip : In6Addr) (replies : List (In6Addr × Int32)) : List Int32 :=
  (replies.filter (·.1 = ip)).map (·.2)

/-- At most `limit` calls were admitted, and after a refusal none was. -/
structure Limited (limit : UInt32) (replies : List Int32) : Prop where
  admitted : replies.countP (· ≠ -1) ≤ limit.toNat
  stays : replies.Pairwise fun a b => a = -1 → b = -1

/-- The call does not make the counter of the address wrap around. -/
def NoWrap (ip : In6Addr) (s : State) : Call → Prop
  | .getAccess ip' => ip' = ip → (s.container.attempts ip).toNat + 1 < 2 ^ 32
  | .addInvalidCredentialsPenalty ip' => ip' = ip →
    (s.container.attempts ip).toNat + s.container.invalidCredentialsPenalty.toNat < 2 ^ 32

/-- The absolute limit of the address. -/
def limitOf (container : AdmissionControlContainer) (ip : In6Addr) : UInt32 :=
  (container.getSettingsForIp ip).connectionLimitAbsolute

/-- The counter covers the admitted calls, and it has passed the limit when one was refused. -/
structure LimitInv (container : AdmissionControlContainer) (ip : In6Addr) (s : State) : Prop where
  config : container.SameConfig s.container
  limited : Limited (limitOf container ip) (repliesTo ip s.replies)
  counted : (repliesTo ip s.replies).countP (· ≠ -1) ≤ (s.container.attempts ip).toNat
  refused : -1 ∈ repliesTo ip s.replies → limitOf container ip < s.container.attempts ip

section Steps

variable {container : AdmissionControlContainer} {ip ip' : In6Addr} {s : State}

theorem limitInv_new : LimitInv container ip ⟨container, []⟩ :=
  ⟨⟨fun _ => rfl, rfl, rfl⟩, ⟨Nat.zero_le _, List.Pairwise.nil⟩, Nat.zero_le _, nofun⟩

theorem repliesTo_append (value : Int32) :
    repliesTo ip (s.replies ++ [(ip', value)]) =
      repliesTo ip s.replies ++ if ip' = ip then [value] else [] := by
  rw [repliesTo, repliesTo, List.filter_append, List.map_append]
  split
  · next h => simp [h]
  · next h => simp [h]

/-- Adding without wrapping does not take the counter back below a limit. -/
theorem lt_add_of_noWrap {limit attempts increment : UInt32} (h : limit < attempts)
    (hsum : attempts.toNat + increment.toNat < 2 ^ 32) : limit < attempts + increment := by
  rw [UInt32.lt_iff_toNat_lt] at h ⊢
  rw [UInt32.toNat_add, Nat.mod_eq_of_lt hsum]
  exact h.trans_le (Nat.le_add_right _ _)

theorem getAccess_limitInv (hslow : container.slowDownDuration.toNat < 2 ^ 31)
    (h : LimitInv container ip s) (hwrap : (s.container.attempts ip).toNat + 1 < 2 ^ 32) :
    LimitInv container ip
      ⟨(s.container.getAccess ip).2, s.replies ++ [(ip, (s.container.getAccess ip).1.value)]⟩ := by
  obtain ⟨hconfig, ⟨hadmitted, hstays⟩, hcounted, hrefused⟩ := h
  have hnext : (s.container.attempts ip + 1).toNat = (s.container.attempts ip).toNat + 1 := by
    rw [UInt32.toNat_add]
    exact Nat.mod_eq_of_lt hwrap
  have hvalue : (s.container.getAccess ip).1.value = -1 ↔
      limitOf container ip < s.container.attempts ip + 1 := by
    rw [AdmissionControlContainer.getAccess_eq, hconfig.settings, hconfig.slowDown]
    exact AdmissionControlContainer.answer_eq_neg_one hslow
  have hconfig' : container.SameConfig (s.container.getAccess ip).2 :=
    hconfig.trans (s.container.sameConfig_getAccess ip)
  have hattempts : (s.container.getAccess ip).2.attempts ip = s.container.attempts ip + 1 := by
    simp
  have hreplies := @repliesTo_append ip ip s (s.container.getAccess ip).1.value
  rw [if_pos rfl] at hreplies
  have hlater : limitOf container ip < s.container.attempts ip →
      limitOf container ip < s.container.attempts ip + 1 :=
    fun hlt => lt_add_of_noWrap hlt hwrap
  rcases Decidable.em (limitOf container ip < s.container.attempts ip + 1) with hover | hwithin
  · have hminus := hvalue.mpr hover
    rw [hminus] at hreplies ⊢
    refine ⟨hconfig', ⟨?_, ?_⟩, ?_, fun _ => hattempts ▸ hover⟩
    · rw [hreplies, List.countP_append]
      simpa using hadmitted
    · rw [hreplies, List.pairwise_append]
      exact ⟨hstays, List.pairwise_singleton _ _, by simp⟩
    · rw [hreplies, List.countP_append, hattempts, hnext]
      exact (by simpa using hcounted : _ ≤ _).trans (Nat.le_succ _)
  · have hvalue' : (s.container.getAccess ip).1.value ≠ -1 := fun h => hwithin (hvalue.mp h)
    have hnone : -1 ∉ repliesTo ip s.replies := fun hmem => hwithin (hlater (hrefused hmem))
    have hcount : (repliesTo ip s.replies ++ [(s.container.getAccess ip).1.value]).countP
        (· ≠ -1) ≤ (s.container.attempts ip + 1).toNat := by
      rw [List.countP_append, hnext]
      simpa [hvalue'] using hcounted
    refine ⟨hconfig', ⟨?_, ?_⟩, ?_, fun hmem => ?_⟩
    · rw [hreplies]
      exact hcount.trans (UInt32.le_iff_toNat_le.mp (UInt32.not_lt.mp hwithin))
    · rw [hreplies, List.pairwise_append]
      refine ⟨hstays, List.pairwise_singleton _ _, ?_⟩
      intro a ha b _ hminus
      exact absurd (hminus ▸ ha) hnone
    · rw [hreplies, hattempts]
      exact hcount
    · rw [hreplies, List.mem_append, List.mem_singleton] at hmem
      exact absurd hmem (not_or.mpr ⟨hnone, hvalue'.symm⟩)

theorem addPenalty_limitInv (h : LimitInv container ip s)
    (hwrap : (s.container.attempts ip).toNat + s.container.invalidCredentialsPenalty.toNat <
      2 ^ 32) :
    LimitInv container ip { s with container := s.container.addInvalidCredentialsPenalty ip } := by
  obtain ⟨hconfig, hlimited, hcounted, hrefused⟩ := h
  have hattempts : (s.container.addInvalidCredentialsPenalty ip).attempts ip =
      s.container.attempts ip + s.container.invalidCredentialsPenalty := by
    simp
  refine ⟨hconfig.trans (s.container.sameConfig_addPenalty ip), hlimited, ?_, fun hmem => ?_⟩
  · refine hcounted.trans ?_
    rw [hattempts, UInt32.toNat_add, Nat.mod_eq_of_lt hwrap]
    exact Nat.le_add_right _ _
  · rw [hattempts]
    exact lt_add_of_noWrap (hrefused hmem) hwrap

/-- A call for another address. -/
theorem LimitInv.other (h : LimitInv container ip s) {s' : State}
    (hconfig : s.container.SameConfig s'.container)
    (hattempts : s'.container.attempts ip = s.container.attempts ip)
    (hreplies : repliesTo ip s'.replies = repliesTo ip s.replies) : LimitInv container ip s' := by
  obtain ⟨hconfig₀, hlimited, hcounted, hrefused⟩ := h
  refine ⟨hconfig₀.trans hconfig, ?_, ?_, fun hmem => ?_⟩
  · rw [hreplies]
    exact hlimited
  · rw [hreplies, hattempts]
    exact hcounted
  · rw [hattempts]
    exact hrefused (hreplies ▸ hmem)

theorem step_limitInv (hslow : container.slowDownDuration.toNat < 2 ^ 31) (s : State) (call : Call)
    (s' : State) (h : LimitInv container ip s) (hwrap : NoWrap ip s call)
    (hs : step s call = some s') : LimitInv container ip s' := by
  cases call with
  | getAccess ip' =>
    cases hs
    rcases eq_or_ne ip' ip with rfl | hne
    · exact getAccess_limitInv hslow h (hwrap rfl)
    · have hattempts : (s.container.getAccess ip').2.attempts ip = s.container.attempts ip := by
        simp [hne]
      refine h.other (s.container.sameConfig_getAccess ip') hattempts ?_
      rw [repliesTo_append, if_neg hne, List.append_nil]
  | addInvalidCredentialsPenalty ip' =>
    cases hs
    rcases eq_or_ne ip' ip with rfl | hne
    · exact addPenalty_limitInv h (hwrap rfl)
    · exact h.other (s.container.sameConfig_addPenalty ip') (by simp [hne]) rfl

end Steps

/-- In every run whose calls do not make the counter of the address wrap around, the limit of the
address holds in every state. -/
theorem limited_of_steps (container : AdmissionControlContainer)
    (hslow : container.slowDownDuration.toNat < 2 ^ 31) (ip : In6Addr) (calls : List Call)
    (h : (machine container).Steps (NoWrap ip) ⟨container, []⟩ calls) :
    (machine container).Visits
      (fun s => Limited (limitOf container ip) (repliesTo ip s.replies)) ⟨container, []⟩ calls :=
  (Machine.visits_of_steps (step_limitInv hslow) limitInv_new h).imp fun _ => LimitInv.limited

def localhost : In6Addr := ⟨#v[0, 0, 0xffff0000, 0x0100007f]⟩

/-- The limits of a container, for any address. -/
def smallContainer (limit penalty : UInt32) : AdmissionControlContainer :=
  ⟨∅, ∅, limit, limit, penalty, 300⟩

theorem limited_of_steps_small :
    (machine (smallContainer 1 5)).Visits
      (fun s => Limited (limitOf (smallContainer 1 5) localhost) (repliesTo localhost s.replies))
      ⟨smallContainer 1 5, []⟩
      [.getAccess localhost, .addInvalidCredentialsPenalty localhost, .getAccess localhost] := by
  refine limited_of_steps _ (by decide) localhost _ ?_
  intro s' hs'
  cases hs'
  refine ⟨fun _ => by decide +kernel, ?_⟩
  intro s' hs'
  cases hs'
  refine ⟨fun _ => by decide +kernel, ?_⟩
  intro s' hs'
  cases hs'
  exact ⟨fun _ => by decide +kernel, trivial⟩

/-- A penalty of `2 ^ 32 - 1` takes each attempt back. -/
theorem limited_wraps :
    ∃ s, (machine (smallContainer 1 4294967295)).run ⟨smallContainer 1 4294967295, []⟩
        [.getAccess localhost, .addInvalidCredentialsPenalty localhost, .getAccess localhost] =
        some s ∧
      repliesTo localhost s.replies = [0, 0] ∧
      ¬ Limited (limitOf (smallContainer 1 4294967295) localhost)
        (repliesTo localhost s.replies) := by
  refine ⟨_, rfl, by decide +kernel, ?_⟩
  intro h
  have hadmitted := h.admitted
  revert hadmitted
  decide +kernel

end AdmissionControl

end SafeKiddo
