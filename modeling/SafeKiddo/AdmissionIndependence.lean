import SafeKiddo.AdmissionControl

/-!
# Admission of one address beside the others

The clients of httpd share the counters and the settings of `AdmissionControlContainer`. Here a
history is any interleaving of the critical sections of all calls: `getAccess` reads the settings in
one section and counts in another, a reload replaces the settings in one and clears the counters in
another. Calls of `getAccess` have names, so that the two sections of a call belong together.

Results:
1. `step_seen`, `step_unseen`: what an address can see of the container goes on by itself.
2. `getAccess_independent`: histories that agree on an address answer it alike, and its attempts are
   counted from its own calls and penalties.
-/

namespace SafeKiddo

/-! ## 1. Critical sections -/

namespace AdmissionControlContainer

/-- The second section of `getAccess`, with the settings that the first one has read. -/
def countAccess (self : AdmissionControlContainer) (customSettings : CustomSettings)
    (ip : In6Addr) : Access × AdmissionControlContainer :=
  let (second, ipMap) := self.findOrCreate ip
  let attempts := second + 1
  let self := { self with ipMap := ipMap.insert ip attempts }
  if attempts > customSettings.connectionLimitAbsolute then (⟨-1, attempts⟩, self)
  else if attempts > customSettings.connectionLimitSlowDown then
    (⟨self.slowDownDuration.toInt32, attempts⟩, self)
  else (⟨0, attempts⟩, self)

theorem getAccess_eq_countAccess (self : AdmissionControlContainer) (ip : In6Addr) :
    self.getAccess ip = self.countAccess (self.getSettingsForIp ip) ip := rfl

theorem countAccess_eq (self : AdmissionControlContainer) (customSettings : CustomSettings)
    (ip : In6Addr) : self.countAccess customSettings ip =
      (⟨answer customSettings self.slowDownDuration (self.attempts ip + 1), self.attempts ip + 1⟩,
        { self with ipMap := (self.findOrCreate ip).2.insert ip (self.attempts ip + 1) }) := by
  rw [← findOrCreate_fst]
  simp only [countAccess, answer]
  split_ifs <;> rfl

/-- All but the counters. -/
def config (self : AdmissionControlContainer) : AdmissionControlContainer :=
  { self with ipMap := ∅ }

@[simp] theorem attempts_countAccess (self : AdmissionControlContainer)
    (customSettings : CustomSettings) (ip ip' : In6Addr) :
    (self.countAccess customSettings ip).2.attempts ip' =
      if ip = ip' then self.attempts ip + 1 else self.attempts ip' := by
  rw [countAccess_eq]
  exact getD_insert_findOrCreate self ip ip' _

@[simp] theorem config_countAccess (self : AdmissionControlContainer)
    (customSettings : CustomSettings) (ip : In6Addr) :
    (self.countAccess customSettings ip).2.config = self.config := by
  rw [countAccess_eq]
  rfl

@[simp] theorem config_addPenalty (self : AdmissionControlContainer) (ip : In6Addr) :
    (self.addInvalidCredentialsPenalty ip).config = self.config := rfl

@[simp] theorem attempts_config (self : AdmissionControlContainer) (ip : In6Addr) :
    self.config.attempts ip = 0 := Std.TreeMap.getD_emptyc

end AdmissionControlContainer

namespace AdmissionHistory

open AdmissionControlContainer (Access answer)

/-- The container, the settings that each call of `getAccess` under way has read, and what
`getAccess` has returned to which address, in order. -/
structure State (Call : Type) where
  container : AdmissionControlContainer
  settings : Call → Option (In6Addr × CustomSettings)
  replies : List (In6Addr × Access)

inductive Event (Call : Type)
  | getSettings (call : Call) (ip : In6Addr)
  | countAccess (call : Call) (ip : In6Addr)
  | addInvalidCredentialsPenalty (ip : In6Addr)
  | clear
  /-- The settings of the file, or `none` when it cannot be loaded. -/
  | loadCustomSettingsMap (newCustomSettingsMap : Option (Std.TreeMap In6Addr CustomSettings))

section Machine

variable {Call : Type} [DecidableEq Call]

def step (s : State Call) : Event Call → Option (State Call)
  | .getSettings call ip =>
    match s.settings call with
    | none =>
      some { s with
        settings := Function.update s.settings call (some (ip, s.container.getSettingsForIp ip)) }
    | some _ => none
  | .countAccess call ip =>
    match s.settings call with
    | none => none
    | some (asked, customSettings) =>
      if asked = ip then
        let (access, container) := s.container.countAccess customSettings ip
        some ⟨container, Function.update s.settings call none, s.replies ++ [(ip, access)]⟩
      else
        none
  | .addInvalidCredentialsPenalty ip =>
    some { s with container := s.container.addInvalidCredentialsPenalty ip }
  | .clear => some { s with container := { s.container with ipMap := ∅ } }
  | .loadCustomSettingsMap none => some s
  | .loadCustomSettingsMap (some newCustomSettingsMap) =>
    some { s with container := { s.container with customSettingsMap := newCustomSettingsMap } }

/-- The histories of a container that has counted nothing yet. -/
def machine (Call : Type) [DecidableEq Call] (container : AdmissionControlContainer) :
    Machine (State Call) (Event Call) :=
  ⟨⟨container.config, fun _ => none, []⟩, step⟩

/-! ## 2. What an address can see -/

def repliesTo (ip : In6Addr) (replies : List (In6Addr × Access)) : List Access :=
  (replies.filter (·.1 = ip)).map (·.2)

/-- A section concerns the address, or all addresses. -/
def concerns (ip : In6Addr) : Event Call → Bool
  | .getSettings _ ip' => ip' = ip
  | .countAccess _ ip' => ip' = ip
  | .addInvalidCredentialsPenalty ip' => ip' = ip
  | .clear => true
  | .loadCustomSettingsMap _ => true

/-- The counter of one address, the configuration, the settings that were read for the address, and
what it was answered. -/
@[ext]
structure View (Call : Type) where
  attempts : UInt32
  config : AdmissionControlContainer
  settings : Call → Option CustomSettings
  replies : List Access

def settingsFor (ip : In6Addr) (settings : Call → Option (In6Addr × CustomSettings)) (call : Call) :
    Option CustomSettings :=
  (settings call).bind fun read => if read.1 = ip then some read.2 else none

def view (ip : In6Addr) (s : State Call) : View Call :=
  ⟨s.container.attempts ip, s.container.config, settingsFor ip s.settings,
    repliesTo ip s.replies⟩

/-- The admission of one address by itself. -/
def View.step (ip : In6Addr) (v : View Call) : Event Call → View Call
  | .getSettings call _ =>
    { v with settings := Function.update v.settings call (some (v.config.getSettingsForIp ip)) }
  | .countAccess call _ =>
    match v.settings call with
    | none => v
    | some customSettings =>
      ⟨v.attempts + 1, v.config, Function.update v.settings call none, v.replies ++
        [⟨answer customSettings v.config.slowDownDuration (v.attempts + 1), v.attempts + 1⟩]⟩
  | .addInvalidCredentialsPenalty _ =>
    { v with attempts := v.attempts + v.config.invalidCredentialsPenalty }
  | .clear => { v with attempts := 0 }
  | .loadCustomSettingsMap none => v
  | .loadCustomSettingsMap (some newCustomSettingsMap) =>
    { v with config := { v.config with customSettingsMap := newCustomSettingsMap } }

section Steps

variable {ip : In6Addr} {s s' : State Call} {e : Event Call}

theorem settingsFor_update (settings : Call → Option (In6Addr × CustomSettings)) (call : Call)
    (read : Option (In6Addr × CustomSettings)) :
    settingsFor ip (Function.update settings call read) =
      Function.update (settingsFor ip settings) call
        (read.bind fun read => if read.1 = ip then some read.2 else none) := by
  funext call'
  rcases eq_or_ne call' call with rfl | hne
  · simp only [settingsFor, Function.update_self]
  · simp only [settingsFor, Function.update_of_ne hne]

theorem repliesTo_append (ip' : In6Addr) (replies : List (In6Addr × Access)) (access : Access) :
    repliesTo ip (replies ++ [(ip', access)]) =
      repliesTo ip replies ++ if ip' = ip then [access] else [] := by
  rw [repliesTo, repliesTo, List.filter_append, List.map_append]
  split
  · next h => simp [h]
  · next h => simp [h]

/-- A section that concerns the address changes its view as if it were alone. -/
theorem step_seen (he : concerns ip e = true) (hs : step s e = some s') :
    view ip s' = (view ip s).step ip e := by
  cases e with
  | getSettings call ip' =>
    obtain rfl : ip' = ip := of_decide_eq_true he
    simp only [step] at hs
    split at hs
    · cases hs
      refine View.ext rfl rfl ?_ rfl
      exact (settingsFor_update _ _ _).trans (congrArg _ (if_pos rfl))
    · cases hs
  | countAccess call ip' =>
    obtain rfl : ip' = ip := of_decide_eq_true he
    simp only [step] at hs
    split at hs
    · cases hs
    · next asked customSettings hread =>
      split at hs
      · next hasked =>
        cases hs
        have hfor : (view ip' s).settings call = some customSettings := by
          show settingsFor ip' s.settings call = some customSettings
          rw [settingsFor, hread, Option.bind_some, if_pos hasked]
        rw [View.step, hfor]
        refine View.ext ?_ ?_ (settingsFor_update _ _ _) ?_
        · exact (AdmissionControlContainer.attempts_countAccess _ _ _ _).trans (if_pos rfl)
        · exact AdmissionControlContainer.config_countAccess _ _ _
        · refine (repliesTo_append _ _ _).trans ?_
          rw [if_pos rfl, AdmissionControlContainer.countAccess_eq]
          rfl
      · cases hs
  | addInvalidCredentialsPenalty ip' =>
    obtain rfl : ip' = ip := of_decide_eq_true he
    cases hs
    refine View.ext ?_ rfl rfl rfl
    exact (AdmissionControlContainer.attempts_addPenalty _ _ _).trans (if_pos rfl)
  | clear =>
    cases hs
    exact View.ext (s.container.attempts_config ip) rfl rfl rfl
  | loadCustomSettingsMap newCustomSettingsMap =>
    cases newCustomSettingsMap with
    | none =>
      cases hs
      rfl
    | some newCustomSettingsMap =>
      cases hs
      rfl

/-- A section of another address does not change it. -/
theorem step_unseen (he : concerns ip e = false) (hs : step s e = some s') :
    view ip s' = view ip s := by
  cases e with
  | getSettings call ip' =>
    have hne : ip' ≠ ip := of_decide_eq_false he
    simp only [step] at hs
    split at hs
    · next hread =>
      cases hs
      refine View.ext rfl rfl ?_ rfl
      refine (settingsFor_update _ _ _).trans ?_
      have hnone : settingsFor ip s.settings call = none := by rw [settingsFor, hread, Option.bind_none]
      rw [Option.bind_some, if_neg hne, ← hnone, Function.update_eq_self]
      rfl
    · cases hs
  | countAccess call ip' =>
    have hne : ip' ≠ ip := of_decide_eq_false he
    simp only [step] at hs
    split at hs
    · cases hs
    · next asked customSettings hread =>
      split at hs
      · next hasked =>
        cases hs
        refine View.ext ?_ ?_ ?_ ?_
        · exact (AdmissionControlContainer.attempts_countAccess _ _ _ _).trans (if_neg hne)
        · exact AdmissionControlContainer.config_countAccess _ _ _
        · refine (settingsFor_update _ _ _).trans ?_
          have hnone : settingsFor ip s.settings call = none := by
            rw [settingsFor, hread, Option.bind_some, if_neg (hasked ▸ hne)]
          rw [Option.bind_none, ← hnone, Function.update_eq_self]
          rfl
        · refine (repliesTo_append _ _ _).trans ?_
          rw [if_neg hne, List.append_nil]
          rfl
      · cases hs
  | addInvalidCredentialsPenalty ip' =>
    have hne : ip' ≠ ip := of_decide_eq_false he
    cases hs
    refine View.ext ?_ rfl rfl rfl
    exact (AdmissionControlContainer.attempts_addPenalty _ _ _).trans (if_neg hne)
  | clear => cases he
  | loadCustomSettingsMap newCustomSettingsMap => cases he

end Steps

/-! ## 3. Histories -/

section Histories

variable {container : AdmissionControlContainer} {ip : In6Addr} {ls : List (Event Call)}
  {s s' : State Call}

/-- The sections since the last clear, the latest one first. -/
def sinceClear (ls : List (Event Call)) : List (Event Call) :=
  ls.reverse.takeWhile fun e => match e with
    | .clear => false
    | _ => true

def isAccess (ip : In6Addr) : Event Call → Bool
  | .countAccess _ ip' => ip' = ip
  | _ => false

def isPenalty (ip : In6Addr) : Event Call → Bool
  | .addInvalidCredentialsPenalty ip' => ip' = ip
  | _ => false

/-- What the calls and the penalties of the address since the last clear add up to. -/
def owed (container : AdmissionControlContainer) (ip : In6Addr) (ls : List (Event Call)) : Nat :=
  (sinceClear ls).countP (isAccess ip) +
    container.invalidCredentialsPenalty.toNat * (sinceClear ls).countP (isPenalty ip)

/-- The counter of the address holds what is owed, as far as it can count. -/
structure Counted (container : AdmissionControlContainer) (ip : In6Addr) (ls : List (Event Call))
    (s : State Call) : Prop where
  attempts : s.container.attempts ip = UInt32.ofNat (owed container ip ls)
  penalty : s.container.invalidCredentialsPenalty = container.invalidCredentialsPenalty

omit [DecidableEq Call] in
theorem sinceClear_append_clear : sinceClear (ls ++ [.clear]) = [] := by
  rw [sinceClear, List.reverse_append]
  rfl

omit [DecidableEq Call] in
theorem sinceClear_append {e : Event Call} (he : e ≠ .clear) :
    sinceClear (ls ++ [e]) = e :: sinceClear ls := by
  rw [sinceClear, List.reverse_append, List.reverse_singleton, List.singleton_append]
  refine List.takeWhile_cons_of_pos ?_
  cases e with
  | clear => exact absurd rfl he
  | _ => rfl

omit [DecidableEq Call] in
theorem owed_append_clear : owed container ip (ls ++ [.clear]) = 0 := by
  rw [owed, sinceClear_append_clear]
  rfl

omit [DecidableEq Call] in
theorem owed_append {e : Event Call} (he : e ≠ .clear) :
    owed container ip (ls ++ [e]) = owed container ip ls + (if isAccess ip e then 1 else 0) +
      container.invalidCredentialsPenalty.toNat * (if isPenalty ip e then 1 else 0) := by
  rw [owed, sinceClear_append he, List.countP_cons, List.countP_cons, Nat.mul_add, owed]
  ac_rfl

omit [DecidableEq Call] in
/-- A section that neither calls nor penalises the address, and clears nothing. -/
theorem Counted.other (h : Counted container ip ls s) {e : Event Call} (he : e ≠ .clear)
    (haccess : isAccess ip e = false) (hpen : isPenalty ip e = false)
    (hattempts : s'.container.attempts ip = s.container.attempts ip)
    (hconfig : s'.container.invalidCredentialsPenalty = s.container.invalidCredentialsPenalty) :
    Counted container ip (ls ++ [e]) s' := by
  refine ⟨?_, hconfig.trans h.penalty⟩
  rw [owed_append he, haccess, hpen, hattempts, h.attempts]
  rfl

theorem step_counted {e : Event Call} (h : Counted container ip ls s) (hs : step s e = some s') :
    Counted container ip (ls ++ [e]) s' := by
  have hattempts := h.attempts
  have hpenalty := h.penalty
  cases e with
  | getSettings call ip' =>
    simp only [step] at hs
    split at hs
    · cases hs
      exact h.other (by simp) rfl rfl rfl rfl
    · cases hs
  | countAccess call ip' =>
    simp only [step] at hs
    split at hs
    · cases hs
    · next asked customSettings hread =>
      split at hs
      · cases hs
        have hconfig := congrArg AdmissionControlContainer.invalidCredentialsPenalty
          (s.container.config_countAccess customSettings ip')
        have hcount := s.container.attempts_countAccess customSettings ip' ip
        rcases eq_or_ne ip' ip with rfl | hne
        · refine ⟨?_, hconfig.trans hpenalty⟩
          rw [owed_append (by simp), hcount, if_pos rfl, hattempts]
          simp [isAccess, isPenalty]
        · exact h.other (by simp) (decide_eq_false hne) rfl (hcount.trans (if_neg hne))
            hconfig
      · cases hs
  | addInvalidCredentialsPenalty ip' =>
    cases hs
    have hcount := s.container.attempts_addPenalty ip' ip
    rcases eq_or_ne ip' ip with rfl | hne
    · refine ⟨?_, hpenalty⟩
      rw [owed_append (by simp), hcount, if_pos rfl, hattempts, hpenalty]
      simp [isAccess, isPenalty]
    · exact h.other (by simp) rfl (decide_eq_false hne) (hcount.trans (if_neg hne)) rfl
  | clear =>
    cases hs
    refine ⟨?_, hpenalty⟩
    rw [owed_append_clear]
    exact s.container.attempts_config ip
  | loadCustomSettingsMap newCustomSettingsMap =>
    cases newCustomSettingsMap with
    | none =>
      cases hs
      exact h.other (by simp) rfl rfl rfl rfl
    | some newCustomSettingsMap =>
      cases hs
      exact h.other (by simp) rfl rfl rfl rfl

theorem run_counted (h : (machine Call container).run (machine Call container).init ls = some s) :
    Counted container ip ls s := by
  have hinit : Counted container ip [] (machine Call container).init :=
    ⟨container.attempts_config ip, rfl⟩
  exact Machine.run_history (fun _ _ _ _ hinv hs => step_counted hinv hs) hinit h

/-- A counted call of the address reports its counter. -/
theorem countAccess_reply {call : Call} (hs : step s (.countAccess call ip) = some s') :
    ∃ access, (repliesTo ip s'.replies).getLast? = some access ∧
      access.attempts = s'.container.attempts ip := by
  simp only [step] at hs
  split at hs
  · cases hs
  · next asked customSettings hread =>
    split at hs
    · cases hs
      refine ⟨(s.container.countAccess customSettings ip).1, ?_, ?_⟩
      · rw [repliesTo_append, if_pos rfl]
        exact List.getLast?_concat
      · rw [s.container.attempts_countAccess, if_pos rfl, AdmissionControlContainer.countAccess_eq]
    · cases hs

/-- Two histories of one container that agree on what concerns an address answer the address
alike. The attempts that a call reports are the calls and the weighted penalties of the address
since the last clear. -/
theorem getAccess_independent {ls' : List (Event Call)}
    (hagree : ls.filter (concerns ip) = ls'.filter (concerns ip))
    (h : (machine Call container).run (machine Call container).init ls = some s)
    (h' : (machine Call container).run (machine Call container).init ls' = some s') :
    repliesTo ip s.replies = repliesTo ip s'.replies ∧
    ∀ before call after, ls = before ++ .countAccess call ip :: after →
      ∃ now access, (machine Call container).run (machine Call container).init
          (before ++ [.countAccess call ip]) = some now ∧
        (repliesTo ip now.replies).getLast? = some access ∧
        access.attempts.toNat = owed container ip (before ++ [.countAccess call ip]) % 2 ^ 32 := by
  constructor
  · have hview := Machine.run_view
      (fun _ _ _ _ _ he hst hs hs' => (step_seen he hs).trans (hst ▸ (step_seen he hs').symm))
      (fun _ _ _ he hs => step_unseen he hs) hagree rfl h h'
    exact congrArg View.replies hview
  · rintro before call after rfl
    rw [List.append_cons, Machine.run_append] at h
    obtain ⟨now, hnow, -⟩ := Option.bind_eq_some_iff.mp h
    have hcounted : Counted container ip _ now := run_counted hnow
    rw [Machine.run_append] at hnow
    obtain ⟨earlier, -, hlast⟩ := Option.bind_eq_some_iff.mp hnow
    obtain ⟨last, hstep, hend⟩ := Option.bind_eq_some_iff.mp hlast
    cases hend
    obtain ⟨access, hreply, hattempts⟩ := countAccess_reply hstep
    refine ⟨now, access, by rw [Machine.run_append]; exact hnow, hreply, ?_⟩
    rw [hattempts, hcounted.attempts, UInt32.toNat_ofNat']

end Histories

end Machine

open AdmissionControl (localhost smallContainer)

/-- An address beside the local host. -/
def neighbour : In6Addr := ⟨#v[0, 0, 0, 1]⟩

/-- A call of the local host while its neighbour calls and is penalised. -/
def busy : List (Event Nat) :=
  [.getSettings 0 localhost, .getSettings 1 neighbour, .countAccess 1 neighbour,
    .addInvalidCredentialsPenalty neighbour, .countAccess 0 localhost]

def quiet : List (Event Nat) := [.getSettings 0 localhost, .countAccess 0 localhost]

theorem getAccess_independent_neighbour :
    ∃ s s', (machine Nat (smallContainer 1 5)).run (machine Nat (smallContainer 1 5)).init busy =
        some s ∧
      (machine Nat (smallContainer 1 5)).run (machine Nat (smallContainer 1 5)).init quiet =
        some s' ∧
      repliesTo localhost s.replies = repliesTo localhost s'.replies := by
  obtain ⟨s, hs⟩ : ∃ s, (machine Nat (smallContainer 1 5)).run
      (machine Nat (smallContainer 1 5)).init busy = some s := ⟨_, rfl⟩
  obtain ⟨s', hs'⟩ : ∃ s', (machine Nat (smallContainer 1 5)).run
      (machine Nat (smallContainer 1 5)).init quiet = some s' := ⟨_, rfl⟩
  exact ⟨s, s', hs, hs', (getAccess_independent (by rfl) hs hs').1⟩

end AdmissionHistory

end SafeKiddo
