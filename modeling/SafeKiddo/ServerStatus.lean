import SafeKiddo.Lib.Machine
import Mathlib.Data.List.Chain
import Mathlib.Tactic

/-!
# The status of httpd

`ServerStatus` of `serverStatus.cpp`: problems with the backend are reported to it, and the health
check asks it whether there have been too many in a row. It keeps the time of the last report and
how many reports have followed each other closely. The calls are serialized by a mutex, and a call
reads the clock once or more, with one result.

Results:
1. `take_isChain_iff`: `currentRun` is the length of the run that the latest report ends.
2. `run_inv`: the counter and the last time are a summary of all reports.
3. `statusOk_iff`: when the status is bad, in terms of the reports.
-/

namespace SafeKiddo

/-! ## 1. The code -/

structure ServerStatus where
  maxTimeBetweenEvents : Int
  maxProblemEvents : Nat
  counter : Nat
  lastProblem : Int

namespace ServerStatus

def new (maxTimeBetweenEvents : Int) (maxProblemEvents : Nat) : ServerStatus :=
  ⟨maxTimeBetweenEvents, maxProblemEvents, 0, 0⟩

def reportProblem (self : ServerStatus) (now : Int) : ServerStatus :=
  { self with
    counter := if self.lastProblem + self.maxTimeBetweenEvents < now then 1 else self.counter + 1
    lastProblem := now }

def statusOk (self : ServerStatus) (now : Int) : Bool :=
  if self.lastProblem + self.maxTimeBetweenEvents ≥ now ∧ self.counter > self.maxProblemEvents then
    false
  else
    true

/-! ## 2. Histories of calls -/

inductive Call
  | reportProblem (now : Int)
  | statusOk (now : Int)

/-- The status, and the latest reading of the clock. -/
structure State where
  status : ServerStatus
  clock : Int

/-- The clock does not go back. -/
def step (s : State) : Call → Option State
  | .reportProblem now => if s.clock ≤ now then some ⟨s.status.reportProblem now, now⟩ else none
  | .statusOk now => if s.clock ≤ now then some ⟨s.status, now⟩ else none

/-- The calls of all threads, from a new status on. -/
def machine (maxTimeBetweenEvents : Int) (maxProblemEvents : Nat) (start : Int) :
    Machine State Call :=
  ⟨⟨new maxTimeBetweenEvents maxProblemEvents, start⟩, step⟩

/-- The times of the reports, in order. -/
def reports (calls : List Call) : List Int :=
  calls.filterMap fun call => match call with
    | .reportProblem now => some now
    | .statusOk _ => none

/-- Each report comes at most so many seconds after the one before it. -/
def Close (maxTime : Int) (run : List Int) : Prop := run.IsChain fun a b => b ≤ a + maxTime

/-- A run of more than so many close reports, the last of them at most `maxTime` before the time. -/
structure Outage (maxTime : Int) (maxEvents : Nat) (now : Int) (run : List Int) : Prop where
  long : maxEvents < run.length
  close : Close maxTime run
  recent : ∀ last ∈ run.getLast?, now ≤ last + maxTime

/-! ## 3. The summary -/

/-- How many of the latest reports follow each other closely; the latest one comes first. -/
def currentRun (maxTime : Int) : List Int → Nat
  | [] => 0
  | [_] => 1
  | now :: last :: earlier =>
    if last + maxTime < now then 1 else currentRun maxTime (last :: earlier) + 1

theorem currentRun_cons (maxTime now last : Int) (earlier : List Int) :
    currentRun maxTime (now :: last :: earlier) =
      if last + maxTime < now then 1 else currentRun maxTime (last :: earlier) + 1 := rfl

theorem currentRun_pos (maxTime now : Int) (earlier : List Int) :
    1 ≤ currentRun maxTime (now :: earlier) := by
  cases earlier with
  | nil => exact le_rfl
  | cons last earlier =>
    rw [currentRun_cons]
    split
    · exact le_rfl
    · exact Nat.le_add_left 1 _

theorem currentRun_le (maxTime : Int) (latest : List Int) :
    currentRun maxTime latest ≤ latest.length := by
  induction latest with
  | nil => exact le_rfl
  | cons now earlier ih =>
    cases earlier with
    | nil => exact le_rfl
    | cons last earlier =>
      rw [currentRun_cons]
      split
      · exact Nat.le_add_left 1 _
      · exact Nat.succ_le_succ ih

/-- The latest `n` reports are close exactly when the current run is as long. -/
theorem take_isChain_iff (maxTime : Int) (latest : List Int) {n : Nat} (hn : n ≤ latest.length) :
    (latest.take n).IsChain (fun b a => b ≤ a + maxTime) ↔ n ≤ currentRun maxTime latest := by
  induction latest generalizing n with
  | nil =>
    cases Nat.le_zero.mp hn
    exact iff_of_true .nil le_rfl
  | cons now earlier ih =>
    match n, earlier with
    | 0, _ => exact iff_of_true .nil (Nat.zero_le _)
    | 1, _ => exact iff_of_true (.singleton now) (currentRun_pos _ _ _)
    | n + 2, [] => exact absurd hn (by simp)
    | n + 2, last :: earlier =>
      have hrest := @ih (n + 1) (Nat.le_of_succ_le_succ hn)
      rw [List.take_succ_cons] at hrest
      rw [List.take_succ_cons, List.take_succ_cons, List.isChain_cons_cons, hrest, currentRun_cons]
      split
      · next hgap => exact iff_of_false (fun h => absurd h.1 (not_le.mpr hgap)) (by omega)
      · next hclose => simp [not_lt.mp hclose]

/-- What the status and the clock know about the reports. -/
structure Inv (maxTime : Int) (maxEvents : Nat) (calls : List Call) (s : State) : Prop where
  maxTime_eq : s.status.maxTimeBetweenEvents = maxTime
  maxEvents_eq : s.status.maxProblemEvents = maxEvents
  counter : s.status.counter = currentRun maxTime (reports calls).reverse
  lastProblem : ∀ last ∈ (reports calls).getLast?, s.status.lastProblem = last
  sorted : (reports calls).Pairwise (· ≤ ·)
  past : ∀ r ∈ reports calls, r ≤ s.clock

section Runs

variable {maxTime : Int} {maxEvents : Nat} {calls : List Call} {s s' : State} {start : Int}

theorem reports_append_report (now : Int) :
    reports (calls ++ [.reportProblem now]) = reports calls ++ [now] := by
  simp [reports]

theorem reports_append_status (now : Int) :
    reports (calls ++ [.statusOk now]) = reports calls := by
  simp [reports]

/-- A report goes on with the run, or begins a new one. -/
theorem counter_reportProblem (h : Inv maxTime maxEvents calls s) (now : Int) :
    (s.status.reportProblem now).counter =
      currentRun maxTime (now :: (reports calls).reverse) := by
  simp only [reportProblem, h.maxTime_eq, h.counter]
  rcases List.eq_nil_or_concat (reports calls) with hnil | ⟨earlier, last, hlast⟩
  · -- The counter of a new status is zero, so the first report is the first of its run anyway.
    rw [hnil]
    simp [currentRun]
  · rw [List.concat_eq_append] at hlast
    have hproblem : s.status.lastProblem = last := h.lastProblem last (by rw [hlast]; simp)
    rw [hproblem, hlast, List.reverse_append, List.reverse_singleton, List.singleton_append,
      currentRun_cons]

theorem step_inv {call : Call} (h : Inv maxTime maxEvents calls s) (hs : step s call = some s') :
    Inv maxTime maxEvents (calls ++ [call]) s' := by
  cases call with
  | reportProblem now =>
    simp only [step, Option.ite_none_right_eq_some] at hs
    obtain ⟨hclock, hs⟩ := hs
    cases hs
    have hpast : ∀ r ∈ reports calls, r ≤ now := fun r hr => (h.past r hr).trans hclock
    refine ⟨h.maxTime_eq, h.maxEvents_eq, ?_, ?_, ?_, ?_⟩
    · rw [reports_append_report, List.reverse_append]
      exact counter_reportProblem h now
    · rw [reports_append_report, List.getLast?_concat]
      rintro last ⟨⟩
      rfl
    · rw [reports_append_report, List.pairwise_append]
      refine ⟨h.sorted, List.pairwise_singleton _ _, ?_⟩
      simpa using hpast
    · rw [reports_append_report]
      intro r hr
      rcases List.mem_append.mp hr with hr | hr
      · exact hpast r hr
      · exact (List.mem_singleton.mp hr).le
  | statusOk now =>
    simp only [step, Option.ite_none_right_eq_some] at hs
    obtain ⟨hclock, hs⟩ := hs
    cases hs
    refine ⟨h.maxTime_eq, h.maxEvents_eq, ?_, ?_, ?_, ?_⟩ <;> rw [reports_append_status]
    · exact h.counter
    · exact h.lastProblem
    · exact h.sorted
    · exact fun r hr => (h.past r hr).trans hclock

theorem run_inv
    (h : (machine maxTime maxEvents start).run (machine maxTime maxEvents start).init calls =
      some s) : Inv maxTime maxEvents calls s := by
  have hinit : Inv maxTime maxEvents [] (machine maxTime maxEvents start).init :=
    { maxTime_eq := rfl
      maxEvents_eq := rfl
      counter := rfl
      lastProblem := fun _ hlast => nomatch hlast
      sorted := List.Pairwise.nil
      past := fun _ hr => nomatch hr }
  exact Machine.run_history (fun _ _ _ _ hinv hs => step_inv hinv hs) hinit h

/-! ## 4. When the status is bad -/

/-- The run that ends with the latest report is long enough, and the report is recent. -/
theorem statusOk_eq_false (h : Inv maxTime maxEvents calls s) (now : Int) :
    s.status.statusOk now = false ↔
      ∃ run, run <:+ reports calls ∧ Outage maxTime maxEvents now run := by
  have hok : s.status.statusOk now = false ↔ now ≤ s.status.lastProblem + maxTime ∧
      maxEvents < currentRun maxTime (reports calls).reverse := by
    rw [statusOk, h.maxTime_eq, h.maxEvents_eq, h.counter]
    simp
  rw [hok]
  constructor
  · rintro ⟨hrecent, hlong⟩
    have hle := currentRun_le maxTime (reports calls).reverse
    refine ⟨((reports calls).reverse.take (currentRun maxTime (reports calls).reverse)).reverse,
      ?_, ?_, ?_, ?_⟩
    · rw [← List.reverse_prefix, List.reverse_reverse]
      exact List.take_prefix _ _
    · rwa [List.length_reverse, List.length_take, min_eq_left hle]
    · exact List.isChain_reverse.mpr ((take_isChain_iff maxTime _ hle).mpr le_rfl)
    · intro last hlast
      rw [List.getLast?_reverse, List.head?_take, if_neg (Nat.ne_of_gt (Nat.zero_lt_of_lt hlong)),
        List.head?_reverse] at hlast
      rwa [← h.lastProblem last hlast]
  · rintro ⟨run, hsuffix, hout⟩
    have hstart := List.reverse_prefix.mpr hsuffix
    have hlength : run.reverse.length ≤ (reports calls).reverse.length := hstart.length_le
    have hchain : run.reverse.IsChain fun b a => b ≤ a + maxTime :=
      List.isChain_reverse.mpr hout.close
    rw [List.prefix_iff_eq_take.mp hstart, take_isChain_iff maxTime _ hlength,
      List.length_reverse] at hchain
    refine ⟨?_, hout.long.trans_le hchain⟩
    obtain ⟨earlier, hearlier⟩ := hsuffix
    have hne : run ≠ [] := List.ne_nil_of_length_pos (Nat.zero_lt_of_lt hout.long)
    have hlast := List.getLast?_eq_some_getLast hne
    have hreports : (reports calls).getLast? = some (run.getLast hne) := by
      rw [← hearlier, List.getLast?_append, hlast]
      rfl
    rw [h.lastProblem _ hreports]
    exact hout.recent _ hlast

/-- A run of close reports whose last one is recent goes on to the latest report. -/
theorem outage_extend (h : Inv maxTime maxEvents calls s) {now : Int} (hnow : s.clock ≤ now)
    {run : List Int} (hwithin : run <:+: reports calls) (hout : Outage maxTime maxEvents now run) :
    ∃ run', run' <:+ reports calls ∧ Outage maxTime maxEvents now run' := by
  obtain ⟨earlier, later, hsplit⟩ := hwithin
  have hne : run ≠ [] := List.ne_nil_of_length_pos (Nat.zero_lt_of_lt hout.long)
  have hlast := List.getLast?_eq_some_getLast hne
  have hrecent := hout.recent _ hlast
  have hsorted := h.sorted
  rw [← hsplit, List.append_assoc] at hsorted
  have hrun := (List.pairwise_append.mp hsorted).2.1
  obtain ⟨-, hlater, hafter⟩ := List.pairwise_append.mp hrun
  -- From the last report of the run on, all times are within `maxTime` of the present.
  have hpresent : ∀ r ∈ later, run.getLast hne ≤ r ∧ r ≤ run.getLast hne + maxTime := by
    intro r hr
    have hpast : r ≤ s.clock := h.past r (by rw [← hsplit]; simp [hr])
    exact ⟨hafter _ (List.getLast_mem hne) r hr, (hpast.trans hnow).trans hrecent⟩
  refine ⟨run ++ later, ⟨earlier, by rw [← hsplit, List.append_assoc]⟩, ?_, ?_, ?_⟩
  · rw [List.length_append]
    exact hout.long.trans_le (Nat.le_add_right _ _)
  · refine List.isChain_append.mpr ⟨hout.close, ?_, ?_⟩
    · refine (hlater.imp_of_mem ?_).isChain
      intro a b ha hb hab
      exact (hpresent b hb).2.trans (Int.add_le_add_right (hpresent a ha).1 maxTime)
    · intro a ha b hb
      cases hlast.symm.trans ha
      exact (hpresent b (List.mem_of_head? hb)).2
  · intro last hmem
    rw [List.getLast?_append] at hmem
    cases hlater' : later.getLast? with
    | none =>
      rw [hlater', hlast] at hmem
      cases hmem
      exact hrecent
    | some r =>
      rw [hlater'] at hmem
      cases hmem
      exact hrecent.trans
        (Int.add_le_add_right (hpresent _ (List.mem_of_getLast? hlater')).1 maxTime)

end Runs

/-- After any calls, the status is bad exactly when the reports contain a run of more than
`maxProblemEvents` close ones, the last of them recent; such a run goes on to the latest report. -/
theorem statusOk_iff (maxTimeBetweenEvents : Int) (maxProblemEvents : Nat) (start : Int)
    {calls : List Call} {s : State}
    (h : (machine maxTimeBetweenEvents maxProblemEvents start).run
      (machine maxTimeBetweenEvents maxProblemEvents start).init calls = some s)
    {now : Int} (hnow : s.clock ≤ now) :
    (s.status.statusOk now = false ↔ ∃ run, run <:+ reports calls ∧
      Outage maxTimeBetweenEvents maxProblemEvents now run) ∧
    (s.status.statusOk now = false ↔ ∃ run, run <:+: reports calls ∧
      Outage maxTimeBetweenEvents maxProblemEvents now run) := by
  have hinv := run_inv h
  have hlatest := statusOk_eq_false hinv now
  refine ⟨hlatest, ?_⟩
  rw [hlatest]
  constructor
  · rintro ⟨run, hsuffix, hout⟩
    exact ⟨run, hsuffix.isInfix, hout⟩
  · rintro ⟨run, hwithin, hout⟩
    exact outage_extend hinv hnow hwithin hout

/-- Two reports within a minute, where one is the limit. -/
def twoReports : List Call := [.reportProblem 1000, .statusOk 1030, .reportProblem 1060]

theorem statusOk_iff_twoReports :
    ((new 60 1 |>.reportProblem 1000 |>.reportProblem 1060).statusOk 1120 = false ↔
      ∃ run, run <:+ reports twoReports ∧ Outage 60 1 1120 run) ∧
    ((new 60 1 |>.reportProblem 1000 |>.reportProblem 1060).statusOk 1120 = false ↔
      ∃ run, run <:+: reports twoReports ∧ Outage 60 1 1120 run) :=
  @statusOk_iff 60 1 0 twoReports
    ⟨new 60 1 |>.reportProblem 1000 |>.reportProblem 1060, 1060⟩ rfl 1120 (by decide)

end ServerStatus

end SafeKiddo
