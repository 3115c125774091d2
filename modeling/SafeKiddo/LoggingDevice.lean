import SafeKiddo.Lib.ByteString
import SafeKiddo.Lib.Machine
import SafeKiddo.Lib.Mutex

/-!
# The logging device

`FileLoggingDevice`: any number of threads that call `outputLog`, `flush`, `reopen` and `stop`, and
the background thread that runs `threadFunction`. A step is what one thread does between two points
where another one may be seen. All writes to the streams succeed.

Results:
1. `Effect`, `effect_of_step`: what one step can do.
2. `Inv`: each line is in one place; `keeps_inv` is its step lemma.
3. `reach_le_of_run`: what a thread that flushes is sure to have written, once it is done.
4. `logged_in_order`: no line is lost, and a `flush` that returned has written what was there before
   it. The background thread may end while another thread still writes.
-/

namespace SafeKiddo

open ByteString

namespace LoggingDevice

open Mutex (Owned share)

/-! ## 1. The code -/

inductive LogLevel
  | NONE | FATAL | ERROR | WARNING | INFO | DEBUG1 | DEBUG2 | DEBUG3
  deriving DecidableEq

structure LogEntry where
  logLevel : LogLevel
  buf : Bytes
  deriving DecidableEq

/-- What is written to `std::cerr` beside the log. -/
def LogEntry.copies (e : LogEntry) : List Bytes :=
  if e.logLevel = .FATAL ∨ e.logLevel = .ERROR then [e.buf] else []

/-- One write to `outStream`. -/
inductive Output
  | log (e : LogEntry)
  | marker (text : Bytes)
  deriving DecidableEq

def Output.entry? : Output → Option LogEntry
  | .log e => some e
  | .marker _ => none

def logStarts : Output := .marker (bytes "--- LOG STARTS ---\n")

def logEnds : Output := .marker (bytes "--- LOG ENDS ---\n")

inductive Agent (T : Type)
  /-- `flushThread`. -/
  | background
  /-- A thread of the program. -/
  | client (t : T)
  deriving DecidableEq

/-- The place of a thread: what it does next. The variable `flushList` is part of it. -/
inductive Place
  /-- In no function of the device. The background thread has not been started. -/
  | idle
  -- `outputLog`
  | outputLocking (e : LogEntry)
  | outputPushing (e : LogEntry)
  | outputUnlocking
  -- `flush`
  | flushLocking
  -- `flushLogEntries`, for `flush` and for `threadFunction`
  | swapping
  | flushMutexLocking (flushList : List LogEntry)
  | mainUnlocking (flushList : List LogEntry)
  | writing (flushList : List LogEntry)
  | mainLocking
  | returning
  -- `reopen`
  | reopenLocking
  | closing
  | opening
  | reopenUnlocking
  -- `stop`
  | stopLocking
  | stopSetting
  | stopUnlocking
  | joining
  -- `threadFunction`
  | threadLocking
  | outerTest
  | innerTest
  | waiting
  | finished
  deriving DecidableEq

structure State (T : Type) where
  logMutex : Option (Agent T)
  flushMutex : Option (Agent T)
  logEntries : List LogEntry
  stopRequested : Bool
  outStream : List Output
  cerr : List Bytes
  place : Agent T → Place
  /-- Not in the code: all that was ever pushed. -/
  enqueued : List LogEntry

/-- The functions that a thread of the program calls. -/
inductive Call
  | outputLog (e : LogEntry)
  | flush
  | reopen
  | stop

def Call.entry : Call → Place
  | .outputLog e => .outputLocking e
  | .flush => .flushLocking
  | .reopen => .reopenLocking
  | .stop => .stopLocking

inductive Label (T : Type)
  | start
  | call (t : T) (c : Call)
  | advance (a : Agent T)

section Code

variable {T : Type} [DecidableEq T]

namespace State

def goto (s : State T) (a : Agent T) (p : Place) : State T :=
  { s with place := Function.update s.place a p }

def lockLog (s : State T) (a : Agent T) (p : Place) : Option (State T) :=
  if s.logMutex = none then some ({ s with logMutex := some a }.goto a p) else none

def unlockLog (s : State T) (a : Agent T) (p : Place) : Option (State T) :=
  some ({ s with logMutex := none }.goto a p)

def lockFlush (s : State T) (a : Agent T) (p : Place) : Option (State T) :=
  if s.flushMutex = none then some ({ s with flushMutex := some a }.goto a p) else none

def unlockFlush (s : State T) (a : Agent T) (p : Place) : Option (State T) :=
  some ({ s with flushMutex := none }.goto a p)

/-- What the thread does at its place; `none` when it has to wait. -/
def advance (s : State T) (a : Agent T) : Option (State T) :=
  match s.place a with
  | .idle => none
  | .outputLocking e => s.lockLog a (.outputPushing e)
  | .outputPushing e =>
    -- The condition is not modelled: a waiting thread may wake at any time.
    some ({ s with logEntries := s.logEntries ++ [e], enqueued := s.enqueued ++ [e] }.goto a
      .outputUnlocking)
  | .outputUnlocking => s.unlockLog a .idle
  | .flushLocking => s.lockLog a .swapping
  | .swapping => some ({ s with logEntries := [] }.goto a (.flushMutexLocking s.logEntries))
  | .flushMutexLocking flushList => s.lockFlush a (.mainUnlocking flushList)
  | .mainUnlocking flushList => s.unlockLog a (.writing flushList)
  | .writing (e :: flushList) =>
    some ({ s with outStream := s.outStream ++ [Output.log e], cerr := s.cerr ++ e.copies }.goto
      a (.writing flushList))
  | .writing [] => s.unlockFlush a .mainLocking
  | .mainLocking => s.lockLog a .returning
  | .returning =>
    match a with
    | .background => some (s.goto a .outerTest)
    | .client _ => s.unlockLog a .idle
  | .reopenLocking => s.lockFlush a .closing
  | .closing => some ({ s with outStream := s.outStream ++ [logEnds] }.goto a .opening)
  | .opening => some ({ s with outStream := s.outStream ++ [logStarts] }.goto a .reopenUnlocking)
  | .reopenUnlocking => s.unlockFlush a .idle
  | .stopLocking => s.lockLog a .stopSetting
  | .stopSetting => some ({ s with stopRequested := true }.goto a .stopUnlocking)
  | .stopUnlocking => s.unlockLog a .joining
  | .joining => if s.place .background = .finished then some (s.goto a .idle) else none
  | .threadLocking => s.lockLog a .outerTest
  | .outerTest =>
    if s.stopRequested = true ∧ s.logEntries = [] then s.unlockLog a .finished
    else some (s.goto a .innerTest)
  | .innerTest =>
    if s.stopRequested = false ∧ s.logEntries = [] then s.unlockLog a .waiting
    else if s.logEntries ≠ [] then some (s.goto a .swapping)
    else some (s.goto a .outerTest)
  | .waiting => s.lockLog a .innerTest
  | .finished => none

def step (s : State T) : Label T → Option (State T)
  | .start =>
    if s.place .background = .idle then some (s.goto .background .threadLocking) else none
  | .call t c =>
    if s.place (.client t) = .idle then some (s.goto (.client t) c.entry) else none
  | .advance a => s.advance a

/-- After the constructor. -/
def init : State T where
  logMutex := none
  flushMutex := none
  logEntries := []
  stopRequested := false
  outStream := [logStarts]
  cerr := []
  place _ := .idle
  enqueued := []

/-- The log lines in `outStream`. -/
def written (s : State T) : List LogEntry := s.outStream.filterMap Output.entry?

end State

variable (T) in
def machine : Machine (State T) (Label T) where
  init := .init
  step := State.step

end Code

/-! ## 2. What one step can do -/

/-- The mutexes that a thread holds at a place, and the lines that it has there. -/
structure Hands where
  log : Bool
  flush : Bool
  flushList : List LogEntry

def Hands.setLog (h : Hands) (log : Bool) : Hands := { h with log := log }

namespace Place

def hands : Place → Hands
  | outputPushing _ | outputUnlocking | swapping | returning => ⟨true, false, []⟩
  | stopSetting | stopUnlocking | outerTest | innerTest => ⟨true, false, []⟩
  | flushMutexLocking flushList => ⟨true, false, flushList⟩
  | mainUnlocking flushList => ⟨true, true, flushList⟩
  | writing flushList => ⟨false, true, flushList⟩
  | closing | opening | reopenUnlocking => ⟨false, true, []⟩
  | idle | outputLocking _ | flushLocking | mainLocking | reopenLocking => ⟨false, false, []⟩
  | stopLocking | joining | threadLocking | waiting | finished => ⟨false, false, []⟩

def holdsLog (p : Place) : Bool := p.hands.log

def holdsFlush (p : Place) : Bool := p.hands.flush

/-- The batch that is being written. -/
def unwritten (p : Place) : List LogEntry := if p.holdsFlush then p.hands.flushList else []

/-- The batch that waits for `flushMutex`. -/
def swapped (p : Place) : List LogEntry := if p.holdsFlush then [] else p.hands.flushList

/-- In a flush, before `flushMutex` is locked. -/
def early : Place → Bool
  | flushLocking | swapping | flushMutexLocking _ => true
  | _ => false

/-- Swapped out, before `flushMutex` is locked. -/
def isSwapped : Place → Bool
  | flushMutexLocking _ => true
  | _ => false

/-- What most steps from `p` to `q` have in common. -/
def follows (q p : Place) : Bool := (!p.early || q.early) && !q.isSwapped

theorem early_of_follows {q p : Place} (h : q.follows p = true) (hp : p.early = true) :
    q.early = true := by
  rw [follows, hp] at h
  exact (Bool.and_eq_true_iff.mp h).1

theorem not_swapped_of_follows {q p : Place} (h : q.follows p = true) :
    q.isSwapped = false :=
  Bool.not_eq_true' _ |>.mp (Bool.and_eq_true_iff.mp h).2

end Place

section Effects

variable {T : Type} [DecidableEq T] {s s' : State T} {a b : Agent T} {p : Place}

/-- What a step of the thread `a` does. -/
inductive Effect (s : State T) (a : Agent T) : State T → Prop
  | moves (p : Place) (stop : Bool) (hhands : p.hands = (s.place a).hands)
      (hfollows : p.follows (s.place a) = true) :
      Effect s a ({ s with stopRequested := stop }.goto a p)
  | marks (p : Place) (text : Bytes) (hhands : p.hands = (s.place a).hands)
      (hfollows : p.follows (s.place a) = true) :
      Effect s a ({ s with outStream := s.outStream ++ [Output.marker text] }.goto a p)
  | locksLog (p : Place) (hfree : s.logMutex = none)
      (hhands : p.hands = (s.place a).hands.setLog true)
      (hfollows : p.follows (s.place a) = true) :
      Effect s a ({ s with logMutex := some a }.goto a p)
  | unlocksLog (p : Place) (hholds : (s.place a).holdsLog = true)
      (hhands : p.hands = (s.place a).hands.setLog false)
      (hswapped : (s.place a).swapped = []) (hfollows : p.follows (s.place a) = true) :
      Effect s a ({ s with logMutex := none }.goto a p)
  | reopens (hfree : s.flushMutex = none) (hplace : s.place a = .reopenLocking) :
      Effect s a ({ s with flushMutex := some a }.goto a .closing)
  | unlocksFlush (p : Place) (hholds : (s.place a).hands = ⟨false, true, []⟩)
      (hhands : p.hands = ⟨false, false, []⟩) (hfollows : p.follows (s.place a) = true) :
      Effect s a ({ s with flushMutex := none }.goto a p)
  | pushes (e : LogEntry) (hplace : s.place a = .outputPushing e) :
      Effect s a ({ s with logEntries := s.logEntries ++ [e], enqueued := s.enqueued ++ [e] }.goto a
        .outputUnlocking)
  | swaps (hplace : s.place a = .swapping) :
      Effect s a ({ s with logEntries := [] }.goto a (.flushMutexLocking s.logEntries))
  | takes (flushList : List LogEntry) (hfree : s.flushMutex = none)
      (hplace : s.place a = .flushMutexLocking flushList) :
      Effect s a ({ s with flushMutex := some a }.goto a (.mainUnlocking flushList))
  | writes (e : LogEntry) (flushList : List LogEntry)
      (hplace : s.place a = .writing (e :: flushList)) :
      Effect s a ({ s with outStream := s.outStream ++ [Output.log e],
                           cerr := s.cerr ++ e.copies }.goto a (.writing flushList))

theorem lockLog_eq_some (h : s.lockLog a p = some s') :
    s.logMutex = none ∧ s' = { s with logMutex := some a }.goto a p := by
  unfold State.lockLog at h
  split at h
  · next hfree => exact ⟨hfree, (Option.some.inj h).symm⟩
  · cases h

theorem lockFlush_eq_some (h : s.lockFlush a p = some s') :
    s.flushMutex = none ∧ s' = { s with flushMutex := some a }.goto a p := by
  unfold State.lockFlush at h
  split at h
  · next hfree => exact ⟨hfree, (Option.some.inj h).symm⟩
  · cases h

section Places

variable {q : Place} (hplace : s.place a = q)
include hplace

theorem effect_moves (h : some (s.goto a p) = some s') (hhands : p.hands = q.hands)
    (hfollows : p.follows q = true) : Effect s a s' := by
  subst hplace
  exact Option.some.inj h ▸ .moves p s.stopRequested hhands hfollows

theorem effect_locksLog (h : s.lockLog a p = some s')
    (hhands : p.hands = q.hands.setLog true) (hfollows : p.follows q = true) :
    Effect s a s' := by
  subst hplace
  obtain ⟨hfree, rfl⟩ := lockLog_eq_some h
  exact .locksLog p hfree hhands hfollows

theorem effect_unlocksLog (h : s.unlockLog a p = some s') (hholds : q.holdsLog = true)
    (hhands : p.hands = q.hands.setLog false) (hswapped : q.swapped = [])
    (hfollows : p.follows q = true) : Effect s a s' := by
  subst hplace
  exact Option.some.inj h ▸ .unlocksLog p hholds hhands hswapped hfollows

theorem effect_unlocksFlush (h : s.unlockFlush a p = some s')
    (hholds : q.hands = ⟨false, true, []⟩) (hhands : p.hands = ⟨false, false, []⟩)
    (hfollows : p.follows q = true) : Effect s a s' := by
  subst hplace
  exact Option.some.inj h ▸ .unlocksFlush p hholds hhands hfollows

end Places

theorem effect_of_advance (h : s.advance a = some s') : Effect s a s' := by
  unfold State.advance at h
  cases hplace : s.place a with rw [hplace] at h
  | idle => cases h
  | outputLocking e => exact effect_locksLog hplace h rfl rfl
  | outputPushing e => exact Option.some.inj h ▸ .pushes e hplace
  | outputUnlocking => exact effect_unlocksLog hplace h rfl rfl rfl rfl
  | flushLocking => exact effect_locksLog hplace h rfl rfl
  | swapping => exact Option.some.inj h ▸ .swaps hplace
  | flushMutexLocking flushList =>
    obtain ⟨hfree, rfl⟩ := lockFlush_eq_some h
    exact .takes flushList hfree hplace
  | mainUnlocking flushList => exact effect_unlocksLog hplace h rfl rfl rfl rfl
  | writing flushList =>
    cases flushList with
    | nil => exact effect_unlocksFlush hplace h rfl rfl rfl
    | cons e flushList => exact Option.some.inj h ▸ .writes e flushList hplace
  | mainLocking => exact effect_locksLog hplace h rfl rfl
  | returning =>
    cases a with
    | background => exact effect_moves hplace h rfl rfl
    | client t => exact effect_unlocksLog hplace h rfl rfl rfl rfl
  | reopenLocking =>
    obtain ⟨hfree, rfl⟩ := lockFlush_eq_some h
    exact .reopens hfree hplace
  | closing => exact Option.some.inj h ▸ .marks .opening _ (hplace ▸ rfl) (hplace ▸ rfl)
  | opening => exact Option.some.inj h ▸ .marks .reopenUnlocking _ (hplace ▸ rfl) (hplace ▸ rfl)
  | reopenUnlocking => exact effect_unlocksFlush hplace h rfl rfl rfl
  | stopLocking => exact effect_locksLog hplace h rfl rfl
  | stopSetting =>
    exact Option.some.inj h ▸ .moves .stopUnlocking true (hplace ▸ rfl) (hplace ▸ rfl)
  | stopUnlocking => exact effect_unlocksLog hplace h rfl rfl rfl rfl
  | joining =>
    dsimp only at h
    split at h
    · exact effect_moves hplace h rfl rfl
    · cases h
  | threadLocking => exact effect_locksLog hplace h rfl rfl
  | outerTest =>
    dsimp only at h
    split at h
    · exact effect_unlocksLog hplace h rfl rfl rfl rfl
    · exact effect_moves hplace h rfl rfl
  | innerTest =>
    dsimp only at h
    split at h
    · exact effect_unlocksLog hplace h rfl rfl rfl rfl
    · split at h
      · exact effect_moves hplace h rfl rfl
      · exact effect_moves hplace h rfl rfl
  | waiting => exact effect_locksLog hplace h rfl rfl
  | finished => cases h

/-- The thread that takes a step. -/
def Label.agent : Label T → Agent T
  | .start => .background
  | .call t _ => .client t
  | .advance a => a

theorem effect_of_step {l : Label T} (h : (machine T).step s l = some s') :
    Effect s l.agent s' := by
  cases l with
  | start =>
    simp only [machine, State.step] at h
    split at h
    · next hplace => exact effect_moves hplace h rfl rfl
    · cases h
  | call t c =>
    simp only [machine, State.step] at h
    split at h
    · next hplace => cases c <;> exact effect_moves hplace h rfl rfl
    · cases h
  | advance a => exact effect_of_advance h

end Effects

/-! ## 3. Each line is in one place -/

section Invariant

variable {T : Type} {s s' : State T} {a b : Agent T} {p : Place}

namespace State

/-- The batch of the thread that has `flushMutex`. -/
def beingWritten (s : State T) : List LogEntry := share s.flushMutex s.place Place.unwritten

/-- The batch of the thread that has `logMutex` and waits for `flushMutex`. -/
def swappedOut (s : State T) : List LogEntry := share s.logMutex s.place Place.swapped

end State

namespace Place

theorem swapped_of_not_holdsLog {p : Place} (h : p.holdsLog = false) : p.swapped = [] := by
  cases p with
  | flushMutexLocking => cases h
  | _ => rfl

theorem unwritten_of_not_holdsFlush {p : Place} (h : p.holdsFlush = false) :
    p.unwritten = [] := by
  rw [unwritten, h]
  rfl

/-- Taking or leaving `logMutex` moves no line. -/
theorem batches_of_hands {p q : Place} {v : Bool} (h : p.hands = q.hands.setLog v) :
    p.unwritten = q.unwritten ∧ p.swapped = q.swapped := by
  have hflush : p.hands.flush = q.hands.flush := by rw [h]; rfl
  have hlist : p.hands.flushList = q.hands.flushList := by rw [h]; rfl
  unfold unwritten swapped holdsFlush
  rw [hflush, hlist]
  exact ⟨rfl, rfl⟩

end Place

/-- What holds between any two steps. -/
structure Inv (s : State T) : Prop where
  log : Owned s.logMutex s.place Place.holdsLog
  flush : Owned s.flushMutex s.place Place.holdsFlush
  drained : ∀ a, (s.place a).isSwapped = true → s.logEntries = []
  account : s.written ++ s.beingWritten ++ s.swappedOut ++ s.logEntries = s.enqueued

theorem inv_init : Inv (.init : State T) where
  log _ := by simp [State.init, Place.holdsLog, Place.hands]
  flush _ := by simp [State.init, Place.holdsFlush, Place.hands]
  drained _ _ := rfl
  account := rfl

theorem beingWritten_of_free (hfree : s.flushMutex = none) : s.beingWritten = [] := by
  rw [State.beingWritten, hfree, Mutex.share_none]

theorem swappedOut_of_free (hfree : s.logMutex = none) : s.swappedOut = [] := by
  rw [State.swappedOut, hfree, Mutex.share_none]

variable [DecidableEq T]

theorem keeps_log (hinv : Inv s) (h : Effect s a s') :
    Owned s'.logMutex s'.place Place.holdsLog := by
  cases h with
  | moves p stop hhands | marks p text hhands => exact hinv.log.keep (congrArg Hands.log hhands)
  | locksLog p hfree hhands => exact hinv.log.acquire hfree (congrArg Hands.log hhands)
  | unlocksLog p hholds hhands => exact hinv.log.release hholds (congrArg Hands.log hhands)
  | unlocksFlush p hholds hhands =>
    exact hinv.log.keep ((congrArg Hands.log hhands).trans (congrArg Hands.log hholds).symm)
  | reopens _ hplace | pushes _ hplace | swaps hplace | takes _ _ hplace | writes _ _ hplace =>
    exact hinv.log.keep (congrArg Place.holdsLog hplace).symm

theorem keeps_flush (hinv : Inv s) (h : Effect s a s') :
    Owned s'.flushMutex s'.place Place.holdsFlush := by
  cases h with
  | moves p _ hhands | marks p _ hhands => exact hinv.flush.keep (congrArg Hands.flush hhands)
  | locksLog p _ hhands | unlocksLog p _ hhands =>
    have hsame := congrArg Hands.flush hhands
    exact hinv.flush.keep hsame
  | reopens hfree | takes _ hfree => exact hinv.flush.acquire hfree rfl
  | unlocksFlush p hholds hhands =>
    exact hinv.flush.release (congrArg Hands.flush hholds) (congrArg Hands.flush hhands)
  | pushes _ hplace | swaps hplace | writes _ _ hplace =>
    exact hinv.flush.keep (congrArg Place.holdsFlush hplace).symm

@[simp] theorem goto_place_self : (s.goto a p).place a = p := Function.update_self ..

theorem goto_place_of_ne (h : b ≠ a) : (s.goto a p).place b = s.place b :=
  Function.update_of_ne h ..

theorem holdsLog_of_isSwapped (h : p.isSwapped = true) : p.holdsLog = true := by
  cases p with
  | flushMutexLocking => rfl
  | _ => cases h

/-- While a batch is swapped out, its thread has `logMutex`, and nothing is pushed. -/
theorem keeps_drained (hinv : Inv s) (h : Effect s a s') (hb : (s'.place b).isSwapped = true) :
    s'.logEntries = [] := by
  by_cases hba : b = a
  · subst hba
    cases h with
    | swaps => rfl
    | moves p _ _ hfollows | marks p _ _ hfollows | locksLog p _ _ hfollows
    | unlocksLog p _ _ _ hfollows | unlocksFlush p _ _ hfollows =>
      rw [goto_place_self, Place.not_swapped_of_follows hfollows] at hb
      cases hb
    | _ =>
      rw [goto_place_self] at hb
      cases hb
  · have hold : (s.place b).isSwapped = true := by
      cases h <;> rwa [goto_place_of_ne hba] at hb
    have hempty := hinv.drained b hold
    cases h with
    | swaps => rfl
    | pushes e hplace =>
      have ha : (s.place a).holdsLog = true := by rw [hplace]; rfl
      exact absurd (hinv.log.unique (holdsLog_of_isSwapped hold) ha) hba
    | _ => exact hempty

/-- A step that leaves the batches where they are. -/
theorem shares_goto (hunwritten : p.unwritten = (s.place a).unwritten)
    (hswapped : p.swapped = (s.place a).swapped) :
    (s.goto a p).beingWritten = s.beingWritten ∧ (s.goto a p).swappedOut = s.swappedOut :=
  ⟨Mutex.share_same hunwritten, Mutex.share_same hswapped⟩

theorem keeps_account (hinv : Inv s) (h : Effect s a s') :
    s'.written ++ s'.beingWritten ++ s'.swappedOut ++ s'.logEntries = s'.enqueued := by
  have haccount := hinv.account
  cases h with
  | moves p stop hhands =>
    have hsame := Place.batches_of_hands (v := (s.place a).hands.log) hhands
    have hshares := shares_goto hsame.1 hsame.2
    show s.written ++ (s.goto a p).beingWritten ++ (s.goto a p).swappedOut ++ s.logEntries =
      s.enqueued
    rw [hshares.1, hshares.2]
    exact haccount
  | marks p text hhands =>
    have hsame := Place.batches_of_hands (v := (s.place a).hands.log) hhands
    have hshares := shares_goto hsame.1 hsame.2
    show (s.outStream ++ [Output.marker text]).filterMap Output.entry? ++
      (s.goto a p).beingWritten ++ (s.goto a p).swappedOut ++ s.logEntries = s.enqueued
    rw [hshares.1, hshares.2, List.filterMap_append]
    exact (List.append_nil s.written).symm ▸ haccount
  | locksLog p hfree hhands =>
    have hsame := Place.batches_of_hands hhands
    have hnone := Place.swapped_of_not_holdsLog (hinv.log.of_free hfree a)
    show s.written ++ share s.flushMutex (Function.update s.place a p) Place.unwritten ++
      share (some a) (Function.update s.place a p) Place.swapped ++ s.logEntries = s.enqueued
    rw [Mutex.share_same hsame.1, Mutex.share_owner, hsame.2, hnone]
    rwa [swappedOut_of_free hfree] at haccount
  | unlocksLog p hholds hhands hswapped =>
    have hsame := Place.batches_of_hands hhands
    have hout : s.swappedOut = [] := (hinv.log.share_eq hholds).trans hswapped
    show s.written ++ share s.flushMutex (Function.update s.place a p) Place.unwritten ++ [] ++
      s.logEntries = s.enqueued
    rw [Mutex.share_same hsame.1]
    rwa [hout] at haccount
  | reopens hfree hplace =>
    have hswapped : Place.closing.swapped = (s.place a).swapped := by rw [hplace]; rfl
    show s.written ++ share (some a) (Function.update s.place a .closing) Place.unwritten ++
      share s.logMutex (Function.update s.place a .closing) Place.swapped ++ s.logEntries =
      s.enqueued
    rw [Mutex.share_owner, Mutex.share_same hswapped]
    rwa [beingWritten_of_free hfree] at haccount
  | unlocksFlush p hholds hhands =>
    have hbatches : (s.place a).unwritten = [] ∧ p.swapped = (s.place a).swapped := by
      unfold Place.unwritten Place.swapped Place.holdsFlush
      rw [hholds, hhands]
      exact ⟨rfl, rfl⟩
    have hwriting : s.beingWritten = [] :=
      (hinv.flush.share_eq (congrArg Hands.flush hholds)).trans hbatches.1
    show s.written ++ [] ++ share s.logMutex (Function.update s.place a p) Place.swapped ++
      s.logEntries = s.enqueued
    rw [Mutex.share_same hbatches.2]
    rwa [hwriting] at haccount
  | pushes e hplace =>
    have hunwritten : Place.outputUnlocking.unwritten = (s.place a).unwritten := by rw [hplace]; rfl
    have hswapped : Place.outputUnlocking.swapped = (s.place a).swapped := by rw [hplace]; rfl
    have hshares := shares_goto hunwritten hswapped
    show s.written ++ (s.goto a .outputUnlocking).beingWritten ++
      (s.goto a .outputUnlocking).swappedOut ++ (s.logEntries ++ [e]) = s.enqueued ++ [e]
    rw [hshares.1, hshares.2, ← List.append_assoc]
    exact congrArg (· ++ [e]) haccount
  | swaps hplace =>
    have hholds : (s.place a).holdsLog = true := by rw [hplace]; rfl
    have hswapped : s.swappedOut = [] := (hinv.log.share_eq hholds).trans (by rw [hplace]; rfl)
    have hunwritten : (Place.flushMutexLocking s.logEntries).unwritten = (s.place a).unwritten := by
      rw [hplace]; rfl
    show s.written ++
      share s.flushMutex (Function.update s.place a (.flushMutexLocking s.logEntries))
        Place.unwritten ++
      share s.logMutex (Function.update s.place a (.flushMutexLocking s.logEntries))
        Place.swapped ++ [] = s.enqueued
    rw [Mutex.share_same hunwritten, (hinv.log a).mp hholds, Mutex.share_owner, List.append_nil]
    rwa [hswapped, List.append_nil] at haccount
  | takes flushList hfree hplace =>
    have hholds : (s.place a).holdsLog = true := by rw [hplace]; rfl
    have hswapped : s.swappedOut = flushList :=
      (hinv.log.share_eq hholds).trans (by rw [hplace]; rfl)
    show s.written ++
      share (some a) (Function.update s.place a (.mainUnlocking flushList)) Place.unwritten ++
      share s.logMutex (Function.update s.place a (.mainUnlocking flushList)) Place.swapped ++
      s.logEntries = s.enqueued
    rw [Mutex.share_owner, (hinv.log a).mp hholds, Mutex.share_owner]
    rw [beingWritten_of_free hfree, hswapped, List.append_nil] at haccount
    exact (List.append_nil (s.written ++ flushList)).symm ▸ haccount
  | writes e flushList hplace =>
    have hholds : (s.place a).holdsFlush = true := by rw [hplace]; rfl
    have hwriting : s.beingWritten = e :: flushList :=
      (hinv.flush.share_eq hholds).trans (by rw [hplace]; rfl)
    have hswapped : (Place.writing flushList).swapped = (s.place a).swapped := by rw [hplace]; rfl
    show (s.outStream ++ [Output.log e]).filterMap Output.entry? ++
      share s.flushMutex (Function.update s.place a (.writing flushList)) Place.unwritten ++
      share s.logMutex (Function.update s.place a (.writing flushList)) Place.swapped ++
      s.logEntries = s.enqueued
    rw [(hinv.flush a).mp hholds, Mutex.share_owner, Mutex.share_same hswapped,
      List.filterMap_append]
    rw [hwriting, List.append_cons] at haccount
    exact haccount

theorem keeps_inv : (machine T).Keeps Inv := by
  intro s l s' hinv hs
  have heffect := effect_of_step hs
  exact ⟨keeps_log hinv heffect, keeps_flush hinv heffect, fun _ => keeps_drained hinv heffect,
    keeps_account hinv heffect⟩

end Invariant

/-! ## 4. What a flush is sure to write -/

section Reach

variable {T : Type} [DecidableEq T] {s s' t : State T} {a b : Agent T}

/-- That many lines have been written when the thread has left the flush that it is in. -/
def State.reach (s : State T) (a : Agent T) : Nat :=
  if (s.place a).early then s.enqueued.length
  else s.written.length + (s.place a).unwritten.length

omit [DecidableEq T] in
theorem written_le_enqueued (hinv : Inv s) :
    s.written.length + (s.place a).unwritten.length ≤ s.enqueued.length := by
  rw [← hinv.account, List.length_append, List.length_append, List.length_append]
  cases hholds : (s.place a).holdsFlush with
  | false =>
    rw [Place.unwritten_of_not_holdsFlush hholds, List.length_nil, Nat.add_assoc, Nat.add_assoc]
    exact Nat.add_le_add_left (Nat.zero_le _) _
  | true =>
    have hwriting : s.beingWritten = (s.place a).unwritten := hinv.flush.share_eq hholds
    rw [hwriting]
    exact (Nat.le_add_right _ _).trans (Nat.le_add_right _ _)

omit [DecidableEq T] in
theorem reach_le (hinv : Inv s) : s.reach a ≤ s.enqueued.length := by
  unfold State.reach
  split
  · exact le_rfl
  · exact written_le_enqueued hinv

omit [DecidableEq T] in
theorem reach_mono (hinv : Inv s) (henqueued : s.enqueued <+: t.enqueued)
    (hwritten : s.written <+: t.written)
    (hearly : (s.place b).early = true → (t.place b).early = true)
    (hunwritten : (s.place b).unwritten = (t.place b).unwritten) : s.reach b ≤ t.reach b := by
  cases ht : (t.place b).early with
  | true =>
    rw [show t.reach b = t.enqueued.length by rw [State.reach, ht]; rfl]
    exact (reach_le hinv).trans henqueued.length_le
  | false =>
    have hs : (s.place b).early = false := by
      by_contra hne
      rw [hearly (Bool.not_eq_false _ ▸ hne)] at ht
      cases ht
    unfold State.reach
    rw [hs, ht, hunwritten]
    exact Nat.add_le_add_right hwritten.length_le _

omit [DecidableEq T] in
theorem reach_follows (hinv : Inv s) (henqueued : s.enqueued <+: t.enqueued)
    (hwritten : s.written <+: t.written) {p : Place} (hp : t.place b = p)
    (hfollows : p.follows (s.place b) = true) (hunwritten : p.unwritten = (s.place b).unwritten) :
    s.reach b ≤ t.reach b := by
  subst hp
  exact reach_mono hinv henqueued hwritten (Place.early_of_follows hfollows) hunwritten.symm

theorem enqueued_grows (h : Effect s a s') : s.enqueued <+: s'.enqueued := by
  cases h with
  | pushes e => exact List.prefix_append _ _
  | _ => exact List.prefix_rfl

theorem written_grows (h : Effect s a s') : s.written <+: s'.written := by
  cases h with
  | marks | writes => exact (List.prefix_append s.outStream _).filterMap Output.entry?
  | _ => exact List.prefix_rfl

/-- No step takes away what a flush is sure to write. -/
theorem reach_step (hinv : Inv s) (h : Effect s a s') : s.reach b ≤ s'.reach b := by
  have henqueued := enqueued_grows h
  have hwritten := written_grows h
  by_cases hba : b = a
  · subst hba
    cases h with
    | moves p stop hhands hfollows | marks p text hhands hfollows =>
      have hsame := Place.batches_of_hands (v := (s.place b).hands.log) hhands
      exact reach_follows hinv henqueued hwritten goto_place_self hfollows hsame.1
    | locksLog p hfree hhands hfollows | unlocksLog p hholds hhands hswapped hfollows =>
      have hsame := Place.batches_of_hands hhands
      exact reach_follows hinv henqueued hwritten goto_place_self hfollows hsame.1
    | unlocksFlush p hholds hhands hfollows =>
      have hsame : p.unwritten = (s.place b).unwritten := by
        unfold Place.unwritten Place.holdsFlush
        rw [hholds, hhands]
        rfl
      exact reach_follows hinv henqueued hwritten goto_place_self hfollows hsame
    | reopens hfree hplace | pushes e hplace =>
      exact reach_follows hinv henqueued hwritten goto_place_self (by rw [hplace]; rfl)
        (by rw [hplace]; rfl)
    | swaps hplace =>
      exact reach_mono hinv henqueued hwritten (by rw [goto_place_self]; exact fun _ => rfl)
        (by rw [goto_place_self, hplace]; rfl)
    | takes flushList hfree hplace =>
      -- Nothing is pending, and no batch is before this one.
      have hholds : (s.place b).holdsLog = true := by rw [hplace]; rfl
      have hswapped : s.swappedOut = flushList :=
        (hinv.log.share_eq hholds).trans (by rw [hplace]; rfl)
      have hempty := hinv.drained b (by rw [hplace]; rfl)
      have haccount := hinv.account
      rw [beingWritten_of_free hfree, hswapped, hempty, List.append_nil, List.append_nil]
        at haccount
      have hbefore : s.reach b = (s.written ++ flushList).length := by
        rw [haccount, State.reach, hplace]
        rfl
      rw [hbefore, List.length_append, State.reach, goto_place_self]
      exact le_rfl
    | writes e flushList hplace =>
      have hbefore : s.reach b = s.written.length + (flushList.length + 1) := by
        rw [State.reach, hplace]
        rfl
      have hlength : (s.written ++ [e]).length + flushList.length = s.reach b := by
        rw [hbefore, List.length_append, List.length_singleton, Nat.add_assoc, Nat.add_comm 1]
      rw [← hlength, State.reach, goto_place_self]
      show _ ≤ ((s.outStream ++ [Output.log e]).filterMap Output.entry?).length + flushList.length
      rw [List.filterMap_append]
      exact le_rfl
  · have hplace : s'.place b = s.place b := by cases h <;> exact goto_place_of_ne hba
    exact reach_mono hinv henqueued hwritten (hplace ▸ id) (hplace ▸ rfl)

theorem reach_le_of_run (hinv : Inv s) {ls : List (Label T)}
    (hrun : (machine T).run s ls = some t) :
    Inv t ∧ s.reach a ≤ t.reach a ∧ s.enqueued <+: t.enqueued := by
  have hkeeps : (machine T).Keeps fun t =>
      Inv t ∧ s.reach a ≤ t.reach a ∧ s.enqueued <+: t.enqueued := by
    rintro t l t' ⟨hinv, hreach, henqueued⟩ hs
    have heffect := effect_of_step hs
    exact ⟨keeps_inv t l t' hinv hs, hreach.trans (reach_step hinv heffect),
      henqueued.trans (enqueued_grows heffect)⟩
  exact Machine.run_invariant hkeeps ⟨hinv, le_rfl, List.prefix_rfl⟩ hrun

/-- A thread that will have written all lines has written them when it is back. -/
theorem written_of_idle (hinv : Inv s) (hreach : s.enqueued.length ≤ s.reach a)
    {ls : List (Label T)} (hrun : (machine T).run s ls = some t) (hidle : t.place a = .idle) :
    s.enqueued <+: t.written := by
  obtain ⟨hinv', hle, henqueued⟩ := reach_le_of_run (a := a) hinv hrun
  have hwritten : t.written <+: t.enqueued := by
    rw [← hinv'.account, List.append_assoc, List.append_assoc]
    exact List.prefix_append _ _
  refine List.prefix_of_prefix_length_le henqueued hwritten ?_
  calc s.enqueued.length ≤ t.reach a := hreach.trans hle
    _ = t.written.length := by rw [State.reach, hidle]; rfl

theorem written_after_flush (hinv : Inv s) {c : T} {s₁ : State T}
    (hcall : (machine T).step s (.call c .flush) = some s₁) {ls : List (Label T)}
    (hrun : (machine T).run s₁ ls = some t) (hidle : t.place (.client c) = .idle) :
    s.enqueued <+: t.written := by
  have hinv₁ := keeps_inv s _ s₁ hinv hcall
  simp only [machine, State.step] at hcall
  split at hcall
  · obtain rfl := Option.some.inj hcall
    have hreach : s.enqueued.length ≤ (s.goto (.client c) .flushLocking).reach (.client c) := by
      rw [State.reach, goto_place_self]
      exact le_rfl
    exact written_of_idle (s := s.goto (.client c) .flushLocking) hinv₁ hreach hrun hidle
  · cases hcall

end Reach

/-! ## 5. The end of the background thread -/

section Exit

variable {T : Type} [DecidableEq T] {s s' t : State T}

/-- The background thread ends with nothing in `logEntries`, and leaves `logMutex`. -/
theorem exit_eq (hplace : s.place .background = .outerTest)
    (h : (machine T).step s (.advance .background) = some s')
    (hexit : s'.place .background = .finished) :
    s'.logMutex = none ∧ s'.logEntries = [] := by
  simp only [machine, State.step, State.advance, hplace] at h
  split at h
  · next hcond =>
    obtain rfl := Option.some.inj h
    exact ⟨rfl, hcond.2⟩
  · obtain rfl := Option.some.inj h
    rw [goto_place_self] at hexit
    cases hexit

omit [DecidableEq T] in
/-- With `logMutex` free and nothing pending, what is not yet written is in one `writing`. -/
theorem writing_of_unwritten (hinv : Inv s) (hfree : s.logMutex = none)
    (hempty : s.logEntries = []) :
    s.written = s.enqueued ∨ ∃ a flushList, s.place a = .writing flushList ∧
      s.written ++ flushList = s.enqueued := by
  have haccount := hinv.account
  rw [swappedOut_of_free hfree, hempty, List.append_nil, List.append_nil] at haccount
  cases howner : s.flushMutex with
  | none =>
    rw [beingWritten_of_free howner, List.append_nil] at haccount
    exact .inl haccount
  | some a =>
    have hholds := (hinv.flush a).mpr howner
    have hlog := hinv.log.of_free hfree a
    rw [State.beingWritten, hinv.flush.share_eq hholds] at haccount
    cases hplace : s.place a with
    | writing flushList =>
      rw [hplace] at haccount
      exact .inr ⟨a, flushList, hplace, haccount⟩
    | closing | opening | reopenUnlocking =>
      rw [hplace] at haccount
      exact .inl ((List.append_nil _).symm.trans haccount)
    | mainUnlocking =>
      rw [hplace] at hlog
      cases hlog
    | _ =>
      rw [hplace] at hholds
      cases hholds

/-- No line is lost, none is written twice, and the lines keep their order. When the background
thread ends, a client may be writing the last of them. -/
theorem logged_in_order (h : (machine T).Reachable s) :
    (s.written ++ s.beingWritten ++ s.swappedOut ++ s.logEntries = s.enqueued ∧
      (∀ a, (s.place a).unwritten ≠ [] → s.flushMutex = some a) ∧
      ∀ a flushList, s.place a = .flushMutexLocking flushList → s.logMutex = some a) ∧
    (∀ c s₁ ls t, (machine T).step s (.call c .flush) = some s₁ →
      (machine T).run s₁ ls = some t → t.place (.client c) = .idle → s.enqueued <+: t.written) ∧
    ∀ s₁, s.place .background = .outerTest →
      (machine T).step s (.advance .background) = some s₁ →
      s₁.place .background = .finished →
      s₁.written = s₁.enqueued ∨
        ∃ c flushList, s₁.place (.client c) = .writing flushList ∧
          s₁.written ++ flushList = s₁.enqueued ∧
          ∀ ls t, (machine T).run s₁ ls = some t → t.place (.client c) = .idle →
            s₁.enqueued <+: t.written := by
  have hinv := h.invariant keeps_inv inv_init
  refine ⟨⟨hinv.account, ?_, ?_⟩, ?_, ?_⟩
  · intro a ha
    refine (hinv.flush a).mp ?_
    by_contra hne
    exact ha (Place.unwritten_of_not_holdsFlush (Bool.not_eq_true _ ▸ hne))
  · intro a flushList ha
    exact (hinv.log a).mp (by rw [ha]; rfl)
  · intro c s₁ ls t hcall hrun hidle
    exact written_after_flush hinv hcall hrun hidle
  · intro s₁ hplace hstep hexit
    have hinv₁ := keeps_inv s _ s₁ hinv hstep
    obtain ⟨hfree, hempty⟩ := exit_eq hplace hstep hexit
    obtain hall | ⟨a, flushList, ha, hall⟩ := writing_of_unwritten hinv₁ hfree hempty
    · exact .inl hall
    · cases a with
      | background =>
        rw [hexit] at ha
        cases ha
      | client c =>
        refine .inr ⟨c, flushList, ha, hall, ?_⟩
        intro ls t hrun hidle
        refine written_of_idle hinv₁ ?_ hrun hidle
        rw [← hall, List.length_append, State.reach, ha]
        exact le_rfl

/-- The thread `false` has logged a line. -/
def afterLog (e : LogEntry) : List (Label Bool) :=
  [.start, .call false (.outputLog e)] ++ List.replicate 3 (.advance (.client false))

/-- It flushes the line, while the thread `true` stops the device. -/
def stopWhileFlushing (e : LogEntry) : List (Label Bool) :=
  afterLog e ++ [.call false .flush] ++ List.replicate 4 (.advance (.client false)) ++
    [.call true .stop] ++ List.replicate 3 (.advance (.client true)) ++ [.advance .background]

def lineEntry : LogEntry := ⟨.INFO, bytes "line\n"⟩

/-- The run up to the end of the background thread, where the line is in the `writing` of the
thread `false`. -/
theorem run_stopWhileFlushing : ∃ s s₁ : State Bool,
    (machine Bool).run .init (stopWhileFlushing lineEntry) = some s ∧
      s.place .background = .outerTest ∧
      (machine Bool).step s (.advance .background) = some s₁ ∧
      s₁.place .background = .finished ∧ s₁.enqueued = [lineEntry] ∧ s₁.written = [] := by
  obtain ⟨s, hs⟩ : ∃ s, (machine Bool).run .init (stopWhileFlushing lineEntry) = some s :=
    Option.isSome_iff_exists.mp (by decide)
  obtain ⟨s₁, hs₁⟩ : ∃ s₁, (machine Bool).step s (.advance .background) = some s₁ :=
    Option.isSome_iff_exists.mp (by cases hs; decide)
  refine ⟨s, s₁, hs, ?_, hs₁, ?_⟩
  · cases hs
    decide
  · cases hs
    cases hs₁
    decide

theorem logged_in_order_run :
    (∃ s s₁ t : State Bool, ∃ ls, (machine Bool).step s (.call false .flush) = some s₁ ∧
      (machine Bool).run s₁ ls = some t ∧ s.enqueued = [lineEntry] ∧
      s.enqueued <+: t.written) ∧
    ∃ s s₁ : State Bool, (machine Bool).step s (.advance .background) = some s₁ ∧
      s₁.place .background = .finished ∧
      (s₁.written = s₁.enqueued ∨ ∃ c flushList, s₁.place (.client c) = .writing flushList ∧
        s₁.written ++ flushList = s₁.enqueued) := by
  constructor
  · obtain ⟨s, hs⟩ : ∃ s, (machine Bool).run .init (afterLog lineEntry) = some s :=
      Option.isSome_iff_exists.mp (by decide)
    obtain ⟨s₁, hs₁⟩ : ∃ s₁, (machine Bool).step s (.call false .flush) = some s₁ :=
      Option.isSome_iff_exists.mp (by cases hs; decide)
    obtain ⟨t, ht⟩ : ∃ t, (machine Bool).run s₁ (List.replicate 8 (.advance (.client false))) =
        some t :=
      Option.isSome_iff_exists.mp (by cases hs; cases hs₁; decide)
    have hidle : t.place (.client false) = .idle := by cases hs; cases hs₁; cases ht; decide
    exact ⟨s, s₁, t, _, hs₁, ht, by cases hs; decide,
      (logged_in_order ⟨_, hs⟩).2.1 false s₁ _ t hs₁ ht hidle⟩
  · obtain ⟨s, s₁, hs, hplace, hs₁, hexit, -⟩ := run_stopWhileFlushing
    refine ⟨s, s₁, hs₁, hexit, ?_⟩
    obtain hall | ⟨c, flushList, hc, hall, -⟩ :=
      (logged_in_order ⟨_, hs⟩).2.2 s₁ hplace hs₁ hexit
    · exact .inl hall
    · exact .inr ⟨c, flushList, hc, hall⟩

/-- The background thread ends before the line is written. -/
theorem exit_before_write :
    ¬ ∀ s s₁ : State Bool, (machine Bool).Reachable s → s.place .background = .outerTest →
      (machine Bool).step s (.advance .background) = some s₁ →
      s₁.place .background = .finished → s₁.enqueued <+: s₁.written := by
  intro hall
  obtain ⟨s, s₁, hs, hplace, hs₁, hexit, henqueued, hwritten⟩ := run_stopWhileFlushing
  have hpre := hall s s₁ ⟨_, hs⟩ hplace hs₁ hexit
  rw [henqueued, hwritten] at hpre
  exact absurd (List.prefix_nil.mp hpre) (List.cons_ne_nil _ _)

end Exit

end LoggingDevice

end SafeKiddo
