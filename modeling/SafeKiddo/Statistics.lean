import Mathlib.Data.List.Induction
import Mathlib.Logic.Function.Basic
import SafeKiddo.Lib.Machine
import SafeKiddo.TypedInteger

/-!
# Statistics

The hits of the backend by their source, from the workers that count them to the statistics file:
`HitBySourceStatisticsSender` with the loop of its thread, and `StatisticsGatherer` with the loop of
the printing thread, as one machine. A step is a critical section, or what a thread does when a wait
ends. The file is reopened and the threads are stopped at any time.

The account of a run says what the file should show: a printing shows the hits of one moment of the
run, which is the last sending that was delivered.

Results:
1. `tracks_of_run`: the counters, the messages on the way, the containers and the file agree with
   the account.
2. `printed_values`: all sources are printed as of the same moments, in their order, and what is
   printed as a difference is the difference of two moments.
3. `printed_exactly`: as long as a counter fits the signed messages, no maximum is above the last
   value, no difference is negative, and the differences add up to the hits.
-/

namespace SafeKiddo

open ByteString

namespace Statistics

/-! ## 1. The code -/

/-- `StatisticsTypeEnum`, in the order of the map. -/
inductive StatisticsType
  | bcBcapMap
  | bcRtuMap
  | unset
  | localIp
  | rtuCache
  | localDb
  | bcapCache
  | bcap
  | webrootOverride
  deriving DecidableEq

def StatisticsType.all : List StatisticsType :=
  [.bcBcapMap, .bcRtuMap, .unset, .localIp, .rtuCache, .localDb, .bcapCache, .bcap,
    .webrootOverride]

/-- `os << type` -/
def StatisticsType.text : StatisticsType → Bytes
  | .bcBcapMap => bytes "bcBcapMap"
  | .bcRtuMap => bytes "bcRtuMap"
  | .unset => bytes "unset"
  | .localIp => bytes "localIp"
  | .rtuCache => bytes "rtuCache"
  | .localDb => bytes "localDb"
  | .bcapCache => bytes "bcapCache"
  | .bcap => bytes "bcap"
  | .webrootOverride => bytes "webrootOverride"

structure StatisticsMessage where
  time : Int
  type : StatisticsType
  value : Int32

structure StatisticsContainer where
  maxPair : Int × Int32
  lastPair : Int × Int32
  recentlyPrintedLastValue : Int32

namespace StatisticsContainer

/-- With a reading of the clock. -/
def new (now : Int) : StatisticsContainer := ⟨(now, 0), (now, 0), 0⟩

def differenceBetweenPrintings (self : StatisticsContainer) : Int32 :=
  self.lastPair.2 - self.recentlyPrintedLastValue

def resetRecent (self : StatisticsContainer) : StatisticsContainer :=
  { self with recentlyPrintedLastValue := self.lastPair.2 }

def add (self : StatisticsContainer) (time : Int) (value : Int32) : StatisticsContainer :=
  let self := { self with lastPair := (time, value) }
  if value > self.maxPair.2 then { self with maxPair := self.lastPair } else self

end StatisticsContainer

/-- Where a hit comes from: a classification source, or an override. -/
inductive HitSource
  | unset
  | localIp
  | rtuCache
  | localDb
  | bcapCache
  | bcap
  | webrootOverride
  deriving DecidableEq

def HitSource.type : HitSource → StatisticsType
  | .unset => .unset
  | .localIp => .localIp
  | .rtuCache => .rtuCache
  | .localDb => .localDb
  | .bcapCache => .bcapCache
  | .bcap => .bcap
  | .webrootOverride => .webrootOverride

/-- The messages are signed, and the counters are not. Each message reads the clock. -/
def getMessages (counters : HitSource → UInt32) (now : HitSource → Int) :
    List StatisticsMessage :=
  [HitSource.unset, .localIp, .rtuCache, .localDb, .bcapCache, .bcap, .webrootOverride].map
    fun source => ⟨now source, source.type, (counters source).toInt32⟩

inductive ValueName
  | last
  | maximum
  | difference
  deriving DecidableEq

def ValueName.text : ValueName → Bytes
  | .last => bytes "last value"
  | .maximum => bytes "maximum value"
  | .difference => bytes "difference since last printing"

structure LogLine where
  type : StatisticsType
  time : Int
  valueName : ValueName
  value : Int32
  deriving DecidableEq

/-- `createLogLine`, with the local time as a text. -/
def LogLine.text (timeStr : Int → Bytes) (line : LogLine) : Bytes :=
  bytes "[" ++ line.type.text ++ bytes "] " ++ line.valueName.text ++ bytes ": " ++
    intText line.value.toInt ++ bytes " at " ++ timeStr line.time ++ bytes "\n"

/-- What is written to the file. -/
inductive Entry
  | statsStart
  | statsEnd
  | printingStarted
  | printingStopped
  | log (line : LogLine)
  deriving DecidableEq

abbrev StatisticsMap := StatisticsType → Option StatisticsContainer

def printContainer (type : StatisticsType) (now : Int) (self : StatisticsContainer) :
    List LogLine :=
  [⟨type, self.lastPair.1, .last, self.lastPair.2⟩,
    ⟨type, self.maxPair.1, .maximum, self.maxPair.2⟩,
    ⟨type, now, .difference, self.differenceBetweenPrintings⟩]

/-- What `printAllStats` writes, with the readings of the clock. -/
def printAllStats (map : StatisticsMap) (now : StatisticsType → Int) : List LogLine :=
  StatisticsType.all.flatMap fun type => ((map type).map (printContainer type (now type))).getD []

/-- `statisticsMap[type].add(time, value)`. The clock is read for a new container. -/
def receiveMessage (now : StatisticsType → Int) (map : StatisticsMap)
    (message : StatisticsMessage) : StatisticsMap :=
  Function.update map message.type
    (some (((map message.type).getD (.new (now message.type))).add message.time message.value))

def receiveStatistics (now : StatisticsType → Int) (map : StatisticsMap)
    (values : List StatisticsMessage) : StatisticsMap :=
  values.foldl (receiveMessage now) map

/-- Where the thread of the sender is in `sendStatisticsLoop`. -/
inductive SenderPlace
  | notStarted
  | gathering
  | delivering (messages : List StatisticsMessage)
  | waiting
  | finished

/-- Where the printing thread is in `printStatisticsLoop`. -/
inductive PrinterPlace
  | notStarted
  | printing
  | waiting
  | finalPrinting
  | finished

structure State where
  counters : HitSource → UInt32
  sender : SenderPlace
  senderStopped : Bool
  statisticsMap : StatisticsMap
  printer : PrinterPlace
  stopped : Bool
  forceReopenRequired : Bool
  outfile : List Entry

inductive Label
  /-- A worker counts a hit. -/
  | hit (source : HitSource)
  | startStatisticsSending
  | getMessages (now : HitSource → Int)
  | receiveStatistics (now : StatisticsType → Int)
  /-- The wait of the sender is over: its time is up, or it is to stop. -/
  | senderWakes
  | stopSender
  /-- Webroot sends its own statistics. -/
  | receiveOther (now : StatisticsType → Int) (values : List StatisticsMessage)
  | startPrinting
  | printAllStats (now : StatisticsType → Int)
  /-- The wait of the printing thread is over. -/
  | printerWakes
  | reopen
  | stopPrinting

/-- The types that the sender does not send. -/
def isOther (type : StatisticsType) : Bool := type = .bcBcapMap || type = .bcRtuMap

namespace State

def init : State where
  counters _ := 0
  sender := .notStarted
  senderStopped := false
  statisticsMap _ := none
  printer := .notStarted
  stopped := true
  forceReopenRequired := false
  outfile := [.statsStart]

def write (s : State) (entries : List Entry) : State := { s with outfile := s.outfile ++ entries }

def print (s : State) (now : StatisticsType → Int) : State :=
  { s with statisticsMap := fun type => (s.statisticsMap type).map .resetRecent }.write
    ((Statistics.printAllStats s.statisticsMap now).map .log)

def printerWakes (s : State) : State :=
  if s.stopped then { s with printer := .finalPrinting }
  else if s.forceReopenRequired then
    { s with forceReopenRequired := false, printer := .printing }.write [.statsEnd, .statsStart]
  else { s with printer := .printing }

def step (s : State) : Label → Option State
  | .hit source =>
    some { s with counters := Function.update s.counters source (s.counters source + 1) }
  | .startStatisticsSending =>
    match s.sender with
    | .notStarted => some { s with sender := .gathering }
    | _ => none
  | .getMessages now =>
    match s.sender with
    | .gathering => some { s with sender := .delivering (Statistics.getMessages s.counters now) }
    | _ => none
  | .receiveStatistics now =>
    match s.sender with
    | .delivering messages =>
      some { s with
        statisticsMap := Statistics.receiveStatistics now s.statisticsMap messages
        sender := .waiting }
    | _ => none
  | .senderWakes =>
    match s.sender with
    | .waiting => some { s with sender := if s.senderStopped then .finished else .gathering }
    | _ => none
  | .stopSender => some { s with senderStopped := true }
  | .receiveOther now values =>
    if values.all fun message => isOther message.type then
      some { s with statisticsMap := Statistics.receiveStatistics now s.statisticsMap values }
    else none
  | .startPrinting =>
    match s.printer with
    | .notStarted =>
      some ({ s with stopped := false, printer := .printing }.write [.printingStarted])
    | _ => none
  | .printAllStats now =>
    match s.printer with
    | .printing => some { s.print now with printer := .waiting }
    | .finalPrinting => some ({ s.print now with printer := .finished }.write [.printingStopped])
    | _ => none
  | .printerWakes =>
    match s.printer with
    | .waiting => some s.printerWakes
    | _ => none
  | .reopen => some { s with forceReopenRequired := true }
  | .stopPrinting => some { s with stopped := true }

end State

def machine : Machine State Label := ⟨.init, State.step⟩

/-! ## 2. The account -/

def isHit (source : HitSource) : Label → Bool
  | .hit source' => source' = source
  | _ => false

/-- How many hits of `source` are counted in a part of the run. -/
def hits (source : HitSource) (ls : List Label) : Nat := ls.countP (isHit source)

/-- A moment of the run is the steps taken until then. -/
structure Account where
  taken : List Label
  sent : List Label
  /-- `none`: nothing was received. -/
  received : Option (List Label)
  /-- The moments that were printed, the last one last. -/
  printed : List (List Label)

namespace Account

def step (a : Account) (l : Label) : Account :=
  let after := { a with taken := a.taken ++ [l] }
  match l with
  | .getMessages _ => { after with sent := a.taken }
  | .receiveStatistics _ => { after with received := some a.sent }
  | .printAllStats _ => { after with printed := a.printed ++ a.received.toList }
  | _ => after

def of (ls : List Label) : Account := ls.foldl step ⟨[], [], none, []⟩

theorem of_append (ls : List Label) (l : Label) : of (ls ++ [l]) = (of ls).step l := by
  rw [of, List.foldl_append]
  rfl

theorem step_taken (a : Account) (l : Label) : (a.step l).taken = a.taken ++ [l] := by
  cases l <;> rfl

theorem of_taken (ls : List Label) : (of ls).taken = ls := by
  induction ls using List.reverseRecOn with
  | nil => rfl
  | append_singleton ls l ih => rw [of_append, step_taken, ih]

/-- Each moment is before the next one. -/
structure Ordered (a : Account) : Prop where
  sent : a.sent <+: a.taken
  received : ∀ r ∈ a.received, r <+: a.sent
  printed : ∀ p ∈ a.printed, ∃ r ∈ a.received, p <+: r
  pairwise : a.printed.Pairwise (· <+: ·)

theorem Ordered.step {a : Account} (h : a.Ordered) (l : Label) : (a.step l).Ordered := by
  have hlater : a.sent <+: a.taken ++ [l] := h.sent.trans (List.prefix_append _ _)
  cases l with
  | getMessages now =>
    have hreceived : ∀ r ∈ a.received, r <+: a.taken :=
      fun r hr => (h.received r hr).trans h.sent
    exact ⟨List.prefix_append _ _, hreceived, h.printed, h.pairwise⟩
  | receiveStatistics now =>
    refine ⟨hlater, fun r hr => ?_, fun p hp => ?_, h.pairwise⟩
    · obtain rfl := Option.mem_some.mp hr
      exact List.prefix_refl _
    · obtain ⟨r, hr, hpr⟩ := h.printed p hp
      exact ⟨a.sent, rfl, hpr.trans (h.received r hr)⟩
  | printAllStats now =>
    refine ⟨hlater, h.received, fun p hp => ?_, ?_⟩
    · rcases List.mem_append.mp hp with hp | hp
      · exact h.printed p hp
      · exact ⟨p, Option.mem_toList.mp hp, List.prefix_refl _⟩
    · refine List.pairwise_append.mpr ⟨h.pairwise, by cases a.received <;> simp, ?_⟩
      intro p hp r hr
      obtain ⟨r', hr', hpr⟩ := h.printed p hp
      rwa [Option.mem_unique (Option.mem_toList.mp hr) hr']
  | _ => exact ⟨hlater, h.received, h.printed, h.pairwise⟩

theorem of_ordered (ls : List Label) : (of ls).Ordered := by
  induction ls using List.reverseRecOn with
  | nil => exact ⟨List.prefix_refl _, by simp [of], by simp [of], .nil⟩
  | append_singleton ls l ih =>
    rw [of_append]
    exact ih.step l

theorem prefix_of_printed {ls p : List Label} (h : p ∈ (of ls).printed) : p <+: ls := by
  have hordered := of_ordered ls
  obtain ⟨r, hr, hpr⟩ := hordered.printed p h
  have hsent := hordered.sent
  rw [of_taken] at hsent
  exact hpr.trans ((hordered.received r hr).trans hsent)

end Account

theorem hits_append (source : HitSource) (ls ls' : List Label) :
    hits source (ls ++ ls') = hits source ls + hits source ls' :=
  List.countP_append

theorem hits_mono {source : HitSource} {ls ls' : List Label} (h : ls <+: ls') :
    hits source ls ≤ hits source ls' :=
  h.sublist.countP_le

/-- What the messages of a moment say. -/
def valueAt (source : HitSource) (ls : List Label) : Int32 := Int32.ofNat (hits source ls)

/-! ## 3. What the file shows -/

def StatisticsContainer.value (self : StatisticsContainer) : ValueName → Int32
  | .last => self.lastPair.2
  | .maximum => self.maxPair.2
  | .difference => self.differenceBetweenPrintings

def Entry.valueOf (type : StatisticsType) (name : ValueName) : Entry → Option Int32
  | .log line => if line.type = type ∧ line.valueName = name then some line.value else none
  | _ => none

/-- The values that the file shows for `type` under a name. -/
def valuesOf (type : StatisticsType) (name : ValueName) (outfile : List Entry) : List Int32 :=
  outfile.filterMap (Entry.valueOf type name)

/-- Each value less the one before it. -/
def differences : Int32 → List Int32 → List Int32
  | _, [] => []
  | recent, value :: values => (value - recent) :: differences value values

theorem differences_append (recent value : Int32) (values : List Int32) :
    differences recent (values ++ [value]) =
      differences recent values ++ [value - values.getLast?.getD recent] := by
  induction values generalizing recent with
  | nil => rfl
  | cons v values ih =>
    rw [List.cons_append, differences, differences, ih, List.cons_append, List.getLast?_cons]
    rfl

section File

variable {type : StatisticsType} {name : ValueName}

theorem valuesOf_append (entries entries' : List Entry) :
    valuesOf type name (entries ++ entries') =
      valuesOf type name entries ++ valuesOf type name entries' :=
  List.filterMap_append

theorem valuesOf_printContainer (type' : StatisticsType) (now : Int) (c : StatisticsContainer) :
    valuesOf type name ((printContainer type' now c).map .log) =
      if type' = type then [c.value name] else [] := by
  by_cases h : type' = type
  · cases name <;> simp [valuesOf, printContainer, Entry.valueOf, StatisticsContainer.value, h]
  · simp [valuesOf, printContainer, Entry.valueOf, h]

/-- A printing shows each container once. -/
theorem valuesOf_printAllStats (map : StatisticsMap) (now : StatisticsType → Int) :
    valuesOf type name ((printAllStats map now).map .log) =
      ((map type).map (·.value name)).toList := by
  have hone : ∀ type', valuesOf type name
      (((map type').map (printContainer type' (now type'))).getD [] |>.map .log) =
      if type' = type then ((map type').map (·.value name)).toList else [] := by
    intro type'
    cases map type' with
    | none => simp [valuesOf]
    | some c => exact valuesOf_printContainer type' _ c
  have hall : valuesOf type name ((printAllStats map now).map .log) =
      StatisticsType.all.flatMap fun type' =>
        if type' = type then ((map type').map (·.value name)).toList else [] := by
    rw [printAllStats, List.map_flatMap, valuesOf, List.filterMap_flatMap]
    exact congrArg (StatisticsType.all.flatMap ·) (funext hone)
  rw [hall]
  cases type <;> simp [StatisticsType.all]

end File

section Containers

variable {now : StatisticsType → Int} {map : StatisticsMap}

theorem receiveMessage_of_ne {message : StatisticsMessage} {type : StatisticsType}
    (h : message.type ≠ type) : receiveMessage now map message type = map type :=
  Function.update_of_ne h.symm ..

theorem receiveStatistics_of_ne {values : List StatisticsMessage} {type : StatisticsType}
    (h : ∀ message ∈ values, message.type ≠ type) :
    receiveStatistics now map values type = map type := by
  induction values generalizing map with
  | nil => rfl
  | cons message values ih =>
    obtain ⟨hne, hrest⟩ := List.forall_mem_cons.mp h
    exact (ih hrest).trans (receiveMessage_of_ne hne)

/-- The messages of a sending have one for each source. -/
theorem receiveStatistics_getMessages (counters : HitSource → UInt32) (clock : HitSource → Int)
    (source : HitSource) :
    receiveStatistics now map (getMessages counters clock) source.type =
      some (((map source.type).getD (.new (now source.type))).add (clock source)
        (counters source).toInt32) := by
  cases source <;>
    simp [receiveStatistics, getMessages, receiveMessage, HitSource.type, Function.update]

theorem other_type {message : StatisticsMessage} (h : isOther message.type = true)
    (source : HitSource) : message.type ≠ source.type := by
  intro heq
  rw [heq] at h
  cases source <;> cases h

end Containers

/-! ## 4. Each run agrees with its account -/

theorem valueAt_mono {source : HitSource} {ls ls' : List Label} (h : ls <+: ls')
    (hfew : hits source ls' < 2 ^ 31) : valueAt source ls ≤ valueAt source ls' := by
  have hmono : hits source ls ≤ hits source ls' := hits_mono h
  rw [valueAt, valueAt, Int32.le_iff_toInt_le, Int32.toInt_ofNat_of_lt (by omega),
    Int32.toInt_ofNat_of_lt hfew]
  exact Int.ofNat_le.mpr hmono

theorem add_of_le {c : StatisticsContainer} {time : Int} {value : Int32}
    (h : c.maxPair.2 ≤ value) : (c.add time value).maxPair.2 = value := by
  unfold StatisticsContainer.add
  simp only
  split
  · rfl
  · next hle => exact Int32.le_antisymm h (Int32.not_lt.mp hle)

theorem add_lastPair (c : StatisticsContainer) (time : Int) (value : Int32) :
    (c.add time value).lastPair = (time, value) := by
  unfold StatisticsContainer.add
  simp only
  split <;> rfl

theorem add_recent (c : StatisticsContainer) (time : Int) (value : Int32) :
    (c.add time value).recentlyPrintedLastValue = c.recentlyPrintedLastValue := by
  unfold StatisticsContainer.add
  simp only
  split <;> rfl

/-- The container of a source, with what was received and printed. -/
structure Holds (source : HitSource) (a : Account) (container : Option StatisticsContainer) :
    Prop where
  last : container.map (·.lastPair.2) = a.received.map (valueAt source)
  recent : ∀ c ∈ container,
    c.recentlyPrintedLastValue = (a.printed.map (valueAt source)).getLast?.getD 0
  maximum : hits source a.taken < 2 ^ 31 → ∀ c ∈ container, c.maxPair.2 = c.lastPair.2

/-- The lines of a source in the file, with what was printed. -/
structure Shows (source : HitSource) (a : Account) (outfile : List Entry) : Prop where
  last : valuesOf source.type .last outfile = a.printed.map (valueAt source)
  difference : valuesOf source.type .difference outfile =
    differences 0 (a.printed.map (valueAt source))
  maximum : hits source a.taken < 2 ^ 31 →
    valuesOf source.type .maximum outfile = a.printed.map (valueAt source)

structure Tracks (source : HitSource) (a : Account) (s : State) : Prop where
  counters : s.counters source = UInt32.ofNat (hits source a.taken)
  delivering : ∀ messages, s.sender = .delivering messages → ∃ counters now,
    messages = getMessages counters now ∧ counters source = UInt32.ofNat (hits source a.sent)
  holds : Holds source a (s.statisticsMap source.type)
  shows : Shows source a s.outfile

section Steps

variable {source : HitSource} {a : Account} {s : State}

theorem few_of_append {ls : List Label} {l : Label} (h : hits source (ls ++ [l]) < 2 ^ 31) :
    hits source ls < 2 ^ 31 :=
  Nat.lt_of_le_of_lt (hits_mono (List.prefix_append _ _)) h

/-- What is no line of a source may be written. -/
theorem Shows.write {outfile entries : List Entry} (h : Shows source a outfile)
    (hentries : ∀ name, valuesOf source.type name entries = []) :
    Shows source a (outfile ++ entries) := by
  have happend : ∀ name, valuesOf source.type name (outfile ++ entries) =
      valuesOf source.type name outfile := by
    intro name
    rw [valuesOf_append, hentries, List.append_nil]
  exact ⟨(happend _).trans h.last, (happend _).trans h.difference,
    fun hfew => (happend _).trans (h.maximum hfew)⟩

/-- More steps taken, and nothing printed. -/
theorem Shows.later {outfile : List Entry} {a' : Account} {l : Label}
    (h : Shows source a outfile) (htaken : a'.taken = a.taken ++ [l])
    (hprinted : a'.printed = a.printed) : Shows source a' outfile := by
  refine ⟨hprinted ▸ h.last, hprinted ▸ h.difference, fun hfew => ?_⟩
  rw [htaken] at hfew
  exact hprinted ▸ h.maximum (few_of_append hfew)

theorem Holds.later {container : Option StatisticsContainer} {a' : Account} {l : Label}
    (h : Holds source a container) (htaken : a'.taken = a.taken ++ [l])
    (hreceived : a'.received = a.received) (hprinted : a'.printed = a.printed) :
    Holds source a' container := by
  refine ⟨?_, ?_, fun hfew => ?_⟩
  · rw [hreceived, h.last]
  · rw [hprinted]
    exact h.recent
  · rw [htaken] at hfew
    exact h.maximum (few_of_append hfew)

/-- A sending is delivered: the container is made or gets its next value. -/
theorem Holds.receive {container : Option StatisticsContainer} {a' : Account} {l : Label}
    (h : Holds source a container) (ha : a.Ordered) (htaken : a'.taken = a.taken ++ [l])
    (hreceived : a'.received = some a.sent) (hprinted : a'.printed = a.printed) (now time : Int) :
    Holds source a' (some ((container.getD (.new now)).add time (valueAt source a.sent))) := by
  refine ⟨?_, fun c hc => ?_, fun hfew c hc => ?_⟩
  · rw [hreceived, Option.map_some, Option.map_some, add_lastPair]
  · obtain rfl := Option.mem_some.mp hc
    rw [add_recent, hprinted]
    cases container with
    | some c => exact h.recent c rfl
    | none =>
      -- Nothing was received, and so nothing was printed.
      have hnone : a.received = none := Option.map_eq_none_iff.mp h.last.symm
      have hempty : a.printed = [] := by
        refine List.eq_nil_iff_forall_not_mem.mpr fun p hp => ?_
        obtain ⟨r, hr, -⟩ := ha.printed p hp
        rw [hnone] at hr
        cases hr
      rw [hempty]
      rfl
  · obtain rfl := Option.mem_some.mp hc
    rw [htaken] at hfew
    have hsent : hits source a.sent < 2 ^ 31 :=
      Nat.lt_of_le_of_lt (hits_mono ha.sent) (few_of_append hfew)
    have hle : (container.getD (.new now)).maxPair.2 ≤ valueAt source a.sent := by
      cases hcontainer : container with
      | none => exact Int32.zero_le_ofNat_of_lt hsent
      | some c =>
        have hlast := h.last
        rw [hcontainer, Option.map_some] at hlast
        obtain ⟨r, hr, hvalue⟩ := Option.map_eq_some_iff.mp hlast.symm
        rw [Option.getD_some, h.maximum (few_of_append hfew) c hcontainer, ← hvalue]
        exact valueAt_mono (ha.received r hr) hsent
    rw [add_of_le hle, add_lastPair]

/-- A printing takes what was received over to what was printed. -/
theorem Holds.print {container : Option StatisticsContainer} {a' : Account} {l : Label}
    (h : Holds source a container) (htaken : a'.taken = a.taken ++ [l])
    (hreceived : a'.received = a.received)
    (hprinted : a'.printed = a.printed ++ a.received.toList) :
    Holds source a' (container.map .resetRecent) := by
  refine ⟨?_, fun c hc => ?_, fun hfew c hc => ?_⟩
  · rw [Option.map_map, hreceived, ← h.last]
    rfl
  · obtain ⟨c, hcontainer, rfl⟩ := Option.map_eq_some_iff.mp hc
    have hlast := h.last
    rw [hcontainer, Option.map_some] at hlast
    obtain ⟨r, hr, hvalue⟩ := Option.map_eq_some_iff.mp hlast.symm
    rw [hprinted, hr, Option.toList_some, List.map_append, List.map_singleton,
      List.getLast?_concat, Option.getD_some, hvalue]
    rfl
  · obtain ⟨c, hcontainer, rfl⟩ := Option.map_eq_some_iff.mp hc
    rw [htaken] at hfew
    exact h.maximum (few_of_append hfew) c hcontainer

theorem Shows.print {outfile : List Entry} {map : StatisticsMap} {a' : Account} {l : Label}
    (h : Shows source a outfile) (hholds : Holds source a (map source.type))
    (htaken : a'.taken = a.taken ++ [l]) (hprinted : a'.printed = a.printed ++ a.received.toList)
    (now : StatisticsType → Int) :
    Shows source a' (outfile ++ (printAllStats map now).map .log) := by
  have hlast := hholds.last
  cases hcontainer : map source.type with
  | none =>
    rw [hcontainer, Option.map_none] at hlast
    have hnone : a.received = none := Option.map_eq_none_iff.mp hlast.symm
    rw [hnone, Option.toList_none, List.append_nil] at hprinted
    refine (h.later htaken hprinted).write fun name => ?_
    rw [valuesOf_printAllStats, hcontainer]
    rfl
  | some c =>
    rw [hcontainer, Option.map_some] at hlast
    obtain ⟨r, hr, hvalue⟩ := Option.map_eq_some_iff.mp hlast.symm
    rw [hr, Option.toList_some] at hprinted
    refine ⟨?_, ?_, fun hfew => ?_⟩
    · rw [valuesOf_append, valuesOf_printAllStats, hcontainer, h.last, hprinted, List.map_append,
        List.map_singleton, hvalue]
      rfl
    · rw [valuesOf_append, valuesOf_printAllStats, hcontainer, h.difference, hprinted,
        List.map_append, List.map_singleton, differences_append, hvalue,
        ← hholds.recent c hcontainer]
      rfl
    · rw [htaken] at hfew
      have hmaximum := hholds.maximum (few_of_append hfew) c hcontainer
      rw [valuesOf_append, valuesOf_printAllStats, hcontainer, h.maximum (few_of_append hfew),
        hprinted, List.map_append, List.map_singleton, hvalue, ← hmaximum]
      rfl

theorem hits_step {l : Label} (hl : isHit source l = false) :
    hits source (a.step l).taken = hits source a.taken := by
  rw [Account.step_taken, hits_append, hits, hits, List.countP_singleton, hl]
  rfl

/-- A step that only writes what is no line of a source, and moves the threads. -/
theorem Tracks.frame {s' : State} {l : Label} (entries : List Entry) (h : Tracks source a s)
    (hl : isHit source l = false)
    (haccount : a.step l = { a with taken := a.taken ++ [l] })
    (hcounters : s'.counters source = s.counters source)
    (hsender : ∀ messages, s'.sender = .delivering messages → s.sender = .delivering messages)
    (hmap : s'.statisticsMap source.type = s.statisticsMap source.type)
    (hfile : s'.outfile = s.outfile ++ entries)
    (hentries : ∀ name, valuesOf source.type name entries = []) :
    Tracks source (a.step l) s' := by
  refine ⟨?_, fun messages hm => ?_, ?_, ?_⟩
  · rw [hcounters, hits_step hl, h.counters]
  · rw [haccount]
    exact h.delivering messages (hsender messages hm)
  · rw [haccount, hmap]
    exact h.holds.later rfl rfl rfl
  · rw [haccount, hfile]
    refine Shows.write ?_ hentries
    exact h.shows.later rfl rfl

/-- A step that neither counts nor delivers nor writes. -/
theorem Tracks.quiet {s' : State} {l : Label} (h : Tracks source a s)
    (hl : isHit source l = false)
    (haccount : a.step l = { a with taken := a.taken ++ [l] })
    (hcounters : s'.counters = s.counters)
    (hsender : ∀ messages, s'.sender = .delivering messages → s.sender = .delivering messages)
    (hmap : s'.statisticsMap source.type = s.statisticsMap source.type)
    (hfile : s'.outfile = s.outfile) : Tracks source (a.step l) s' :=
  h.frame [] hl haccount (congrFun hcounters source) hsender hmap
    (hfile.trans (List.append_nil _).symm) fun _ => rfl

theorem Tracks.hit (h : Tracks source a s) (source' : HitSource) :
    Tracks source (a.step (.hit source'))
      { s with counters := Function.update s.counters source' (s.counters source' + 1) } := by
  refine ⟨?_, h.delivering, h.holds.later rfl rfl rfl, h.shows.later rfl rfl⟩
  by_cases heq : source' = source
  · subst heq
    show Function.update s.counters source' (s.counters source' + 1) source' = _
    rw [Account.step_taken, hits_append, Function.update_self, h.counters, UInt32.ofNat_add]
    simp [hits, isHit]
  · have hother : isHit source (.hit source') = false := decide_eq_false heq
    show Function.update s.counters source' (s.counters source' + 1) source = _
    rw [hits_step hother, Function.update_of_ne (Ne.symm heq), h.counters]

theorem Tracks.receiveStatistics {messages : List StatisticsMessage} (h : Tracks source a s)
    (ha : a.Ordered) (hsender : s.sender = .delivering messages)
    (now : StatisticsType → Int) :
    Tracks source (a.step (.receiveStatistics now))
      { s with
        statisticsMap := Statistics.receiveStatistics now s.statisticsMap messages
        sender := .waiting } := by
  obtain ⟨counters, clock, rfl, hcounters⟩ := h.delivering messages hsender
  refine ⟨?_, nofun, ?_, h.shows.later rfl rfl⟩
  · rw [hits_step rfl, h.counters]
  · show Holds source _ (Statistics.receiveStatistics now s.statisticsMap _ source.type)
    rw [receiveStatistics_getMessages, hcounters, UInt32.toInt32_ofNat']
    refine h.holds.receive (l := .receiveStatistics now) ha ?_ ?_ ?_ _ _ <;> rfl

theorem Tracks.print (h : Tracks source a s) (now : StatisticsType → Int) :
    Tracks source (a.step (.printAllStats now)) (s.print now) := by
  refine ⟨?_, h.delivering, h.holds.print rfl rfl rfl, h.shows.print h.holds rfl rfl now⟩
  rw [hits_step rfl]
  exact h.counters

theorem Tracks.printerWakes (h : Tracks source a s) :
    Tracks source (a.step .printerWakes) s.printerWakes := by
  unfold State.printerWakes
  split
  · exact h.quiet rfl rfl rfl (fun _ => id) rfl rfl
  split
  · exact h.frame [.statsEnd, .statsStart] rfl rfl rfl (fun _ => id) rfl rfl fun _ => rfl
  · exact h.quiet rfl rfl rfl (fun _ => id) rfl rfl

theorem Tracks.step {s' : State} {l : Label} (h : Tracks source a s) (ha : a.Ordered)
    (hs : s.step l = some s') : Tracks source (a.step l) s' := by
  cases l with
  | hit source' =>
    cases hs
    exact h.hit source'
  | startStatisticsSending =>
    simp only [State.step] at hs
    split at hs <;> cases hs
    exact h.quiet rfl rfl rfl nofun rfl rfl
  | getMessages now =>
    simp only [State.step] at hs
    split at hs <;> cases hs
    refine ⟨?_, fun messages hm => ?_, h.holds.later rfl rfl rfl, h.shows.later rfl rfl⟩
    · rw [hits_step rfl, h.counters]
    · cases hm
      exact ⟨s.counters, now, rfl, h.counters⟩
  | receiveStatistics now =>
    simp only [State.step] at hs
    split at hs <;> cases hs
    next messages hsender => exact h.receiveStatistics ha hsender now
  | senderWakes =>
    simp only [State.step] at hs
    split at hs <;> cases hs
    refine h.quiet rfl rfl rfl (fun messages hm => ?_) rfl rfl
    simp only at hm
    split at hm <;> cases hm
  | stopSender =>
    cases hs
    exact h.quiet rfl rfl rfl (fun _ => id) rfl rfl
  | receiveOther now values =>
    simp only [State.step] at hs
    split at hs <;> cases hs
    next hother =>
    have hmap : Statistics.receiveStatistics now s.statisticsMap values source.type =
        s.statisticsMap source.type :=
      receiveStatistics_of_ne fun message hm =>
        other_type (List.all_eq_true.mp hother message hm) source
    exact h.quiet rfl rfl rfl (fun _ => id) hmap rfl
  | startPrinting =>
    simp only [State.step] at hs
    split at hs <;> cases hs
    exact h.frame [.printingStarted] rfl rfl rfl (fun _ => id) rfl rfl fun _ => rfl
  | printAllStats now =>
    have hprint := h.print now
    simp only [State.step] at hs
    split at hs <;> cases hs
    · exact ⟨hprint.counters, hprint.delivering, hprint.holds, hprint.shows⟩
    · exact ⟨hprint.counters, hprint.delivering, hprint.holds,
        hprint.shows.write fun _ => rfl⟩
  | printerWakes =>
    simp only [State.step] at hs
    split at hs <;> cases hs
    exact h.printerWakes
  | reopen =>
    cases hs
    exact h.quiet rfl rfl rfl (fun _ => id) rfl rfl
  | stopPrinting =>
    cases hs
    exact h.quiet rfl rfl rfl (fun _ => id) rfl rfl

end Steps

theorem tracks_of_run {ls : List Label} {s : State} (h : machine.run machine.init ls = some s)
    (source : HitSource) : Tracks source (.of ls) s := by
  have hinit : Tracks source (.of []) machine.init :=
    ⟨rfl, nofun, ⟨rfl, nofun, nofun⟩, ⟨rfl, rfl, fun _ => rfl⟩⟩
  have hstep : ∀ ls s l s', Tracks source (.of ls) s → machine.step s l = some s' →
      Tracks source (.of (ls ++ [l])) s' := by
    intro ls s l s' hs hl
    rw [Account.of_append]
    exact hs.step (Account.of_ordered ls) hl
  exact Machine.run_history hstep hinit h

/-! ## 5. Printings -/

/-- The sum of the differences is what was printed last. -/
theorem sum_differences (recent : Int32) (values : List Int32) :
    recent + (differences recent values).sum = values.getLast?.getD recent := by
  induction values generalizing recent with
  | nil => exact Int32.add_zero recent
  | cons value values ih =>
    rw [differences, List.sum_cons, ← Int32.add_assoc, Int32.add_comm recent,
      Int32.sub_add_cancel, ih, List.getLast?_cons]
    rfl

/-- Every source is printed as of the same moments of the run, one after the other. What is printed
as a difference is the difference of two moments, and the differences add up to what was printed
last. -/
theorem printed_values {ls : List Label} {s : State}
    (h : machine.run machine.init ls = some s) :
    (Account.of ls).printed.Pairwise (· <+: ·) ∧ (∀ p ∈ (Account.of ls).printed, p <+: ls) ∧
    ∀ source : HitSource,
      valuesOf source.type .last s.outfile = (Account.of ls).printed.map (valueAt source) ∧
      valuesOf source.type .difference s.outfile =
        differences 0 ((Account.of ls).printed.map (valueAt source)) ∧
      (valuesOf source.type .difference s.outfile).sum =
        (valuesOf source.type .last s.outfile).getLast?.getD 0 := by
  refine ⟨(Account.of_ordered ls).pairwise, fun p => Account.prefix_of_printed, fun source => ?_⟩
  have hshows := (tracks_of_run h source).shows
  refine ⟨hshows.last, hshows.difference, ?_⟩
  rw [hshows.difference, hshows.last, ← sum_differences, Int32.zero_add]

/-- Two printings, with a hit between the sending and the first of them. -/
def twoPrintings : List Label :=
  [.startStatisticsSending, .startPrinting, .hit .bcap, .getMessages fun _ => 1, .hit .bcap,
    .receiveStatistics fun _ => 2, .printAllStats fun _ => 3, .senderWakes,
    .getMessages fun _ => 4, .receiveStatistics fun _ => 4, .printerWakes,
    .printAllStats fun _ => 5]

theorem printed_values_two : ∃ s, machine.run machine.init twoPrintings = some s ∧
    valuesOf .bcap .last s.outfile = [1, 2] ∧ valuesOf .bcap .difference s.outfile = [1, 1] := by
  have hrun : machine.run machine.init twoPrintings = some _ := rfl
  obtain ⟨-, -, hvalues⟩ := printed_values hrun
  obtain ⟨hlast, hdifference, -⟩ := hvalues .bcap
  exact ⟨_, hrun, hlast.trans (by decide), hdifference.trans (by decide)⟩

section Exactly

variable {source : HitSource}

/-- The integers that are printed, where no counter is too large. -/
theorem toInt_differences (moment : List Label) {moments : List (List Label)}
    (hfew : ∀ p ∈ moments, hits source p < 2 ^ 31) (hmoment : hits source moment < 2 ^ 31)
    (hbefore : ∀ p ∈ moments, moment <+: p) (hpairwise : moments.Pairwise (· <+: ·)) :
    (∀ d ∈ differences (valueAt source moment) (moments.map (valueAt source)), 0 ≤ d.toInt) ∧
    ((differences (valueAt source moment) (moments.map (valueAt source))).map Int32.toInt).sum =
      hits source (moments.getLast?.getD moment) - hits source moment := by
  induction moments generalizing moment with
  | nil => exact ⟨nofun, (Int.sub_self _).symm⟩
  | cons p moments ih =>
    obtain ⟨hp, hfew⟩ := List.forall_mem_cons.mp hfew
    obtain ⟨hnext, hpairwise⟩ := List.pairwise_cons.mp hpairwise
    obtain ⟨hnonneg, hsum⟩ := ih p hfew hp hnext hpairwise
    have hle : moment <+: p := hbefore p List.mem_cons_self
    have hone : (valueAt source p - valueAt source moment).toInt =
        hits source p - hits source moment := by
      have hzero : 0 ≤ valueAt source moment := Int32.zero_le_ofNat_of_lt hmoment
      rw [Int32.toInt_sub_of_le _ _ hzero (valueAt_mono hle hp), valueAt, valueAt,
        Int32.toInt_ofNat_of_lt hp, Int32.toInt_ofNat_of_lt hmoment]
    have hmono : hits source moment ≤ hits source p := hits_mono hle
    rw [List.map_cons, differences]
    refine ⟨List.forall_mem_cons.mpr ⟨by rw [hone]; omega, hnonneg⟩, ?_⟩
    rw [List.map_cons, List.sum_cons, hone, hsum, List.getLast?_cons, Option.getD_some]
    omega

end Exactly

/-- As long as the hits of a source fit the signed messages, its values are the hits of the moments
that were printed, the maximum is the last value, no difference is negative, and the differences add
up to the hits of the moment that was printed last. -/
theorem printed_exactly {ls : List Label} {s : State} (source : HitSource)
    (hfew : hits source ls < 2 ^ 31) (h : machine.run machine.init ls = some s) :
    (valuesOf source.type .last s.outfile).map Int32.toInt =
      (Account.of ls).printed.map (fun p => (hits source p : Int)) ∧
    valuesOf source.type .maximum s.outfile = valuesOf source.type .last s.outfile ∧
    (∀ d ∈ valuesOf source.type .difference s.outfile, 0 ≤ d.toInt) ∧
    ((valuesOf source.type .difference s.outfile).map Int32.toInt).sum =
      hits source ((Account.of ls).printed.getLast?.getD []) := by
  have hshows := (tracks_of_run h source).shows
  have hordered := Account.of_ordered ls
  have hprinted : ∀ p ∈ (Account.of ls).printed, hits source p < 2 ^ 31 := fun p hp =>
    Nat.lt_of_le_of_lt (hits_mono (Account.prefix_of_printed hp)) hfew
  have hsum := toInt_differences [] hprinted (Nat.two_pow_pos 31) (fun p _ => List.nil_prefix)
    hordered.pairwise
  refine ⟨?_, ?_, ?_, ?_⟩
  · rw [hshows.last, List.map_map]
    exact List.map_congr_left fun p hp => Int32.toInt_ofNat_of_lt (hprinted p hp)
  · rw [hshows.last]
    refine hshows.maximum ?_
    rwa [Account.of_taken]
  · rw [hshows.difference]
    exact hsum.1
  · rw [hshows.difference]
    exact hsum.2.trans (Int.sub_zero _)

theorem printed_exactly_two : ∃ s, machine.run machine.init twoPrintings = some s ∧
    valuesOf .bcap .maximum s.outfile = valuesOf .bcap .last s.outfile ∧
    ((valuesOf .bcap .difference s.outfile).map Int32.toInt).sum = 2 := by
  have hrun : machine.run machine.init twoPrintings = some _ := rfl
  obtain ⟨-, hmaximum, -, hsum⟩ := printed_exactly .bcap (by decide) hrun
  exact ⟨_, hrun, hmaximum, hsum.trans (by decide)⟩

end Statistics

end SafeKiddo
