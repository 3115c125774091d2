import SafeKiddo.Lib.Leases
import SafeKiddo.Lib.Machine
import SafeKiddo.WsRequest

/-!
# Connections to the web service

Any number of threads in `wsRequest`, with the connections of `TcpCache`, as a machine. A step is a
critical section of the cache, one call of `TcpSocket::write` or `TcpSocket::read` with the wait
after it, or an answer of the service. The operating system decides what a call returns.

Results:
1. `Effect`, `effect_of_step`: what one step can do.
2. `Inv`: which thread has which connection, and how much of a response has been read.
3. `own_answer`: each call that succeeds has got the answer to its own request.
-/

namespace SafeKiddo

open ByteString

namespace WsConnections

open Framing (IsMessage Whole)
open Leases (Valid Gone Moves)
open WsRequest

/-! ## 1. The code -/

/-- A connection, seen from the plugin: what was sent, what the service has answered, and how many
bytes of that were received. -/
structure Conn where
  sent : Bytes
  responses : List WsResponse
  received : Nat

namespace Conn

def new : Conn := ⟨[], [], 0⟩

def stream (conn : Conn) : Bytes := conn.responses.flatMap WsResponse.text

def unread (conn : Conn) : Bytes := conn.stream.drop conn.received

end Conn

/-- `cache_entry_`. The connections are numbered as they are created. -/
structure CacheEntry where
  sock : Nat
  validTill : UInt64

/-- The connection of a call. The other fields are not in the code: what had been sent on it before
the call, and what the call has written. -/
structure Use where
  socket : Nat
  before : Bytes
  written : Bytes

/-- Where a thread is in `wsRequest`. -/
inductive Place
  | idle
  /-- Before the critical section of `TcpCache::connect`. -/
  | connecting (query : Query)
  /-- In `createNewConnection`. -/
  | creating (query : Query)
  /-- In the loop of `writeWsRequest`, with the bytes that are left. -/
  | writing (query : Query) (use : Use) (buf : Bytes)
  /-- In the loop of `readWsResponse`, with the bytes that have come in. -/
  | reading (query : Query) (use : Use) (buf : Bytes)
  /-- Before `TcpCache::add`. -/
  | adding (query : Query) (use : Use) (ret : Int)

/-- A call that has returned. -/
structure Finished where
  query : Query
  use : Option Use
  ret : Int

structure State (T : Type) where
  list : List CacheEntry
  place : T → Place
  conns : Nat → Conn
  created : Nat
  finished : List Finished

inductive Label (T : Type)
  | call (t : T) (query : Query)
  /-- With the reading of the clock. -/
  | connect (t : T) (now : UInt64)
  | create (t : T) (ok : Bool)
  /-- With what `write` and `waitWrite` return. -/
  | write (t : T) (wr wait : Int)
  /-- With what `read` and `waitRead` return. -/
  | read (t : T) (rd wait : Int)
  | add (t : T) (now : UInt64)
  /-- The service answers the next request of a connection. -/
  | answer (socket : Nat) (response : WsResponse)

def EAGAIN : Int := 11

/-- Whose arguments are text for one line. -/
def Label.clean {T : Type} : Label T → Bool
  | .call _ query => query.clean
  | _ => true

section Code

variable {T : Type} [DecidableEq T]

namespace State

def init : State T where
  list := []
  place _ := .idle
  conns _ := .new
  created := 0
  finished := []

def goto (s : State T) (t : T) (p : Place) : State T :=
  { s with place := Function.update s.place t p }

def setConn (s : State T) (socket : Nat) (conn : Conn) : State T :=
  { s with conns := Function.update s.conns socket conn }

def received (s : State T) (socket n : Nat) : State T :=
  s.setConn socket { s.conns socket with received := (s.conns socket).received + n }

/-- `wsRequest` returns. The connection is closed, unless it is in the cache. -/
def finish (s : State T) (t : T) (query : Query) (use : Option Use) (ret : Int) : State T :=
  { s.goto t .idle with finished := s.finished ++ [⟨query, use, ret⟩] }

/-- The condition of the loop of `writeWsRequest`. -/
def whileLen (s : State T) (t : T) (query : Query) (use : Use) (buf : Bytes) : State T :=
  s.goto t (if buf = [] then .reading query use [] else .writing query use buf)

def startWrite (host : Bytes) (s : State T) (t : T) (query : Query) (socket : Nat) : State T :=
  s.whileLen t query ⟨socket, (s.conns socket).sent, []⟩ (requestText host query)

/-- `TcpCache::connect` up to `createNewConnection`. -/
def connect (host : Bytes) (s : State T) (t : T) (query : Query) (now : UInt64) : State T :=
  match s.list.dropWhile fun e => decide (e.validTill ≤ now) with
  | [] => { s with list := [] }.goto t (.creating query)
  | e :: list => { s with list }.startWrite host t query e.sock

def create (host : Bytes) (s : State T) (t : T) (query : Query) (ok : Bool) :
    Option (State T) :=
  if ok = true then
    -- Without an address there is no connection.
    if isHostName host = true then
      some ({ s with created := s.created + 1 }.startWrite host t query s.created)
    else none
  else some (s.finish t query none (-1))

def write (s : State T) (t : T) (query : Query) (use : Use) (buf : Bytes) (wr wait : Int) :
    Option (State T) :=
  if 0 < wr then
    if wr ≤ buf.length then
      let conn := s.conns use.socket
      let chunk := buf.take wr.toNat
      some ((s.setConn use.socket { conn with sent := conn.sent ++ chunk }).whileLen t query
        { use with written := use.written ++ chunk } (buf.drop wr.toNat))
    else none
  else if wr = -EAGAIN ∧ wait = 1 then some s
  else some (s.finish t query (some use) (-1))

def read (s : State T) (t : T) (query : Query) (use : Use) (buf : Bytes) (rd wait : Int) :
    Option (State T) :=
  if 0 < rd then
    let conn := s.conns use.socket
    if rd ≤ bufSize - buf.length ∧ rd ≤ conn.unread.length then
      let s := s.received use.socket rd.toNat
      let buf := buf ++ conn.unread.take rd.toNat
      some <|
        if hasHack buf then
          if resultIn buf < 0 then s.finish t query (some use) (-1)
          else s.goto t (.adding query use (resultIn buf))
        else s.goto t (.reading query use buf)
    else none
  else if rd = -EAGAIN ∧ wait = 1 then some s
  else some (s.finish t query (some use) (-1))

def add (lifetime : UInt64) (s : State T) (t : T) (query : Query) (use : Use) (ret : Int)
    (now : UInt64) : State T :=
  { s with list := s.list ++ [CacheEntry.mk use.socket (now + lifetime)] }.finish t query
    (some use) ret

/-- A request is answered when all of it has been sent. -/
def answer (s : State T) (socket : Nat) (response : WsResponse) : Option (State T) :=
  let conn := s.conns socket
  if conn.responses.length < (requestsIn conn.sent).length then
    some (s.setConn socket { conn with responses := conn.responses ++ [response] })
  else none

def step (host : Bytes) (lifetime : UInt64) (s : State T) : Label T → Option (State T)
  | .call t query =>
    match s.place t with
    | .idle =>
      some (if query.user = [] then s.finish t query none 0 else s.goto t (.connecting query))
    | _ => none
  | .connect t now =>
    match s.place t with
    | .connecting query => some (s.connect host t query now)
    | _ => none
  | .create t ok =>
    match s.place t with
    | .creating query => s.create host t query ok
    | _ => none
  | .write t wr wait =>
    match s.place t with
    | .writing query use buf => s.write t query use buf wr wait
    | _ => none
  | .read t rd wait =>
    match s.place t with
    | .reading query use buf => s.read t query use buf rd wait
    | _ => none
  | .add t now =>
    match s.place t with
    | .adding query use ret => some (s.add lifetime t query use ret now)
    | _ => none
  | .answer socket response => s.answer socket response

end State

/-- The host and the lifetime are those of `TcpCache`. -/
def machine (T : Type) [DecidableEq T] (host : Bytes) (lifetime : UInt64) :
    Machine (State T) (Label T) where
  init := .init
  step := State.step host lifetime

end Code

/-! ## 2. What one step can do -/

section Effects

variable {T : Type} [DecidableEq T] {host : Bytes} {lifetime : UInt64} {s s' : State T}
  {query : Query} {use : Use} {buf : Bytes} {t : T} {l : Label T}

def Place.use? : Place → Option Use
  | .writing _ use _ | .reading _ use _ | .adding _ use _ => some use
  | _ => none

/-- A step, and the state after it. -/
inductive Effect (host : Bytes) (lifetime : UInt64) (s : State T) : Label T → State T → Prop
  | enters (t : T) (query : Query) (hplace : s.place t = .idle) :
      Effect host lifetime s (.call t query) (s.goto t (.connecting query))
  | refuses (t : T) (query : Query) (hplace : s.place t = .idle) (huser : query.user = []) :
      Effect host lifetime s (.call t query) (s.finish t query none 0)
  | takes (t : T) (now : UInt64) (query : Query) (front : List CacheEntry) (e : CacheEntry)
      (list : List CacheEntry) (hplace : s.place t = .connecting query)
      (hlist : s.list = front ++ e :: list) (hvalid : now < e.validTill) :
      Effect host lifetime s (.connect t now) ({ s with list }.startWrite host t query e.sock)
  | misses (t : T) (now : UInt64) (query : Query) (hplace : s.place t = .connecting query) :
      Effect host lifetime s (.connect t now) ({ s with list := [] }.goto t (.creating query))
  | creates (t : T) (query : Query) (hplace : s.place t = .creating query)
      (hhost : isHostName host = true) :
      Effect host lifetime s (.create t true)
        ({ s with created := s.created + 1 }.startWrite host t query s.created)
  | fails (t : T) (query : Query) (hplace : s.place t = .creating query) :
      Effect host lifetime s (.create t false) (s.finish t query none (-1))
  | writes (t : T) (wr wait : Int) (query : Query) (use : Use) (buf : Bytes) (n : Nat)
      (hplace : s.place t = .writing query use buf) :
      Effect host lifetime s (.write t wr wait)
        ((s.setConn use.socket { s.conns use.socket with
            sent := (s.conns use.socket).sent ++ buf.take n }).whileLen t query
          { use with written := use.written ++ buf.take n } (buf.drop n))
  | reads (t : T) (rd wait : Int) (query : Query) (use : Use) (buf : Bytes) (n : Nat)
      (hplace : s.place t = .reading query use buf) (hn : 0 < n)
      (hlength : n ≤ (s.conns use.socket).unread.length)
      (hhack : hasHack (buf ++ (s.conns use.socket).unread.take n) = false) :
      Effect host lifetime s (.read t rd wait) ((s.received use.socket n).goto t
        (.reading query use (buf ++ (s.conns use.socket).unread.take n)))
  | readsAll (t : T) (rd wait : Int) (query : Query) (use : Use) (buf : Bytes) (n : Nat)
      (hplace : s.place t = .reading query use buf) (hn : 0 < n)
      (hlength : n ≤ (s.conns use.socket).unread.length)
      (hhack : hasHack (buf ++ (s.conns use.socket).unread.take n) = true)
      (hresult : 0 ≤ resultIn (buf ++ (s.conns use.socket).unread.take n)) :
      Effect host lifetime s (.read t rd wait) ((s.received use.socket n).goto t
        (.adding query use (resultIn (buf ++ (s.conns use.socket).unread.take n))))
  | retries (l : Label T) : Effect host lifetime s l s
  | aborts (l : Label T) (t : T) (query : Query) (use : Use) (n : Nat)
      (huse : (s.place t).use? = some use) :
      Effect host lifetime s l ((s.received use.socket n).finish t query (some use) (-1))
  | adds (t : T) (now : UInt64) (query : Query) (use : Use) (ret : Int)
      (hplace : s.place t = .adding query use ret) :
      Effect host lifetime s (.add t now) (s.add lifetime t query use ret now)
  | answers (socket : Nat) (response : WsResponse)
      (hopen : (s.conns socket).responses.length < (requestsIn (s.conns socket).sent).length) :
      Effect host lifetime s (.answer socket response)
        (s.setConn socket { s.conns socket with
          responses := (s.conns socket).responses ++ [response] })

omit [DecidableEq T] in
theorem received_zero (socket : Nat) : s.received socket 0 = s := by
  show { s with conns := Function.update s.conns socket (s.conns socket) } = s
  rw [Function.update_eq_self]

theorem effect_of_connect {now : UInt64} (hplace : s.place t = .connecting query) :
    Effect host lifetime s (.connect t now) (s.connect host t query now) := by
  unfold State.connect
  cases hdrop : s.list.dropWhile fun e => decide (e.validTill ≤ now) with
  | nil => exact .misses t now query hplace
  | cons e list =>
    have hsplit := List.takeWhile_append_dropWhile (l := s.list)
      (p := fun e => decide (e.validTill ≤ now))
    rw [hdrop] at hsplit
    have hvalid : decide (e.validTill ≤ now) = false := by
      simpa [hdrop] using List.head?_dropWhile_not (fun e => decide (e.validTill ≤ now)) s.list
    exact .takes t now query _ e list hplace hsplit.symm (by simpa using hvalid)

theorem effect_of_create {ok : Bool} (hplace : s.place t = .creating query)
    (h : s.create host t query ok = some s') : Effect host lifetime s (.create t ok) s' := by
  unfold State.create at h
  cases ok with
  | true =>
    rw [if_pos rfl] at h
    split at h
    · next hhost => exact Option.some.inj h ▸ .creates t query hplace hhost
    · cases h
  | false => exact Option.some.inj h ▸ .fails t query hplace

/-- A call that fails on its connection. -/
theorem effect_of_abort (huse : (s.place t).use? = some use) :
    Effect host lifetime s l (s.finish t query (some use) (-1)) := by
  have haborts : Effect host lifetime s l _ := .aborts l t query use 0 huse
  rwa [received_zero] at haborts

theorem effect_of_write {wr wait : Int} (hplace : s.place t = .writing query use buf)
    (h : s.write t query use buf wr wait = some s') :
    Effect host lifetime s (.write t wr wait) s' := by
  unfold State.write at h
  split at h
  · split at h
    · exact Option.some.inj h ▸ .writes t wr wait query use buf wr.toNat hplace
    · cases h
  · split at h
    · exact Option.some.inj h ▸ .retries _
    · exact Option.some.inj h ▸ effect_of_abort (by rw [hplace]; rfl)

theorem effect_of_read {rd wait : Int} (hplace : s.place t = .reading query use buf)
    (h : s.read t query use buf rd wait = some s') :
    Effect host lifetime s (.read t rd wait) s' := by
  have huse : (s.place t).use? = some use := by rw [hplace]; rfl
  unfold State.read at h
  split at h
  · next hpos =>
    simp only at h
    split at h
    · next hle =>
      obtain rfl := Option.some.inj h
      have hlength : rd.toNat ≤ (s.conns use.socket).unread.length := Int.toNat_le.mpr hle.2
      have hn : 0 < rd.toNat := Int.pos_iff_toNat_pos.mp hpos
      split
      · next hhack =>
        split
        · exact .aborts _ t query use rd.toNat huse
        · next hresult =>
          exact .readsAll t rd wait query use buf rd.toNat hplace hn hlength hhack
            (Int.not_lt.mp hresult)
      · next hhack =>
        exact .reads t rd wait query use buf rd.toNat hplace hn hlength (Bool.not_eq_true _ ▸ hhack)
    · cases h
  · split at h
    · exact Option.some.inj h ▸ .retries _
    · exact Option.some.inj h ▸ effect_of_abort huse

theorem effect_of_step (h : (machine T host lifetime).step s l = some s') :
    Effect host lifetime s l s' := by
  cases l with
  | call t query =>
    simp only [machine, State.step] at h
    split at h
    · next hplace =>
      obtain rfl := Option.some.inj h
      split
      · next huser => exact .refuses t query hplace huser
      · exact .enters t query hplace
    · cases h
  | connect t now =>
    simp only [machine, State.step] at h
    split at h
    · next query hplace => exact Option.some.inj h ▸ effect_of_connect hplace
    · cases h
  | create t ok =>
    simp only [machine, State.step] at h
    split at h
    · next query hplace => exact effect_of_create hplace h
    · cases h
  | write t wr wait =>
    simp only [machine, State.step] at h
    split at h
    · next query use buf hplace => exact effect_of_write hplace h
    · cases h
  | read t rd wait =>
    simp only [machine, State.step] at h
    split at h
    · next query use buf hplace => exact effect_of_read hplace h
    · cases h
  | add t now =>
    simp only [machine, State.step] at h
    split at h
    · next query use ret hplace => exact Option.some.inj h ▸ .adds t now query use ret hplace
    · cases h
  | answer socket response =>
    simp only [machine, State.step, State.answer] at h
    split at h
    · next hopen => exact Option.some.inj h ▸ .answers socket response hopen
    · cases h

end Effects

/-! ## 3. Who has which connection -/

section Ownership

variable {T : Type} [DecidableEq T] {host : Bytes} {lifetime : UInt64} {s s' : State T}
  {query : Query} {use : Use} {buf : Bytes} {t : T} {p : Place} {l : Label T}

def Place.socket? (p : Place) : Option Nat := p.use?.map Use.socket

namespace State

omit [DecidableEq T] in
/-- The connection that a call uses. -/
def uses (s : State T) (t : T) : Option Nat := (s.place t).socket?

omit [DecidableEq T] in
def pool (s : State T) : List Nat := s.list.map CacheEntry.sock

end State

omit [DecidableEq T] in
/-- No call uses the connection any more. -/
def Closed (s : State T) (socket : Nat) : Prop := Gone s.uses s.pool s.created socket

theorem uses_goto : (s.goto t p).uses = Function.update s.uses t p.socket? := by
  funext k
  by_cases hk : k = t
  · subst hk
    simp [State.uses, State.goto]
  · simp [State.uses, State.goto, Function.update_of_ne hk]

theorem uses_goto_same (hp : p.socket? = (s.place t).socket?) : (s.goto t p).uses = s.uses := by
  rw [uses_goto, hp]
  exact Function.update_eq_self ..

theorem uses_whileLen :
    (s.whileLen t query use buf).uses = Function.update s.uses t (some use.socket) := by
  rw [State.whileLen, uses_goto]
  split <;> rfl

theorem pool_add {ret : Int} {now : UInt64} :
    (s.add lifetime t query use ret now).pool = s.pool ++ [use.socket] :=
  List.map_append

/-- Who has which connection changes by a step of one holder, or not at all. -/
theorem moves_of_effect (h : Effect host lifetime s l s') :
    (s'.uses = s.uses ∧ s'.pool = s.pool ∧ s'.created = s.created) ∨
      ∃ t, Moves s.uses s.pool s.created t s'.uses s'.pool s'.created := by
  cases h with
  | enters t query hplace => exact .inl ⟨uses_goto_same (by rw [hplace]; rfl), rfl, rfl⟩
  | refuses t query hplace => exact .inl ⟨uses_goto_same (by rw [hplace]), rfl, rfl⟩
  | takes t now query front e list hplace hlist =>
    have huses : ({ s with list }.startWrite host t query e.sock).uses =
        Function.update s.uses t (some e.sock) := uses_whileLen
    refine .inr ⟨t, huses ▸ .take (front.map CacheEntry.sock) e.sock (list.map CacheEntry.sock) ?_⟩
    rw [State.pool, hlist, List.map_append, List.map_cons]
  | misses t now query hplace =>
    have huses : ({ s with list := [] }.goto t (.creating query)).uses = s.uses :=
      uses_goto_same (by rw [hplace]; rfl)
    exact .inr ⟨t, huses ▸ .discard [] (List.nil_sublist _)⟩
  | creates t query hplace hhost =>
    have huses : ({ s with created := s.created + 1 }.startWrite host t query s.created).uses =
        Function.update s.uses t (some s.created) := uses_whileLen
    exact .inr ⟨t, huses ▸ .create⟩
  | fails t query hplace => exact .inl ⟨uses_goto_same (by rw [hplace]; rfl), rfl, rfl⟩
  | writes t wr wait query use buf n hplace =>
    have huse : s.uses t = some use.socket := by rw [State.uses, hplace]; rfl
    refine .inl ⟨uses_whileLen.trans ?_, rfl, rfl⟩
    show Function.update s.uses t (some use.socket) = s.uses
    rw [← huse, Function.update_eq_self]
  | reads t rd wait query use buf n hplace | readsAll t rd wait query use buf n hplace =>
    refine .inl ⟨uses_goto_same ?_, rfl, rfl⟩
    rw [State.received, State.setConn, hplace]
    rfl
  | retries l => exact .inl ⟨rfl, rfl, rfl⟩
  | aborts l t query use n huse =>
    have huses : ((s.received use.socket n).finish t query (some use) (-1)).uses =
        Function.update s.uses t none := uses_goto
    exact .inr ⟨t, huses ▸ .drop⟩
  | adds t now query use ret hplace =>
    have huses : (s.add lifetime t query use ret now).uses = Function.update s.uses t none :=
      uses_goto
    have huse : s.uses t = some use.socket := by rw [State.uses, hplace]; rfl
    refine .inr ⟨t, ?_⟩
    rw [huses, pool_add]
    exact .give use.socket huse
  | answers socket response => exact .inl ⟨rfl, rfl, rfl⟩

theorem valid_of_effect (hvalid : Valid s.uses s.pool s.created)
    (h : Effect host lifetime s l s') : Valid s'.uses s'.pool s'.created := by
  obtain ⟨huses, hpool, hcreated⟩ | ⟨t, hmoves⟩ := moves_of_effect h
  · rwa [huses, hpool, hcreated]
  · exact hvalid.moves hmoves

theorem closed_of_effect {socket : Nat} (hclosed : Closed s socket)
    (h : Effect host lifetime s l s') : Closed s' socket := by
  unfold Closed at hclosed ⊢
  obtain ⟨huses, hpool, hcreated⟩ | ⟨t, hmoves⟩ := moves_of_effect h
  · rwa [huses, hpool, hcreated]
  · exact hclosed.moves hmoves

end Ownership

/-! ## 4. What is on a connection -/

section Data

variable {host : Bytes} {query : Query} {use : Use} {buf : Bytes} {conn : Conn} {ret : Int}

/-- After `before` was sent, all of it has been answered and all answers have been received. -/
structure Answered (before : Bytes) (conn : Conn) : Prop where
  whole : Whole endsRequest before
  responses : conn.responses.length = (requestsIn before).length
  received : conn.received = conn.stream.length

/-- A part of the request is not yet sent. -/
structure Writing (host : Bytes) (query : Query) (use : Use) (buf : Bytes) (conn : Conn) :
    Prop where
  message : IsMessage endsRequest (requestText host query)
  text : use.written ++ buf = requestText host query
  left : buf ≠ []
  sent : conn.sent = use.before ++ use.written
  answered : Answered use.before conn

structure Written (host : Bytes) (query : Query) (use : Use) (conn : Conn) : Prop where
  message : IsMessage endsRequest (requestText host query)
  whole : Whole endsRequest use.before
  text : use.written = requestText host query
  sent : conn.sent = use.before ++ requestText host query

/-- The response to the request of the call is there, and `buf` of it was received. -/
structure Receiving (use : Use) (buf : Bytes) (conn : Conn) (prior : List WsResponse)
    (r : WsResponse) : Prop where
  responses : conn.responses = prior ++ [r]
  prior_length : prior.length = (requestsIn use.before).length
  received : conn.received = (prior.flatMap WsResponse.text).length + buf.length
  prefix_text : buf <+: r.text

/-- What holds of the connection of a call. -/
def Good (host : Bytes) (conns : Nat → Conn) : Place → Prop
  | .idle => True
  | .connecting query | .creating query => query.clean = true
  | .writing query use buf => Writing host query use buf (conns use.socket)
  | .reading query use buf => Written host query use (conns use.socket) ∧
      ((buf = [] ∧ Answered use.before (conns use.socket)) ∨
        ∃ prior r, Receiving use buf (conns use.socket) prior r ∧ buf ≠ r.text)
  | .adding query use ret => Written host query use (conns use.socket) ∧
      ∃ prior r, Receiving use r.text (conns use.socket) prior r ∧ ret = r.result

theorem Answered.unread (h : Answered use.before conn) : conn.unread = [] := by
  rw [Conn.unread, h.received, List.drop_length]

theorem Receiving.stream_eq {prior : List WsResponse} {r : WsResponse}
    (h : Receiving use buf conn prior r) :
    conn.stream = prior.flatMap WsResponse.text ++ r.text := by
  rw [Conn.stream, h.responses, List.flatMap_append, List.flatMap_singleton]

theorem Receiving.unread {prior : List WsResponse} {r : WsResponse}
    (h : Receiving use buf conn prior r) : conn.unread = r.text.drop buf.length := by
  rw [Conn.unread, h.stream_eq, h.received, List.drop_append]
  simp

/-- The bytes that are read next are the next ones of the response. -/
theorem Receiving.read {prior : List WsResponse} {r : WsResponse} {n : Nat}
    (h : Receiving use buf conn prior r) (hn : n ≤ conn.unread.length) :
    Receiving use (buf ++ conn.unread.take n) { conn with received := conn.received + n }
      prior r where
  responses := h.responses
  prior_length := h.prior_length
  received := by
    rw [List.length_append, List.length_take, Nat.min_eq_left hn, ← Nat.add_assoc, ← h.received]
  prefix_text := by
    obtain ⟨rest, hrest⟩ := h.prefix_text
    rw [h.unread, ← hrest, List.drop_left]
    exact (List.prefix_append_right_inj buf).mpr (List.take_prefix n rest)

theorem requestText_ne_nil : requestText host query ≠ [] := by
  simp [requestText, bytes]

theorem text_ne_nil (r : WsResponse) : r.text ≠ [] := by
  intro hnil
  have hsuffix := r.endsWithHack
  rw [hnil, List.suffix_nil] at hsuffix
  exact absurd hsuffix (by decide)

/-- A call begins on a connection where nothing is open. -/
theorem Answered.start {socket : Nat} (h : Answered conn.sent conn)
    (hmessage : IsMessage endsRequest (requestText host query)) :
    Writing host query ⟨socket, conn.sent, []⟩ (requestText host query) conn where
  message := hmessage
  text := rfl
  left := requestText_ne_nil
  sent := (List.append_nil _).symm
  answered := h

theorem Writing.write (h : Writing host query use buf conn) {n : Nat} (hleft : buf.drop n ≠ []) :
    Writing host query { use with written := use.written ++ buf.take n } (buf.drop n)
      { conn with sent := conn.sent ++ buf.take n } where
  message := h.message
  text := by rw [List.append_assoc, List.take_append_drop, h.text]
  left := hleft
  sent := by rw [h.sent, List.append_assoc]
  answered := ⟨h.answered.whole, h.answered.responses, h.answered.received⟩

theorem Writing.writeAll (h : Writing host query use buf conn) {n : Nat} (hall : buf.drop n = []) :
    Written host query { use with written := use.written ++ buf.take n }
      { conn with sent := conn.sent ++ buf.take n } := by
  have htake : buf.take n = buf := by
    rw [← List.append_nil (buf.take n), ← hall, List.take_append_drop]
  rw [htake]
  exact ⟨h.message, h.answered.whole, h.text, by rw [h.sent, List.append_assoc, h.text]⟩

theorem Writing.requestsIn_sent (h : Writing host query use buf conn) :
    requestsIn conn.sent = requestsIn use.before := by
  have hpart : Framing.messages endsRequest use.written = [] :=
    Framing.messages_of_prefix (h.text ▸ h.message) h.left
  rw [requestsIn, h.sent, Framing.messages_append h.answered.whole, hpart, List.append_nil]
  rfl

theorem Written.requestsIn_sent (h : Written host query use conn) :
    requestsIn conn.sent = requestsIn use.before ++ [requestText host query] := by
  rw [requestsIn, h.sent, Framing.messages_append h.whole, h.message.messages_eq]
  rfl

theorem Receiving.responses_length {prior : List WsResponse} {r : WsResponse}
    (hwritten : Written host query use conn) (h : Receiving use buf conn prior r) :
    conn.responses.length = (requestsIn conn.sent).length := by
  rw [hwritten.requestsIn_sent, h.responses, List.length_append, List.length_append,
    h.prior_length]
  rfl

/-- The service answers the request of the call. -/
theorem Answered.answer (h : Answered use.before conn) (r : WsResponse) :
    Receiving use [] { conn with responses := conn.responses ++ [r] } conn.responses r where
  responses := rfl
  prior_length := h.responses
  received := h.received
  prefix_text := List.nil_prefix

/-- With the whole response received, nothing is open. -/
theorem Receiving.answered {prior : List WsResponse} {r : WsResponse}
    (hwritten : Written host query use conn) (h : Receiving use r.text conn prior r) :
    Answered conn.sent conn where
  whole := hwritten.sent ▸ hwritten.whole.append hwritten.message.whole
  responses := h.responses_length hwritten
  received := by rw [h.received, h.stream_eq, List.length_append]

end Data

/-! ## 5. Each call gets its own answer -/

section Invariant

variable {T : Type} {host : Bytes} {lifetime : UInt64} {s s' : State T} {conns conns' : Nat → Conn}
  {query : Query} {use : Use} {buf : Bytes} {t : T} {p : Place} {l : Label T} {f : Finished}

/-- The call has sent its request, and the service has answered it with the result. -/
structure Served (host : Bytes) (conns : Nat → Conn) (query : Query) (use : Use) (ret : Int)
    (r : WsResponse) : Prop where
  written : use.written = requestText host query
  sent : use.before ++ requestText host query <+: (conns use.socket).sent
  request : (requestsIn (conns use.socket).sent)[(requestsIn use.before).length]? =
    some (requestText host query)
  response : (conns use.socket).responses[(requestsIn use.before).length]? = some r
  result : ret = r.result

/-- What holds between any two steps. -/
structure Inv (host : Bytes) (s : State T) : Prop where
  hostName : 0 < s.created → isHostName host = true
  valid : Valid s.uses s.pool s.created
  fresh : ∀ c, s.created ≤ c → s.conns c = .new
  quiet : ∀ c ∈ s.pool, Answered (s.conns c).sent (s.conns c)
  good : ∀ t, Good host s.conns (s.place t)
  served : ∀ f ∈ s.finished, f.ret ≠ -1 →
    ∃ use r, f.use = some use ∧ Served host s.conns f.query use f.ret r
  closed : ∀ f ∈ s.finished, f.ret = -1 → ∀ use, f.use = some use → Closed s use.socket

theorem Inv.good_at (hinv : Inv host s) (hplace : s.place t = p) : Good host s.conns p :=
  hplace ▸ hinv.good t

theorem inv_init : Inv host (.init : State T) where
  hostName h := absurd h (Nat.lt_irrefl 0)
  valid := Leases.valid_empty
  fresh _ _ := rfl
  quiet _ hc := by cases hc
  good _ := trivial
  served _ hf := by cases hf
  closed _ hf := by cases hf

/-- Nothing that was sent or answered is taken back. -/
def Grows (conns conns' : Nat → Conn) : Prop :=
  ∀ c, (conns c).sent <+: (conns' c).sent ∧ (conns c).responses <+: (conns' c).responses

theorem Grows.refl : Grows conns conns := fun _ => ⟨List.prefix_rfl, List.prefix_rfl⟩

theorem grows_update {socket : Nat} {conn : Conn} (hsent : (conns socket).sent <+: conn.sent)
    (hresponses : (conns socket).responses <+: conn.responses) :
    Grows conns (Function.update conns socket conn) := by
  intro c
  by_cases hc : c = socket
  · subst hc
    rw [Function.update_self]
    exact ⟨hsent, hresponses⟩
  · rw [Function.update_of_ne hc]
    exact ⟨List.prefix_rfl, List.prefix_rfl⟩

theorem Served.grows {ret : Int} {r : WsResponse} (h : Served host conns query use ret r)
    (hgrows : Grows conns conns') : Served host conns' query use ret r where
  written := h.written
  sent := h.sent.trans (hgrows use.socket).1
  request := by
    obtain ⟨rest, hrest⟩ := (hgrows use.socket).1
    rw [← hrest]
    exact Machine.getElem?_of_prefix (Framing.messages_prefix _ _) h.request
  response := Machine.getElem?_of_prefix (hgrows use.socket).2 h.response
  result := h.result

theorem served_of_receiving {ret : Int} {prior : List WsResponse} {r : WsResponse}
    (hwritten : Written host query use (conns use.socket))
    (h : Receiving use r.text (conns use.socket) prior r) (hret : ret = r.result) :
    Served host conns query use ret r where
  written := hwritten.text
  sent := hwritten.sent ▸ List.prefix_rfl
  request := by rw [hwritten.requestsIn_sent, List.getElem?_concat_length]
  response := by rw [h.responses, ← h.prior_length, List.getElem?_concat_length]
  result := hret

theorem good_congr (hconns : ∀ c, p.socket? = some c → conns' c = conns c)
    (h : Good host conns p) : Good host conns' p := by
  cases p with
  | idle | connecting | creating => exact h
  | writing query use buf | reading query use buf | adding query use ret =>
    have hconn := hconns use.socket rfl
    simp only [Good] at h ⊢
    rwa [hconn]

/-- A thread is not concerned with the connection of another one. -/
theorem good_of_ne {c : Nat} {conn : Conn} (hinv : Inv host s) (hc : s.uses t = some c) {k : T}
    (hk : k ≠ t) : Good host (Function.update s.conns c conn) (s.place k) := by
  refine good_congr (fun d hd => Function.update_of_ne ?_ ..) (hinv.good k)
  rintro rfl
  exact hk (hinv.valid.unique k t d hd hc)

variable [DecidableEq T]

theorem good_goto (hp : Good host s.conns p) (hother : ∀ k, k ≠ t → Good host s.conns (s.place k))
    (k : T) : Good host (s.goto t p).conns ((s.goto t p).place k) := by
  by_cases hk : k = t
  · subst hk
    simpa [State.goto] using hp
  · simpa [State.goto, Function.update_of_ne hk] using hother k hk

theorem good_startWrite {socket : Nat} (hmessage : IsMessage endsRequest (requestText host query))
    (hanswered : Answered (s.conns socket).sent (s.conns socket))
    (hother : ∀ k, k ≠ t → Good host s.conns (s.place k)) (k : T) :
    Good host (s.startWrite host t query socket).conns
      ((s.startWrite host t query socket).place k) := by
  have hwriting : Good host s.conns (.writing query ⟨socket, (s.conns socket).sent, []⟩
      (requestText host query)) := hanswered.start hmessage
  unfold State.startWrite State.whileLen
  rw [if_neg requestText_ne_nil]
  exact good_goto hwriting hother k

theorem good_writes {n : Nat} {conn : Conn} {use' : Use} (hinv : Inv host s)
    (hplace : s.place t = .writing query use buf)
    (hconn : conn = { s.conns use.socket with
      sent := (s.conns use.socket).sent ++ buf.take n })
    (huse' : use' = { use with written := use.written ++ buf.take n }) (k : T) :
    Good host (Function.update s.conns use.socket conn)
      (((s.setConn use.socket conn).whileLen t query use' (buf.drop n)).place k) := by
  have huse : s.uses t = some use.socket := by rw [State.uses, hplace]; rfl
  have hwriting : Writing host query use buf (s.conns use.socket) := hinv.good_at hplace
  refine good_goto (s := s.setConn use.socket conn) ?_ (fun k hk => good_of_ne hinv huse hk) k
  have hself : (s.setConn use.socket conn).conns use'.socket = conn := by
    rw [huse']
    exact Function.update_self ..
  subst hconn huse'
  split
  · next hall =>
    simp only [Good, hself]
    refine ⟨hwriting.writeAll hall, .inl ⟨trivial, ?_⟩⟩
    exact ⟨hwriting.answered.whole, hwriting.answered.responses, hwriting.answered.received⟩
  · next hleft =>
    simp only [Good, hself]
    exact hwriting.write hleft

omit [DecidableEq T] in
/-- What is read belongs to the response to the request of the call. -/
theorem receiving_of_reads {n : Nat} (hinv : Inv host s)
    (hplace : s.place t = .reading query use buf) (hn : 0 < n)
    (hlength : n ≤ (s.conns use.socket).unread.length) :
    Written host query use (s.conns use.socket) ∧ ∃ prior r,
      Receiving use (buf ++ (s.conns use.socket).unread.take n) { s.conns use.socket with
        received := (s.conns use.socket).received + n } prior r := by
  have hgood := hinv.good_at hplace
  obtain ⟨hwritten, ⟨-, hanswered⟩ | ⟨prior, r, hreceiving, -⟩⟩ := hgood
  · rw [hanswered.unread, List.length_nil] at hlength
    exact absurd (hn.trans_le hlength) (Nat.lt_irrefl 0)
  · exact ⟨hwritten, prior, r, hreceiving.read hlength⟩

theorem good_reads {n : Nat} (hinv : Inv host s) (hplace : s.place t = .reading query use buf)
    (hn : 0 < n) (hlength : n ≤ (s.conns use.socket).unread.length)
    (hhack : hasHack (buf ++ (s.conns use.socket).unread.take n) = false) (k : T) :
    Good host (s.received use.socket n).conns (((s.received use.socket n).goto t
      (.reading query use (buf ++ (s.conns use.socket).unread.take n))).place k) := by
  have huse : s.uses t = some use.socket := by rw [State.uses, hplace]; rfl
  obtain ⟨hwritten, prior, r, hreceiving⟩ := receiving_of_reads hinv hplace hn hlength
  refine good_goto (s := s.received use.socket n) ?_ (fun k hk => good_of_ne hinv huse hk) k
  simp only [Good, State.received, State.setConn, Function.update_self]
  refine ⟨⟨hwritten.message, hwritten.whole, hwritten.text, hwritten.sent⟩,
    .inr ⟨prior, r, hreceiving, fun hall => ?_⟩⟩
  rw [(hasHack_iff r hreceiving.prefix_text).mpr hall] at hhack
  cases hhack

theorem good_readsAll {n : Nat} (hinv : Inv host s) (hplace : s.place t = .reading query use buf)
    (hn : 0 < n) (hlength : n ≤ (s.conns use.socket).unread.length)
    (hhack : hasHack (buf ++ (s.conns use.socket).unread.take n) = true)
    (hresult : 0 ≤ resultIn (buf ++ (s.conns use.socket).unread.take n)) (k : T) :
    Good host (s.received use.socket n).conns (((s.received use.socket n).goto t
      (.adding query use (resultIn (buf ++ (s.conns use.socket).unread.take n)))).place k) := by
  have huse : s.uses t = some use.socket := by rw [State.uses, hplace]; rfl
  obtain ⟨hwritten, prior, r, hreceiving⟩ := receiving_of_reads hinv hplace hn hlength
  have hall := (hasHack_iff r hreceiving.prefix_text).mp hhack
  rw [hall] at hreceiving hresult ⊢
  refine good_goto (s := s.received use.socket n) ?_ (fun k hk => good_of_ne hinv huse hk) k
  simp only [Good, State.received, State.setConn, Function.update_self]
  refine ⟨⟨hwritten.message, hwritten.whole, hwritten.text, hwritten.sent⟩, prior, r, hreceiving,
    (resultIn_text r).resolve_left fun hnone => ?_⟩
  rw [hnone] at hresult
  exact absurd hresult (by decide)

omit [DecidableEq T] in
/-- The request that the service answers is that of a call that waits for it. -/
theorem good_answers {socket : Nat} (hinv : Inv host s) (r : WsResponse)
    (hopen : (s.conns socket).responses.length < (requestsIn (s.conns socket).sent).length)
    (k : T) :
    Good host (Function.update s.conns socket { s.conns socket with
      responses := (s.conns socket).responses ++ [r] }) (s.place k) := by
  have hgood := hinv.good k
  by_cases hk : (s.place k).socket? = some socket
  · cases hplace : s.place k with
    | idle | connecting | creating =>
      rw [hplace] at hk
      cases hk
    | writing query use buf =>
      rw [hplace] at hk hgood
      obtain rfl := Option.some.inj hk
      have hwriting : Writing host query use buf (s.conns use.socket) := hgood
      rw [hwriting.requestsIn_sent, hwriting.answered.responses] at hopen
      exact absurd hopen (Nat.lt_irrefl _)
    | reading query use buf =>
      rw [hplace] at hk hgood
      obtain rfl := Option.some.inj hk
      obtain ⟨hwritten, ⟨rfl, hanswered⟩ | ⟨prior, r', hreceiving, -⟩⟩ := hgood
      · simp only [Good, Function.update_self]
        exact ⟨⟨hwritten.message, hwritten.whole, hwritten.text, hwritten.sent⟩,
          .inr ⟨_, r, hanswered.answer r, (text_ne_nil r).symm⟩⟩
      · rw [hreceiving.responses_length hwritten] at hopen
        exact absurd hopen (Nat.lt_irrefl _)
    | adding query use ret =>
      rw [hplace] at hk hgood
      obtain rfl := Option.some.inj hk
      obtain ⟨hwritten, prior, r', hreceiving, -⟩ := hgood
      rw [hreceiving.responses_length hwritten] at hopen
      exact absurd hopen (Nat.lt_irrefl _)
  · refine good_congr (fun d hd => Function.update_of_ne ?_ ..) hgood
    rintro rfl
    exact hk hd

omit [DecidableEq T] in
theorem uses_of_use (huse : (s.place t).use? = some use) : s.uses t = some use.socket := by
  rw [State.uses, Place.socket?, huse]
  rfl

theorem good_of_effect (hclean : l.clean = true) (hinv : Inv host s)
    (h : Effect host lifetime s l s') (k : T) : Good host s'.conns (s'.place k) := by
  have hother (t : T) (k : T) (_ : k ≠ t) : Good host s.conns (s.place k) := hinv.good k
  cases h with
  | enters t query =>
    have hquery : Good host s.conns (.connecting query) := hclean
    exact good_goto hquery (hother t) k
  | refuses t query hplace | fails t query hplace =>
    exact good_goto (p := .idle) trivial (hother t) k
  | takes t now query front e list hplace hlist =>
    have hquery := hinv.good_at hplace
    have hmem : e.sock ∈ s.pool := by simp [State.pool, hlist]
    have hhost := hinv.hostName ((Nat.zero_le _).trans_lt (hinv.valid.pool_lt _ hmem))
    exact good_startWrite (s := { s with list }) (isMessage_requestText hhost hquery)
      (hinv.quiet _ hmem) (hother t) k
  | misses t now query hplace =>
    have hquery := hinv.good_at hplace
    have hcreating : Good host s.conns (.creating query) := hquery
    exact good_goto (s := { s with list := [] }) hcreating (hother t) k
  | creates t query hplace hhost =>
    have hquery := hinv.good_at hplace
    have hanswered : Answered (s.conns s.created).sent (s.conns s.created) := by
      rw [hinv.fresh _ le_rfl]
      exact ⟨Framing.whole_nil, rfl, rfl⟩
    exact good_startWrite (s := { s with created := s.created + 1 })
      (isMessage_requestText hhost hquery) hanswered (hother t) k
  | writes t wr wait query use buf n hplace => exact good_writes hinv hplace rfl rfl k
  | reads t rd wait query use buf n hplace hn hlength hhack =>
    exact good_reads hinv hplace hn hlength hhack k
  | readsAll t rd wait query use buf n hplace hn hlength hhack hresult =>
    exact good_readsAll hinv hplace hn hlength hhack hresult k
  | retries => exact hinv.good k
  | aborts l t query use n huse =>
    exact good_goto (s := s.received use.socket n) (p := .idle) trivial
      (fun k hk => good_of_ne hinv (uses_of_use huse) hk) k
  | adds t now query use ret hplace =>
    exact good_goto (s := { s with list := s.list ++ [CacheEntry.mk use.socket (now + lifetime)] })
      (p := .idle) trivial (hother t) k
  | answers socket r hopen => exact good_answers hinv r hopen k

theorem grows_of_effect (h : Effect host lifetime s l s') : Grows s.conns s'.conns := by
  cases h with
  | writes => exact grows_update (List.prefix_append _ _) List.prefix_rfl
  | reads | readsAll | aborts => exact grows_update List.prefix_rfl List.prefix_rfl
  | answers => exact grows_update List.prefix_rfl (List.prefix_append _ _)
  | _ => exact Grows.refl

omit [DecidableEq T] in
/-- A call uses the connection, or a request on it is not answered. -/
def Busy (s : State T) (c : Nat) : Prop :=
  (∃ t, s.uses t = some c) ∨
    (s.conns c).responses.length < (requestsIn (s.conns c).sent).length

omit [DecidableEq T] in
theorem Busy.lt_created {c : Nat} (hinv : Inv host s) (h : Busy s c) : c < s.created := by
  obtain ⟨t, ht⟩ | hopen := h
  · exact hinv.valid.used_lt t c ht
  · by_contra hge
    rw [hinv.fresh c (Nat.le_of_not_lt hge)] at hopen
    exact absurd hopen (Nat.lt_irrefl 0)

omit [DecidableEq T] in
theorem not_busy_of_pool {c : Nat} (hinv : Inv host s) (hc : c ∈ s.pool) : ¬ Busy s c := by
  rintro (⟨t, ht⟩ | hopen)
  · exact hinv.valid.unused c hc t ht
  · rw [(hinv.quiet c hc).responses] at hopen
    exact absurd hopen (Nat.lt_irrefl _)

/-- A step concerns one connection at most, and a busy one. -/
theorem conns_of_effect (h : Effect host lifetime s l s') :
    s'.conns = s.conns ∨ ∃ c, Busy s c ∧ ∀ d, d ≠ c → s'.conns d = s.conns d := by
  cases h with
  | writes t _ _ _ use _ _ hplace | reads t _ _ _ use _ _ hplace
  | readsAll t _ _ _ use _ _ hplace =>
    have huse : s.uses t = some use.socket := uses_of_use (by rw [hplace]; rfl)
    exact .inr ⟨use.socket, .inl ⟨t, huse⟩, fun d hd => Function.update_of_ne hd ..⟩
  | aborts l t query use n huse =>
    exact .inr ⟨use.socket, .inl ⟨t, uses_of_use huse⟩, fun d hd => Function.update_of_ne hd ..⟩
  | answers socket r hopen =>
    exact .inr ⟨socket, .inr hopen, fun d hd => Function.update_of_ne hd ..⟩
  | _ => exact .inl rfl

theorem created_le (h : Effect host lifetime s l s') : s.created ≤ s'.created := by
  cases h with
  | creates => exact Nat.le_succ _
  | _ => exact le_rfl

theorem hostName_of_effect (hinv : Inv host s) (h : Effect host lifetime s l s')
    (hcreated : 0 < s'.created) : isHostName host = true := by
  cases h with
  | creates t query hplace hhost => exact hhost
  | _ => exact hinv.hostName hcreated

theorem fresh_of_effect (hinv : Inv host s) (h : Effect host lifetime s l s') (c : Nat)
    (hc : s'.created ≤ c) : s'.conns c = .new := by
  have hle := (created_le h).trans hc
  obtain hconns | ⟨d, hbusy, hconns⟩ := conns_of_effect h
  · rw [hconns, hinv.fresh c hle]
  · have hlt := (hbusy.lt_created hinv).trans_le hle
    rw [hconns c (Nat.ne_of_gt hlt), hinv.fresh c hle]

/-- Nothing happens on a connection in the cache. -/
theorem conn_of_pool (hinv : Inv host s) (h : Effect host lifetime s l s') {c : Nat}
    (hc : c ∈ s.pool) : s'.conns c = s.conns c := by
  obtain hconns | ⟨d, hbusy, hconns⟩ := conns_of_effect h
  · rw [hconns]
  · refine hconns c ?_
    rintro rfl
    exact not_busy_of_pool hinv hc hbusy

theorem quiet_of_effect (hinv : Inv host s) (h : Effect host lifetime s l s') (c : Nat)
    (hc : c ∈ s'.pool) : Answered (s'.conns c).sent (s'.conns c) := by
  have hold (hc : c ∈ s.pool) : Answered (s'.conns c).sent (s'.conns c) :=
    conn_of_pool hinv h hc ▸ hinv.quiet c hc
  cases h with
  | takes t now query front e list hplace hlist =>
    refine hold ?_
    rw [State.pool, hlist, List.map_append, List.map_cons]
    exact List.mem_append_right _ (List.mem_cons_of_mem _ hc)
  | misses => cases hc
  | adds t now query use ret hplace =>
    rw [pool_add] at hc
    rcases List.mem_append.mp hc with hc | hc
    · exact hold hc
    · obtain rfl := List.mem_singleton.mp hc
      have hgood := hinv.good_at hplace
      obtain ⟨hwritten, prior, r, hreceiving, -⟩ := hgood
      exact hreceiving.answered hwritten
  | _ => exact hold hc

theorem served_of_effect (hclean : l.clean = true) (hinv : Inv host s)
    (h : Effect host lifetime s l s') (f : Finished) (hf : f ∈ s'.finished) (hret : f.ret ≠ -1) :
    ∃ use r, f.use = some use ∧ Served host s'.conns f.query use f.ret r := by
  have hold (hf : f ∈ s.finished) :
      ∃ use r, f.use = some use ∧ Served host s'.conns f.query use f.ret r := by
    obtain ⟨use, r, huse, hserved⟩ := hinv.served f hf hret
    exact ⟨use, r, huse, hserved.grows (grows_of_effect h)⟩
  cases h with
  | refuses t query hplace huser =>
    have hne : query.user ≠ [] := of_decide_eq_true (Bool.and_eq_true_iff.mp hclean).1
    exact absurd huser hne
  | fails | aborts =>
    rcases List.mem_append.mp hf with hf | hf
    · exact hold hf
    · obtain rfl := List.mem_singleton.mp hf
      exact absurd rfl hret
  | adds t now query use ret hplace =>
    rcases List.mem_append.mp hf with hf | hf
    · exact hold hf
    · obtain rfl := List.mem_singleton.mp hf
      have hgood := hinv.good_at hplace
      obtain ⟨hwritten, prior, r, hreceiving, hresult⟩ := hgood
      exact ⟨use, r, rfl, served_of_receiving hwritten hreceiving hresult⟩
  | _ => exact hold hf

theorem closed_of_failed (hinv : Inv host s) (h : Effect host lifetime s l s') (f : Finished)
    (hf : f ∈ s'.finished) (hret : f.ret = -1) (use : Use) (huse : f.use = some use) :
    Closed s' use.socket := by
  have hold (hf : f ∈ s.finished) : Closed s' use.socket :=
    closed_of_effect (hinv.closed f hf hret use huse) h
  cases h with
  | refuses | fails =>
    rcases List.mem_append.mp hf with hf | hf
    · exact hold hf
    · obtain rfl := List.mem_singleton.mp hf
      cases huse
  | aborts l t query use' n huse' =>
    rcases List.mem_append.mp hf with hf | hf
    · exact hold hf
    · obtain rfl := List.mem_singleton.mp hf
      obtain rfl := Option.some.inj huse
      have huses : ((s.received use'.socket n).finish t query (some use') (-1)).uses =
          Function.update s.uses t none := uses_goto
      have hgone := Leases.gone_of_drop hinv.valid (uses_of_use huse')
      rwa [← huses] at hgone
  | adds t now query use' ret hplace =>
    rcases List.mem_append.mp hf with hf | hf
    · exact hold hf
    · -- The result of a response is not negative.
      obtain rfl := List.mem_singleton.mp hf
      have hgood := hinv.good_at hplace
      obtain ⟨-, prior, r, -, hresult⟩ := hgood
      have hnonneg : 0 ≤ ret := hresult ▸ Int.natCast_nonneg _
      rw [show ret = -1 from hret] at hnonneg
      exact absurd hnonneg (by decide)
  | _ => exact hold hf

theorem keeps_inv (hclean : l.clean = true) (hinv : Inv host s)
    (h : (machine T host lifetime).step s l = some s') : Inv host s' := by
  have heffect := effect_of_step h
  exact ⟨hostName_of_effect hinv heffect, valid_of_effect hinv.valid heffect,
    fresh_of_effect hinv heffect, quiet_of_effect hinv heffect,
    good_of_effect hclean hinv heffect, served_of_effect hclean hinv heffect,
    closed_of_failed hinv heffect⟩

/-- An entry that has expired stays where it is, until it is discarded. -/
theorem expired_of_step {e : CacheEntry} (hvalid : Valid s.uses s.pool s.created)
    (hl : ∀ t now, l = .connect t now → e.validTill ≤ now) (he : e ∈ s.list ∨ Closed s e.sock)
    (h : (machine T host lifetime).step s l = some s') : e ∈ s'.list ∨ Closed s' e.sock := by
  have heffect := effect_of_step h
  obtain he | hclosed := he
  · have hpool : e.sock ∈ s.pool := List.mem_map_of_mem he
    cases heffect with
    | takes t now query front e' list hplace hlist hnow =>
      rw [hlist] at he
      rcases List.mem_append.mp he with he | he
      · have huses : ({ s with list }.startWrite host t query e'.sock).uses =
            Function.update s.uses t (some e'.sock) := uses_whileLen
        rw [State.pool, hlist, List.map_append, List.map_cons] at hvalid
        have hfront : e.sock ∈ front.map CacheEntry.sock := List.mem_map_of_mem he
        have hgone := Leases.gone_of_front (h := t) hvalid hfront
        rw [← huses] at hgone
        exact .inr hgone
      · rcases List.mem_cons.mp he with rfl | he
        · exact absurd hnow (UInt64.not_lt.mpr (hl t now rfl))
        · exact .inl he
    | misses t now query hplace =>
      have huses : ({ s with list := [] }.goto t (.creating query)).uses = s.uses :=
        uses_goto_same (by rw [hplace]; rfl)
      have hgone := Leases.gone_of_discard hvalid hpool List.not_mem_nil
      rw [← huses] at hgone
      exact .inr hgone
    | adds => exact .inl (List.mem_append_left _ he)
    | _ => exact .inl he
  · exact .inr (closed_of_effect hclosed heffect)

theorem unused_of_expired {e : CacheEntry} {ls : List (Label T)}
    (hvalid : Valid s.uses s.pool s.created) (he : e ∈ s.list)
    (hls : ∀ t now, .connect t now ∈ ls → e.validTill ≤ now)
    (hrun : (machine T host lifetime).run s ls = some s') (t : T) : s'.uses t ≠ some e.sock := by
  let inv (s : State T) : Prop := Valid s.uses s.pool s.created ∧ (e ∈ s.list ∨ Closed s e.sock)
  have hkeeps : ∀ s l s', (∀ t now, l = .connect t now → e.validTill ≤ now) → inv s →
      (machine T host lifetime).step s l = some s' → inv s' := fun s l s' hl hs hstep =>
    ⟨valid_of_effect hs.1 (effect_of_step hstep), expired_of_step hs.1 hl hs.2 hstep⟩
  have hend : inv s' := Machine.run_invariant_on hkeeps
    (fun l hl t now hlabel => hls t now (hlabel ▸ hl)) ⟨hvalid, .inl he⟩ hrun
  obtain ⟨hvalid', he | hclosed⟩ := hend
  · exact hvalid'.unused e.sock (List.mem_map_of_mem he) t
  · exact hclosed.notUsed t

/-- A connection that was discarded as expired is not used again, even if the clock goes back. -/
theorem unused_of_discarded {e : CacheEntry} {now : UInt64} {s₁ : State T} {ls : List (Label T)}
    (hvalid : Valid s.uses s.pool s.created) (he : e ∈ s.list) (hnow : e.validTill ≤ now)
    (hstep : (machine T host lifetime).step s (.connect t now) = some s₁) (hgone : e ∉ s₁.list)
    (hrun : (machine T host lifetime).run s₁ ls = some s') (k : T) : s'.uses k ≠ some e.sock := by
  have hclosed : Closed s₁ e.sock :=
    (expired_of_step hvalid (fun t' now' hl => by cases hl; exact hnow) (.inl he)
      hstep).resolve_left hgone
  have hkeeps : (machine T host lifetime).Keeps fun s => Closed s e.sock :=
    fun s l s' hs h => closed_of_effect hs (effect_of_step h)
  exact (Machine.run_invariant hkeeps hclosed hrun).notUsed k

/-- In a run where all arguments are clean: a call that does not fail has written its request once
and returns the result of the response to it; no connection is used by two calls at a time; and none
is used after a call failed on it or when its entry has expired. -/
theorem own_answer {ls : List (Label T)} (hclean : ∀ l ∈ ls, l.clean = true)
    (hrun : (machine T host lifetime).run .init ls = some s) :
    (∀ f ∈ s.finished, f.ret ≠ -1 →
      ∃ use r, f.use = some use ∧ Served host s.conns f.query use f.ret r) ∧
    (∀ t t' c, s.uses t = some c → s.uses t' = some c → t = t') ∧
    (∀ f ∈ s.finished, f.ret = -1 → ∀ use, f.use = some use → ∀ t, s.uses t ≠ some use.socket) ∧
    ∀ e ∈ s.list,
      (∀ ls' s', (∀ t now, .connect t now ∈ ls' → e.validTill ≤ now) →
        (machine T host lifetime).run s ls' = some s' → ∀ t, s'.uses t ≠ some e.sock) ∧
      ∀ t now s₁ ls' s', e.validTill ≤ now →
        (machine T host lifetime).step s (.connect t now) = some s₁ → e ∉ s₁.list →
        (machine T host lifetime).run s₁ ls' = some s' → ∀ t, s'.uses t ≠ some e.sock := by
  have hinv : Inv host s := Machine.run_invariant_on
    (fun s l s' hl hs => keeps_inv hl hs) hclean inv_init hrun
  refine ⟨hinv.served, hinv.valid.unique, ?_, ?_⟩
  · intro f hf hret use huse
    exact (hinv.closed f hf hret use huse).notUsed
  · intro e he
    constructor
    · intro ls' s' hls hrun'
      exact unused_of_expired hinv.valid he hls hrun'
    · intro t now s₁ ls' s' hnow hstep hgone hrun'
      exact unused_of_discarded hinv.valid he hnow hstep hgone hrun'

end Invariant

/-! ## 6. A call -/

def sevenText : Bytes := bytes "\nResult: 7\nhack\n"

theorem resultLine_seven (line : Bytes) (hline : IsLine line sevenText)
    (hpre : bytes "Result: " <+: line) : ResultLine 7 line := by
  have hall : ∀ x ∈ (chr '\n' :: sevenText ++ [chr '\n']).tails.flatMap List.inits,
      bytes "\nResult: " <+: x → [chr '\n'] <:+ x → chr '\n' ∉ x.tail.dropLast →
        x.tail.dropLast = bytes "Result: " ++ bytes "7" ++ [] := by
    decide +kernel
  obtain ⟨hnotMem, front, back, htext⟩ := hline
  have hmem : chr '\n' :: line ++ [chr '\n'] ∈
      (chr '\n' :: sevenText ++ [chr '\n']).tails.flatMap List.inits := by
    rw [← htext, List.append_assoc]
    exact List.mem_flatMap.mpr ⟨_, (List.mem_tails _ _).mpr (List.suffix_append _ _),
      (List.mem_inits _ _).mpr (List.prefix_append _ _)⟩
  have hdrop : (chr '\n' :: line ++ [chr '\n']).tail.dropLast = line := by simp
  have hseven := hall _ hmem ?_ (List.suffix_append _ _) (by rwa [hdrop])
  · rw [hdrop] at hseven
    exact ⟨bytes "7", [], hseven, by decide, by decide +kernel, by decide +kernel,
      .inl rfl⟩
  · obtain ⟨rest, rfl⟩ := hpre
    exact ⟨rest ++ [chr '\n'], by simp [bytes]⟩

def seven : WsResponse where
  text := sevenText
  result := 7
  length_le := by decide
  noNul := by decide
  endsWithHack := by decide
  hackAtEnd := by decide
  result_lt := by decide
  hasResult := ⟨bytes "Result: 7", by decide, bytes "7", [], by decide, by decide,
    by decide +kernel, by decide +kernel, .inl rfl⟩
  onlyResult := resultLine_seven

def childQuery : Query := ⟨bytes "http://a/", bytes "child"⟩

/-- The request goes out in two parts, and the response comes in two parts. -/
def sevenRun : List (Label Unit) :=
  [.call () childQuery, .connect () 0, .create () true, .write () 20 0, .write () (-EAGAIN) 1,
    .write () 59 0, .answer 0 seven, .read () 5 0, .read () 11 0, .add () 100]

/-- Then the cached connection expires. -/
def expiredRun : List (Label Unit) := [.call () childQuery, .connect () 10100]

theorem own_answer_seven : ∃ s s' : State Unit, ∃ f use r e,
    (machine Unit (bytes "ws") 10000).run .init sevenRun = some s ∧ f ∈ s.finished ∧ f.ret = 7 ∧
      f.use = some use ∧ Served (bytes "ws") s.conns f.query use f.ret r ∧ e ∈ s.list ∧
      (machine Unit (bytes "ws") 10000).run s expiredRun = some s' ∧
      ∀ t, s'.uses t ≠ some e.sock := by
  obtain ⟨s, hs⟩ :
      ∃ s, (machine Unit (bytes "ws") 10000).run .init sevenRun = some s :=
    Option.isSome_iff_exists.mp (by decide +kernel)
  obtain ⟨s', hs'⟩ :
      ∃ s', (machine Unit (bytes "ws") 10000).run .init (sevenRun ++ expiredRun) = some s' :=
    Option.isSome_iff_exists.mp (by decide +kernel)
  rw [Machine.run_append, hs, Option.bind_some] at hs'
  have hend : ((machine Unit (bytes "ws") 10000).run .init sevenRun).map
      (fun s => (s.finished.map Finished.ret, s.list.map CacheEntry.validTill)) =
        some ([7], [10100]) := by
    decide +kernel
  rw [hs, Option.map_some, Option.some_inj, Prod.mk.injEq] at hend
  obtain ⟨f, hf, hret⟩ : ∃ f ∈ s.finished, f.ret = 7 :=
    List.mem_map.mp (hend.1 ▸ List.mem_singleton_self 7)
  obtain ⟨e, he, hvalidTill⟩ : ∃ e ∈ s.list, e.validTill = 10100 :=
    List.mem_map.mp (hend.2 ▸ List.mem_singleton_self 10100)
  have hclean : ∀ l ∈ sevenRun, l.clean = true := by decide +kernel
  have hall := own_answer hclean hs
  obtain ⟨use, r, huse, hserved⟩ := hall.1 f hf (by rw [hret]; decide)
  refine ⟨s, s', f, use, r, e, hs, hf, hret, huse, hserved, he, hs', ?_⟩
  refine (hall.2.2.2 e he).1 expiredRun s' ?_ hs'
  intro t now hlabel
  have hnow : now = 10100 := by simpa [expiredRun] using hlabel
  rw [hvalidTill, hnow]
  exact UInt64.le_refl _

end WsConnections

end SafeKiddo
