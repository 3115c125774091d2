import SafeKiddo.Lib.Machine
import SafeKiddo.Lib.Tokens

/-!
# The socket pool of httpd

`SocketPool` of `httpd.cc` with the threads of `backendQuery` that use it, as a machine. A step is a
critical section of the pool, the end of a poll, or the closing of a socket. A wait may end for no
reason, and any call of `zmq_socket` may fail.

Results:
1. `Inv`: what holds between any two steps; `keeps_inv` is its step lemma.
2. `sockets_owned`: each socket is in one place and is given back once.
3. `served_iff`: when no thread waits on a pool without sockets.
4. `notified_waiter`: a free socket and a waiting thread mean that some thread was notified.
-/

namespace SafeKiddo

namespace SocketPool

/-! ## 1. State -/

/-- What `zmq_socket` creates: the sockets are numbered as they are created. -/
abbrev Socket := Nat

/-- Where a thread is in `backendQuery`. -/
inductive Place
  | outside
  /-- In `socketAvailable.wait`; a notification may be pending. -/
  | waiting (notified : Bool)
  /-- In `zmq_poll`, after the request was sent. -/
  | polling (socket : Socket)
  /-- Before `returnSocket`. -/
  | answered (socket : Socket)
  /-- Before `destroySocket`. -/
  | timedOut (socket : Socket)
  /-- In `destroySocket`, after `lock.unlock()`. -/
  | closing (socket : Socket)
  deriving DecidableEq

/-- A call of `backendQuery`: what `getSocket` gave it, and what it gave back to the pool. -/
structure Call where
  taken : List Socket
  givenBack : List Socket

structure Thread where
  place : Place
  call : Call

/-- The members of the class, the threads, and the history: how many sockets were created, which of
them had a request that timed out, and the calls that have returned. -/
structure State (Id : Type) where
  numSockets : Nat
  socketList : List Socket
  threads : Id → Thread
  created : Nat
  timeouts : List Socket
  calls : List Call
  /-- The assertion of `destroySocket` has fired. -/
  failed : Bool

section Code

variable {Id : Type} [Fintype Id] [DecidableEq Id]

def State.new : State Id where
  numSockets := 0
  socketList := []
  threads _ := ⟨.outside, [], []⟩
  created := 0
  timeouts := []
  calls := []
  failed := false

/-! ## 2. The code -/

def State.setThread (s : State Id) (t : Id) (thread : Thread) : State Id :=
  { s with threads := Function.update s.threads t thread }

/-- `getSocket` returns the socket, and the request is sent. -/
def State.take (s : State Id) (t : Id) (socket : Socket) : State Id :=
  s.setThread t ⟨.polling socket, [socket], []⟩

/-- `backendQuery` returns. -/
def State.leave (s : State Id) (t : Id) (call : Call) : State Id :=
  { s.setThread t ⟨.outside, [], []⟩ with calls := s.calls ++ [call] }

/-- `socketAvailable.notify_one()`: one thread in the wait is notified, if there is any that has no
notification pending. -/
def notifyOne (notified : Option Id) (s : State Id) : Option (State Id) :=
  match notified with
  | some t =>
    if (s.threads t).place = .waiting false then
      some (s.setThread t { s.threads t with place := .waiting true })
    else none
  | none => if ∀ t, (s.threads t).place ≠ .waiting false then some s else none

/-- `getSocket` up to the wait. -/
def getSocket (maxSockets : Nat) (zmqSocketOk : Bool) (t : Id) (s : State Id) : State Id :=
  match s.socketList with
  | [] =>
    if s.numSockets < maxSockets ∧ zmqSocketOk = true then
      { s.take t s.created with numSockets := s.numSockets + 1, created := s.created + 1 }
    else if s.numSockets = 0 then s.leave t ⟨[], []⟩
    else s.setThread t ⟨.waiting false, [], []⟩
  | socket :: socketList => { s.take t socket with socketList }

/-- The wait ends, by a notification or for no reason, and its condition is checked. -/
def wake (t : Id) (notified : Option Id) (s : State Id) : Option (State Id) :=
  match s.socketList with
  | [] => some (s.setThread t ⟨.waiting false, [], []⟩)
  | [socket] => some { s.take t socket with socketList := [] }
  | socket :: socketList => notifyOne notified { s.take t socket with socketList }

def returnSocket (t : Id) (socket : Socket) (notified : Option Id) (s : State Id) :
    Option (State Id) :=
  let call := (s.threads t).call
  let returned := { s.leave t { call with givenBack := call.givenBack ++ [socket] } with
    socketList := socket :: s.socketList }
  if s.socketList.isEmpty then notifyOne notified returned else some returned

/-- `destroySocket` up to `lock.unlock()`. -/
def destroySocket (t : Id) (socket : Socket) (s : State Id) : State Id :=
  if 0 < s.numSockets then
    let call := (s.threads t).call
    { s.setThread t ⟨.closing socket, { call with givenBack := call.givenBack ++ [socket] }⟩ with
      numSockets := s.numSockets - 1 }
  else { s with failed := true }

/-! ## 3. The machine -/

inductive Label (Id : Type)
  /-- A thread enters `backendQuery`. -/
  | getSocket (t : Id) (zmqSocketOk : Bool)
  | wake (t : Id) (notified : Option Id)
  /-- A reply arrives, and it parses or not. -/
  | reply (t : Id) (parseOk : Bool)
  | timeout (t : Id)
  | returnSocket (t : Id) (notified : Option Id)
  | destroySocket (t : Id)
  /-- `zmq_close`. -/
  | close (t : Id)

def step (maxSockets : Nat) (s : State Id) : Label Id → Option (State Id)
  | .getSocket t zmqSocketOk =>
    match (s.threads t).place with
    | .outside => some (getSocket maxSockets zmqSocketOk t s)
    | _ => none
  | .wake t notified =>
    match (s.threads t).place with
    | .waiting _ => wake t notified s
    | _ => none
  | .reply t _ =>
    match (s.threads t).place with
    | .polling socket => some (s.setThread t { s.threads t with place := .answered socket })
    | _ => none
  | .timeout t =>
    match (s.threads t).place with
    | .polling socket =>
      some { s.setThread t { s.threads t with place := .timedOut socket } with
        timeouts := s.timeouts ++ [socket] }
    | _ => none
  | .returnSocket t notified =>
    match (s.threads t).place with
    | .answered socket => returnSocket t socket notified s
    | _ => none
  | .destroySocket t =>
    match (s.threads t).place with
    | .timedOut socket => some (destroySocket t socket s)
    | _ => none
  | .close t =>
    match (s.threads t).place with
    | .closing _ => some (s.leave t (s.threads t).call)
    | _ => none

def machine (Id : Type) [Fintype Id] [DecidableEq Id] (maxSockets : Nat) :
    Machine (State Id) (Label Id) := ⟨State.new, step maxSockets⟩

/-- The steps with where their thread is before them. -/
inductive Stepped (maxSockets : Nat) (s : State Id) : Label Id → State Id → Prop
  | getSocket {t : Id} {zmqSocketOk : Bool} (ht : (s.threads t).place = .outside) :
      Stepped maxSockets s (.getSocket t zmqSocketOk) (getSocket maxSockets zmqSocketOk t s)
  | wake {t : Id} {notified : Option Id} {b : Bool} {s' : State Id}
      (ht : (s.threads t).place = .waiting b) (hs : wake t notified s = some s') :
      Stepped maxSockets s (.wake t notified) s'
  | reply {t : Id} {parseOk : Bool} {socket : Socket} (ht : (s.threads t).place = .polling socket) :
      Stepped maxSockets s (.reply t parseOk)
        (s.setThread t { s.threads t with place := .answered socket })
  | timeout {t : Id} {socket : Socket} (ht : (s.threads t).place = .polling socket) :
      Stepped maxSockets s (.timeout t)
        { s.setThread t { s.threads t with place := .timedOut socket } with
          timeouts := s.timeouts ++ [socket] }
  | returnSocket {t : Id} {notified : Option Id} {socket : Socket} {s' : State Id}
      (ht : (s.threads t).place = .answered socket)
      (hs : returnSocket t socket notified s = some s') :
      Stepped maxSockets s (.returnSocket t notified) s'
  | destroySocket {t : Id} {socket : Socket} (ht : (s.threads t).place = .timedOut socket) :
      Stepped maxSockets s (.destroySocket t) (destroySocket t socket s)
  | close {t : Id} {socket : Socket} (ht : (s.threads t).place = .closing socket) :
      Stepped maxSockets s (.close t) (s.leave t (s.threads t).call)

theorem stepped_of_step {maxSockets : Nat} {s s' : State Id} {l : Label Id}
    (h : step maxSockets s l = some s') : Stepped maxSockets s l s' := by
  unfold step at h
  split at h
  · split at h
    · next ht => cases h; exact .getSocket ht
    · cases h
  · split at h
    · next ht => exact .wake ht h
    · cases h
  · split at h
    · next ht => cases h; exact .reply ht
    · cases h
  · split at h
    · next ht => cases h; exact .timeout ht
    · cases h
  · split at h
    · next ht => exact .returnSocket ht h
    · cases h
  · split at h
    · next ht => cases h; exact .destroySocket ht
    · cases h
  · split at h
    · next ht => cases h; exact .close ht
    · cases h

end Code

/-! ## 4. Ownership -/

/-- The socket that the thread has. -/
def Place.socket? : Place → Option Socket
  | polling socket => some socket
  | answered socket => some socket
  | timedOut socket => some socket
  | _ => none

/-- The socket, as long as its request has not timed out. -/
def Place.usable? : Place → Option Socket
  | polling socket => some socket
  | answered socket => some socket
  | _ => none

/-- What a call has taken and given back where its thread is. -/
def CallOk (call : Call) : Place → Prop
  | .outside => call = ⟨[], []⟩
  | .waiting _ => call = ⟨[], []⟩
  | .polling socket => call = ⟨[socket], []⟩
  | .answered socket => call = ⟨[socket], []⟩
  | .timedOut socket => call = ⟨[socket], []⟩
  | .closing socket => call = ⟨[socket], [socket]⟩

/-- A returned call gave back what it took, which is one socket at most. -/
def Call.Done (call : Call) : Prop := call.givenBack = call.taken ∧ call.taken.length ≤ 1

section Ownership

variable {Id : Type} [Fintype Id]

def sockets (threads : Id → Thread) : Id → Option Socket := fun t => (threads t).place.socket?

/-- The sockets in the pool and those of the threads. -/
def owned (socketList : List Socket) (threads : Id → Thread) : Multiset Socket :=
  ↑socketList + Tokens.held (sockets threads)

structure Inv (maxSockets : Nat) (s : State Id) : Prop where
  ok : s.failed = false
  nodup : (owned s.socketList s.threads).Nodup
  count : s.numSockets = (owned s.socketList s.threads).card
  bound : s.numSockets ≤ maxSockets
  created : ∀ x ∈ owned s.socketList s.threads, x < s.created
  call : ∀ t, CallOk (s.threads t).call (s.threads t).place
  timeouts : ∀ x ∈ s.timeouts,
    x < s.created ∧ x ∉ s.socketList ∧ ∀ t, (s.threads t).place.usable? ≠ some x
  calls : ∀ call ∈ s.calls, call.Done

variable {maxSockets : Nat} {s s' : State Id} {t : Id} {x : Socket} {socketList : List Socket}
  {threads : Id → Thread} {thread : Thread}

theorem inv_new (maxSockets : Nat) : Inv maxSockets (State.new : State Id) := by
  have howned : owned (State.new : State Id).socketList (State.new : State Id).threads = 0 :=
    (zero_add _).trans Tokens.held_none
  exact ⟨rfl, howned ▸ Multiset.nodup_zero, by rw [howned]; rfl, Nat.zero_le _,
    fun x hx => absurd (howned ▸ hx) (Multiset.notMem_zero x), fun _ => rfl, nofun, nofun⟩

theorem owned_cons : owned (x :: socketList) threads = x ::ₘ owned socketList threads := by
  rw [owned, owned, ← Multiset.cons_coe, Multiset.cons_add]

theorem mem_owned : x ∈ owned socketList threads ↔
    x ∈ socketList ∨ ∃ t, (threads t).place.socket? = some x := by
  rw [owned, Multiset.mem_add, Multiset.mem_coe, Tokens.mem_held]
  rfl

theorem Place.socket_of_usable {place : Place} (h : place.usable? = some x) :
    place.socket? = some x := by
  cases place with
  | polling socket => exact h
  | answered socket => exact h
  | _ => cases h

/-- A thread has its socket alone. -/
theorem Inv.alone (h : Inv maxSockets s) (ht : (s.threads t).place.socket? = some x) :
    x ∉ s.socketList ∧ ∀ u, u ≠ t → (s.threads u).place.socket? ≠ some x := by
  have hnodup := h.nodup
  rw [owned, Multiset.nodup_add] at hnodup
  obtain ⟨-, hheld, hdisjoint⟩ := hnodup
  refine ⟨fun hmem => ?_, fun u hne hu => hne (Tokens.holder_unique hheld hu ht)⟩
  exact Multiset.disjoint_left.mp hdisjoint (Multiset.mem_coe.mpr hmem)
    (Tokens.mem_held.mpr ⟨t, ht⟩)

section Update

variable [DecidableEq Id]

omit [Fintype Id] in
theorem sockets_update : sockets (Function.update threads t thread) =
    Function.update (sockets threads) t thread.place.socket? :=
  Function.comp_update (fun thread : Thread => thread.place.socket?) threads t thread

theorem owned_move (h : thread.place.socket? = (threads t).place.socket?) :
    owned socketList (Function.update threads t thread) = owned socketList threads := by
  have hsame : sockets threads t = thread.place.socket? := h.symm
  rw [owned, owned, sockets_update, Tokens.held_same _ hsame]

theorem owned_take (thread : Thread) (h : (threads t).place.socket? = none)
    (hx : thread.place.socket? = some x) :
    owned socketList (Function.update threads t thread) = x ::ₘ owned socketList threads := by
  have hnone : sockets threads t = none := h
  rw [owned, owned, sockets_update, hx, Tokens.held_take hnone, Multiset.add_cons]

theorem owned_give (thread : Thread) (h : (threads t).place.socket? = some x)
    (hx : thread.place.socket? = none) :
    owned socketList threads = x ::ₘ owned socketList (Function.update threads t thread) := by
  have hsome : sockets threads t = some x := h
  rw [owned, owned, sockets_update, hx, Tokens.held_give hsome, Multiset.add_cons]

/-- What the calls and the time-outs say after the thread `t` has moved. -/
theorem Inv.move (h : Inv maxSockets s) (t : Id) (thread : Thread)
    (hcall : CallOk thread.call thread.place)
    (husable : ∀ x ∈ s.timeouts, thread.place.usable? ≠ some x) :
    (∀ u, CallOk (Function.update s.threads t thread u).call
      (Function.update s.threads t thread u).place) ∧
    ∀ x ∈ s.timeouts, ∀ u, (Function.update s.threads t thread u).place.usable? ≠ some x := by
  constructor
  · exact (Function.forall_update_iff _ fun _ (th : Thread) => CallOk th.call th.place).mpr
      ⟨hcall, fun u _ => h.call u⟩
  · intro x hx
    exact (Function.forall_update_iff _ fun _ (th : Thread) => th.place.usable? ≠ some x).mpr
      ⟨husable x hx, fun u _ => (h.timeouts x hx).2.2 u⟩

/-- A thread that moves and keeps what it has. -/
theorem Inv.setThread (h : Inv maxSockets s) (t : Id) (thread : Thread)
    (hcall : CallOk thread.call thread.place)
    (hsocket : thread.place.socket? = (s.threads t).place.socket?)
    (husable : ∀ x ∈ s.timeouts, thread.place.usable? ≠ some x) :
    Inv maxSockets (s.setThread t thread) := by
  obtain ⟨hcalls, htimeouts⟩ := h.move t thread hcall husable
  have howned : owned s.socketList (Function.update s.threads t thread) =
      owned s.socketList s.threads := owned_move hsocket
  exact ⟨h.ok, howned.symm ▸ h.nodup, howned.symm ▸ h.count, h.bound, howned.symm ▸ h.created,
    hcalls, fun x hx => ⟨(h.timeouts x hx).1, (h.timeouts x hx).2.1, htimeouts x hx⟩, h.calls⟩

/-! ## 5. Steps of the threads -/

theorem notifyOne_inv {notified : Option Id} (h : Inv maxSockets s)
    (hs : notifyOne notified s = some s') : Inv maxSockets s' := by
  unfold notifyOne at hs
  split at hs
  · next t =>
    split at hs
    · next hplace =>
      cases hs
      have hcall := h.call t
      rw [hplace] at hcall
      exact h.setThread t _ hcall (congrArg Place.socket? hplace).symm (fun _ _ => nofun)
    · cases hs
  · split at hs
    · cases hs
      exact h
    · cases hs

/-- The thread takes a socket of the pool. -/
theorem take_inv (h : Inv maxSockets s) (ht : (s.threads t).place.socket? = none)
    (hlist : s.socketList = x :: socketList) :
    Inv maxSockets { s.take t x with socketList } := by
  have howned : owned socketList (Function.update s.threads t ⟨.polling x, [x], []⟩) =
      owned s.socketList s.threads := by
    rw [hlist, owned_cons, owned_take _ ht rfl]
  have hfree : ∀ y ∈ s.timeouts, y ≠ x := fun y hy he =>
    (h.timeouts y hy).2.1 (hlist ▸ he ▸ List.mem_cons_self)
  obtain ⟨hcalls, htimeouts⟩ := h.move t ⟨.polling x, [x], []⟩ rfl
    fun y hy he => hfree y hy (Option.some.inj he).symm
  refine ⟨h.ok, howned.symm ▸ h.nodup, howned.symm ▸ h.count, h.bound, howned.symm ▸ h.created,
    hcalls, fun y hy => ⟨(h.timeouts y hy).1, fun hmem => (h.timeouts y hy).2.1 ?_,
      htimeouts y hy⟩, h.calls⟩
  rw [hlist]
  exact List.mem_cons_of_mem _ hmem

/-- The thread takes a new socket. -/
theorem create_inv (h : Inv maxSockets s) (ht : (s.threads t).place.socket? = none)
    (hlt : s.numSockets < maxSockets) :
    Inv maxSockets { s.take t s.created with
      numSockets := s.numSockets + 1, created := s.created + 1 } := by
  have howned : owned s.socketList
      (Function.update s.threads t ⟨.polling s.created, [s.created], []⟩) =
      s.created ::ₘ owned s.socketList s.threads := owned_take _ ht rfl
  obtain ⟨hcalls, htimeouts⟩ := h.move t ⟨.polling s.created, [s.created], []⟩ rfl
    fun y hy he => (h.timeouts y hy).1.ne (Option.some.inj he).symm
  refine ⟨h.ok, ?_, ?_, hlt, ?_, hcalls, fun y hy =>
    ⟨(h.timeouts y hy).1.trans (Nat.lt_succ_self _), (h.timeouts y hy).2.1, htimeouts y hy⟩,
    h.calls⟩
  · refine howned.symm ▸ Multiset.nodup_cons.mpr ⟨fun hmem => ?_, h.nodup⟩
    exact lt_irrefl _ (h.created _ hmem)
  · refine (congrArg (· + 1) h.count).trans ?_
    exact (Multiset.card_cons _ _).symm.trans (congrArg _ howned.symm)
  · intro y hy
    rcases Multiset.mem_cons.mp (howned ▸ hy) with rfl | hy
    · exact Nat.lt_succ_self _
    · exact (h.created y hy).trans (Nat.lt_succ_self _)

/-- A call that is done returns. -/
theorem Inv.leave (h : Inv maxSockets s) (ht : (s.threads t).place.socket? = none)
    {call : Call} (hcall : call.Done) : Inv maxSockets (s.leave t call) := by
  obtain ⟨ok, nodup, count, bound, created, calls, timeouts, -⟩ :=
    h.setThread t ⟨.outside, [], []⟩ rfl ht.symm (fun _ _ => nofun)
  refine ⟨ok, nodup, count, bound, created, calls, timeouts, ?_⟩
  intro c hc
  rcases List.mem_append.mp hc with hc | hc
  · exact h.calls c hc
  · exact List.mem_singleton.mp hc ▸ hcall

theorem getSocket_inv {zmqSocketOk : Bool} (h : Inv maxSockets s)
    (ht : (s.threads t).place = .outside) :
    Inv maxSockets (getSocket maxSockets zmqSocketOk t s) := by
  have hnone : (s.threads t).place.socket? = none := congrArg Place.socket? ht
  unfold getSocket
  split
  · split
    · next hnew => exact create_inv h hnone hnew.1
    · split
      · exact h.leave hnone ⟨rfl, Nat.zero_le _⟩
      · exact h.setThread t _ rfl hnone.symm (fun _ _ => nofun)
  · next hlist => exact take_inv h hnone hlist

theorem wake_inv {notified : Option Id} {b : Bool} (h : Inv maxSockets s)
    (ht : (s.threads t).place = .waiting b) (hs : wake t notified s = some s') :
    Inv maxSockets s' := by
  have hnone : (s.threads t).place.socket? = none := congrArg Place.socket? ht
  unfold wake at hs
  split at hs
  · cases hs
    exact h.setThread t _ rfl hnone.symm (fun _ _ => nofun)
  · next hlist =>
    cases hs
    exact take_inv h hnone hlist
  · next hlist => exact notifyOne_inv (take_inv h hnone hlist) hs

theorem reply_inv (h : Inv maxSockets s) (ht : (s.threads t).place = .polling x) :
    Inv maxSockets (s.setThread t { s.threads t with place := .answered x }) := by
  have hcall := h.call t
  rw [ht] at hcall
  refine h.setThread t _ hcall (congrArg Place.socket? ht).symm ?_
  intro y hy
  have husable := (h.timeouts y hy).2.2 t
  rw [ht] at husable
  exact husable

theorem timeout_inv (h : Inv maxSockets s) (ht : (s.threads t).place = .polling x) :
    Inv maxSockets { s.setThread t { s.threads t with place := .timedOut x } with
      timeouts := s.timeouts ++ [x] } := by
  have hcall := h.call t
  rw [ht] at hcall
  have hsome : (s.threads t).place.socket? = some x := congrArg Place.socket? ht
  obtain ⟨hlist, halone⟩ := h.alone hsome
  obtain ⟨ok, nodup, count, bound, created, calls, timeouts, hdone⟩ :=
    h.setThread t { s.threads t with place := .timedOut x } hcall hsome.symm
      (fun _ _ => nofun)
  refine ⟨ok, nodup, count, bound, created, calls, fun y hy => ?_, hdone⟩
  rcases List.mem_append.mp hy with hy | hy
  · exact timeouts y hy
  · rw [List.mem_singleton.mp hy]
    refine ⟨h.created x (mem_owned.mpr (.inr ⟨t, hsome⟩)), hlist, ?_⟩
    intro u husable
    rcases eq_or_ne u t with rfl | hne
    · simp [State.setThread, Place.usable?] at husable
    · simp only [State.setThread, Function.update_of_ne hne] at husable
      exact halone u hne (Place.socket_of_usable husable)

theorem returnSocket_inv {notified : Option Id} (h : Inv maxSockets s)
    (ht : (s.threads t).place = .answered x) (hs : returnSocket t x notified s = some s') :
    Inv maxSockets s' := by
  have hcall := h.call t
  have husable : ∀ y ∈ s.timeouts, y ≠ x := by
    rintro y hy rfl
    have hno := (h.timeouts y hy).2.2 t
    rw [ht] at hno
    exact hno rfl
  rw [ht] at hcall
  have hsome : (s.threads t).place.socket? = some x := congrArg Place.socket? ht
  have howned : owned (x :: s.socketList) (Function.update s.threads t ⟨.outside, [], []⟩) =
      owned s.socketList s.threads := by
    rw [owned_cons, owned_give ⟨.outside, [], []⟩ hsome rfl]
  obtain ⟨hcalls, htimeouts⟩ := h.move t ⟨.outside, [], []⟩ rfl
    fun _ _ => nofun
  have hdone : Call.Done ⟨(s.threads t).call.taken, (s.threads t).call.givenBack ++ [x]⟩ := by
    rw [show (s.threads t).call = ⟨[x], []⟩ from hcall]
    exact ⟨rfl, le_refl _⟩
  have hreturned : Inv maxSockets
      { s.leave t ⟨(s.threads t).call.taken, (s.threads t).call.givenBack ++ [x]⟩ with
        socketList := x :: s.socketList } := by
    refine ⟨h.ok, howned.symm ▸ h.nodup, howned.symm ▸ h.count, h.bound, howned.symm ▸ h.created,
      hcalls, fun y hy => ⟨(h.timeouts y hy).1, fun hmem => ?_, htimeouts y hy⟩, fun c hc => ?_⟩
    · rcases List.mem_cons.mp hmem with rfl | hmem
      · exact husable y hy rfl
      · exact (h.timeouts y hy).2.1 hmem
    · rcases List.mem_append.mp hc with hc | hc
      · exact h.calls c hc
      · exact List.mem_singleton.mp hc ▸ hdone
  unfold returnSocket at hs
  simp only at hs
  split at hs
  · exact notifyOne_inv hreturned hs
  · cases hs
    exact hreturned

/-- The thread owns a socket, so the count is positive. -/
theorem destroySocket_inv (h : Inv maxSockets s) (ht : (s.threads t).place = .timedOut x) :
    Inv maxSockets (destroySocket t x s) := by
  have hcall := h.call t
  rw [ht] at hcall
  have hcall' : CallOk ⟨(s.threads t).call.taken, (s.threads t).call.givenBack ++ [x]⟩
      (.closing x) := by
    rw [show (s.threads t).call = ⟨[x], []⟩ from hcall]
    rfl
  have howned : owned s.socketList s.threads = x ::ₘ owned s.socketList
      (Function.update s.threads t
        ⟨.closing x, (s.threads t).call.taken, (s.threads t).call.givenBack ++ [x]⟩) :=
    owned_give _ (congrArg Place.socket? ht) rfl
  obtain ⟨hcalls, htimeouts⟩ := h.move t ⟨.closing x, _⟩ hcall'
    fun _ _ => nofun
  have hcard := h.count
  rw [howned, Multiset.card_cons] at hcard
  have hnodup := h.nodup
  rw [howned, Multiset.nodup_cons] at hnodup
  unfold destroySocket
  rw [if_pos (hcard ▸ Nat.succ_pos _)]
  refine ⟨h.ok, hnodup.2, ?_, (Nat.sub_le _ _).trans h.bound, fun y hy => h.created y ?_, hcalls,
    fun y hy => ⟨(h.timeouts y hy).1, (h.timeouts y hy).2.1, htimeouts y hy⟩, h.calls⟩
  · exact congrArg (· - 1) hcard
  · rw [howned]
    exact Multiset.mem_cons_of_mem hy

/-- The step lemma. -/
theorem keeps_inv (Id : Type) [Fintype Id] [DecidableEq Id] (maxSockets : Nat) :
    (machine Id maxSockets).Keeps (Inv maxSockets) := by
  intro s l s' h hs
  cases stepped_of_step hs with
  | getSocket ht => exact getSocket_inv h ht
  | wake ht hs => exact wake_inv h ht hs
  | reply ht => exact reply_inv h ht
  | timeout ht => exact timeout_inv h ht
  | returnSocket ht hs => exact returnSocket_inv h ht hs
  | destroySocket ht => exact destroySocket_inv h ht
  | @close t socket ht =>
    have hcall := h.call t
    rw [ht] at hcall
    refine h.leave (congrArg Place.socket? ht) ?_
    rw [show (s.threads t).call = ⟨[socket], [socket]⟩ from hcall]
    exact ⟨rfl, le_refl _⟩

/-! ## 6. Runs -/

omit [Fintype Id] in
theorem getSocket_timeouts (zmqSocketOk : Bool) :
    (getSocket maxSockets zmqSocketOk t s).timeouts = s.timeouts := by
  unfold getSocket
  split
  · split_ifs <;> rfl
  · rfl

theorem notifyOne_timeouts {notified : Option Id} (h : notifyOne notified s = some s') :
    s'.timeouts = s.timeouts := by
  unfold notifyOne at h
  split at h
  · split at h
    · cases h; rfl
    · cases h
  · split at h
    · cases h; rfl
    · cases h

theorem wake_timeouts {notified : Option Id} (h : wake t notified s = some s') :
    s'.timeouts = s.timeouts := by
  unfold wake at h
  split at h
  · cases h; rfl
  · cases h; rfl
  · exact (notifyOne_timeouts h).trans rfl

theorem returnSocket_timeouts {notified : Option Id} (h : returnSocket t x notified s = some s') :
    s'.timeouts = s.timeouts := by
  unfold returnSocket at h
  simp only at h
  split at h
  · exact (notifyOne_timeouts h).trans rfl
  · cases h; rfl

/-- A time-out is not forgotten. -/
theorem step_timeouts {l : Label Id} (h : step maxSockets s l = some s') :
    s.timeouts <+: s'.timeouts := by
  cases stepped_of_step h with
  | getSocket _ => rw [getSocket_timeouts]
  | wake _ hs => rw [wake_timeouts hs]
  | reply _ => exact List.prefix_rfl
  | timeout _ => exact List.prefix_append _ _
  | returnSocket _ hs => rw [returnSocket_timeouts hs]
  | destroySocket _ =>
    unfold destroySocket
    split <;> exact List.prefix_rfl
  | close _ => exact List.prefix_rfl

/-- What the pool and its threads promise each other. -/
structure SocketsOwned (maxSockets : Nat) (s : State Id) : Prop where
  count : s.numSockets = s.socketList.length +
    (Finset.univ.filter fun t => (s.threads t).place.socket?.isSome).card
  bound : s.numSockets ≤ maxSockets
  list_nodup : s.socketList.Nodup
  free_or_held : ∀ t x, (s.threads t).place.socket? = some x → x ∉ s.socketList
  one_holder : ∀ t u x, (s.threads t).place.socket? = some x →
    (s.threads u).place.socket? = some x → t = u
  /-- A call that took a socket has returned or destroyed it once, and no other. -/
  once : ∀ call ∈ s.calls, call.givenBack = call.taken ∧ call.taken.length ≤ 1
  /-- From now on, whatever timed out is neither free nor handed out. -/
  timed_out : ∀ ls s', (machine Id maxSockets).run s ls = some s' → ∀ x ∈ s.timeouts,
    x ∉ s'.socketList ∧ ∀ t, (s'.threads t).place ≠ .polling x
  assertion : s.failed = false

theorem sockets_owned (Id : Type) [Fintype Id] [DecidableEq Id] (maxSockets : Nat) (s : State Id)
    (h : (machine Id maxSockets).Reachable s) : SocketsOwned maxSockets s := by
  have hinv := h.invariant (keeps_inv Id maxSockets) (inv_new maxSockets)
  obtain ⟨hlist, hheld, -⟩ := Multiset.nodup_add.mp hinv.nodup
  refine ⟨?_, hinv.bound, hlist, fun t x ht => (hinv.alone ht).1,
    fun t u x ht hu => Tokens.holder_unique hheld ht hu, hinv.calls, fun ls s' hrun x hx => ?_,
    hinv.ok⟩
  · rw [hinv.count, owned, Multiset.card_add, Tokens.card_held]
    rfl
  · have hinv' := Machine.run_invariant (keeps_inv Id maxSockets) hinv hrun
    have hprefix := Machine.run_relation (r := fun s s' => s.timeouts <+: s'.timeouts)
      (fun _ => List.prefix_rfl) (fun _ _ _ => List.IsPrefix.trans)
      (fun _ _ _ hs => step_timeouts hs) hrun
    have hx' : x ∈ s'.timeouts := hprefix.subset hx
    obtain ⟨-, hfree, hno⟩ := hinv'.timeouts x hx'
    refine ⟨hfree, fun t ht => hno t ?_⟩
    rw [ht]
    rfl

end Update

end Ownership

/-- The only socket goes from a thread to one that waits for it, whose request times out. -/
def timeoutRun : List (Label (Fin 2)) :=
  [.getSocket 0 true, .getSocket 1 true, .reply 0 false, .returnSocket 0 (some 1), .wake 1 none,
    .timeout 1, .destroySocket 1, .close 1]

theorem sockets_owned_timeout :
    ∃ s, (machine (Fin 2) 1).run State.new timeoutRun = some s ∧ s.timeouts = [0] ∧
      SocketsOwned 1 s :=
  ⟨_, rfl, rfl, sockets_owned (Fin 2) 1 _ ⟨timeoutRun, rfl⟩⟩

/-! ## 7. Waiting threads -/

section Waiting

variable {Id : Type} [Fintype Id] [DecidableEq Id] {maxSockets : Nat} {s s' : State Id} {t : Id}
  {x : Socket}

/-- The thread is blocked in `getSocket`, and no notification is pending. -/
def State.Blocked (s : State Id) (t : Id) : Prop := (s.threads t).place = .waiting false

/-- The thread has been notified and has not resumed yet. -/
def State.Notified (s : State Id) (t : Id) : Prop := (s.threads t).place = .waiting true

/-- A free socket and a blocked thread mean that another thread was notified. -/
def WakesUp (s : State Id) : Prop :=
  s.socketList ≠ [] → ∀ t, s.Blocked t → ∃ u, u ≠ t ∧ s.Notified u

/-- Some thread was notified, or none is blocked. -/
theorem notifyOne_wakesUp {notified : Option Id} (h : notifyOne notified s = some s') :
    WakesUp s' := by
  unfold notifyOne at h
  intro _ u hu
  split at h
  · next t =>
    split at h
    · cases h
      refine ⟨t, ?_, by simp [State.Notified, State.setThread]⟩
      rintro rfl
      simp [State.Blocked, State.setThread] at hu
    · cases h
  · split at h
    · next hnone =>
      cases h
      exact absurd hu (hnone u)
    · cases h

omit [Fintype Id] in
/-- A thread that was not notified moves to where it is not blocked. -/
theorem WakesUp.frame (h : WakesUp s) {thread : Thread} (ht : ¬ s.Notified t)
    (hthread : thread.place ≠ .waiting false)
    (hthreads : s'.threads = Function.update s.threads t thread)
    (hlist : s'.socketList ≠ [] → s.socketList ≠ []) : WakesUp s' := by
  intro hne u hu
  rw [State.Blocked, hthreads] at hu
  have hut : u ≠ t := by
    rintro rfl
    rw [Function.update_self] at hu
    exact hthread hu
  rw [Function.update_of_ne hut] at hu
  obtain ⟨v, hvu, hv⟩ := h (hlist hne) u hu
  have hvt : v ≠ t := by
    rintro rfl
    exact ht hv
  refine ⟨v, hvu, ?_⟩
  rw [State.Notified, hthreads, Function.update_of_ne hvt]
  exact hv

omit [Fintype Id] [DecidableEq Id] in
theorem wakesUp_of_nil (h : s.socketList = []) : WakesUp s := fun hne => absurd h hne

omit [Fintype Id] in
theorem getSocket_wakesUp {zmqSocketOk : Bool} (h : WakesUp s)
    (ht : (s.threads t).place = .outside) : WakesUp (getSocket maxSockets zmqSocketOk t s) := by
  have hnot : ¬ s.Notified t := by
    rw [State.Notified, ht]
    nofun
  unfold getSocket
  split
  · next hlist =>
    split
    · exact wakesUp_of_nil hlist
    · split
      · exact wakesUp_of_nil hlist
      · exact wakesUp_of_nil hlist
  · next hlist => exact h.frame hnot (by nofun) rfl fun _ => by rw [hlist]; nofun

theorem keeps_wakesUp (Id : Type) [Fintype Id] [DecidableEq Id] (maxSockets : Nat) :
    (machine Id maxSockets).Keeps WakesUp := by
  intro s l s' h hs
  have hnot : ∀ {t place}, (s.threads t).place = place → (∀ b, place ≠ .waiting b) →
      ¬ s.Notified t := fun ht hplace hn => hplace true (ht.symm.trans hn)
  cases stepped_of_step hs with
  | getSocket ht => exact getSocket_wakesUp h ht
  | wake _ hs =>
    unfold wake at hs
    split at hs
    · next hlist => cases hs; exact wakesUp_of_nil hlist
    · cases hs; exact wakesUp_of_nil rfl
    · exact notifyOne_wakesUp hs
  | reply ht => exact h.frame (hnot ht nofun) (by nofun) rfl id
  | timeout ht => exact h.frame (hnot ht nofun) (by nofun) rfl id
  | returnSocket ht hs =>
    unfold returnSocket at hs
    simp only at hs
    split at hs
    · exact notifyOne_wakesUp hs
    · next hlist =>
      cases hs
      refine h.frame (hnot ht nofun) (by nofun) rfl fun _ hnil => hlist ?_
      rw [hnil]
      rfl
  | destroySocket ht =>
    unfold destroySocket
    split
    · exact h.frame (hnot ht nofun) (by nofun) rfl id
    · exact h
  | close ht => exact h.frame (hnot ht nofun) (by nofun) rfl id

/-- No free socket is missed by the waiting threads. -/
theorem notified_waiter (Id : Type) [Fintype Id] [DecidableEq Id] (maxSockets : Nat) (s : State Id)
    (h : (machine Id maxSockets).Reachable s) (hfree : s.socketList ≠ []) (t : Id)
    (ht : s.Blocked t) : ∃ u, u ≠ t ∧ s.Notified u :=
  h.invariant (keeps_wakesUp Id maxSockets) (wakesUp_of_nil rfl) hfree t ht

end Waiting

/-- A socket is returned while two threads wait. -/
def returnRun : List (Label (Fin 3)) :=
  [.getSocket 0 true, .getSocket 1 true, .getSocket 2 true, .reply 0 true, .returnSocket 0 (some 1)]

theorem notified_waiter_return :
    ∃ s, (machine (Fin 3) 1).run State.new returnRun = some s ∧ s.socketList = [0] ∧
      s.Blocked 2 ∧ ∃ u, u ≠ 2 ∧ s.Notified u :=
  ⟨_, rfl, rfl, rfl, notified_waiter (Fin 3) 1 _ ⟨returnRun, rfl⟩ (by nofun) 2 rfl⟩

/-! ## 8. Pools without sockets -/

section Served

variable {Id : Type} [Fintype Id] [DecidableEq Id] {maxSockets : Nat} {s s' : State Id} {t : Id}

/-- `zmq_socket` does not fail. -/
def Label.zmqSocketOk : Label Id → Bool
  | .getSocket _ zmqSocketOk => zmqSocketOk
  | _ => true

/-- The threads in `backendQuery`, of which there are some, are all blocked. -/
def State.Stuck (s : State Id) : Prop :=
  (∃ t, (s.threads t).place ≠ .outside) ∧
    ∀ t, (s.threads t).place ≠ .outside → s.Blocked t

/-- A blocked thread has a socket to wait for. -/
def HasSocket (s : State Id) : Prop := ∀ t, s.Blocked t → 0 < s.numSockets

/-- No thread waits on a pool without sockets, and the threads are not all blocked. -/
structure Served (s : State Id) : Prop where
  has_socket : HasSocket s
  not_stuck : ¬ s.Stuck

/-- The last socket is not destroyed while a thread is blocked, and no thread wakes up in a pool
without sockets. -/
def KeepsServed (s : State Id) : Label Id → Prop
  | .destroySocket _ => s.numSockets = 1 → ∀ t, ¬ s.Blocked t
  | .wake _ _ => s.numSockets ≠ 0
  | _ => True

omit [DecidableEq Id] in
/-- Threads that are all blocked leave the sockets free, and then one of them was notified. -/
theorem not_stuck (hinv : Inv maxSockets s) (hwakes : WakesUp s) (h : HasSocket s) :
    ¬ s.Stuck := by
  rintro ⟨⟨t, ht⟩, hblocked⟩
  have hheld : Tokens.held (sockets s.threads) = 0 := by
    refine Multiset.eq_zero_of_forall_notMem ?_
    intro x hx
    obtain ⟨u, hu⟩ := Tokens.mem_held.mp hx
    have hinside : (s.threads u).place ≠ .outside := by
      intro hout
      rw [sockets, hout] at hu
      cases hu
    rw [sockets, hblocked u hinside] at hu
    cases hu
  have hcount := hinv.count
  rw [owned, hheld, add_zero, Multiset.coe_card] at hcount
  have hfree : s.socketList ≠ [] :=
    List.ne_nil_of_length_pos (hcount ▸ h t (hblocked t ht))
  obtain ⟨u, -, hu⟩ := hwakes hfree t (hblocked t ht)
  rw [State.Notified] at hu
  have hinside : (s.threads u).place ≠ .outside := by
    rw [hu]
    nofun
  cases (hblocked u hinside).symm.trans hu

omit [Fintype Id] in
/-- A thread that moves to where it is not blocked. -/
theorem HasSocket.frame (h : HasSocket s) {thread : Thread}
    (hthread : thread.place ≠ .waiting false)
    (hthreads : s'.threads = Function.update s.threads t thread)
    (hnum : s'.numSockets = s.numSockets) : HasSocket s' := by
  intro u hu
  rw [hnum]
  rw [State.Blocked, hthreads] at hu
  rcases eq_or_ne u t with rfl | hut
  · rw [Function.update_self] at hu
    exact absurd hu hthread
  · rw [Function.update_of_ne hut] at hu
    exact h u hu

theorem notifyOne_hasSocket {notified : Option Id} (hs : notifyOne notified s = some s')
    (h : HasSocket s) : HasSocket s' := by
  unfold notifyOne at hs
  split at hs
  · split at hs
    · cases hs
      exact h.frame (by nofun) rfl rfl
    · cases hs
  · split at hs
    · cases hs
      exact h
    · cases hs

omit [Fintype Id] in
theorem getSocket_hasSocket (h : HasSocket s) (maxSockets : Nat) (t : Id) :
    HasSocket (getSocket maxSockets true t s) := by
  unfold getSocket
  split
  · split
    · exact fun _ _ => Nat.succ_pos _
    · split
      · exact h.frame (by nofun) rfl rfl
      · next hne => exact fun _ _ => Nat.pos_of_ne_zero hne
  · exact h.frame (by nofun) rfl rfl

theorem wake_hasSocket {notified : Option Id} (hinv : Inv maxSockets s) (h : HasSocket s)
    (hs : wake t notified s = some s') : HasSocket s' ↔ s.numSockets ≠ 0 := by
  have hpos : s.socketList ≠ [] → s.numSockets ≠ 0 := by
    intro hne
    obtain ⟨x, hx⟩ := List.exists_mem_of_ne_nil _ hne
    rw [hinv.count]
    exact (Multiset.card_pos_iff_exists_mem.mpr ⟨x, mem_owned.mpr (.inl hx)⟩).ne'
  unfold wake at hs
  split at hs
  · cases hs
    have hblocked : (s.setThread t ⟨.waiting false, [], []⟩).Blocked t := by
      simp [State.Blocked, State.setThread]
    exact ⟨fun h' => (h' t hblocked).ne', fun hne _ _ => Nat.pos_of_ne_zero hne⟩
  · next hlist =>
    cases hs
    exact ⟨fun _ => hpos (by rw [hlist]; nofun), fun _ => h.frame (by nofun) rfl rfl⟩
  · next hlist =>
    exact ⟨fun _ => hpos (by rw [hlist]; nofun),
      fun _ => notifyOne_hasSocket hs (h.frame (by nofun) rfl rfl)⟩

theorem destroySocket_hasSocket (hinv : Inv maxSockets s) {x : Socket}
    (ht : (s.threads t).place = .timedOut x) :
    HasSocket (destroySocket t x s) ↔ (s.numSockets = 1 → ∀ u, ¬ s.Blocked u) := by
  have hpos : 0 < s.numSockets := by
    rw [hinv.count]
    exact Multiset.card_pos_iff_exists_mem.mpr
      ⟨x, mem_owned.mpr (.inr ⟨t, congrArg Place.socket? ht⟩)⟩
  have hsame : ∀ u, (destroySocket t x s).Blocked u ↔ s.Blocked u := by
    intro u
    rw [destroySocket, if_pos hpos, State.Blocked, State.Blocked]
    rcases eq_or_ne u t with rfl | hut
    · simp [State.setThread, ht]
    · simp [State.setThread, Function.update_of_ne hut]
  have hnum : (destroySocket t x s).numSockets = s.numSockets - 1 := by
    rw [destroySocket, if_pos hpos]
  constructor
  · intro h' hone u hu
    have hzero := h' u ((hsame u).mpr hu)
    rw [hnum, hone] at hzero
    exact absurd hzero (lt_irrefl 0)
  · intro hlast u hu
    rw [hnum]
    refine Nat.sub_pos_of_lt (lt_of_le_of_ne hpos fun hone => ?_)
    exact hlast hone.symm u ((hsame u).mp hu)

theorem returnSocket_hasSocket {x : Socket} {notified : Option Id} (h : HasSocket s)
    (hs : returnSocket t x notified s = some s') : HasSocket s' := by
  unfold returnSocket at hs
  simp only at hs
  split at hs
  · exact notifyOne_hasSocket hs (h.frame (by nofun) rfl rfl)
  · cases hs
    exact h.frame (by nofun) rfl rfl

/-- Exactly the steps that keep the condition keep a socket for the blocked threads. -/
theorem step_hasSocket {l : Label Id} (hinv : Inv maxSockets s) (h : HasSocket s)
    (hok : l.zmqSocketOk = true) (hs : step maxSockets s l = some s') :
    HasSocket s' ↔ KeepsServed s l := by
  cases stepped_of_step hs with
  | @getSocket t zmqSocketOk _ =>
    rw [show zmqSocketOk = true from hok]
    exact iff_of_true (getSocket_hasSocket h _ _) trivial
  | wake _ hs => exact wake_hasSocket hinv h hs
  | reply _ => exact iff_of_true (h.frame (by nofun) rfl rfl) trivial
  | timeout _ => exact iff_of_true (h.frame (by nofun) rfl rfl) trivial
  | returnSocket _ hs => exact iff_of_true (returnSocket_hasSocket h hs) trivial
  | destroySocket ht => exact destroySocket_hasSocket hinv ht
  | close _ => exact iff_of_true (h.frame (by nofun) rfl rfl) trivial

/-- In a run where `zmq_socket` does not fail, all states are served exactly when each step keeps
the condition. -/
theorem served_iff (Id : Type) [Fintype Id] [DecidableEq Id] (maxSockets : Nat)
    (ls : List (Label Id)) :
    ((machine Id maxSockets).restrict Label.zmqSocketOk).Visits Served State.new ls ↔
      ((machine Id maxSockets).restrict Label.zmqSocketOk).Steps KeepsServed State.new ls := by
  have hserved : ∀ s : State Id, Inv maxSockets s ∧ WakesUp s → (Served s ↔ HasSocket s) :=
    fun s h => ⟨Served.has_socket, fun hs => ⟨hs, not_stuck h.1 h.2 hs⟩⟩
  have hkeeps : ((machine Id maxSockets).restrict Label.zmqSocketOk).Keeps
      fun s => Inv maxSockets s ∧ WakesUp s := by
    intro s l s' h hs
    obtain ⟨-, hs⟩ := Machine.restrict_step hs
    exact ⟨keeps_inv Id maxSockets s l s' h.1 hs, keeps_wakesUp Id maxSockets s l s' h.2 hs⟩
  have hnew : Inv maxSockets (State.new : State Id) ∧ WakesUp (State.new : State Id) :=
    ⟨inv_new maxSockets, wakesUp_of_nil rfl⟩
  refine Machine.visits_iff_steps hkeeps (fun s l s' h hgood hs => ?_) hnew
    ((hserved _ hnew).mpr fun _ => nofun)
  have h' := hkeeps s l s' h hs
  obtain ⟨hok, hs⟩ := Machine.restrict_step hs
  rw [hserved s' h']
  exact step_hasSocket h.1 hgood.has_socket hok hs

/-- A request that times out, from the poll to the end of the call. -/
theorem run_timeout {x : Socket} (ht : (s.threads t).place = .polling x)
    (hpos : 0 < s.numSockets) :
    ∃ s', ((machine Id maxSockets).restrict Label.zmqSocketOk).run s
        [.timeout t, .destroySocket t, .close t] = some s' ∧
      s'.numSockets = s.numSockets - 1 ∧
      s'.threads = Function.update s.threads t ⟨.outside, [], []⟩ := by
  simp only [Machine.run, Machine.restrict, Label.zmqSocketOk, machine, step, ht, if_true,
    Option.bind_some, State.setThread, Function.update_self, destroySocket, if_pos hpos]
  exact ⟨_, rfl, rfl, by simp [State.leave, State.setThread, Function.update_idem]⟩

end Served

section Exhausted

variable {m : Nat}

/-- The first threads poll with one socket each. -/
def Filled (k : Nat) (s : State (Fin (m + 1))) : Prop :=
  s.numSockets = k ∧ s.socketList = [] ∧
    ∀ t, if t.val < k then ∃ x, (s.threads t).place = .polling x
      else (s.threads t).place = .outside

/-- The first threads have left, and the last one waits for the others. -/
def Left (k : Nat) (s : State (Fin (m + 1))) : Prop :=
  s.numSockets = m - k ∧ s.Blocked (Fin.last m) ∧
    ∀ t, t ≠ Fin.last m → if t.val < k then (s.threads t).place = .outside
      else ∃ x, (s.threads t).place = .polling x

theorem filled (k : Nat) (hk : k ≤ m) :
    ∃ s : State (Fin (m + 1)),
      ((machine (Fin (m + 1)) m).restrict Label.zmqSocketOk).Reachable s ∧ Filled k s := by
  induction k with
  | zero => exact ⟨State.new, ⟨[], rfl⟩, rfl, rfl, fun _ => rfl⟩
  | succ k ih =>
    obtain ⟨s, hreach, hnum, hlist, hthreads⟩ := ih (Nat.le_of_succ_le hk)
    let t : Fin (m + 1) := ⟨k, Nat.lt_succ_of_lt hk⟩
    have ht : (s.threads t).place = .outside := by simpa [t] using hthreads t
    have hstep : ((machine (Fin (m + 1)) m).restrict Label.zmqSocketOk).run s
        [.getSocket t true] = some { s.take t s.created with
          numSockets := s.numSockets + 1, created := s.created + 1 } := by
      simp [Machine.run, Machine.restrict, Label.zmqSocketOk, machine, step, ht, getSocket, hlist,
        hnum, Nat.lt_of_succ_le hk]
    refine ⟨_, hreach.trans hstep, by rw [← hnum], hlist, ?_⟩
    intro u
    rcases eq_or_ne u t with rfl | hne
    · rw [if_pos (Nat.lt_succ_self _)]
      exact ⟨s.created, by simp [State.take, State.setThread]⟩
    · have hval : u.val ≠ k := fun h => hne (Fin.ext h)
      have hsame : u.val < k + 1 ↔ u.val < k :=
        ⟨fun h => lt_of_le_of_ne (Nat.le_of_lt_succ h) hval, Nat.lt_succ_of_lt⟩
      simp only [State.take, State.setThread, Function.update_of_ne hne, hsame]
      exact hthreads u

theorem left (hm : 0 < m) (k : Nat) (hk : k ≤ m) :
    ∃ s : State (Fin (m + 1)),
      ((machine (Fin (m + 1)) m).restrict Label.zmqSocketOk).Reachable s ∧ Left k s := by
  induction k with
  | zero =>
    obtain ⟨s, hreach, hnum, hlist, hthreads⟩ := filled m (le_refl m)
    have ht : (s.threads (Fin.last m)).place = .outside := by simpa using hthreads (Fin.last m)
    have hstep : ((machine (Fin (m + 1)) m).restrict Label.zmqSocketOk).run s
        [.getSocket (Fin.last m) true] =
          some (s.setThread (Fin.last m) ⟨.waiting false, [], []⟩) := by
      simp [Machine.run, Machine.restrict, Label.zmqSocketOk, machine, step, ht, getSocket, hlist,
        hnum, hm.ne']
    refine ⟨_, hreach.trans hstep, hnum, by simp [State.Blocked, State.setThread], ?_⟩
    intro u hu
    have hpolling := hthreads u
    rw [if_pos (lt_of_le_of_ne (Nat.le_of_lt_succ u.isLt) fun h => hu (Fin.ext h))] at hpolling
    simpa [State.setThread, Function.update_of_ne hu] using hpolling
  | succ k ih =>
    obtain ⟨s, hreach, hnum, hblocked, hthreads⟩ := ih (Nat.le_of_succ_le hk)
    let t : Fin (m + 1) := ⟨k, Nat.lt_succ_of_lt hk⟩
    have hlast : t ≠ Fin.last m := fun h => (Nat.lt_of_succ_le hk).ne (congrArg Fin.val h)
    obtain ⟨x, ht⟩ : ∃ x, (s.threads t).place = .polling x := by simpa [t] using hthreads t hlast
    obtain ⟨s', hrun, hnum', hthreads'⟩ := @run_timeout (Fin (m + 1)) _ _ m s t x ht
      (hnum ▸ Nat.sub_pos_of_lt hk)
    refine ⟨s', hreach.trans hrun, by rw [hnum', hnum, Nat.sub_sub], ?_, fun u hu => ?_⟩
    · rw [State.Blocked, hthreads', Function.update_of_ne hlast.symm]
      exact hblocked
    · rcases eq_or_ne u t with rfl | hne
      · rw [if_pos (Nat.lt_succ_self _), hthreads', Function.update_self]
      · have hval : u.val ≠ k := fun h => hne (Fin.ext h)
        have hsame : u.val < k + 1 ↔ u.val < k :=
          ⟨fun h => lt_of_le_of_ne (Nat.le_of_lt_succ h) hval, Nat.lt_succ_of_lt⟩
        simp only [hthreads', Function.update_of_ne hne, hsame]
        exact hthreads u hu

/-- As many threads as sockets wait for replies that do not come, and one more waits for them. -/
theorem exhausted (hm : 0 < m) :
    ∃ s : State (Fin (m + 1)),
      ((machine (Fin (m + 1)) m).restrict Label.zmqSocketOk).Reachable s ∧
      ¬ HasSocket s ∧ s.Stuck := by
  obtain ⟨s, hreach, hnum, hblocked, hthreads⟩ := left hm m (le_refl m)
  have hne : (s.threads (Fin.last m)).place ≠ .outside := fun h => by
    cases h.symm.trans hblocked
  refine ⟨s, hreach, fun h => ?_, ⟨Fin.last m, hne⟩, fun u hu => ?_⟩
  · have hpos := h (Fin.last m) hblocked
    rw [hnum, Nat.sub_self] at hpos
    exact lt_irrefl 0 hpos
  · rcases eq_or_ne u (Fin.last m) with rfl | hlast
    · exact hblocked
    · have hout := hthreads u hlast
      rw [if_pos (lt_of_le_of_ne (Nat.le_of_lt_succ u.isLt) fun h => hlast (Fin.ext h))] at hout
      exact absurd hout hu

/-- The pool that `main` makes. -/
theorem exhausted_main :
    ∃ s : State (Fin 257), ((machine (Fin 257) 256).restrict Label.zmqSocketOk).Reachable s ∧
      ¬ Served s ∧ s.Stuck := by
  obtain ⟨s, hreach, hsocket, hstuck⟩ := @exhausted 256 (Nat.succ_pos _)
  exact ⟨s, hreach, fun h => hsocket h.has_socket, hstuck⟩

end Exhausted

end SocketPool

end SafeKiddo
