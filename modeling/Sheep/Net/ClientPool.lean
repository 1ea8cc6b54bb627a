import Mathlib.Data.Finset.Card
import Sheep.Lib.System
import Sheep.Net.TcpConnection

/-!
# `ClientPool`

The pool (`net/client/client_pool.cpp`) with its clients and their connections, among everything
that can happen to them: connects that succeed or fail, users that take clients, use their
connections and give them back, and any event on any connection. User handlers may do all of
this again from inside a method of a connection; the methods that wait for a handler are the
pending `frames`.

`PoolLaw` is the contract between callbacks: the pool keeps `maxSize_` clients, and a client that
can be taken has a live connection. `poolLaw_of_returnsLive`: a run keeps it as long as no client
is given back with `Insert(client, "")` after its connection has finished. `TcpConnection::Reset`
clears `finished_` but cannot bring `event_` back, and `Insert` puts the client into `clients_`
although the disconnected handler has replaced it.
-/

namespace Sheep

/-- The identity of a `Client` object. -/
abbrev ClientId := Nat

structure ClientPool where
  maxSize : Nat
  inited : Bool
  clients : Finset ClientId
  allClients : Finset ClientId
  /-- the `connection_` of each client -/
  connection : ClientId → Option TcpConnection
  /-- the clients whose `AsyncConnect` has not succeeded or failed -/
  connecting : Finset ClientId
  /-- the next new `Client` object -/
  nextClient : ClientId
  /-- the clients that a user has from `Get` -/
  out : Finset ClientId
  /-- the methods that wait for a user handler -/
  frames : List (ClientId × Frame)

inductive PoolAction
  | connectSucceeds (c : ClientId)
  | connectFails (c : ClientId) (errMsg : String)
  /-- `Get` returns this client -/
  | get (c : ClientId)
  | insert (c : ClientId) (errMsg : String)
  | asyncRead (c : ClientId) (expectSize : UInt64) (h : Handler)
  | asyncReadAny (c : ClientId) (h : Handler)
  | asyncWrite (c : ClientId) (h : Handler)
  | push (c : ClientId) (buf : List UInt8)
  | popHead (c : ClientId) (len : UInt64)
  | deliver (c : ClientId)
  | readable (c : ClientId) (r : SysRead)
  | writable (c : ClientId) (r : SysResult)
  /-- the user handler that this method waits for returns -/
  | resume (f : ClientId × Frame)
  deriving DecidableEq, Repr

namespace ClientPool

def new (maxSize : Nat) : ClientPool := ⟨maxSize, false, ∅, ∅, fun _ => none, ∅, 0, ∅, []⟩

/-- `initClient`. `AsyncConnect` reports an error only when a handler is missing, and both are
set here. -/
def initClient (s : ClientPool) : ClientPool :=
  { s with
    allClients := insert s.nextClient s.allClients
    connection := Function.update s.connection s.nextClient none
    connecting := insert s.nextClient s.connecting
    nextClient := s.nextClient + 1 }

/-- `Init`. -/
def init (s : ClientPool) : Except String ClientPool :=
  if s.inited then .error "ClientPool has been inited"
  else .ok (initClient^[s.maxSize] { s with inited := true })

/-- The disconnected handler of the client `c`: an error replaces the client. -/
def disconnected (s : ClientPool) (c : ClientId) (errMsg : String) : ClientPool :=
  if errMsg = "" then s
  else
    let s' := s.initClient
    { s' with clients := s'.clients.erase c, allClients := s'.allClients.erase c }

def setConnection (s : ClientPool) (c : ClientId) (conn : TcpConnection) : ClientPool :=
  { s with connection := Function.update s.connection c (some conn) }

/-- Control leaves a method of the connection of `c`. The finish handler runs the disconnected
handler of the client; any other handler is the user's. -/
def leave (s : ClientPool) (c : ClientId) (o : Outcome) : ClientPool :=
  match o.pending with
  | none => s.setConnection c o.conn
  | some (call, frame) =>
    let s' := { s.setConnection c o.conn with frames := (c, frame) :: s.frames }
    match call with
    | .finish errMsg => s'.disconnected c errMsg
    | .read _ _ | .write _ _ => s'

/-- `Insert`, with `Client::Reset`: an error finishes the connection, otherwise the connection is
reset and the client is in the pool. -/
def insert (s : ClientPool) (c : ClientId) (errMsg : String) : Option ClientPool :=
  (s.connection c).map fun conn =>
    if errMsg ≠ "" then s.leave c (conn.finish errMsg)
    else { s.setConnection c conn.reset with clients := Insert.insert c s.clients }

/-- A method of the connection of a client. -/
def call (s : ClientPool) (c : ClientId) (method : TcpConnection → Option Outcome) :
    Option ClientPool :=
  (s.connection c).bind fun conn => (method conn).map (s.leave c)

def step (s : ClientPool) : PoolAction → Option ClientPool
  | .connectSucceeds c =>
    if c ∈ s.connecting then
      -- `newConnectionHandler` and then the connected handler
      { s.setConnection c .connected with connecting := s.connecting.erase c }.insert c ""
    else none
  | .connectFails c errMsg =>
    if c ∈ s.connecting ∧ errMsg ≠ "" then
      some ({ s with connecting := s.connecting.erase c }.disconnected c errMsg)
    else none
  | .get c =>
    -- `begin()` of a set of pointers is any element of it
    if c ∈ s.clients then
      some { s with clients := s.clients.erase c, out := Insert.insert c s.out }
    else none
  | .insert c errMsg =>
    if c ∈ s.out then { s with out := s.out.erase c }.insert c errMsg else none
  | .asyncRead c n h => if c ∈ s.out then s.call c fun conn => some (conn.asyncRead n h) else none
  | .asyncReadAny c h =>
    if c ∈ s.out then s.call c fun conn => some (conn.asyncReadAny h) else none
  | .asyncWrite c h => if c ∈ s.out then s.call c (·.asyncWrite h) else none
  | .push c buf =>
    if c ∈ s.out then s.call c fun conn => (conn.writeBufferPush buf).map (·.return_) else none
  | .popHead c len =>
    if c ∈ s.out then
      s.call c fun conn => (conn.readBufferPopHead len).map fun (_, _, conn') => conn'.return_
    else none
  | .deliver c => s.call c (·.deliver)
  | .readable c r =>
    s.call c fun conn => if conn.event.any (·.readNotify) then conn.readHandler r else none
  | .writable c r =>
    s.call c fun conn =>
      if conn.event.any (·.writeNotify) then (conn.writeHandler r).map (·.1) else none
  | .resume f =>
    if f ∈ s.frames then
      { s with frames := s.frames.erase f }.call f.1 fun conn => f.2.resume conn
    else none

end ClientPool

/-- A pool after `Init`. -/
def clientPool (maxSize : Nat) : System ClientPool PoolAction :=
  ⟨(ClientPool.new maxSize).init.toOption.getD (.new maxSize), ClientPool.step⟩

/-! ## The contract -/

/-- The contract of the pool, between callbacks. -/
structure PoolLaw (s : ClientPool) : Prop where
  size : s.allClients.card = s.maxSize
  subset : s.clients ⊆ s.allClients
  live : ∀ c ∈ s.clients, ∃ conn, s.connection c = some conn ∧ conn.finished = false ∧
    conn.event.isSome

/-- A client given back as usable has a connection that has not finished. -/
def ReturnsLive (s : ClientPool) : PoolAction → Prop
  | .insert c errMsg => errMsg = "" → ∀ conn ∈ s.connection c, conn.finished = false
  | _ => True

instance : ∀ s a, Decidable (ReturnsLive s a)
  | s, .insert c errMsg => inferInstanceAs (Decidable
      (errMsg = "" → ∀ conn ∈ s.connection c, conn.finished = false))
  | _, .connectSucceeds _ | _, .connectFails .. | _, .get _ | _, .asyncRead .. | _, .asyncReadAny ..
  | _, .asyncWrite .. | _, .push .. | _, .popHead .. | _, .deliver _ | _, .readable ..
  | _, .writable .. | _, .resume _ => isTrue True.intro

/-! ## The life of a connection -/

/-- The method is inside `Finish`, and this is the error it will report. -/
def Frame.finishError : Frame → Option String
  | .finishCanceled errMsg | .finishWritten errMsg => some errMsg
  | _ => none

/-- A method that neither starts nor goes on with `Finish`. -/
structure Outcome.Keeps (c : TcpConnection) (o : Outcome) : Prop where
  finished : o.conn.finished = c.finished
  event : o.conn.event.isSome = c.event.isSome
  call : ∀ errMsg f, o.pending ≠ some (.finish errMsg, f)
  frame : ∀ h f, o.pending = some (h, f) → f.finishError = none ∧ f ≠ .callFinish ""

/-- A method that is inside `Finish`: it waits for a user handler or has just called the finish
handler. -/
structure Outcome.Finishes (errMsg : String) (o : Outcome) : Prop where
  finished : o.conn.finished = true
  pending : (∃ h e f, o.pending = some (.write h e, f) ∧ f.finishError = some errMsg) ∨
    o.pending = some (.finish errMsg, .done)

/-- What a method does to a connection that is not inside `Finish`. -/
def Outcome.Lives (c : TcpConnection) (o : Outcome) : Prop :=
  o.Keeps c ∨ (c.finished = false ∧ ∃ errMsg, errMsg ≠ "" ∧ o.Finishes errMsg)

namespace TcpConnection

variable {c : TcpConnection} {o : Outcome}

theorem return_keeps {conn : TcpConnection} (hfinished : conn.finished = c.finished)
    (hevent : conn.event.isSome = c.event.isSome) : conn.return_.Keeps c :=
  ⟨hfinished, hevent, nofun, nofun⟩

/-- A method that calls a user handler last. -/
theorem calls_keeps {conn : TcpConnection} {h : Call} {f : Frame}
    (hfinished : conn.finished = c.finished) (hevent : conn.event.isSome = c.event.isSome)
    (hcall : ∀ errMsg, h ≠ .finish errMsg) (hf : f.finishError = none) (hne : f ≠ .callFinish "") :
    (⟨conn, some (h, f)⟩ : Outcome).Keeps c := by
  refine ⟨hfinished, hevent, ?_, ?_⟩
  · rintro errMsg f' hp
    simp only [Option.some.injEq, Prod.mk.injEq] at hp
    exact hcall errMsg hp.1
  · rintro h' f' hp
    simp only [Option.some.injEq, Prod.mk.injEq] at hp
    exact hp.2 ▸ ⟨hf, hne⟩

theorem finishWrite_finishes (errMsg : String) (hc : c.finished = true) :
    (c.finishWrite errMsg).Finishes errMsg := by
  unfold finishWrite finishTail
  split
  · exact ⟨hc, .inl ⟨_, _, _, rfl, rfl⟩⟩
  · exact ⟨hc, .inr rfl⟩

theorem finish_lives {errMsg : String} (he : errMsg ≠ "") (c : TcpConnection) :
    (c.finish errMsg).Lives c := by
  unfold finish
  split
  · exact .inl (return_keeps rfl rfl)
  · rename_i hc
    refine .inr ⟨by simpa using hc, errMsg, he, ?_⟩
    unfold finishCancel
    split
    · exact ⟨rfl, .inl ⟨_, _, _, rfl, rfl⟩⟩
    · exact finishWrite_finishes errMsg rfl
    · exact finishWrite_finishes errMsg rfl

theorem asyncRead_keeps (n : UInt64) (h : Handler) (c : TcpConnection) :
    (c.asyncRead n h).Keeps c := by
  unfold asyncRead
  split
  · exact calls_keeps rfl rfl nofun rfl nofun
  · exact return_keeps rfl rfl

theorem asyncReadAny_keeps (h : Handler) (c : TcpConnection) : (c.asyncReadAny h).Keeps c := by
  unfold asyncReadAny
  split
  · exact calls_keeps rfl rfl nofun rfl nofun
  · exact return_keeps rfl rfl

theorem asyncDo_keeps {h : Handler} (conn : TcpConnection)
    (hfinished : conn.finished = c.finished) (hevent : conn.event.isSome = c.event.isSome)
    (ho : conn.asyncDo h = some o) : o.Keeps c := by
  unfold asyncDo at ho
  split at ho
  · cases ho
    exact return_keeps hfinished hevent
  · cases ho
    exact calls_keeps hfinished hevent nofun rfl nofun
  · cases ho

theorem asyncWrite_keeps {h : Handler} (ho : c.asyncWrite h = some o) : o.Keeps c := by
  unfold asyncWrite at ho
  split at ho
  · cases ho
    exact calls_keeps rfl rfl nofun rfl nofun
  · split at ho
    · cases ho
    · split at ho
      · cases ho
        exact calls_keeps rfl rfl nofun rfl nofun
      · exact asyncDo_keeps { c with asyncer := some ⟨none, false, false⟩ } rfl rfl ho

theorem deliver_keeps (ho : c.deliver = some o) : o.Keeps c := by
  unfold deliver at ho
  split at ho
  · obtain ⟨e, he, rfl⟩ := Option.map_eq_some_iff.mp ho
    exact return_keeps rfl (by rw [he]; rfl)
  · cases ho
    exact return_keeps rfl rfl
  · cases ho

theorem readFailed_lives {errMsg : String} (he : errMsg ≠ "") (c : TcpConnection) :
    (c.readFailed errMsg).Lives c := by
  unfold readFailed
  split
  · exact .inl (calls_keeps rfl rfl nofun rfl (by simpa using he))
  · exact finish_lives he c

theorem readHandler_lives {r : SysRead} (ho : c.readHandler r = some o) : o.Lives c := by
  unfold readHandler at ho
  split at ho
  split at ho
  · rename_i he
    cases ho
    exact readFailed_lives he c
  · left
    split at ho
    · cases ho
      exact return_keeps rfl rfl
    · obtain ⟨b, -, rfl⟩ := Option.map_eq_some_iff.mp ho
      unfold readDone
      split
      · split
        · exact calls_keeps rfl rfl nofun rfl nofun
        · exact return_keeps rfl rfl
      · exact return_keeps rfl rfl

theorem writeHandler_keeps {r : SysResult} {sent : List UInt8}
    (ho : c.writeHandler r = some (o, sent)) : o.Keeps c := by
  unfold writeHandler at ho
  obtain ⟨⟨count, buf⟩, -, ho⟩ := Option.bind_eq_some_iff.mp ho
  simp only at ho
  split at ho
  · obtain ⟨e, he, ho⟩ := Option.bind_eq_some_iff.mp ho
    obtain ⟨h, -, ho⟩ := Option.bind_eq_some_iff.mp ho
    cases ho
    exact calls_keeps rfl (by rw [he]; rfl) nofun rfl nofun
  · split at ho
    · rename_i herr
      obtain ⟨h, -, ho⟩ := Option.bind_eq_some_iff.mp ho
      cases ho
      exact calls_keeps rfl rfl nofun rfl (by simpa using herr)
    · cases ho
      exact return_keeps rfl rfl

end TcpConnection

/-- A method outside `Finish` goes on. -/
theorem Frame.resume_lives {f : Frame} {c : TcpConnection} {o : Outcome}
    (hf : f.finishError = none) (hne : f ≠ .callFinish "") (ho : f.resume c = some o) :
    o.Lives c := by
  cases f with
  | done =>
    cases ho
    exact .inl (TcpConnection.return_keeps rfl rfl)
  | callFinish errMsg =>
    cases ho
    exact TcpConnection.finish_lives (by simpa using hne) c
  | finishCanceled | finishWritten => cases hf
  | asyncDo h => exact .inl (TcpConnection.asyncDo_keeps c rfl rfl ho)

/-- `Finish` goes on. -/
theorem Frame.resume_finishes {f : Frame} {errMsg : String} {c : TcpConnection} {o : Outcome}
    (hf : f.finishError = some errMsg) (hc : c.finished = true) (ho : f.resume c = some o) :
    o.Finishes errMsg := by
  cases f with
  | done | callFinish | asyncDo => cases hf
  | finishCanceled =>
    cases hf
    cases ho
    exact TcpConnection.finishWrite_finishes errMsg hc
  | finishWritten =>
    cases hf
    cases ho
    exact ⟨hc, .inr rfl⟩

/-! ## The invariant -/

namespace ClientPool

/-- The methods of the connection of `c` that are inside `Finish`. -/
def finishing (s : ClientPool) (c : ClientId) : Nat :=
  s.frames.countP fun f => f.1 = c ∧ f.2.finishError.isSome

end ClientPool

/-- The invariant, apart from the connections. -/
structure PoolBase (s : ClientPool) : Prop where
  size : s.allClients.card = s.maxSize
  subset : s.clients ⊆ s.allClients
  old : ∀ c ∈ s.allClients, c < s.nextClient
  known : ∀ c, (s.connection c).isSome → c < s.nextClient
  connected : ∀ c ∈ s.clients, (s.connection c).isSome
  connecting : ∀ c ∈ s.connecting, c ∈ s.allClients ∧ s.connection c = none
  frames : ∀ f ∈ s.frames, (s.connection f.1).isSome
  errors : ∀ f ∈ s.frames, f.2 ≠ .callFinish "" ∧ f.2.finishError ≠ some ""

/-- A connection is live; or one method is inside its `Finish`; or it is finished and the pool has
replaced the client. -/
inductive PoolLife (s : ClientPool) (c : ClientId) : Prop
  | unconnected : s.connection c = none → PoolLife s c
  | live {conn : TcpConnection} :
      s.connection c = some conn → conn.finished = false → conn.event.isSome → c ∈ s.allClients →
      s.finishing c = 0 → PoolLife s c
  | finishing {conn : TcpConnection} :
      s.connection c = some conn → conn.finished = true → c ∈ s.allClients → s.finishing c = 1 →
      PoolLife s c
  | replaced {conn : TcpConnection} :
      s.connection c = some conn → conn.finished = true → c ∉ s.allClients → s.finishing c = 0 →
      PoolLife s c

structure PoolInv (s : ClientPool) : Prop where
  base : PoolBase s
  life : ∀ c, PoolLife s c

variable {s : ClientPool} {c : ClientId}

theorem PoolBase.finishing_none (h : PoolBase s) (hc : s.connection c = none) :
    s.finishing c = 0 := by
  refine List.countP_eq_zero.mpr fun f hf hfin => ?_
  have hsome := h.frames f hf
  simp only [decide_eq_true_eq] at hfin
  rw [hfin.1, hc] at hsome
  cases hsome

theorem PoolBase.setConnection (h : PoolBase s) (hc : (s.connection c).isSome)
    (conn : TcpConnection) : PoolBase (s.setConnection c conn) := by
  have hsome : ∀ d, (Function.update s.connection c (some conn) d).isSome →
      (s.connection d).isSome := by
    intro d hd
    rcases eq_or_ne d c with hdc | hdc
    · exact hdc ▸ hc
    · rwa [Function.update_of_ne hdc] at hd
  have hsome' : ∀ d, (s.connection d).isSome →
      (Function.update s.connection c (some conn) d).isSome := by
    intro d hd
    rcases eq_or_ne d c with rfl | hdc
    · rw [Function.update_self]
      rfl
    · rwa [Function.update_of_ne hdc]
  refine ⟨h.size, h.subset, h.old, fun d hd => h.known d (hsome d hd),
    fun d hd => hsome' d (h.connected d hd), ?_, fun f hf => hsome' f.1 (h.frames f hf), h.errors⟩
  intro d hd
  obtain ⟨hall, hnone⟩ := h.connecting d hd
  have hdc : d ≠ c := by
    rintro rfl
    simp [hnone] at hc
  exact ⟨hall, (Function.update_of_ne hdc ..).trans hnone⟩

theorem PoolBase.pushFrame {f : Frame} (h : PoolBase s) (hc : (s.connection c).isSome)
    (hne : f ≠ .callFinish "") (he : f.finishError ≠ some "") :
    PoolBase { s with frames := (c, f) :: s.frames } := by
  refine ⟨h.size, h.subset, h.old, h.known, h.connected, h.connecting, ?_, ?_⟩
  · intro g hg
    rcases List.mem_cons.mp hg with rfl | hg
    · exact hc
    · exact h.frames g hg
  · intro g hg
    rcases List.mem_cons.mp hg with rfl | hg
    · exact ⟨hne, he⟩
    · exact h.errors g hg

/-- The replacement of a client. -/
theorem PoolBase.disconnected {errMsg : String} (h : PoolBase s) (he : errMsg ≠ "")
    (hc : c ∈ s.allClients) (hcon : c ∉ s.connecting) : PoolBase (s.disconnected c errMsg) := by
  have hlt := h.old c hc
  have hnew : s.nextClient ∉ s.allClients := fun hmem => Nat.lt_irrefl _ (h.old _ hmem)
  have hold : ∀ d, d < s.nextClient →
      Function.update s.connection s.nextClient none d = s.connection d := fun d hd =>
    Function.update_of_ne (Nat.ne_of_lt hd) ..
  have hmem : ∀ d ∈ s.allClients, d ≠ c →
      d ∈ (Insert.insert s.nextClient s.allClients).erase c := fun d hd hdc =>
    Finset.mem_erase.mpr ⟨hdc, Finset.mem_insert_of_mem hd⟩
  simp only [ClientPool.disconnected, he, ↓reduceIte, ClientPool.initClient]
  refine ⟨?_, ?_, ?_, ?_, ?_, ?_, ?_, h.errors⟩
  · rw [Finset.card_erase_of_mem (Finset.mem_insert_of_mem hc), Finset.card_insert_of_notMem hnew]
    exact h.size
  · intro d hd
    obtain ⟨hdc, hd⟩ := Finset.mem_erase.mp hd
    exact hmem d (h.subset hd) hdc
  · intro d hd
    rcases Finset.mem_insert.mp (Finset.mem_erase.mp hd).2 with rfl | hd
    · exact Nat.lt_succ_self _
    · exact Nat.lt_succ_of_lt (h.old d hd)
  · intro d hd
    dsimp only at hd ⊢
    rcases eq_or_ne d s.nextClient with hdn | hdn
    · exact hdn ▸ Nat.lt_succ_self _
    · rw [Function.update_of_ne hdn] at hd
      exact Nat.lt_succ_of_lt (h.known d hd)
  · intro d hd
    have hd' := (Finset.mem_erase.mp hd).2
    dsimp only
    rw [hold d (h.old d (h.subset hd'))]
    exact h.connected d hd'
  · intro d hd
    rcases Finset.mem_insert.mp hd with rfl | hd
    · exact ⟨Finset.mem_erase.mpr ⟨(Nat.ne_of_lt hlt).symm, Finset.mem_insert_self ..⟩,
        Function.update_self ..⟩
    · obtain ⟨hall, hnone⟩ := h.connecting d hd
      exact ⟨hmem d hall fun hdc => hcon (hdc ▸ hd), (hold d (h.old d hall)).trans hnone⟩
  · intro f hf
    have hsome := h.frames f hf
    dsimp only
    rwa [hold f.1 (h.known f.1 hsome)]

/-- The replacement of a client does not touch the other connections. -/
theorem PoolLife.disconnected {errMsg : String} {d : ClientId} (h : PoolLife s d)
    (he : errMsg ≠ "") (hdc : d ≠ c) :
    PoolLife (s.disconnected c errMsg) d := by
  simp only [ClientPool.disconnected, he, ↓reduceIte, ClientPool.initClient]
  rcases eq_or_ne d s.nextClient with hdn | hdn
  · exact .unconnected (hdn ▸ Function.update_self ..)
  have hconn : Function.update s.connection s.nextClient none d = s.connection d :=
    Function.update_of_ne hdn ..
  have hmem : d ∈ (Insert.insert s.nextClient s.allClients).erase c ↔ d ∈ s.allClients := by
    simp [hdc, hdn]
  cases h with
  | unconnected hnone => exact .unconnected (hconn.trans hnone)
  | live hsome hfin hev hall hcount =>
    exact .live (hconn.trans hsome) hfin hev (hmem.mpr hall) hcount
  | finishing hsome hfin hall hcount =>
    exact .finishing (hconn.trans hsome) hfin (hmem.mpr hall) hcount
  | replaced hsome hfin hall hcount =>
    exact .replaced (hconn.trans hsome) hfin (fun hin => hall (hmem.mp hin)) hcount

/-! ## Methods of a connection -/

theorem PoolLife.of_connection {t : ClientPool} {d : ClientId} (h : PoolLife s d)
    (hconn : t.connection d = s.connection d) (hall : d ∈ t.allClients ↔ d ∈ s.allClients)
    (hcount : t.finishing d = s.finishing d) : PoolLife t d := by
  cases h with
  | unconnected hnone => exact .unconnected (hconn.trans hnone)
  | live hsome hfin hev hin hzero =>
    exact .live (hconn.trans hsome) hfin hev (hall.mpr hin) (hcount.trans hzero)
  | finishing hsome hfin hin hone =>
    exact .finishing (hconn.trans hsome) hfin (hall.mpr hin) (hcount.trans hone)
  | replaced hsome hfin hout hzero =>
    exact .replaced (hconn.trans hsome) hfin (fun hin => hout (hall.mp hin)) (hcount.trans hzero)

/-- A connection that is replaced by one with the same life. -/
theorem PoolLife.setConnection {conn conn' : TcpConnection} {t : ClientPool} (h : PoolLife s c)
    (hc : s.connection c = some conn) (hfinished : conn'.finished = conn.finished)
    (hevent : conn'.event.isSome = conn.event.isSome) (hconn : t.connection c = some conn')
    (hall : t.allClients = s.allClients) (hcount : t.finishing c = s.finishing c) :
    PoolLife t c := by
  cases h with
  | unconnected hnone => simp [hnone] at hc
  | live hsome hfin hev hin hzero =>
    obtain rfl := Option.some.inj (hsome.symm.trans hc)
    exact .live hconn (hfinished.trans hfin) (hevent ▸ hev) (hall ▸ hin) (hcount.trans hzero)
  | finishing hsome hfin hin hone =>
    obtain rfl := Option.some.inj (hsome.symm.trans hc)
    exact .finishing hconn (hfinished.trans hfin) (hall ▸ hin) (hcount.trans hone)
  | replaced hsome hfin hout hzero =>
    obtain rfl := Option.some.inj (hsome.symm.trans hc)
    exact .replaced hconn (hfinished.trans hfin) (hall ▸ hout) (hcount.trans hzero)

namespace PoolInv

/-- A method that neither starts nor goes on with `Finish`. -/
theorem leave_keeps {conn : TcpConnection} {o : Outcome} (h : PoolInv s)
    (hc : s.connection c = some conn) (ho : o.Keeps conn) : PoolInv (s.leave c o) := by
  have hsome : (s.connection c).isSome := by rw [hc]; rfl
  have hbase := h.base.setConnection hsome o.conn
  have hself : (s.setConnection c o.conn).connection c = some o.conn := Function.update_self ..
  have hother : ∀ d, d ≠ c → (s.setConnection c o.conn).connection d = s.connection d :=
    fun d hd => Function.update_of_ne hd ..
  have hlife : ∀ t : ClientPool, t.connection = (s.setConnection c o.conn).connection →
      t.allClients = s.allClients → (∀ d, t.finishing d = s.finishing d) →
      ∀ d, PoolLife t d := by
    intro t hconn hall hcount d
    rcases eq_or_ne d c with rfl | hd
    · exact (h.life d).setConnection hc ho.finished ho.event (hconn ▸ hself) hall (hcount d)
    · exact (h.life d).of_connection (hconn ▸ hother d hd) (by rw [hall]) (hcount d)
  unfold ClientPool.leave
  split
  · exact ⟨hbase, hlife _ rfl rfl fun _ => rfl⟩
  · rename_i call f hp
    obtain ⟨hf, hne⟩ := ho.frame call f hp
    have hframe := hbase.pushFrame (c := c) (f := f) (by rw [hself]; rfl) hne (by rw [hf]; nofun)
    have hcount : ∀ d, ClientPool.finishing { s.setConnection c o.conn with
        frames := (c, f) :: s.frames } d = s.finishing d := fun d => by
      simp [ClientPool.finishing, hf]
    split
    · exact absurd hp (ho.call _ _)
    · exact ⟨hframe, hlife _ rfl rfl hcount⟩
    · exact ⟨hframe, hlife _ rfl rfl hcount⟩

/-- A method inside `Finish`, when no other method of the connection is. -/
theorem leave_finishes {o : Outcome} {errMsg : String} (hbase : PoolBase s)
    (hlife : ∀ d, d ≠ c → PoolLife s d) (hc : (s.connection c).isSome) (hall : c ∈ s.allClients)
    (hzero : s.finishing c = 0) (he : errMsg ≠ "") (ho : o.Finishes errMsg) :
    PoolInv (s.leave c o) := by
  have hself : (s.setConnection c o.conn).connection c = some o.conn := Function.update_self ..
  have hother : ∀ d, d ≠ c → (s.setConnection c o.conn).connection d = s.connection d :=
    fun d hd => Function.update_of_ne hd ..
  have hset := hbase.setConnection hc o.conn
  unfold ClientPool.leave
  rcases ho.pending with ⟨h, e, f, hp, hf⟩ | hp
  · rw [hp]
    have hne : f ≠ .callFinish "" := by
      rintro rfl
      cases hf
    refine ⟨hset.pushFrame (by rw [hself]; rfl) hne (by simpa [hf] using he), fun d => ?_⟩
    rcases eq_or_ne d c with rfl | hd
    · refine .finishing hself ho.finished hall ?_
      simpa [ClientPool.finishing, hf, ClientPool.setConnection] using hzero
    · refine (hlife d hd).of_connection (hother d hd) Iff.rfl ?_
      simp [ClientPool.finishing, Ne.symm hd]
  · rw [hp]
    have hframe := hset.pushFrame (c := c) (f := .done) (by rw [hself]; rfl) nofun nofun
    have hcon : c ∉ s.connecting := fun hmem => by
      simp [(hbase.connecting c hmem).2] at hc
    have hcount : ∀ d, ClientPool.finishing { s.setConnection c o.conn with
        frames := (c, .done) :: s.frames } d = s.finishing d := fun d => by
      simp [ClientPool.finishing, Frame.finishError]
    refine ⟨hframe.disconnected he hall hcon, fun d => ?_⟩
    rcases eq_or_ne d c with rfl | hd
    · have hne : d ≠ s.nextClient := Nat.ne_of_lt (hbase.old d hall)
      refine .replaced ?_ ho.finished ?_ ?_
      · simp only [ClientPool.disconnected, he, ↓reduceIte, ClientPool.initClient]
        exact (Function.update_of_ne hne ..).trans hself
      · simp [ClientPool.disconnected, he, ClientPool.initClient]
      · simp only [ClientPool.disconnected, he, ↓reduceIte, ClientPool.initClient]
        exact (hcount d).trans hzero
    · refine PoolLife.disconnected ?_ he hd
      exact (hlife d hd).of_connection (hother d hd) Iff.rfl (hcount d)

/-- A method of a connection that is not inside its `Finish` already. -/
theorem leave_lives {conn : TcpConnection} {o : Outcome} (h : PoolInv s)
    (hc : s.connection c = some conn) (ho : o.Lives conn) : PoolInv (s.leave c o) := by
  rcases ho with hkeeps | ⟨hlive, errMsg, he, hfin⟩
  · exact h.leave_keeps hc hkeeps
  · have hsome : (s.connection c).isSome := by rw [hc]; rfl
    cases h.life c with
    | unconnected hnone => simp [hnone] at hc
    | live _ _ _ hall hzero =>
      exact leave_finishes h.base (fun d _ => h.life d) hsome hall hzero he hfin
    | finishing hsome' hfin' | replaced hsome' hfin' =>
      obtain rfl := Option.some.inj (hsome'.symm.trans hc)
      simp [hlive] at hfin'

theorem call {method : TcpConnection → Option Outcome} {t : ClientPool} (h : PoolInv s)
    (hmethod : ∀ conn o, method conn = some o → o.Lives conn) (hs : s.call c method = some t) :
    PoolInv t := by
  obtain ⟨conn, hc, hs⟩ := Option.bind_eq_some_iff.mp hs
  obtain ⟨o, ho, rfl⟩ := Option.map_eq_some_iff.mp hs
  exact h.leave_lives hc (hmethod conn o ho)

/-- A method goes on after a user handler has returned. -/
theorem resume {f : ClientId × Frame} {t : ClientPool} (h : PoolInv s) (hf : f ∈ s.frames)
    (hs : { s with frames := s.frames.erase f }.call f.1 (fun conn => f.2.resume conn) = some t) :
    PoolInv t := by
  have hmem : ∀ g ∈ s.frames.erase f, g ∈ s.frames := fun g hg => List.mem_of_mem_erase hg
  have hbase : PoolBase { s with frames := s.frames.erase f } :=
    ⟨h.base.size, h.base.subset, h.base.old, h.base.known, h.base.connected, h.base.connecting,
      fun g hg => h.base.frames g (hmem g hg), fun g hg => h.base.errors g (hmem g hg)⟩
  obtain ⟨conn, hc, hs⟩ := Option.bind_eq_some_iff.mp hs
  obtain ⟨o, ho, rfl⟩ := Option.map_eq_some_iff.mp hs
  obtain ⟨hne, herr⟩ := h.base.errors f hf
  have hcount : ∀ d, s.finishing d = ClientPool.finishing { s with
      frames := s.frames.erase f } d + if f.1 = d ∧ f.2.finishError.isSome then 1 else 0 := by
    intro d
    have hperm := (List.perm_cons_erase hf).countP_eq fun g : ClientId × Frame =>
      decide (g.1 = d ∧ g.2.finishError.isSome)
    simpa [ClientPool.finishing, List.countP_cons] using hperm
  cases hfe : f.2.finishError with
  | none =>
    refine leave_lives ⟨hbase, fun d => ?_⟩ hc (Frame.resume_lives hfe hne ho)
    refine (h.life d).of_connection rfl Iff.rfl ?_
    simpa [hfe] using (hcount d).symm
  | some errMsg =>
    have hone : s.finishing f.1 =
        ClientPool.finishing { s with frames := s.frames.erase f } f.1 + 1 := by
      simpa [hfe] using hcount f.1
    -- so `f` is the one method of its connection inside `Finish`
    cases h.life f.1 with
    | unconnected hnone => exact absurd (hnone.symm.trans hc) nofun
    | live _ _ _ _ hzero | replaced _ _ _ hzero => omega
    | finishing hsome hfin hall hcnt =>
      obtain rfl := Option.some.inj (hsome.symm.trans hc)
      refine leave_finishes hbase (fun d hd => ?_) (by rw [hc]; rfl) hall (by omega) ?_
        (Frame.resume_finishes hfe hfin ho)
      · refine (h.life d).of_connection rfl Iff.rfl ?_
        simpa [Ne.symm hd] using (hcount d).symm
      · rintro rfl
        exact herr hfe

/-! ### Connecting, taking and giving back -/

theorem connectSucceeds (h : PoolInv s) (hc : c ∈ s.connecting) (conn : TcpConnection)
    (hlive : conn.finished = false) (hevent : conn.event.isSome) {t : ClientPool}
    (hconn : t.connection = Function.update s.connection c (some conn))
    (hclients : t.clients = Insert.insert c s.clients) (hall : t.allClients = s.allClients)
    (hconnecting : t.connecting = s.connecting.erase c) (hnext : t.nextClient = s.nextClient)
    (hframes : t.frames = s.frames) (hmax : t.maxSize = s.maxSize) : PoolInv t := by
  obtain ⟨hmem, hnone⟩ := h.base.connecting c hc
  have hself : t.connection c = some conn := hconn ▸ Function.update_self ..
  have hother : ∀ d, d ≠ c → t.connection d = s.connection d := fun d hd =>
    hconn ▸ Function.update_of_ne hd ..
  have hsome : ∀ d, (s.connection d).isSome → (t.connection d).isSome := by
    intro d hd
    rcases eq_or_ne d c with hdc | hdc
    · rw [hdc, hself]
      rfl
    · rwa [hother d hdc]
  have hcount : ∀ d, t.finishing d = s.finishing d := fun d => by
    simp only [ClientPool.finishing, hframes]
  refine ⟨⟨?_, ?_, ?_, ?_, ?_, ?_, ?_, hframes ▸ h.base.errors⟩, fun d => ?_⟩
  · rw [hall, hmax]
    exact h.base.size
  · rw [hclients, hall]
    exact Finset.insert_subset hmem h.base.subset
  · rw [hall, hnext]
    exact h.base.old
  · intro d hd
    rw [hnext]
    rcases eq_or_ne d c with hdc | hdc
    · exact h.base.old d (hdc ▸ hmem)
    · exact h.base.known d (hother d hdc ▸ hd)
  · intro d hd
    rw [hclients] at hd
    rcases Finset.mem_insert.mp hd with rfl | hd
    · rw [hself]
      rfl
    · exact hsome d (h.base.connected d hd)
  · intro d hd
    rw [hconnecting] at hd
    obtain ⟨hdc, hd⟩ := Finset.mem_erase.mp hd
    obtain ⟨hdall, hdnone⟩ := h.base.connecting d hd
    exact ⟨hall ▸ hdall, (hother d hdc).trans hdnone⟩
  · rw [hframes]
    exact fun f hf => hsome f.1 (h.base.frames f hf)
  · rcases eq_or_ne d c with rfl | hdc
    · exact .live hself hlive hevent (hall ▸ hmem)
        ((hcount d).trans (h.base.finishing_none hnone))
    · exact (h.life d).of_connection (hother d hdc) (by rw [hall]) (hcount d)

theorem connectFails {errMsg : String} (h : PoolInv s) (hc : c ∈ s.connecting)
    (he : errMsg ≠ "") :
    PoolInv ({ s with connecting := s.connecting.erase c }.disconnected c errMsg) := by
  obtain ⟨hmem, hnone⟩ := h.base.connecting c hc
  have hbase : PoolBase { s with connecting := s.connecting.erase c } :=
    { h.base with connecting := fun d hd => h.base.connecting d (Finset.mem_of_mem_erase hd) }
  refine ⟨hbase.disconnected he hmem (Finset.notMem_erase c s.connecting), fun d => ?_⟩
  rcases eq_or_ne d c with rfl | hdc
  · refine .unconnected ?_
    have hne : d ≠ s.nextClient := Nat.ne_of_lt (h.base.old d hmem)
    simp only [ClientPool.disconnected, he, ↓reduceIte, ClientPool.initClient]
    exact (Function.update_of_ne hne ..).trans hnone
  · exact PoolLife.disconnected ((h.life d).of_connection rfl Iff.rfl rfl) he hdc

/-- Who has taken a client does not matter. -/
theorem setOut (h : PoolInv s) (out : Finset ClientId) : PoolInv { s with out := out } :=
  ⟨{ h.base with }, fun d => (h.life d).of_connection rfl Iff.rfl rfl⟩

theorem get (h : PoolInv s) : PoolInv { s with clients := s.clients.erase c } :=
  ⟨{ h.base with
      subset := fun _ hd => h.base.subset (Finset.mem_of_mem_erase hd)
      connected := fun d hd => h.base.connected d (Finset.mem_of_mem_erase hd) },
    fun d => (h.life d).of_connection rfl Iff.rfl rfl⟩

/-- `Insert` of a client that is not both returned as usable and finished. -/
theorem insert {errMsg : String} {t : ClientPool} (h : PoolInv s)
    (hlive : errMsg = "" → ∀ conn ∈ s.connection c, conn.finished = false)
    (hs : s.insert c errMsg = some t) : PoolInv t := by
  obtain ⟨conn, hc, rfl⟩ := Option.map_eq_some_iff.mp hs
  have hsome : (s.connection c).isSome := by rw [hc]; rfl
  split
  · rename_i he
    exact h.leave_lives hc (TcpConnection.finish_lives he conn)
  · rename_i he
    have hfalse := hlive (by simpa using he) conn hc
    have hmem : c ∈ s.allClients := by
      cases h.life c with
      | unconnected hnone => exact absurd (hnone.symm.trans hc) nofun
      | live _ _ _ hin => exact hin
      | finishing _ _ hin => exact hin
      | replaced hsome' hfin =>
        obtain rfl := Option.some.inj (hsome'.symm.trans hc)
        simp [hfalse] at hfin
    have hself : (s.setConnection c conn.reset).connection c = some conn.reset :=
      Function.update_self ..
    have hbase := h.base.setConnection hsome conn.reset
    refine ⟨{ hbase with
      subset := Finset.insert_subset hmem hbase.subset
      connected := fun d hd => ?_ }, fun d => ?_⟩
    · rcases Finset.mem_insert.mp hd with rfl | hd
      · exact hself ▸ rfl
      · exact hbase.connected d hd
    · rcases eq_or_ne d c with rfl | hdc
      · refine (h.life d).setConnection hc ?_ ?_ hself rfl rfl
        · exact hfalse.symm
        · rfl
      · exact (h.life d).of_connection (Function.update_of_ne hdc ..) Iff.rfl rfl

theorem step {a : PoolAction} {t : ClientPool} (h : PoolInv s) (ha : ReturnsLive s a)
    (hs : s.step a = some t) : PoolInv t := by
  cases a with
  | connectSucceeds c =>
    simp only [ClientPool.step, Option.ite_none_right_eq_some] at hs
    obtain ⟨hc, hs⟩ := hs
    obtain ⟨conn, hconn, rfl⟩ := Option.map_eq_some_iff.mp hs
    have hself : (s.setConnection c .connected).connection c = some .connected :=
      Function.update_self ..
    obtain rfl := Option.some.inj (hself.symm.trans hconn)
    refine h.connectSucceeds hc TcpConnection.connected.reset rfl rfl ?_ rfl rfl rfl rfl rfl rfl
    simp [ClientPool.setConnection]
  | connectFails c errMsg =>
    simp only [ClientPool.step, Option.ite_none_right_eq_some, Option.some.injEq] at hs
    obtain ⟨⟨hc, he⟩, rfl⟩ := hs
    exact h.connectFails hc he
  | get c =>
    simp only [ClientPool.step, Option.ite_none_right_eq_some, Option.some.injEq] at hs
    obtain ⟨-, rfl⟩ := hs
    exact h.get.setOut _
  | insert c errMsg =>
    simp only [ClientPool.step, Option.ite_none_right_eq_some] at hs
    obtain ⟨-, hs⟩ := hs
    exact (h.setOut (s.out.erase c)).insert ha hs
  | asyncRead c n handler =>
    simp only [ClientPool.step, Option.ite_none_right_eq_some] at hs
    refine h.call ?_ hs.2
    rintro conn _ ⟨⟩
    exact .inl (conn.asyncRead_keeps n handler)
  | asyncReadAny c handler =>
    simp only [ClientPool.step, Option.ite_none_right_eq_some] at hs
    refine h.call ?_ hs.2
    rintro conn _ ⟨⟩
    exact .inl (conn.asyncReadAny_keeps handler)
  | asyncWrite c handler =>
    simp only [ClientPool.step, Option.ite_none_right_eq_some] at hs
    exact h.call (fun conn o ho => .inl (TcpConnection.asyncWrite_keeps ho)) hs.2
  | push c buf =>
    simp only [ClientPool.step, Option.ite_none_right_eq_some] at hs
    refine h.call (fun conn o ho => .inl ?_) hs.2
    obtain ⟨conn', hpush, rfl⟩ := Option.map_eq_some_iff.mp ho
    obtain ⟨b, -, rfl⟩ := Option.map_eq_some_iff.mp hpush
    exact TcpConnection.return_keeps rfl rfl
  | popHead c len =>
    simp only [ClientPool.step, Option.ite_none_right_eq_some] at hs
    refine h.call (fun conn o ho => .inl ?_) hs.2
    obtain ⟨⟨n, bytes, conn'⟩, hpop, rfl⟩ := Option.map_eq_some_iff.mp ho
    obtain ⟨⟨m, bytes', b⟩, -, heq⟩ := Option.map_eq_some_iff.mp hpop
    simp only [Prod.mk.injEq] at heq
    obtain ⟨-, -, rfl⟩ := heq
    exact TcpConnection.return_keeps rfl rfl
  | deliver c =>
    exact h.call (fun conn o ho => .inl (TcpConnection.deliver_keeps ho)) hs
  | readable c r =>
    refine h.call (fun conn o ho => ?_) hs
    split at ho
    · exact TcpConnection.readHandler_lives ho
    · cases ho
  | writable c r =>
    refine h.call (fun conn o ho => .inl ?_) hs
    split at ho
    · obtain ⟨⟨o', sent⟩, hwrite, rfl⟩ := Option.map_eq_some_iff.mp ho
      exact TcpConnection.writeHandler_keeps hwrite
    · cases ho
  | resume f =>
    simp only [ClientPool.step, Option.ite_none_right_eq_some] at hs
    exact h.resume hs.1 hs.2

/-! ### `Init` -/

/-- The pool after `k` rounds of the loop of `Init`. -/
theorem iterate_initClient (maxSize k : Nat) :
    ClientPool.initClient^[k] { ClientPool.new maxSize with inited := true } =
      ⟨maxSize, true, ∅, Finset.range k, fun _ => none, Finset.range k, k, ∅, []⟩ := by
  induction k with
  | zero => rfl
  | succ k ih =>
    rw [Function.iterate_succ_apply', ih]
    simp [ClientPool.initClient, Finset.range_add_one]

theorem init (maxSize : Nat) : PoolInv (clientPool maxSize).init := by
  have hinit : (clientPool maxSize).init =
      ⟨maxSize, true, ∅, Finset.range maxSize, fun _ => none, Finset.range maxSize, maxSize, ∅,
        []⟩ := iterate_initClient maxSize maxSize
  rw [hinit]
  refine ⟨⟨?_, ?_, ?_, ?_, ?_, ?_, ?_, ?_⟩, fun _ => .unconnected rfl⟩ <;> simp

/-- Between callbacks no method is inside `Finish`. -/
theorem law (h : PoolInv s) (hidle : s.frames = []) : PoolLaw s := by
  refine ⟨h.base.size, h.base.subset, fun c hc => ?_⟩
  have hcount : s.finishing c = 0 := by simp [ClientPool.finishing, hidle]
  cases h.life c with
  | unconnected hnone => exact absurd (h.base.connected c hc) (by simp [hnone])
  | live hsome hfin hev => exact ⟨_, hsome, hfin, hev⟩
  | finishing _ _ _ hone => omega
  | replaced _ _ hout => exact absurd (h.base.subset hc) hout

end PoolInv

/-! ## Every run -/

/-- Between callbacks, in every state that a run reaches in which no finished client is given
back as usable, the pool meets its contract. -/
theorem poolLaw_of_returnsLive (maxSize : Nat) (s : ClientPool)
    (h : (clientPool maxSize).ReachableVia ReturnsLive s) (hidle : s.frames = []) : PoolLaw s :=
  (h.invariant (PoolInv.init maxSize) fun _ _ _ hinv ha hs => hinv.step ha hs).law hidle

/-- A client is taken, its connection is closed by the peer, and the user gives it back with the
error; the client that replaces it connects. -/
def replaceClosed : List PoolAction :=
  [.connectSucceeds 0, .get 0, .readable 0 (.bytes []), .resume (0, .done), .insert 0 "closed",
    .connectSucceeds 1]

theorem poolLaw_replaceClosed :
    ∃ s, (clientPool 1).run (clientPool 1).init replaceClosed = some s ∧ PoolLaw s ∧
      s.clients = {1} :=
  have hvia : (clientPool 1).AllSteps ReturnsLive (clientPool 1).init replaceClosed := by decide
  ⟨_, rfl, poolLaw_of_returnsLive 1 _ (System.ReachableVia.init.run hvia rfl) rfl, by decide⟩

/-- The user gives the same client back as usable: a finished connection without an event is in
the pool, and its client is not one of the pool's clients. -/
theorem closed_client_returned :
    ∃ s, (clientPool 1).run (clientPool 1).init [.connectSucceeds 0, .get 0,
        .readable 0 (.bytes []), .resume (0, .done), .insert 0 ""] = some s ∧
      s.frames = [] ∧ s.clients = {0} ∧ s.allClients = {1} ∧
      (s.connection 0).map (·.event) = some none ∧ ¬ PoolLaw s := by
  refine ⟨_, rfl, rfl, by decide, by decide, by decide, fun h => ?_⟩
  exact absurd h.subset (by decide)

end Sheep
