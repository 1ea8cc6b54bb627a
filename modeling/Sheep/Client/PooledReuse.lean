import Sheep.Client.Exchange

/-!
# A connection and its requests

The life of a connection of `ClientPool`: it is idle in the pool, a request gets it and gives it
back with `Insert(client, "")`, and another request gets it. `Insert` resets the connection, but its
read event stays on, and `readHandler` reads what comes while nobody has the connection.

`Isolated`: a request that gets the connection pops only bytes that have arrived since, and goes as
it would on a connection that has had no stray bytes. `isolated_iff`: it is so if and only if no
byte was left in the socket when the connection was given back and none has arrived since.
-/

namespace Sheep

open RequestRun

/-- `returned`: a request has had the connection and given it back. `stray`: the bytes that were
left in the socket by then, and those that have arrived since. -/
inductive PooledConn (σ : Type)
  | idle (returned : Bool) (conn : TcpConnection) (socket stray : List UInt8)
  | lent (e : Exchange σ)
  /-- the pool has given the connection up -/
  | closed

inductive PooledAction (σ : Type)
  /-- `Get`, by a request -/
  | get (timeoutMs : UInt64) (derived : σ) (finish : Bool)
  | loop (a : ExchangeAction)

namespace PooledConn

variable {σ : Type}

/-- Control leaves the idle connection. The one handler that is left is the finish handler: the pool
erases the client. -/
def leave (returned : Bool) (socket stray : List UInt8) (o : Outcome) : PooledConn σ :=
  match o.pending with
  | none => .idle returned o.conn socket stray
  | some _ => .closed

/-- The loop dispatches an event of an idle connection. -/
def idleStep (returned : Bool) (conn : TcpConnection) (socket stray : List UInt8) :
    ExchangeAction → Option (PooledConn σ)
  | .arrive bs => some (.idle returned conn (socket ++ bs) (stray ++ bs))
  | .read n =>
    if 1 ≤ n ∧ n ≤ 1024 ∧ n ≤ socket.length then
      (conn.readHandler (.bytes (socket.take n))).map (leave returned (socket.drop n) stray)
    else none
  | .request (.readable r) =>
    if RequestAction.Offered socket (.readable r) then
      (conn.readHandler r).map (leave returned socket stray)
    else none
  | .request (.writable r) =>
    if conn.writeNotify then
      (conn.writeHandler r).map fun (o, _) => leave returned socket stray o
    else none
  | .request .deliver => conn.deliver.map (leave returned socket stray)
  | .request _ => none

/-- `Insert` gives the connection back, or closes it. What is left on the stack then are methods
that the connection returns from. -/
def giveBack (e : Exchange σ) : PooledConn σ :=
  match e.request.inserts with
  | [] => .lent e
  | errMsg :: _ => if errMsg = "" then .idle true e.request.conn e.socket e.socket else .closed

def step (D : Derived σ) : PooledConn σ → PooledAction σ → Option (PooledConn σ)
  | .idle _ conn socket _, .get timeoutMs derived finish =>
    (doReq D .new timeoutMs conn derived finish).map fun r => .lent (.start r socket)
  | .idle returned conn socket stray, .loop a => idleStep returned conn socket stray a
  | .lent e, .loop a => (e.step D a).map giveBack
  | .lent _, .get .. | .closed, _ => none

end PooledConn

/-- The connected handler of the pool has inserted the connection. -/
def pooled {σ : Type} (D : Derived σ) : System (PooledConn σ) (PooledAction σ) :=
  ⟨.idle false TcpConnection.connected.reset [] [], PooledConn.step D⟩

/-- A request gets the connection, and then this happens. -/
def later {τ : Type} (D : Derived τ) (timeoutMs : UInt64) (derived : τ) (finish : Bool)
    (conn : TcpConnection) (socket : List UInt8) (as : List ExchangeAction) :
    Option (Exchange τ) :=
  (doReq D .new timeoutMs conn derived finish).bind fun r =>
    (exchange D (.start r socket)).run (.start r socket) as

/-- Whatever request gets the connection next, and whatever happens then. -/
structure Isolated {σ : Type} (D : Derived σ) (conn : TcpConnection) (socket : List UInt8) :
    Prop where
  pops : ∀ {τ : Type} (D' : PopDerived τ) timeoutMs derived finish as e,
    later D'.toDerived timeoutMs derived finish conn socket as = some e → e.popped <+: e.arrived
  /-- as on a connection that has had no stray bytes -/
  same : ∀ {conn' : TcpConnection} {socket' : List UInt8},
    (pooled D).Reachable (.idle true conn' socket' []) →
    ∀ {τ : Type} (D' : PopDerived τ) timeoutMs derived finish as,
      later D'.toDerived timeoutMs derived finish conn socket as =
        later D'.toDerived timeoutMs derived finish conn' socket' as

/-! ## An idle connection -/

/-- The error that a handler is called with. -/
def Call.errMsg : Call → String
  | .read _ errMsg | .write _ errMsg | .finish errMsg => errMsg

/-- A connection that `Insert` has reset, with what was read into it since. -/
def TcpConnection.inPool (returned : Bool) (b : Buffer) (readedSize : UInt64) : TcpConnection :=
  { TcpConnection.connected.reset with
    readBuffer := b
    readedSize := readedSize
    asyncer := if returned then some ⟨some writeCallback, false, true⟩ else none }

structure IdleConn (returned : Bool) (conn : TcpConnection) (socket stray : List UInt8) :
    Prop where
  ok : conn.readBuffer.Ok
  held : conn.readBuffer.unread ++ socket = stray
  size : conn.readedSize.toNat = conn.readBuffer.unread.length
  fresh : conn.readBuffer.unread = [] → conn.readBuffer = .reset
  rest : conn = .inPool returned conn.readBuffer conn.readedSize

theorem idleConn_reset (returned : Bool) (socket : List UInt8) :
    IdleConn returned (.inPool returned .reset 0) socket socket :=
  ⟨Buffer.ok_reset, rfl, rfl, fun _ => rfl, rfl⟩

/-- Without stray bytes the connection is the same, whatever it has been through. -/
theorem IdleConn.clean {returned : Bool} {conn : TcpConnection} {socket : List UInt8}
    (h : IdleConn returned conn socket []) : conn = .inPool returned .reset 0 ∧ socket = [] := by
  obtain ⟨hunread, hsocket⟩ := List.append_eq_nil_iff.mp h.held
  have hsize : conn.readedSize = 0 := by
    rw [← UInt64.toNat_inj, h.size, hunread]
    rfl
  refine ⟨?_, hsocket⟩
  rw [h.rest, h.fresh hunread, hsize]

theorem inPool_pooled (returned : Bool) (b : Buffer) (n : UInt64) : Pooled (.inPool returned b n) :=
  ⟨rfl, rfl, rfl, by cases returned <;> rfl, fun h => by cases h⟩

section

variable {returned : Bool} {conn : TcpConnection} {socket stray : List UInt8} {σ : Type}
  {p : PooledConn σ}

/-- The events of an idle connection: only the read event is on, and bytes stay in the buffer. -/
theorem IdleConn.readHandler {buf : List UInt8} {o : Outcome} (h : IdleConn returned conn
    (buf ++ socket) stray) (hbuf : 1 ≤ buf.length) (ho : conn.readHandler (.bytes buf) = some o) :
    o.pending = none ∧ IdleConn returned o.conn socket stray := by
  rw [TcpConnection.readHandler_bytes hbuf] at ho
  obtain ⟨b, hb, rfl⟩ := Option.map_eq_some_iff.mp ho
  have hread : conn.userReadHandler = none := by rw [h.rest]; rfl
  obtain ⟨hok, hunread⟩ := Buffer.write_spec h.ok hb
  have hlen := Buffer.unread_length hok
  have hw := hok.write_le
  have hs := hok.size_le
  have hmax : vectorMaxSize < 2 ^ 63 := by decide
  have hsum : b.unread.length = conn.readBuffer.unread.length + buf.length := by
    rw [hunread, List.length_append]
  have hadd : (toUInt64 buf.length).toNat = buf.length := by
    simp only [toUInt64]
    rw [UInt64.toNat_ofNat']
    omega
  have hdone : TcpConnection.readDone { conn with
      readBuffer := b, readedSize := conn.readedSize + toUInt64 buf.length } =
      TcpConnection.return_ { conn with
        readBuffer := b, readedSize := conn.readedSize + toUInt64 buf.length } := by
    simp only [TcpConnection.readDone, hread]
  rw [hdone]
  refine ⟨rfl, hok, ?_, ?_, fun hnil => ?_, ?_⟩
  · show b.unread ++ socket = stray
    rw [hunread, List.append_assoc]
    exact h.held
  · show (conn.readedSize + toUInt64 buf.length).toNat = b.unread.length
    rw [UInt64.toNat_add, hadd, h.size, hsum]
    omega
  · have hnil' : b.unread = [] := hnil
    rw [hnil', List.length_nil] at hsum
    omega
  · rw [h.rest]
    rfl

theorem inPool_readFailed (returned : Bool) (b : Buffer) (n : UInt64) (errMsg : String) :
    ((TcpConnection.inPool returned b n).readFailed errMsg).pending =
      some (.finish errMsg, .done) := by
  cases returned <;> rfl

theorem IdleConn.step {a : ExchangeAction} (h : IdleConn returned conn socket stray)
    (hstep : PooledConn.idleStep returned conn socket stray a = some p) :
    p = .closed ∨ ∃ conn' socket' stray', p = .idle returned conn' socket' stray' ∧
      IdleConn returned conn' socket' stray' := by
  cases a with
  | arrive bs =>
    cases hstep
    exact .inr ⟨_, _, _, rfl, h.ok, by rw [← List.append_assoc, h.held], h.size, h.fresh, h.rest⟩
  | read n =>
    obtain ⟨⟨hn, -, hlen⟩, ho⟩ := Option.ite_none_right_eq_some.mp hstep
    obtain ⟨o, hr, rfl⟩ := Option.map_eq_some_iff.mp ho
    rw [← List.take_append_drop n socket] at h
    obtain ⟨hpending, hidle⟩ := h.readHandler (by rw [List.length_take]; omega) hr
    rw [PooledConn.leave, hpending]
    exact .inr ⟨_, _, _, rfl, hidle⟩
  | request a =>
    cases a with
    | readable r =>
      obtain ⟨hoffered, ho⟩ := Option.ite_none_right_eq_some.mp hstep
      obtain ⟨o, hr, rfl⟩ := Option.map_eq_some_iff.mp ho
      cases r with
      | eagain =>
        obtain rfl := Option.some.inj hr
        exact .inr ⟨_, _, _, rfl, h⟩
      | error e =>
        rw [TcpConnection.readHandler_error] at hr
        obtain rfl := Option.some.inj hr
        rw [PooledConn.leave, h.rest, inPool_readFailed]
        exact .inl rfl
      | bytes bs =>
        obtain rfl := hoffered.1
        rw [TcpConnection.readHandler_eof] at hr
        obtain rfl := Option.some.inj hr
        rw [PooledConn.leave, h.rest, inPool_readFailed]
        exact .inl rfl
    | writable r =>
      obtain ⟨hnotify, -⟩ := Option.ite_none_right_eq_some.mp hstep
      rw [h.rest] at hnotify
      cases hnotify
    | deliver =>
      obtain ⟨o, ho, -⟩ := Option.map_eq_some_iff.mp hstep
      rw [h.rest] at ho
      cases returned <;> cases ho
    | timerDeliver now | expire now | resume | destroy | stack finish => cases hstep

end

/-! ## A connection that a request has -/

/-- The read event is on, and the asyncer is the one of the request's `AsyncWrite`. -/
structure Wired (c : TcpConnection) : Prop where
  event : ∃ writeNotify, c.event = some ⟨true, writeNotify⟩
  asyncer : ∃ readNotify, c.asyncer = some ⟨some writeCallback, readNotify, !readNotify⟩

section

variable {σ : Type} {D : PopDerived σ} {r r' : RequestRun σ} {o : Outcome} {c : TcpConnection}
  {errMsg : String}

theorem Wired.of_eq {d : TcpConnection} (hc : Wired c) (hevent : d.event = c.event)
    (hasyncer : d.asyncer = c.asyncer) : Wired d :=
  ⟨hevent ▸ hc.event, hasyncer ▸ hc.asyncer⟩

/-- `Finish` has a write handler to call before it drops the event. -/
theorem Wired.finish (hc : Wired c) (hopen : c.finished = false)
    (hcalls : c.undelivered ≠ none ∨ c.writeDone = false ∧ c.userWriteHandler ≠ none)
    (errMsg : String) : Wired (c.finish errMsg).conn := by
  obtain ⟨notify, hasyncer⟩ := hc.asyncer
  unfold TcpConnection.finish TcpConnection.finishCancel
  rw [hopen, if_neg (by decide)]
  cases notify with
  | true =>
    simp only [hasyncer, Bool.not_true]
    exact ⟨hc.event, false, rfl⟩
  | false =>
    have hund : c.undelivered = none := by
      unfold TcpConnection.undelivered
      rw [hasyncer]
      rfl
    obtain ⟨hdone, hwrite⟩ := hcalls.resolve_left fun h => h hund
    obtain ⟨h, hh⟩ := Option.ne_none_iff_exists'.mp hwrite
    simp only [hasyncer, Bool.not_false, TcpConnection.finishWrite, hdone, hh]
    exact ⟨hc.event, false, rfl⟩

theorem Wired.readFailed (hc : Wired c) (hopen : c.finished = false) (hphase : RequestPhase c)
    (errMsg : String) : Wired (c.readFailed errMsg).conn := by
  unfold TcpConnection.readFailed
  cases hphase with
  | undelivered h hund hread =>
    rw [hread]
    exact hc.finish hopen (.inl (by rw [hund]; exact Option.some_ne_none h)) errMsg
  | writing h hund hread hwrite hdone =>
    rw [hread]
    exact hc.finish hopen (.inr ⟨hdone, by rw [hwrite]; exact Option.some_ne_none h⟩) errMsg
  | waiting h hund hread =>
    rw [hread]
    exact hc.of_eq rfl rfl

/-- A method of the connection that runs for an open request. -/
theorem Wired.connStep {a : RequestAction} (hr : RequestOpen r) (hc : Wired r.conn)
    (h : ConnStep r a o) : Wired o.conn := by
  cases h with
  | deliver ho =>
    obtain ⟨notify, hasyncer⟩ := hc.asyncer
    obtain ⟨writeNotify, hevent⟩ := hc.event
    cases notify with
    | true =>
      simp only [TcpConnection.deliver, hasyncer, Bool.not_true, hevent, Option.map_some,
        Option.some.injEq] at ho
      subst ho
      exact ⟨⟨true, rfl⟩, false, rfl⟩
    | false => simp [TcpConnection.deliver, hasyncer] at ho
  | readable hframes ho =>
    rcases TcpConnection.readHandler_cases ho with ⟨-, rfl⟩ | ⟨-, -, e, -, rfl⟩ | ⟨-, b, -, rfl⟩
    · exact hc
    · exact hc.readFailed hr.conn hr.phase e
    · rcases TcpConnection.readDone_cases { r.conn with
        readBuffer := b, readedSize := _ } with ⟨h, -, -, hdone⟩ | ⟨-, hdone⟩
      · rw [hdone]; exact hc.of_eq rfl rfl
      · rw [hdone]; exact hc.of_eq rfl rfl
  | writable ho =>
    obtain ⟨writeNotify, hevent⟩ := hc.event
    rcases TcpConnection.writeHandler_outcome ho with
      ⟨h, e, -, he, rfl⟩ | ⟨h, b, e, -, -, rfl⟩ | ⟨b, rfl⟩
    · obtain rfl := Option.some.inj (hevent.symm.trans he)
      exact ⟨⟨false, rfl⟩, hc.asyncer⟩
    · exact hc.of_eq rfl rfl
    · exact hc.of_eq rfl rfl
  | resume hframes ho =>
    have hdone := hr.frames _ (by rw [hframes]; exact List.mem_cons_self)
    cases hdone
    cases ho
    exact hc

/-- A method that has called a handler without an error has nothing left to do. -/
def TcpConnection.Returns (o : Outcome) : Prop :=
  ∀ call f, o.pending = some (call, f) → f = .done ∨ call.errMsg ≠ ""

theorem returns_finish (errMsg : String) (c : TcpConnection) :
    TcpConnection.Returns (c.finish errMsg) := by
  have htail : ∀ c : TcpConnection, TcpConnection.Returns (c.finishTail errMsg) := by
    intro c call f h
    cases h
    exact .inl rfl
  have hwrite : ∀ c : TcpConnection, TcpConnection.Returns (c.finishWrite errMsg) := by
    intro c
    rcases TcpConnection.finishWrite_cases errMsg c with ⟨h, -, -, heq⟩ | ⟨-, heq⟩
    · rw [heq]
      intro call f hpending
      cases hpending
      exact .inr (by decide : "Finished" ≠ "")
    · rw [heq]; exact htail c
  cases hfin : c.finished with
  | true =>
    rw [TcpConnection.finish_finished errMsg hfin]
    intro call f h
    cases h
  | false =>
    rcases TcpConnection.finish_cases errMsg hfin with ⟨h, -, heq⟩ | ⟨a, -, -, heq⟩
    · rw [heq]
      intro call f hpending
      cases hpending
      exact .inr (by decide : "Asyncer Canceled" ≠ "")
    · rw [heq]; exact hwrite _

theorem ConnStep.returns {a : RequestAction} (hr : RequestOpen r) (h : ConnStep r a o) :
    TcpConnection.Returns o := by
  cases h with
  | deliver ho =>
    rcases TcpConnection.deliver_cases ho with ⟨h, e, -, -, rfl⟩ | ⟨h, -, rfl⟩
    all_goals intro call f hpending; cases hpending
  | readable hframes ho =>
    rcases TcpConnection.readHandler_cases ho with ⟨-, rfl⟩ | ⟨-, -, e, he, rfl⟩ | ⟨-, b, -, rfl⟩
    · intro call f hpending; cases hpending
    · unfold TcpConnection.readFailed
      split
      next h _ => intro call f hpending; cases hpending; exact .inr he
      next => exact returns_finish e r.conn
    · rcases TcpConnection.readDone_cases { r.conn with
        readBuffer := b, readedSize := _ } with ⟨h, -, -, hdone⟩ | ⟨-, hdone⟩
      · rw [hdone]; intro call f hpending; cases hpending; exact .inl rfl
      · rw [hdone]; intro call f hpending; cases hpending
  | writable ho =>
    rcases TcpConnection.writeHandler_outcome ho with
      ⟨h, e, -, -, rfl⟩ | ⟨h, b, e, -, he, rfl⟩ | ⟨b, rfl⟩
    · intro call f hpending; cases hpending; exact .inl rfl
    · intro call f hpending; cases hpending; exact .inr he
    · intro call f hpending; cases hpending
  | resume hframes ho =>
    have hdone := hr.frames _ (by rw [hframes]; exact List.mem_cons_self)
    cases hdone
    cases ho
    intro call f hpending; cases hpending

/-- The frames of the request, and of methods that return. -/
def RequestFrame.returns : RequestFrame → Bool
  | .onDone _ => true
  | .conn f => f = .done

theorem callDone_frames (h : ∀ f ∈ r.frames, f.returns = true) :
    ∀ f ∈ (r.callDone errMsg).frames, f.returns = true := by
  unfold callDone
  split
  next => exact h
  next => exact List.forall_mem_cons.mpr ⟨rfl, h⟩

theorem onRead_frames (ht : r.onRead D.toDerived errMsg = some r')
    (h : ∀ f ∈ r.frames, f.returns = true) : ∀ f ∈ r'.frames, f.returns = true := by
  have hcases := onRead_branches ht
  rw [cancelTimer_eq] at hcases
  rcases hcases with ⟨-, rfl⟩ | ⟨-, errMsg, finish, b, derived, -, ⟨-, rfl⟩ | ⟨-, -, rfl⟩⟩
  · exact callDone_frames h
  · exact callDone_frames h
  · exact h

theorem onWrite_frames (ht : r.onWrite D.toDerived errMsg = some r')
    (h : ∀ f ∈ r.frames, f.returns = true) : ∀ f ∈ r'.frames, f.returns = true := by
  rcases onWrite_branches ht with ⟨-, rfl⟩ | ⟨-, -, rfl⟩ | ⟨-, -, hread⟩
  · exact callDone_frames h
  · exact h
  · exact onRead_frames hread (List.forall_mem_cons.mpr ⟨rfl, h⟩)

/-- When the request has ended without an error, all that is left on the stack returns. -/
theorem leave_frames (hopen : RequestBegun r) (ho : TcpConnection.Returns o)
    (ht : r.leave D.toDerived o = some r') (hdones : r'.dones = [""])
    (h : ∀ f ∈ r.frames, f.returns = true) : ∀ f ∈ r'.frames, f.returns = true := by
  obtain ⟨c, _ | ⟨call, f⟩⟩ := o
  · cases ht; exact h
  · have hpushed : call.errMsg = "" →
        ∀ g ∈ RequestFrame.conn f :: r.frames, g.returns = true := fun hempty => by
      have hdone := (ho call f rfl).resolve_right fun hne => hne hempty
      exact List.forall_mem_cons.mpr ⟨by rw [hdone]; rfl, h⟩
    cases call with
    | read k e =>
      by_cases he : e = ""
      · exact onRead_frames (r := { r with conn := c, frames := .conn f :: r.frames }) ht
          (hpushed he)
      · rcases onRead_cases (s := { r with conn := c, frames := .conn f :: r.frames })
          hopen.inserts ht with ⟨-, rfl⟩ | ⟨hempty, -⟩
        · rw [cancelTimer_eq, callDone_eq (by exact hopen.unfinished)] at hdones
          exact absurd (List.cons.inj hdones).1 he
        · exact absurd hempty he
    | write k e =>
      by_cases he : e = ""
      · exact onWrite_frames (r := { r with conn := c, frames := .conn f :: r.frames }) ht
          (hpushed he)
      · have heq := onWrite_error (s := { r with conn := c, frames := .conn f :: r.frames })
          hopen.inserts he ht
        rw [heq, callDone_eq (by exact hopen.unfinished)] at hdones
        exact absurd (List.cons.inj hdones).1 he
    | finish e =>
      cases ht
      have hnone : r.dones = [] := hopen.dones
      rw [hnone] at hdones
      cases hdones

/-- Where a request is that has not given the connection back. -/
inductive LentTo (r : RequestRun σ) : Prop
  | opened (hr : RequestOpen r) (htimer : TimerOk r) (hwired : Wired r.conn)
  | ended (errMsg : String) (hr : RequestEnded errMsg r)
      (hreturns : errMsg = "" → Wired r.conn ∧ r.conn.undelivered = none ∧
        ∀ f ∈ r.frames, f.returns = true)

theorem RequestOpen.wired {a : RequestAction} (hr : RequestOpen r) (hwired : Wired r.conn)
    (hstep : r.step D.toDerived a = some r') : Wired r'.conn := by
  cases step_conn hstep with
  | runs o fs hconn hfs ht =>
    have hleft := (leave_left ht).1
    exact (hwired.connStep hr hconn).of_eq hleft.event hleft.asyncer
  | inserts e fs hframes ht =>
    have hdone := hr.frames (.onDone e) (by rw [hframes]; exact List.mem_cons_self)
    cases hdone
  | stays hconn hinserts hdones hread => rw [hconn]; exact hwired

/-- A timer that expires ends the request with an error. -/
theorem RequestOpen.expire_dones {now : UInt64} (hr : RequestOpen r) (htimer : TimerOk r)
    (hstep : r.step D.toDerived (.expire now) = some r') : r'.dones = ["timeout"] := by
  obtain ⟨-, t', rfl⟩ := expire_cases htimer hstep
  rw [uses_eq hr.inserts, callDone_eq (s := { r with timer := some t' }) hr.unfinished]
  exact congrArg ("timeout" :: ·) hr.dones

theorem RequestOpen.frames_ended {a : RequestAction} (hr : RequestOpen r) (htimer : TimerOk r)
    (hstep : r.step D.toDerived a = some r') (hdones : r'.dones = [""]) :
    ∀ f ∈ r'.frames, f.returns = true := by
  cases step_conn hstep with
  | runs o fs hconn hfs ht =>
    refine leave_frames (r := { r with frames := fs })
      ⟨hr.unfinished, hr.dones, hr.inserts, hr.again⟩ (hconn.returns hr) ht hdones fun f hf => ?_
    rw [hr.frames f (hfs f hf)]
    rfl
  | inserts e fs hframes ht =>
    have hdone := hr.frames (.onDone e) (by rw [hframes]; exact List.mem_cons_self)
    cases hdone
  | stays hconn hinserts hsame hread =>
    rcases hsame with hsame | ⟨now, rfl⟩
    · rw [hsame, hr.dones] at hdones
      cases hdones
    · rw [hr.expire_dones htimer hstep] at hdones
      exact absurd (List.cons.inj hdones).1 (by decide)

theorem LentTo.step_open {a : RequestAction} (hr : RequestOpen r) (htimer : TimerOk r)
    (hwired : Wired r.conn) (hstep : r.step D.toDerived a = some r') : LentTo r' := by
  have htimer' := htimer.step hstep
  have hwired' := hr.wired hwired hstep
  cases hr.step htimer hstep with
  | goesOn hopen => exact .opened hopen htimer' hwired'
  | popped hopen => exact .opened hopen htimer' hwired'
  | ended errMsg hended _ hsettled =>
    refine .ended errMsg hended fun hempty => ⟨hwired', ?_, ?_⟩
    · rcases hsettled with hsettled | ⟨now, rfl, -⟩
      · exact hsettled.undelivered
      · obtain rfl := (List.cons.inj (hended.dones.symm.trans (hr.expire_dones htimer hstep))).1
        exact absurd hempty (by decide)
    · exact hr.frames_ended htimer hstep (by rw [hended.dones, hempty])

/-- While `onDone_` runs nothing happens to the connection; then `Insert` gives it back. -/
theorem LentTo.step_ended {a : RequestAction} (hr : RequestEnded errMsg r)
    (hreturns : errMsg = "" → Wired r.conn ∧ r.conn.undelivered = none ∧
      ∀ f ∈ r.frames, f.returns = true)
    (hstep : r.step D.toDerived a = some r') :
    LentTo r' ∨ (r'.inserts = [errMsg] ∧ (errMsg = "" → r'.conn = .inPool true .reset 0 ∧
      ∀ f ∈ r'.frames, f = .conn .done)) := by
  rcases hr.step_cases hstep with ⟨fs, hframes, ht⟩ | ⟨timer, finish, alive, rfl, hended⟩
  · obtain ⟨fs', hframes', hfs, -⟩ := hr.frames
    obtain ⟨-, rfl⟩ := List.cons.inj (hframes.symm.trans hframes')
    refine .inr ?_
    unfold RequestRun.insert at ht
    split at ht
    next herr =>
      refine ⟨?_, fun hempty => absurd hempty herr⟩
      rw [(leave_left ht).2]
      exact congrArg (errMsg :: ·) hr.inserts
    next hempty =>
      simp only [ne_eq, not_not] at hempty
      obtain ⟨⟨⟨writeNotify, hevent⟩, notify, hasyncer⟩, hund, hreturn⟩ := hreturns hempty
      have hoff : writeNotify = false := by
        have hnotify := hr.notify hempty
        simpa [TcpConnection.writeNotify, hevent] using hnotify
      have hdelivered : notify = false := by
        cases notify with
        | false => rfl
        | true => simp [TcpConnection.undelivered, hasyncer] at hund
      cases ht
      refine ⟨congrArg (errMsg :: ·) hr.inserts, fun _ => ⟨?_, fun f hf => ?_⟩⟩
      · show r.conn.reset = _
        simp only [TcpConnection.reset, TcpConnection.resetRead, hevent, hasyncer, hoff,
          hdelivered]
        rfl
      · have hf' := hreturn f (by rw [hframes]; exact List.mem_cons_of_mem _ hf)
        cases f with
        | onDone e => exact absurd (hfs _ hf).1 (Option.some_ne_none e)
        | conn g => rw [of_decide_eq_true hf']
  · exact .inl (.ended errMsg hended hreturns)

/-- `doReq` on a connection of the pool. -/
theorem doReq_inPool {timeoutMs : UInt64} {returned : Bool} {b : Buffer} {n : UInt64} {derived : σ}
    {finish : Bool}
    (hs : doReq D.toDerived .new timeoutMs (.inPool returned b n) derived finish = some r) :
    LentTo r ∧ r.conn.readBuffer = b := by
  obtain ⟨htimer, hcases⟩ := doReq_cases (inPool_pooled returned b n) hs
  obtain ⟨⟨e, wb, derived'⟩, -, hs⟩ := Option.bind_eq_some_iff.mp hs
  simp only at hs
  split at hs
  next hne =>
    cases hs
    rcases hcases with ⟨hopen, -⟩ | ⟨errMsg, hended, -⟩
    · cases hopen.unfinished
    · obtain rfl := (List.cons.inj hended.dones).1
      exact ⟨.ended e hended fun hempty => absurd hempty hne, rfl⟩
  next =>
    obtain ⟨o, ho, hs⟩ := Option.bind_eq_some_iff.mp hs
    rw [startTimer_eq] at hs
    have hwrite : TcpConnection.asyncWrite writeCallback
        { TcpConnection.inPool returned b n with writeBuffer := wb } =
        some (TcpConnection.return_ { TcpConnection.inPool returned b n with
          writeBuffer := wb, asyncer := some ⟨some writeCallback, true, false⟩ }) := by
      cases returned <;> rfl
    rw [hwrite] at ho
    cases ho
    cases hs
    rcases hcases with ⟨hopen, -⟩ | ⟨errMsg, hended, -⟩
    · exact ⟨.opened hopen htimer ⟨⟨false, rfl⟩, true, rfl⟩, rfl⟩
    · cases hended.finished

theorem LentTo.inserts (h : LentTo r) : r.inserts = [] := by
  cases h with
  | opened hr => exact hr.inserts
  | ended errMsg hr => exact hr.inserts

theorem LentTo.step {a : RequestAction} (h : LentTo r) (hstep : r.step D.toDerived a = some r') :
    LentTo r' ∨ ∃ errMsg, r'.inserts = [errMsg] ∧ (errMsg = "" →
      r'.conn = .inPool true .reset 0 ∧ ∀ f ∈ r'.frames, f = .conn .done) := by
  cases h with
  | opened hr htimer hwired => exact .inl (LentTo.step_open hr htimer hwired hstep)
  | ended errMsg hr hreturns =>
    exact (LentTo.step_ended hr hreturns hstep).imp id fun h => ⟨errMsg, h⟩

end

/-! ## The life of the connection -/

/-- What holds in every state. -/
def PooledConn.Inv {σ : Type} : PooledConn σ → Prop
  | .idle returned conn socket stray => IdleConn returned conn socket stray
  | .lent e => LentTo e.request
  | .closed => True

section

variable {σ : Type} {D : PopDerived σ} {p q : PooledConn σ}

/-- After a step of the exchange the request still has the connection, or `Insert` has it. -/
theorem PooledConn.inv_giveBack {r : RequestRun σ} {e : Exchange σ}
    (h : LentTo r ∨ ∃ errMsg, r.inserts = [errMsg] ∧ (errMsg = "" →
      r.conn = .inPool true .reset 0 ∧ ∀ f ∈ r.frames, f = .conn .done)) (he : e.request = r) :
    (PooledConn.giveBack e).Inv := by
  subst he
  rcases h with hlent | ⟨errMsg, hins, hconn⟩
  · rw [PooledConn.giveBack, hlent.inserts]
    exact hlent
  · rw [PooledConn.giveBack, hins]
    simp only
    split
    next hempty => rw [(hconn hempty).1]; exact idleConn_reset true e.socket
    next => exact True.intro

theorem PooledConn.Inv.step {a : PooledAction σ} (hp : p.Inv)
    (hstep : p.step D.toDerived a = some q) : q.Inv := by
  cases p with
  | idle returned conn socket stray =>
    cases a with
    | get timeoutMs derived finish =>
      obtain ⟨r, hr, rfl⟩ := Option.map_eq_some_iff.mp hstep
      have hidle : IdleConn returned conn socket stray := hp
      rw [hidle.rest] at hr
      exact (doReq_inPool hr).1
    | loop a =>
      rcases IdleConn.step hp hstep with rfl | ⟨conn', socket', stray', rfl, hidle⟩
      · exact True.intro
      · exact hidle
  | lent e =>
    cases a with
    | get timeoutMs derived finish => cases hstep
    | loop a =>
      obtain ⟨e', he, rfl⟩ := Option.map_eq_some_iff.mp hstep
      have hlent : LentTo e.request := hp
      cases (exchange_step he).2 with
      | arrives bs _ heq =>
        subst heq
        exact PooledConn.inv_giveBack (.inl hlent) rfl
      | runs b r socket hr _ _ heq =>
        subst heq
        exact PooledConn.inv_giveBack (hlent.step hr) rfl
  | closed => cases hstep

theorem inv_of_reachable (h : (pooled D.toDerived).Reachable p) : p.Inv :=
  h.invariant (idleConn_reset false []) fun _ _ _ hp _ hstep => hp.step hstep

/-- Two idle connections that have had no stray bytes are the same connection. -/
theorem clean_of_reachable {conn : TcpConnection} {socket : List UInt8}
    (h : (pooled D.toDerived).Reachable (.idle true conn socket [])) :
    conn = .inPool true .reset 0 ∧ socket = [] :=
  IdleConn.clean (inv_of_reachable h)

/-- The next request pops what was stray, and then what has arrived since. -/
theorem IdleConn.later_popped {conn : TcpConnection} {socket stray : List UInt8}
    {returned : Bool} (h : IdleConn returned conn socket stray) {τ : Type} {D' : PopDerived τ}
    {timeoutMs : UInt64} {derived : τ} {finish : Bool} {as : List ExchangeAction} {e : Exchange τ}
    (hlater : later D'.toDerived timeoutMs derived finish conn socket as = some e) :
    e.popped <+: stray ++ e.arrived := by
  obtain ⟨r, hr, hrun⟩ := Option.bind_eq_some_iff.mp hlater
  rw [h.rest] at hr
  have hbuffer := (doReq_inPool hr).2
  have hpopped := (accounts_of_run (by rw [hbuffer]; exact h.ok) hrun).popped
  rw [hbuffer, h.held] at hpopped
  exact hpopped

end

/-- When a request gives the connection back, nothing of it is left that would touch the
connection. -/
theorem frames_of_giveBack {σ : Type} {D : PopDerived σ} {e : Exchange σ} {a : RequestAction}
    {r : RequestRun σ} (h : (pooled D.toDerived).Reachable (.lent e))
    (hstep : e.request.step D.toDerived a = some r) (hins : r.inserts = [""]) :
    ∀ f ∈ r.frames, f = .conn .done := by
  have hlent : LentTo e.request := inv_of_reachable h
  rcases hlent.step hstep with hlent' | ⟨errMsg, hins', hreturns⟩
  · rw [hlent'.inserts] at hins
    cases hins
  · exact (hreturns (List.cons.inj (hins'.symm.trans hins)).1).2

/-! ## A request that pops what it finds -/

/-- It writes nothing, and each call of its read callback pops once. -/
def drain : PopDerived Unit where
  reqPush d b := some ("", b, d)
  respPop d _ b := (b.popHead 1024).map fun (_, _, b) => ("", false, b, d)
  pops hok hr := by
    obtain ⟨⟨n, bytes, b⟩, hpop, rfl⟩ := Option.map_eq_some_iff.mp hr
    obtain ⟨-, hok', hunread⟩ := Buffer.popHead_some hok hpop
    exact ⟨hok', _, by rw [hunread, List.take_append_drop]⟩

theorem drain_respPop {b : Buffer} (hok : b.Ok) (hne : b.unread ≠ []) (finish : Bool) :
    ∃ b', drain.respPop () finish b = some ("", false, b', ()) ∧
      b'.unread.length < b.unread.length := by
  obtain ⟨⟨n, bytes, b'⟩, hpop⟩ := Option.isSome_iff_exists.mp
    (@Buffer.popHead_isSome _ 1024 hok (by decide))
  have hround := Buffer.popHead_popped hok (by decide) hpop
  refine ⟨b', ?_, hround.shorter fun hzero => hne (hround.nothing hzero)⟩
  simp only [drain, hpop, Option.map_some]

/-- It has the connection `c`. -/
def drainRequest (c : TcpConnection) : RequestRun Unit where
  conn := c
  timer := none
  finished := false
  derived := ()
  finish := false
  frames := []
  alive := true
  dones := []
  inserts := []
  again := false

/-- The loop has delivered its `AsyncWrite`, and the write event is on. -/
def drainWriting (b : Buffer) (readedSize : UInt64) : RequestRun Unit :=
  drainRequest { TcpConnection.inPool true b readedSize with
    userWriteHandler := some writeCallback
    event := some ⟨true, true⟩ }

theorem later_drain (b : Buffer) (readedSize : UInt64) (socket : List UInt8)
    (as : List ExchangeAction) :
    later drain.toDerived 0 () false (.inPool true b readedSize) socket
        (.request .deliver :: as) =
      (exchange drain.toDerived (.start (drainWriting b readedSize) socket)).run
        (.start (drainWriting b readedSize) socket) as := by
  have hget : doReq drain.toDerived .new 0 (.inPool true b readedSize) () false =
      some (drainRequest { TcpConnection.inPool true b readedSize with
        asyncer := some ⟨some writeCallback, true, false⟩ }) := rfl
  have hdeliver : Exchange.step drain.toDerived (.start (drainRequest
        { TcpConnection.inPool true b readedSize with
          asyncer := some ⟨some writeCallback, true, false⟩ }) socket) (.request .deliver) =
      some (.start (drainWriting b readedSize) socket) := by
    simp [Exchange.step, Exchange.start, RequestAction.Offered, RequestRun.step, drainRequest,
      drainWriting, TcpConnection.inPool, TcpConnection.connected, TcpConnection.reset,
      TcpConnection.resetRead, TcpConnection.deliver, TcpConnection.return_, RequestRun.leave,
      Exchange.taken]
  rw [later, hget, Option.bind_some, exchange_cons hdeliver]
  exact exchange_run _ _ _ as

/-- Its write callback finds bytes in the read buffer. -/
theorem drain_at_once {b b' : Buffer} {readedSize : UInt64} (hsize : readedSize ≠ 0)
    (hpop : drain.respPop () false b = some ("", false, b', ())) (socket : List UInt8) :
    ∃ e, later drain.toDerived 0 () false (.inPool true b readedSize) socket
      [.request .deliver, .request (.writable .eagain)] = some e ∧ e.arrived = [] ∧
      e.request.inserts = [] ∧ e.request.conn.readBuffer = b' ∧ e.socket = socket := by
  rw [later_drain]
  simp [System.run, exchange, Exchange.step, Exchange.start, RequestAction.Offered,
    RequestRun.step, drainWriting, drainRequest, TcpConnection.inPool, TcpConnection.connected,
    TcpConnection.reset, TcpConnection.resetRead, TcpConnection.writeNotify,
    TcpConnection.writeHandler, Buffer.read, Buffer.reset, RequestRun.leave, onWrite,
    TcpConnection.asyncReadAny, hsize, onRead, uses, cancelTimer, hpop]

/-- The request is written, and it waits for the response. -/
def drainWaiting : RequestRun Unit :=
  drainRequest { TcpConnection.inPool true .reset 0 with
    anyFlag := true
    userReadHandler := some readCallback
    writeDone := true
    userWriteHandler := some writeCallback }

/-- Its write callback finds nothing. -/
theorem drain_waits (socket : List UInt8) (as : List ExchangeAction) :
    (exchange drain.toDerived (.start (drainWriting .reset 0) socket)).run
        (.start (drainWriting .reset 0) socket)
        (.request (.writable .eagain) :: .request .resume :: as) =
      (exchange drain.toDerived (.start (drainWriting .reset 0) socket)).run
        (.start drainWaiting socket) as := by
  have hwritable : Exchange.step drain.toDerived (.start (drainWriting .reset 0) socket)
      (.request (.writable .eagain)) =
      some (.start { drainWaiting with frames := [.conn .done] } socket) := rfl
  have hresume : Exchange.step drain.toDerived
      (.start { drainWaiting with frames := [.conn .done] } socket) (.request .resume) =
      some (.start drainWaiting socket) := rfl
  rw [exchange_cons hwritable, exchange_run _ (.start (drainWriting .reset 0) socket),
    exchange_cons hresume, exchange_run _ (.start (drainWriting .reset 0) socket)]

/-- The loop reads then. -/
theorem drain_after_read {b b' : Buffer} {m : Nat} {socket : List UInt8} (h1 : 1 ≤ m)
    (h1024 : m ≤ 1024) (hm : m ≤ socket.length)
    (hwrite : Buffer.reset.write (socket.take m) = some b)
    (hpop : drain.respPop () false b = some ("", false, b', ())) :
    ∃ e, later drain.toDerived 0 () false (.inPool true .reset 0) socket
      [.request .deliver, .request (.writable .eagain), .request .resume, .read m] = some e ∧
      e.arrived = [] ∧ e.request.inserts = [] ∧ e.request.conn.readBuffer = b' ∧
      e.socket = socket.drop m := by
  have hlen : 1 ≤ (socket.take m).length := by rw [List.length_take]; omega
  simp only [Buffer.reset] at hwrite
  rw [later_drain, drain_waits]
  simp [System.run, exchange, Exchange.step, Exchange.start, RequestRun.step, drainWaiting,
    drainRequest, TcpConnection.inPool, TcpConnection.connected, TcpConnection.reset,
    TcpConnection.resetRead, Buffer.reset, RequestRun.leave, h1, h1024, hm,
    TcpConnection.readHandler_bytes hlen, hwrite, TcpConnection.readDone, onRead, uses,
    cancelTimer, hpop]

/-- A byte that is unread or in the socket is popped, before any other has arrived. -/
theorem IdleConn.drain_pops {conn : TcpConnection} {socket stray : List UInt8}
    (h : IdleConn true conn socket stray) (hstray : stray ≠ []) :
    ∃ as e, later drain.toDerived 0 () false conn socket as = some e ∧ e.arrived = [] ∧
      e.popped ≠ [] := by
  -- it has taken bytes off, so that it must have popped some
  have hless : ∀ {as : List ExchangeAction} {e : Exchange Unit} {b : Buffer},
      later drain.toDerived 0 () false conn socket as = some e → e.arrived = [] →
      e.request.inserts = [] → e.request.conn.readBuffer = b →
      b.unread.length + e.socket.length < conn.readBuffer.unread.length + socket.length →
      e.popped ≠ [] := by
    intro as e b hlater harrived hins hb hlt hnil
    obtain ⟨r, hr, hrun⟩ := Option.bind_eq_some_iff.mp hlater
    rw [h.rest] at hr
    have hbuffer := (doReq_inPool hr).2
    have hheld := ((accounts_of_run (by rw [hbuffer]; exact h.ok) hrun).held hins).2
    rw [hb, hnil, harrived, hbuffer, List.nil_append, List.append_nil] at hheld
    have hlen := congrArg List.length hheld
    rw [List.length_append, List.length_append] at hlen
    omega
  by_cases hunread : conn.readBuffer.unread = []
  · have hconn : conn = .inPool true .reset 0 := by
      have hsize : conn.readedSize = 0 := by
        rw [← UInt64.toNat_inj, h.size, hunread]
        rfl
      rw [h.rest, h.fresh hunread, hsize]
    have hsocket : socket ≠ [] := fun hc => hstray (by rw [← h.held, hunread, hc]; rfl)
    have hpos := List.length_pos_of_ne_nil hsocket
    obtain ⟨b, hwrite⟩ : ∃ b, Buffer.reset.write (socket.take 1) = some b := by
      refine Option.isSome_iff_exists.mp ?_
      have hlen : (socket.take 1).length ≤ 1 := List.length_take_le 1 socket
      simp [Buffer.write, Buffer.reset, vectorMaxSize]
    obtain ⟨hok, hone⟩ := Buffer.write_spec Buffer.ok_reset hwrite
    have hone' : b.unread = socket.take 1 := hone
    have hlen : (socket.take 1).length = 1 := by rw [List.length_take]; omega
    obtain ⟨b', hpop, hlt⟩ := drain_respPop hok
      (List.ne_nil_of_length_pos (by rw [hone', hlen]; decide)) false
    obtain ⟨e, hlater, harrived, hins, hb, hs⟩ :=
      drain_after_read (Nat.le_refl 1) (by decide) hpos hwrite hpop
    rw [← hconn] at hlater
    refine ⟨_, e, hlater, harrived, hless hlater harrived hins hb ?_⟩
    rw [hs, hunread, List.length_drop, List.length_nil]
    rw [hone', hlen] at hlt
    omega
  · obtain ⟨b', hpop, hlt⟩ := drain_respPop h.ok hunread false
    have hsize : conn.readedSize ≠ 0 := fun hc => by
      have hlen := h.size
      rw [hc] at hlen
      exact hunread (List.length_eq_zero_iff.mp hlen.symm)
    obtain ⟨e, hlater, harrived, hins, hb, hs⟩ := drain_at_once hsize hpop socket
    rw [← h.rest] at hlater
    refine ⟨_, e, hlater, harrived, hless hlater harrived hins hb ?_⟩
    rw [hs]
    omega

/-! ## Isolation -/

/-- The next request is isolated from what came before exactly if nothing was left in the socket
when the connection was given back, and nothing has arrived since. -/
theorem isolated_iff {σ : Type} {D : PopDerived σ} {conn : TcpConnection}
    {socket stray : List UInt8}
    (h : (pooled D.toDerived).Reachable (.idle true conn socket stray)) :
    Isolated D.toDerived conn socket ↔ stray = [] := by
  have hidle : IdleConn true conn socket stray := inv_of_reachable h
  constructor
  · intro hiso
    by_contra hstray
    obtain ⟨as, e, hlater, harrived, hpopped⟩ := hidle.drain_pops hstray
    have hprefix := hiso.pops drain 0 () false as e hlater
    rw [harrived] at hprefix
    exact hpopped (List.prefix_nil.mp hprefix)
  · rintro rfl
    refine ⟨fun D' timeoutMs derived finish as e hlater => hidle.later_popped hlater, ?_⟩
    intro conn' socket' h' τ D' timeoutMs derived finish as
    obtain ⟨hconn, hsocket⟩ := hidle.clean
    obtain ⟨hconn', hsocket'⟩ := clean_of_reachable h'
    rw [hconn, hsocket, hconn', hsocket']

/-- The idle connection of a state. -/
def PooledConn.idle? {σ : Type} : PooledConn σ →
    Option (Bool × TcpConnection × List UInt8 × List UInt8)
  | .idle returned conn socket stray => some (returned, conn, socket, stray)
  | _ => none

theorem reachable_idle {σ : Type} {D : Derived σ} {returned : Bool} {conn : TcpConnection}
    {socket stray : List UInt8} (as : List (PooledAction σ))
    (h : ((pooled D).run (pooled D).init as).bind PooledConn.idle? =
      some (returned, conn, socket, stray)) :
    (pooled D).Reachable (.idle returned conn socket stray) := by
  obtain ⟨p, hrun, hp⟩ := Option.bind_eq_some_iff.mp h
  cases p with
  | idle returned' conn' socket' stray' =>
    cases hp
    exact System.reachable_of_run hrun
  | lent e => cases hp
  | closed => cases hp

/-- A request with an answer that has no body. -/
def pingExchange : List (PooledAction (HttpClient smallParser)) :=
  .get 100 ⟨bytes "GET / HTTP/1.1\r\n\r\n", .new smallParser⟩ false ::
    [.request .deliver, .request (.writable (.count 18)), .request (.writable .eagain),
      .request .resume, .arrive (bytes "HTTP/1.1 204 No Content\r\n\r\n"), .read 27,
      .request .resume].map .loop

theorem isolated_iff_pingExchange :
    Isolated (HttpClient.popDerived smallParser).toDerived (.inPool true .reset 0) [] := by
  have hidle : (pooled (HttpClient.popDerived smallParser).toDerived).Reachable
      (.idle true (.inPool true .reset 0) [] []) := reachable_idle pingExchange (by decide +kernel)
  exact (isolated_iff hidle).mpr rfl

/-- A byte that comes while the connection is idle: the next request pops it. -/
theorem isolated_fails :
    (pooled (HttpClient.derived smallParser)).Reachable
        (.idle true (.inPool true ⟨0, 1, [88]⟩ 1) [] [88]) ∧
      ¬ Isolated (HttpClient.derived smallParser) (.inPool true ⟨0, 1, [88]⟩ 1) [] := by
  refine ⟨reachable_idle (pingExchange ++ [.loop (.arrive [88]), .loop (.read 1)])
    (by decide +kernel), fun hiso => ?_⟩
  have hpops := hiso.pops (HttpClient.popDerived smallParser) 0
    ⟨bytes "GET / HTTP/1.1\r\n\r\n", .new smallParser⟩ false
    [.request .deliver, .request (.writable (.count 18)), .request (.writable .eagain)]
  have hend : (later (HttpClient.derived smallParser) 0
      ⟨bytes "GET / HTTP/1.1\r\n\r\n", .new smallParser⟩ false (.inPool true ⟨0, 1, [88]⟩ 1) []
      [.request .deliver, .request (.writable (.count 18)), .request (.writable .eagain)]).map
        (fun e => (e.popped, e.arrived)) = some ([88], []) := by decide +kernel
  obtain ⟨e, hlater, he⟩ := Option.map_eq_some_iff.mp hend
  have hprefix := hpops e hlater
  rw [(Prod.mk.inj he).1, (Prod.mk.inj he).2] at hprefix
  exact absurd (List.prefix_nil.mp hprefix) (List.cons_ne_nil 88 [])

end Sheep
