import Sheep.Client.RequestTimer

/-!
# The bytes of a request

`exchange` is a request with the socket of its connection: the peer's bytes arrive in the receive
queue of the kernel, and the loop reads them from there, in pieces of any size up to the 1024 bytes
of `readHandler`. It ends when `Finish` gives the connection back to the pool.

`accounts_of_run`: what the read callbacks pop comes, byte for byte, from what was unread when the
request got the connection, followed by what has arrived since.
-/

namespace Sheep

open RequestRun TcpConnection

/-- A derived class takes bytes out of the read buffer with `ReadBufferPopHead` only. -/
structure PopDerived (σ : Type) extends Derived σ where
  pops : ∀ {d : σ} {finish : Bool} {b : Buffer} {r : String × Bool × Buffer × σ}, b.Ok →
    respPop d finish b = some r → r.2.2.1.Ok ∧ ∃ popped, b.unread = popped ++ r.2.2.1.unread

structure Exchange (σ : Type) where
  request : RequestRun σ
  /-- the bytes that have arrived and were not read yet -/
  socket : List UInt8
  /-- ghost: the bytes that have arrived since the request has the connection -/
  arrived : List UInt8
  /-- ghost: the bytes that the read callbacks have popped -/
  popped : List UInt8

inductive ExchangeAction
  | arrive (bs : List UInt8)
  /-- `::read` returns the next `n` bytes -/
  | read (n : Nat)
  | request (a : RequestAction)
  deriving DecidableEq, Repr

/-- `::read` returns bytes only by `ExchangeAction.read`, and finds neither the end of the stream
nor `EAGAIN` in front of bytes. -/
def RequestAction.Offered (socket : List UInt8) : RequestAction → Prop
  | .readable (.bytes bs) => bs = [] ∧ socket = []
  | .readable .eagain => socket = []
  | _ => True

instance (socket : List UInt8) : ∀ a, Decidable (RequestAction.Offered socket a)
  | .readable (.bytes bs) => inferInstanceAs (Decidable (bs = [] ∧ socket = []))
  | .readable .eagain => inferInstanceAs (Decidable (socket = []))
  | .readable (.error _) | .deliver | .writable _ | .timerDeliver _ | .expire _ | .resume
  | .destroy | .stack _ => isTrue True.intro

namespace Exchange

variable {σ : Type}

/-- Of the unread bytes `before`, those that are not in the read buffer any more. `Insert` discards
them, and nobody gets to see them. -/
def taken (before : List UInt8) (r : RequestRun σ) : List UInt8 :=
  if r.inserts = [] then before.take (before.length - r.conn.readBuffer.unread.length) else []

def step (D : Derived σ) (e : Exchange σ) (a : ExchangeAction) : Option (Exchange σ) :=
  if e.request.inserts ≠ [] then none
  else
    match a with
    | .arrive bs => some { e with socket := e.socket ++ bs, arrived := e.arrived ++ bs }
    | .read n =>
      if 1 ≤ n ∧ n ≤ 1024 ∧ n ≤ e.socket.length then
        (e.request.step D (.readable (.bytes (e.socket.take n)))).map fun r =>
          { e with
            request := r
            socket := e.socket.drop n
            popped := e.popped ++
              taken (e.request.conn.readBuffer.unread ++ e.socket.take n) r }
      else none
    | .request a =>
      if a.Offered e.socket then
        (e.request.step D a).map fun r =>
          { e with
            request := r
            popped := e.popped ++ taken e.request.conn.readBuffer.unread r }
      else none

end Exchange

/-- The request has just got the connection. -/
def Exchange.start {σ : Type} (r : RequestRun σ) (socket : List UInt8) : Exchange σ :=
  ⟨r, socket, [], []⟩

def exchange {σ : Type} (D : Derived σ) (e : Exchange σ) : System (Exchange σ) ExchangeAction :=
  ⟨e, Exchange.step D⟩

theorem exchange_run {σ : Type} {D : Derived σ} (e e' s : Exchange σ) (as : List ExchangeAction) :
    (exchange D e).run s as = (exchange D e').run s as := by
  induction as generalizing s with
  | nil => rfl
  | cons a as ih => exact congrArg (Option.bind _) (funext ih)

theorem exchange_cons {σ : Type} {D : Derived σ} {e s t : Exchange σ} {a : ExchangeAction}
    (h : s.step D a = some t) (as : List ExchangeAction) :
    (exchange D e).run s (a :: as) = (exchange D e).run t as := by
  show (s.step D a).bind _ = _
  rw [h]
  rfl

/-! ## What a step does to the connection -/

/-- A method of the connection that a step of the request runs. -/
inductive ConnStep {σ : Type} (s : RequestRun σ) : RequestAction → Outcome → Prop
  | deliver {o : Outcome} (ho : s.conn.deliver = some o) : ConnStep s .deliver o
  | readable {r : SysRead} {o : Outcome} (hframes : s.frames = [])
      (ho : s.conn.readHandler r = some o) : ConnStep s (.readable r) o
  | writable {r : SysResult} {o : Outcome} {sent : List UInt8}
      (ho : s.conn.writeHandler r = some (o, sent)) : ConnStep s (.writable r) o
  | resume {f : Frame} {fs : List RequestFrame} {o : Outcome} (hframes : s.frames = .conn f :: fs)
      (ho : f.resume s.conn = some o) : ConnStep s .resume o

section

variable {σ : Type} {D : Derived σ} {s t : RequestRun σ} {o : Outcome} {c : TcpConnection}
  {errMsg : String}

@[simp] theorem callDone_inserts (errMsg : String) (s : RequestRun σ) :
    (s.callDone errMsg).inserts = s.inserts := by
  unfold callDone
  split <;> rfl

theorem foldl_onTimer_conn (calls : List TimerCall) (s : RequestRun σ) :
    (calls.foldl onTimer s).conn = s.conn ∧ (calls.foldl onTimer s).inserts = s.inserts := by
  induction calls generalizing s with
  | nil => exact ⟨rfl, rfl⟩
  | cons call calls ih =>
    have hcall : (s.onTimer call).conn = s.conn ∧ (s.onTimer call).inserts = s.inserts := by
      unfold onTimer
      split
      next => exact ⟨rfl, rfl⟩
      next =>
        split
        next => exact ⟨rfl, rfl⟩
        next => rw [callDone_conn, callDone_inserts]; exact ⟨rfl, rfl⟩
    exact ⟨(ih _).1.trans hcall.1, (ih _).2.trans hcall.2⟩

/-- What a step does: a method of the connection runs, `Finish` goes on to the pool, or the
connection stays as it is. -/
inductive StepConn (D : Derived σ) (s : RequestRun σ) (a : RequestAction) (t : RequestRun σ) : Prop
  | runs (o : Outcome) (fs : List RequestFrame) (hconn : ConnStep s a o)
      (hfs : ∀ f ∈ fs, f ∈ s.frames) (ht : { s with frames := fs }.leave D o = some t)
  | inserts (errMsg : String) (fs : List RequestFrame) (hframes : s.frames = .onDone errMsg :: fs)
      (ht : { s with frames := fs }.insert D errMsg = some t)
  | stays (hconn : t.conn = s.conn) (hinserts : t.inserts = s.inserts)
      (hdones : t.dones = s.dones ∨ ∃ now, a = .expire now) (hread : ∀ r, a ≠ .readable r)

theorem step_conn {a : RequestAction} (hstep : s.step D a = some t) : StepConn D s a t := by
  cases a with
  | deliver =>
    obtain ⟨-, ho⟩ := Option.ite_none_right_eq_some.mp hstep
    obtain ⟨o, ho, ht⟩ := Option.bind_eq_some_iff.mp ho
    exact .runs o s.frames (.deliver ho) (fun f hf => hf) ht
  | readable r =>
    obtain ⟨⟨hframes, -⟩, ho⟩ := Option.ite_none_right_eq_some.mp hstep
    obtain ⟨o, ho, ht⟩ := Option.bind_eq_some_iff.mp ho
    exact .runs o s.frames (.readable hframes ho) (fun f hf => hf) ht
  | writable r =>
    obtain ⟨-, ho⟩ := Option.ite_none_right_eq_some.mp hstep
    obtain ⟨⟨o, sent⟩, ho, ht⟩ := Option.bind_eq_some_iff.mp ho
    exact .runs o s.frames (.writable ho) (fun f hf => hf) ht
  | timerDeliver now =>
    obtain ⟨-, ho⟩ := Option.ite_none_right_eq_some.mp hstep
    obtain ⟨t', -, rfl⟩ := Option.map_eq_some_iff.mp ho
    exact .stays rfl rfl (.inl rfl) fun r h => by cases h
  | expire now =>
    obtain ⟨-, ho⟩ := Option.ite_none_right_eq_some.mp hstep
    obtain ⟨⟨t', calls⟩, -, rfl⟩ := Option.map_eq_some_iff.mp ho
    obtain ⟨hconn, hinserts⟩ := foldl_onTimer_conn calls { s with timer := some t' }
    exact .stays hconn hinserts (.inr ⟨now, rfl⟩) fun r h => by cases h
  | resume =>
    rcases resume_cases hstep with ⟨f, fs, o, hframes, ho, ht⟩ | ⟨e, fs, hframes, ht⟩
    · exact .runs o fs (.resume hframes ho)
        (fun g hg => by rw [hframes]; exact List.mem_cons_of_mem _ hg) ht
    · exact .inserts e fs hframes ht
  | destroy =>
    obtain ⟨-, ht⟩ := Option.ite_none_right_eq_some.mp hstep
    cases ht
    rw [destroy_eq]
    exact .stays rfl rfl (.inl rfl) fun r h => by cases h
  | stack finish =>
    cases hstep
    exact .stays rfl rfl (.inl rfl) fun r h => by cases h

/-- What a callback leaves of the connection that it was called by: it pops bytes, and asks for
more. -/
structure LeftBy (c d : TcpConnection) : Prop where
  event : d.event = c.event
  asyncer : d.asyncer = c.asyncer
  readBuffer : c.readBuffer.Ok →
    d.readBuffer.Ok ∧ ∃ popped, c.readBuffer.unread = popped ++ d.readBuffer.unread

theorem LeftBy.of_eq {c d : TcpConnection} (hevent : d.event = c.event)
    (hasyncer : d.asyncer = c.asyncer) (hread : d.readBuffer = c.readBuffer) : LeftBy c d :=
  ⟨hevent, hasyncer, fun hok => ⟨hread ▸ hok, [], by rw [hread]; rfl⟩⟩

end

section

variable {σ : Type} {D : PopDerived σ} {s t : RequestRun σ} {o : Outcome} {errMsg : String}

theorem onRead_left (ht : s.onRead D.toDerived errMsg = some t) :
    LeftBy s.conn t.conn ∧ t.inserts = s.inserts := by
  have hcases := onRead_branches ht
  rw [cancelTimer_eq] at hcases
  rcases hcases with ⟨-, rfl⟩ | ⟨-, errMsg, finish, b, derived, hpop, hcases⟩
  · rw [callDone_conn, callDone_inserts]
    exact ⟨.of_eq rfl rfl rfl, rfl⟩
  · have hleft : LeftBy s.conn { s.conn with readBuffer := b } :=
      ⟨rfl, rfl, fun hok => D.pops hok hpop⟩
    rcases hcases with ⟨-, rfl⟩ | ⟨-, -, rfl⟩
    · rw [callDone_conn, callDone_inserts]
      exact ⟨hleft, rfl⟩
    · exact ⟨hleft, rfl⟩

theorem onWrite_left (ht : s.onWrite D.toDerived errMsg = some t) :
    LeftBy s.conn t.conn ∧ t.inserts = s.inserts := by
  rcases onWrite_branches ht with ⟨-, rfl⟩ | ⟨-, -, rfl⟩ | ⟨-, -, hread⟩
  · rw [callDone_conn, callDone_inserts]
    exact ⟨.of_eq rfl rfl rfl, rfl⟩
  · exact ⟨.of_eq rfl rfl rfl, rfl⟩
  · obtain ⟨hleft, hinserts⟩ := onRead_left hread
    exact ⟨⟨hleft.event, hleft.asyncer, hleft.readBuffer⟩, hinserts⟩

/-- Control leaves the connection, and comes back with it as a callback leaves it. -/
theorem leave_left (ht : s.leave D.toDerived o = some t) :
    LeftBy o.conn t.conn ∧ t.inserts = s.inserts := by
  obtain ⟨c, _ | ⟨call, f⟩⟩ := o
  · cases ht
    exact ⟨.of_eq rfl rfl rfl, rfl⟩
  · cases call with
    | read h e => exact onRead_left (s := { s with conn := c, frames := .conn f :: s.frames }) ht
    | write h e => exact onWrite_left (s := { s with conn := c, frames := .conn f :: s.frames }) ht
    | finish e =>
      cases ht
      exact ⟨.of_eq rfl rfl rfl, rfl⟩

end

/-! ## Where the bytes are -/

/-- The bytes that a step brings into the read buffer. -/
def RequestAction.bytes : RequestAction → List UInt8
  | .readable (.bytes bs) => bs
  | _ => []

/-- A step of an exchange: bytes arrive, or the request makes the step `b`, which leaves `socket` in
the queue of the kernel. -/
inductive ExchangeStep {σ : Type} (D : Derived σ) (e : Exchange σ) (a : ExchangeAction)
    (e' : Exchange σ) : Prop
  | arrives (bs : List UInt8) (ha : a = .arrive bs)
      (he : e' = { e with socket := e.socket ++ bs, arrived := e.arrived ++ bs })
  | runs (b : RequestAction) (t : RequestRun σ) (socket : List UInt8)
      (hb : e.request.step D b = some t) (hsocket : e.socket = b.bytes ++ socket)
      (ha : a = .request b ∧ b.Offered e.socket ∨
        ∃ n bs, a = .read n ∧ b = .readable (.bytes bs) ∧ bs ≠ [])
      (he : e' = { e with
        request := t
        socket := socket
        popped := e.popped ++ Exchange.taken (e.request.conn.readBuffer.unread ++ b.bytes) t })

/-- Bytes come by `ExchangeAction.read` only. -/
theorem RequestAction.Offered.bytes {socket : List UInt8} {a : RequestAction}
    (h : a.Offered socket) : a.bytes = [] := by
  cases a with
  | readable r =>
    cases r with
    | bytes bs => exact h.1
    | eagain | error e => rfl
  | _ => rfl

theorem exchange_step {σ : Type} {D : Derived σ} {e e' : Exchange σ} {a : ExchangeAction}
    (hstep : e.step D a = some e') : e.request.inserts = [] ∧ ExchangeStep D e a e' := by
  unfold Exchange.step at hstep
  split at hstep
  next => cases hstep
  next hopen =>
    refine ⟨by simpa using hopen, ?_⟩
    cases a with
    | arrive bs => exact .arrives bs rfl (Option.some.inj hstep).symm
    | read n =>
      obtain ⟨⟨hpos, -, hle⟩, hstep⟩ := Option.ite_none_right_eq_some.mp hstep
      obtain ⟨r, hr, rfl⟩ := Option.map_eq_some_iff.mp hstep
      refine .runs _ r (e.socket.drop n) hr (List.take_append_drop n e.socket).symm
        (.inr ⟨n, _, rfl, rfl, ?_⟩) rfl
      exact List.ne_nil_of_length_pos (by rw [List.length_take]; omega)
    | request b =>
      obtain ⟨hoffered, hstep⟩ := Option.ite_none_right_eq_some.mp hstep
      obtain ⟨r, hr, rfl⟩ := Option.map_eq_some_iff.mp hstep
      have hnone := hoffered.bytes
      refine .runs b r e.socket hr (by rw [hnone]; rfl) (.inl ⟨rfl, hoffered⟩) ?_
      rw [hnone, List.append_nil]

section

variable {σ : Type} {s t : RequestRun σ} {o : Outcome}

theorem finishWrite_readBuffer (errMsg : String) (c : TcpConnection) :
    (c.finishWrite errMsg).conn.readBuffer = c.readBuffer := by
  unfold finishWrite
  split <;> rfl

theorem finish_readBuffer (errMsg : String) (c : TcpConnection) :
    (c.finish errMsg).conn.readBuffer = c.readBuffer := by
  unfold TcpConnection.finish
  split
  next => rfl
  next =>
    unfold finishCancel
    split
    next => rfl
    next => rw [finishWrite_readBuffer]
    next => rw [finishWrite_readBuffer]

theorem readFailed_readBuffer (errMsg : String) (c : TcpConnection) :
    (c.readFailed errMsg).conn.readBuffer = c.readBuffer := by
  unfold readFailed
  split
  next => rfl
  next => exact finish_readBuffer errMsg c

theorem readDone_readBuffer (c : TcpConnection) : c.readDone.conn.readBuffer = c.readBuffer := by
  rcases readDone_cases c with ⟨h, -, -, hdone⟩ | ⟨-, hdone⟩
  · rw [hdone]; rfl
  · rw [hdone]; rfl

theorem read_bytes (r : SysRead) :
    (Socket.read r).2.2 = RequestAction.bytes (.readable r) := by
  cases r <;> rfl

theorem resume_readBuffer {f : Frame} {c : TcpConnection} (ho : f.resume c = some o) :
    o.conn.readBuffer = c.readBuffer := by
  cases f with
  | done => cases ho; rfl
  | callFinish e => cases ho; exact finish_readBuffer e c
  | finishCanceled e => cases ho; exact finishWrite_readBuffer e c
  | finishWritten e => cases ho; rfl
  | asyncDo h => rcases asyncDo_cases ho with ⟨-, rfl⟩ | rfl <;> rfl

theorem writeHandler_readBuffer {c : TcpConnection} {r : SysResult} {sent : List UInt8}
    (ho : c.writeHandler r = some (o, sent)) : o.conn.readBuffer = c.readBuffer := by
  rcases writeHandler_outcome ho with ⟨h, e, -, -, rfl⟩ | ⟨h, b, e, -, -, rfl⟩ | ⟨b, rfl⟩ <;> rfl

/-- A method of the connection puts the bytes read behind the unread ones, and takes none. -/
theorem ConnStep.readBuffer {a : RequestAction} (h : ConnStep s a o) (hok : s.conn.readBuffer.Ok) :
    o.conn.readBuffer.Ok ∧
      o.conn.readBuffer.unread = s.conn.readBuffer.unread ++ a.bytes := by
  have hsame : ∀ {b : Buffer}, b = s.conn.readBuffer → a.bytes = [] →
      b.Ok ∧ b.unread = s.conn.readBuffer.unread ++ a.bytes := by
    rintro b rfl ha
    rw [ha, List.append_nil]
    exact ⟨hok, rfl⟩
  cases h with
  | deliver ho =>
    rcases deliver_cases ho with ⟨h, e, -, -, rfl⟩ | ⟨h, -, rfl⟩ <;> exact hsame rfl rfl
  | @readable r _ _ ho =>
    rcases readHandler_cases ho with ⟨rfl, rfl⟩ | ⟨-, hnone, e, -, rfl⟩ | ⟨-, b, hb, rfl⟩
    · exact hsame rfl rfl
    · exact hsame (readFailed_readBuffer e s.conn) (by rw [← read_bytes]; exact hnone)
    · rw [read_bytes] at hb
      rw [readDone_readBuffer]
      exact Buffer.write_spec hok hb
  | writable ho => exact hsame (writeHandler_readBuffer ho) rfl
  | resume hframes ho => exact hsame (resume_readBuffer ho) rfl

end

section

variable {σ : Type} {D : PopDerived σ} {s t : RequestRun σ}

/-- What a step leaves of the unread bytes, as long as the connection is not given back. -/
theorem step_readBuffer {a : RequestAction} (hstep : s.step D.toDerived a = some t)
    (hins : t.inserts = s.inserts) (hok : s.conn.readBuffer.Ok) :
    t.conn.readBuffer.Ok ∧
      ∃ popped, s.conn.readBuffer.unread ++ a.bytes = popped ++ t.conn.readBuffer.unread := by
  cases step_conn hstep with
  | runs o fs hconn hfs ht =>
    obtain ⟨hok', hunread⟩ := hconn.readBuffer hok
    rw [← hunread]
    exact (leave_left ht).1.readBuffer hok'
  | inserts e fs hframes ht =>
    have hmore : t.inserts = e :: s.inserts := by
      unfold RequestRun.insert at ht
      split at ht
      next => exact (leave_left ht).2
      next => cases ht; rfl
    rw [hins] at hmore
    exact absurd hmore.symm (List.cons_ne_self e s.inserts)
  | stays hconn hinserts hdones ha =>
    have hnone : a.bytes = [] := by
      cases a with
      | readable r => exact absurd rfl (ha r)
      | _ => rfl
    rw [hconn, hnone, List.append_nil]
    exact ⟨hok, [], rfl⟩

/-- `stale`: what was unread when the request got the connection. -/
structure Exchange.Accounts (stale : List UInt8) (e : Exchange σ) : Prop where
  popped : e.popped <+: stale ++ e.arrived
  held : e.request.inserts = [] → e.request.conn.readBuffer.Ok ∧
    e.popped ++ e.request.conn.readBuffer.unread ++ e.socket = stale ++ e.arrived

theorem Exchange.taken_eq {before : List UInt8} {popped : List UInt8} (hins : t.inserts = [])
    (h : before = popped ++ t.conn.readBuffer.unread) : Exchange.taken before t = popped := by
  rw [Exchange.taken, if_pos hins, h, List.length_append, Nat.add_sub_cancel, List.take_left]

/-- One step of the request: the bytes it takes come from the front of what was unread. -/
theorem Exchange.Accounts.step_request {stale socket : List UInt8} {e : Exchange σ}
    {a : RequestAction} (he : e.Accounts stale) (hopen : e.request.inserts = [])
    (hstep : e.request.step D.toDerived a = some t) (hsocket : e.socket = a.bytes ++ socket) :
    Exchange.Accounts stale { e with
      request := t
      socket := socket
      popped := e.popped ++ taken (e.request.conn.readBuffer.unread ++ a.bytes) t } := by
  obtain ⟨hok, hall⟩ := he.held hopen
  rw [hsocket] at hall
  by_cases hins : t.inserts = []
  · obtain ⟨hok', popped, hpop⟩ := step_readBuffer hstep (hins.trans hopen.symm) hok
    have hsum : e.popped ++ popped ++ t.conn.readBuffer.unread ++ socket = stale ++ e.arrived := by
      rw [← hall, List.append_assoc e.popped popped, ← hpop]
      simp only [List.append_assoc]
    simp only [taken_eq hins hpop]
    exact ⟨⟨t.conn.readBuffer.unread ++ socket, by rw [← hsum]; simp only [List.append_assoc]⟩,
      fun _ => ⟨hok', hsum⟩⟩
  · rw [Exchange.taken, if_neg hins, List.append_nil]
    exact ⟨he.popped, fun hc => absurd hc hins⟩

theorem Exchange.Accounts.step {stale : List UInt8} {e e' : Exchange σ} {a : ExchangeAction}
    (he : e.Accounts stale) (hstep : e.step D.toDerived a = some e') : e'.Accounts stale := by
  obtain ⟨hopen, hcases⟩ := exchange_step hstep
  cases hcases with
  | arrives bs ha heq =>
    subst heq
    obtain ⟨rest, hrest⟩ := he.popped
    refine ⟨⟨rest ++ bs, ?_⟩, fun hins => ⟨(he.held hins).1, ?_⟩⟩
    · show e.popped ++ (rest ++ bs) = stale ++ (e.arrived ++ bs)
      rw [← List.append_assoc, hrest, List.append_assoc]
    · show _ ++ (e.socket ++ bs) = stale ++ (e.arrived ++ bs)
      rw [← List.append_assoc, (he.held hins).2, List.append_assoc]
  | runs b t socket hb hsocket ha heq =>
    subst heq
    exact he.step_request hopen hb hsocket

/-- The bytes that the callbacks pop are those that were unread at the start and then those that
have arrived since, in their order. -/
theorem accounts_of_run {r : RequestRun σ} {socket : List UInt8} {as : List ExchangeAction}
    {e : Exchange σ} (hok : r.conn.readBuffer.Ok)
    (hrun : (exchange D.toDerived (.start r socket)).run (.start r socket) as = some e) :
    e.Accounts (r.conn.readBuffer.unread ++ socket) := by
  have hstart : (Exchange.start r socket).Accounts (r.conn.readBuffer.unread ++ socket) :=
    ⟨⟨_, rfl⟩, fun _ => ⟨hok, by simp [Exchange.start]⟩⟩
  exact (System.reachable_of_run hrun).invariant hstart fun _ _ _ he _ hstep => he.step hstep

end

/-! ## `HttpClient` -/

namespace HttpClient

variable {http : HttpParser}

theorem popLoop_pops {fuel : Nat} {finish : Bool} {parser : RespParser http} {b : Buffer}
    {r : String × Bool × Buffer × RespParser http} (hok : b.Ok)
    (hr : popLoop fuel finish parser b = some r) :
    r.2.2.1.Ok ∧ ∃ popped, b.unread = popped ++ r.2.2.1.unread := by
  induction fuel generalizing finish parser b with
  | zero => cases hr
  | succ fuel ih =>
    obtain ⟨⟨len, tmp, b'⟩, hpop, hr⟩ := Option.bind_eq_some_iff.mp hr
    have hround := Buffer.popHead_popped hok (by decide) hpop
    simp only at hr
    split at hr
    next => cases hr; exact ⟨hround.ok, tmp, hround.pieces.symm⟩
    next =>
      generalize parser.feed "" tmp = res at hr
      obtain ⟨errMsg, finished, parser'⟩ := res
      simp only at hr
      split at hr
      next => cases hr; exact ⟨hround.ok, tmp, hround.pieces.symm⟩
      next =>
        obtain ⟨hok'', popped, hrest⟩ := ih hround.ok hr
        exact ⟨hok'', tmp ++ popped, by rw [List.append_assoc, ← hrest, hround.pieces]⟩

/-- `RespPop` pops. -/
def popDerived (http : HttpParser) : PopDerived (HttpClient http) where
  toDerived := derived http
  pops hok hr := by
    obtain ⟨⟨errMsg, finish, b, parser⟩, hloop, rfl⟩ := Option.map_eq_some_iff.mp hr
    exact popLoop_pops hok hloop

end HttpClient

end Sheep
