import Sheep.Net.Buffer

/-!
# `TcpConnection`

The connection object (`net/common/tcp/tcp_connection.cpp`) with its two buffers, its socket
event, the `Asyncer` behind `AsyncWrite` and the three user handlers.

A method may call a user handler before it is done, and that handler may call the connection
again. So a method returns an `Outcome`: the connection as it is when control leaves the method,
and, if it left to call a handler, the call with the `Frame` that resumes the method once the
handler has returned. `Frame.resume` takes the connection as the handler left it.

`none` is a step the C++ program has no defined behaviour for, or leaves by an exception: a null
`event_` used, an empty `std::function` called, the `std::length_error` of a buffer.
-/

namespace Sheep

/-- The identity of a `std::function` the user passed in. -/
abbrev Handler := Nat

/-- What `::write` returned: a byte count, or `-1` with an `errno` (its `strerror` text). -/
inductive SysResult
  | count (n : Nat)
  | eagain
  | error (strerror : String)
  deriving DecidableEq, Repr

/-- What `::read` returned: bytes (none of them at the end of the stream), or `-1`. -/
inductive SysRead
  | bytes (bs : List UInt8)
  | eagain
  | error (strerror : String)
  deriving DecidableEq, Repr

namespace Socket

def formatErrMsg (option result : String) : String :=
  "call sys " ++ option ++ " failed: " ++ result

/-- `Socket::Read`: `errMsg`, the result and the bytes copied. -/
def read : SysRead → String × Int × List UInt8
  | .bytes bs => ("", bs.length, bs)
  | .eagain => ("", -1, [])
  | .error e => (formatErrMsg "read" e, -1, [])

/-- `Socket::Write`: `errMsg`, the result and the bytes the kernel took. The source names the
option `"read"` here as well. -/
def write (buf : List UInt8) : SysResult → String × Int × List UInt8
  | .count n => ("", n, buf.take n)
  | .eagain => ("", -1, [])
  | .error e => (formatErrMsg "read" e, -1, [])

end Socket

/-- The conversion of a signed result to `uint64_t`. -/
def toUInt64 (n : Int) : UInt64 := UInt64.ofNat (n % 2 ^ 64).toNat

/-- The notify flags of the connection's `Event`. -/
structure Event where
  readNotify : Bool
  writeNotify : Bool
  deriving DecidableEq, Repr

/-- The `Asyncer` of one `AsyncWrite`. `handler` is `none` until `AsyncDo`. -/
structure Asyncer where
  handler : Option Handler
  readNotify : Bool
  done : Bool
  deriving DecidableEq, Repr

structure TcpConnection where
  readBuffer : Buffer
  writeBuffer : Buffer
  expectSize : UInt64
  readedSize : UInt64
  anyFlag : Bool
  finished : Bool
  userReadHandler : Option Handler
  writeDone : Bool
  userWriteHandler : Option Handler
  event : Option Event
  asyncer : Option Asyncer
  deriving DecidableEq, Repr

/-- A handler the connection calls, with the `errMsg` it passes. -/
inductive Call
  | read (h : Handler) (errMsg : String)
  | write (h : Handler) (errMsg : String)
  | finish (errMsg : String)
  deriving DecidableEq, Repr

/-- Where a method goes on when the handler it called has returned. -/
inductive Frame
  | done
  | callFinish (errMsg : String)
  | finishCanceled (errMsg : String)
  | finishWritten (errMsg : String)
  | asyncDo (h : Handler)
  deriving DecidableEq, Repr

structure Outcome where
  conn : TcpConnection
  pending : Option (Call × Frame)
  deriving DecidableEq, Repr

namespace TcpConnection

/-- A connection handed over by the connector: `InitConnected` has enabled the read event. -/
def connected : TcpConnection where
  readBuffer := .new
  writeBuffer := .new
  expectSize := 0
  readedSize := 0
  anyFlag := false
  finished := false
  userReadHandler := none
  writeDone := false
  userWriteHandler := none
  event := some ⟨true, false⟩
  asyncer := none

def return_ (c : TcpConnection) : Outcome := ⟨c, none⟩

def resetRead (c : TcpConnection) : TcpConnection :=
  { c with expectSize := 0, readedSize := 0 }

/-- `Reset`: what `ClientPool::Insert` does to a connection it takes back. It clears
`finished_`, and leaves `event_` and `asyncer_` alone. -/
def reset (c : TcpConnection) : TcpConnection :=
  resetRead { c with
    finished := false
    userReadHandler := none
    writeDone := false
    userWriteHandler := none
    anyFlag := false
    readBuffer := .reset
    writeBuffer := .reset }

def writeBufferPush (buf : List UInt8) (c : TcpConnection) : Option TcpConnection :=
  (c.writeBuffer.push buf).map fun b => { c with writeBuffer := b }

def readBufferPopHead (len : UInt64) (c : TcpConnection) :
    Option (UInt64 × List UInt8 × TcpConnection) :=
  (c.readBuffer.popHead len).map fun (n, bytes, b) => (n, bytes, { c with readBuffer := b })

/-! ## `Finish` -/

/-- The end of `Finish`: `event_` is dropped and the finish handler runs. -/
def finishTail (errMsg : String) (c : TcpConnection) : Outcome :=
  ⟨{ c with event := none }, some (.finish errMsg, .done)⟩

/-- `Finish` after `asyncer_->Cancel()`: an unfinished write gets its handler called. -/
def finishWrite (errMsg : String) (c : TcpConnection) : Outcome :=
  match c.writeDone, c.userWriteHandler with
  | false, some h =>
    ⟨{ c with writeDone := true }, some (.write h "Finished", .finishWritten errMsg)⟩
  | _, _ => finishTail errMsg c

/-- `Finish` from `asyncer_->Cancel()` on. `Cancel` calls the handler of an `AsyncWrite` that the
loop has not delivered yet. -/
def finishCancel (errMsg : String) (c : TcpConnection) : Outcome :=
  match c.asyncer with
  | some ⟨some h, _, false⟩ =>
    ⟨{ c with asyncer := some ⟨some h, false, true⟩ },
      some (.write h "Asyncer Canceled", .finishCanceled errMsg)⟩
  | some ⟨some h, _, true⟩ => finishWrite errMsg { c with asyncer := some ⟨some h, false, true⟩ }
  | _ => finishWrite errMsg c

/-- `Finish`: a no-op on a finished connection. -/
def finish (errMsg : String) (c : TcpConnection) : Outcome :=
  if c.finished then return_ c else finishCancel errMsg { c with finished := true }

/-! ## Reading -/

def asyncRead (expectSize : UInt64) (h : Handler) (c : TcpConnection) : Outcome :=
  if expectSize ≤ c.readedSize then
    ⟨resetRead { c with anyFlag := false }, some (.read h "", .done)⟩
  else
    return_ { c with anyFlag := false, expectSize := expectSize, userReadHandler := some h }

def asyncReadAny (h : Handler) (c : TcpConnection) : Outcome :=
  if c.readedSize ≠ 0 then
    ⟨resetRead { c with anyFlag := true, userReadHandler := some h }, some (.read h "", .done)⟩
  else return_ { c with anyFlag := true, userReadHandler := some h }

/-- `readHandler` on an error or at the end of the stream: the read handler, then `Finish`. -/
def readFailed (errMsg : String) (c : TcpConnection) : Outcome :=
  match c.userReadHandler with
  | some h => ⟨c.resetRead, some (.read h errMsg, .callFinish errMsg)⟩
  | none => finish errMsg c

/-- `readHandler` once the bytes are in the buffer. -/
def readDone (c : TcpConnection) : Outcome :=
  match c.userReadHandler with
  | some h =>
    if c.anyFlag ∨ c.expectSize ≤ c.readedSize then ⟨c.resetRead, some (.read h "", .done)⟩
    else return_ c
  | none => return_ c

/-- The `errMsg` of `readHandler`: a count of zero is the end of the stream. -/
def readErrMsg (errMsg : String) (count : Int) : String :=
  if count = 0 then "Finished" else errMsg

/-- `readHandler`: the event callback of a readable socket. -/
def readHandler (r : SysRead) (c : TcpConnection) : Option Outcome :=
  match Socket.read r with
  | (errMsg, count, buf) =>
    if readErrMsg errMsg count ≠ "" then some (readFailed (readErrMsg errMsg count) c)
    else if count < 0 then some (return_ c)
    else
      (c.readBuffer.write buf).map fun b =>
        readDone { c with readBuffer := b, readedSize := c.readedSize + toUInt64 count }

/-! ## Writing -/

/-- `asyncer_->AsyncDo`: a fresh asyncer takes the handler and waits for the loop, a used one
calls the new handler with an error. -/
def asyncDo (h : Handler) (c : TcpConnection) : Option Outcome :=
  match c.asyncer with
  | some ⟨none, _, _⟩ => some (return_ { c with asyncer := some ⟨some h, true, false⟩ })
  | some _ => some ⟨c, some (.write h "Asyncer can't reuse", .done)⟩
  | none => none

/-- `AsyncWrite`: the new `Asyncer` replaces the old one, whose destructor calls the handler it
still owes. -/
def asyncWrite (h : Handler) (c : TcpConnection) : Option Outcome :=
  if c.finished then some ⟨c, some (.write h "Finished", .done)⟩
  else if c.event.isNone then none
  else
    let fresh := { c with asyncer := some ⟨none, false, false⟩ }
    match c.asyncer with
    | some ⟨some old, _, false⟩ => some ⟨fresh, some (.write old "Asyncer Canceled", .asyncDo h)⟩
    | _ => asyncDo h fresh

/-- The event callback of the `Asyncer`, with the handler that `AsyncWrite` gave it: it hands the
user handler over and registers the write event. -/
def deliver (c : TcpConnection) : Option Outcome :=
  match c.asyncer with
  | some ⟨some h, true, false⟩ =>
    c.event.map fun e => return_ { c with
      asyncer := some ⟨some h, false, true⟩
      userWriteHandler := some h
      event := some { e with writeNotify := true } }
  | some ⟨some h, true, true⟩ => some (return_ { c with asyncer := some ⟨some h, false, true⟩ })
  | _ => none

/-- `writeHandler`: the event callback of a writable socket. `r` is what `::write` returns, where
it is called. The second component are the bytes the kernel took.

The read index moves by the raw result of `Socket::Write`, before the result is looked at. -/
def writeHandler (r : SysResult) (c : TcpConnection) : Option (Outcome × List UInt8) := do
  let (count, buf) ← c.writeBuffer.read 1024
  if count = 0 then
    let e ← c.event
    let h ← c.userWriteHandler
    return (⟨{ c with writeDone := true, event := some { e with writeNotify := false } },
      some (.write h "", .done)⟩, [])
  else
    let (errMsg, count, sent) := Socket.write buf r
    let c := { c with writeBuffer := c.writeBuffer.updateReadIndex (toUInt64 count) }
    if errMsg ≠ "" then
      let h ← c.userWriteHandler
      return (⟨{ c with writeDone := true }, some (.write h errMsg, .callFinish errMsg)⟩, sent)
    else return (return_ c, sent)

end TcpConnection

/-- The rest of a method, once the handler it called has returned. -/
def Frame.resume (c : TcpConnection) : Frame → Option Outcome
  | .done => some (c.return_)
  | .callFinish errMsg => some (c.finish errMsg)
  | .finishCanceled errMsg => some (c.finishWrite errMsg)
  | .finishWritten errMsg => some (c.finishTail errMsg)
  | .asyncDo h => c.asyncDo h

/-- `Finish` has the asyncer canceled, and has still to look at `userWriteHandler_`. -/
def Frame.isFinishCanceled : Frame → Bool
  | .finishCanceled _ => true
  | _ => false

/-- `Finish` has called every handler, and has still to drop `event_`. -/
def Frame.isFinishWritten : Frame → Bool
  | .finishWritten _ => true
  | _ => false

/-- `readHandler` or `writeHandler` has called a handler with an error. -/
def Frame.isCallFinish : Frame → Bool
  | .callFinish _ => true
  | _ => false

namespace TcpConnection

/-- The handler of an `AsyncWrite` that waits for the loop. -/
def undelivered (c : TcpConnection) : Option Handler :=
  match c.asyncer with
  | some ⟨some h, _, false⟩ => some h
  | _ => none

@[simp] theorem undelivered_new (c : TcpConnection) (r d : Bool) :
    undelivered { c with asyncer := some ⟨none, r, d⟩ } = none := rfl

@[simp] theorem undelivered_waits (c : TcpConnection) (h : Handler) (r : Bool) :
    undelivered { c with asyncer := some ⟨some h, r, false⟩ } = some h := rfl

/-- A writable event would be dispatched. -/
def writeNotify (c : TcpConnection) : Bool := c.event.any (·.writeNotify)

/-- An event that is dispatched is there. -/
theorem event_ne_none {c : TcpConnection} {notify : Event → Bool} (h : c.event.any notify = true) :
    c.event ≠ none :=
  Option.isSome_iff_ne_none.mp (Option.isSome_of_any h)

/-! ## What the methods do -/

variable {c : TcpConnection} {h : Handler} {o : Outcome} {errMsg : String}

/-- `readHandler` on a chunk. -/
theorem readHandler_bytes {buf : List UInt8} (hbuf : 1 ≤ buf.length)
    (c : TcpConnection) : c.readHandler (.bytes buf) = (c.readBuffer.write buf).map fun b =>
      readDone { c with readBuffer := b, readedSize := c.readedSize + toUInt64 buf.length } := by
  have hne : buf ≠ [] := List.ne_nil_of_length_pos hbuf
  have hneg : ¬ (buf.length : Int) < 0 := by omega
  simp [readHandler, Socket.read, readErrMsg, hne, hneg]

/-- `readDone` calls the handler that is kept, or returns. -/
theorem readDone_cases (c : TcpConnection) :
    (∃ h, c.userReadHandler = some h ∧ (c.anyFlag = true ∨ c.expectSize ≤ c.readedSize) ∧
      c.readDone = ⟨c.resetRead, some (.read h "", .done)⟩) ∨
    ((∀ h, c.userReadHandler = some h → c.anyFlag = false ∧ ¬ c.expectSize ≤ c.readedSize) ∧
      c.readDone = c.return_) := by
  unfold readDone
  split
  next h hkept =>
    split
    next hdo => exact .inl ⟨h, hkept, hdo, rfl⟩
    next hdo =>
      refine .inr ⟨fun _ _ => ?_, rfl⟩
      simpa using hdo
  next hkept => exact .inr ⟨fun h hh => absurd (hkept ▸ hh) nofun, rfl⟩

/-- `AsyncReadAny` is done with any bytes. -/
theorem readDone_any {b : Buffer} {n : UInt64} (hread : c.userReadHandler = some h)
    (hany : c.anyFlag = true) :
    readDone { c with readBuffer := b, readedSize := n } =
      ⟨resetRead { c with readBuffer := b, readedSize := n }, some (.read h "", .done)⟩ := by
  simp [readDone, hread, hany]

/-- `readHandler` on an error. -/
theorem readHandler_error (strerror : String) (c : TcpConnection) :
    c.readHandler (.error strerror) =
      some (c.readFailed (Socket.formatErrMsg "read" strerror)) := by
  have hne : Socket.formatErrMsg "read" strerror ≠ "" := by simp [Socket.formatErrMsg]
  simp [readHandler, Socket.read, readErrMsg, hne]

/-- `readHandler` at the end of the stream. -/
theorem readHandler_eof (c : TcpConnection) :
    c.readHandler (.bytes []) = some (c.readFailed "Finished") := rfl

/-- `readHandler`: nothing to read, a failure, or bytes in the buffer. -/
theorem readHandler_cases {r : SysRead} (ho : c.readHandler r = some o) :
    (r = .eagain ∧ o = c.return_) ∨
    (r ≠ .eagain ∧ (Socket.read r).2.2 = [] ∧ ∃ e, e ≠ "" ∧ o = c.readFailed e) ∨
    (r ≠ .eagain ∧ ∃ b, c.readBuffer.write (Socket.read r).2.2 = some b ∧ o = readDone { c with
      readBuffer := b, readedSize := c.readedSize + toUInt64 (Socket.read r).2.2.length }) := by
  cases r with
  | eagain =>
    cases ho
    exact .inl ⟨rfl, rfl⟩
  | error strerror =>
    rw [readHandler_error] at ho
    cases ho
    exact .inr (.inl ⟨nofun, rfl, _, by simp [Socket.formatErrMsg], rfl⟩)
  | bytes bs =>
    cases bs with
    | nil =>
      rw [readHandler_eof] at ho
      cases ho
      exact .inr (.inl ⟨nofun, rfl, "Finished", by decide, rfl⟩)
    | cons b bs =>
      rw [readHandler_bytes (List.length_pos_of_ne_nil (List.cons_ne_nil b bs))] at ho
      obtain ⟨w, hw, rfl⟩ := Option.map_eq_some_iff.mp ho
      exact .inr (.inr ⟨nofun, w, hw, rfl⟩)

theorem asyncDo_cases (ho : c.asyncDo h = some o) :
    (c.undelivered = none ∧
      o = return_ { c with asyncer := some ⟨some h, true, false⟩ }) ∨
    o = ⟨c, some (.write h "Asyncer can't reuse", .done)⟩ := by
  unfold asyncDo at ho
  split at ho
  next hasyncer =>
    cases ho
    refine .inl ⟨?_, rfl⟩
    unfold undelivered
    rw [hasyncer]
  next => cases ho; exact .inr rfl
  next => cases ho

theorem asyncWrite_cases (ho : c.asyncWrite h = some o) :
    (c.finished = true ∧ o = ⟨c, some (.write h "Finished", .done)⟩) ∨
    (c.finished = false ∧ ∃ old, c.undelivered = some old ∧
      o = ⟨{ c with asyncer := some ⟨none, false, false⟩ },
        some (.write old "Asyncer Canceled", .asyncDo h)⟩) ∨
    (c.finished = false ∧ c.undelivered = none ∧
      o = return_ { c with asyncer := some ⟨some h, true, false⟩ }) := by
  unfold asyncWrite at ho
  split at ho
  next hfin => cases ho; exact .inl ⟨hfin, rfl⟩
  next hfin =>
    have hfin' : c.finished = false := by simpa using hfin
    split at ho
    next => cases ho
    next =>
      split at ho
      next old notify hasyncer =>
        cases ho
        refine .inr (.inl ⟨hfin', old, ?_, rfl⟩)
        unfold undelivered
        rw [hasyncer]
      next hno =>
        cases ho
        refine .inr (.inr ⟨hfin', ?_, rfl⟩)
        unfold undelivered
        split
        next old notify hasyncer => exact absurd hasyncer (hno old notify)
        next => rfl

theorem deliver_cases (ho : c.deliver = some o) :
    (∃ h e, c.undelivered = some h ∧ c.event = some e ∧ o = return_ { c with
      asyncer := some ⟨some h, false, true⟩
      userWriteHandler := some h
      event := some { e with writeNotify := true } }) ∨
    (∃ h, c.undelivered = none ∧
      o = return_ { c with asyncer := some ⟨some h, false, true⟩ }) := by
  unfold deliver at ho
  split at ho
  next h hasyncer =>
    obtain ⟨e, he, rfl⟩ := Option.map_eq_some_iff.mp ho
    refine .inl ⟨h, e, ?_, he, rfl⟩
    unfold undelivered
    rw [hasyncer]
  next h hasyncer =>
    cases ho
    refine .inr ⟨h, ?_, rfl⟩
    unfold undelivered
    rw [hasyncer]
  next => cases ho

theorem finishWrite_cases (errMsg : String) (c : TcpConnection) :
    (∃ h, c.writeDone = false ∧ c.userWriteHandler = some h ∧ c.finishWrite errMsg =
      ⟨{ c with writeDone := true }, some (.write h "Finished", .finishWritten errMsg)⟩) ∨
    ((c.writeDone = false → c.userWriteHandler = none) ∧
      c.finishWrite errMsg = c.finishTail errMsg) := by
  unfold finishWrite
  split
  next h hdone hh => exact .inl ⟨h, hdone, hh, rfl⟩
  next hno =>
    refine .inr ⟨fun hdone => ?_, rfl⟩
    cases hh : c.userWriteHandler with
    | none => rfl
    | some h => exact absurd hh (hno h hdone)

/-- `Finish` on a connection that is not finished. -/
theorem finish_cases (errMsg : String) (hfin : c.finished = false) :
    (∃ h, c.undelivered = some h ∧ c.finish errMsg =
      ⟨{ c with finished := true, asyncer := some ⟨some h, false, true⟩ },
        some (.write h "Asyncer Canceled", .finishCanceled errMsg)⟩) ∨
    (∃ a : Option Asyncer, c.undelivered = none ∧ undelivered { c with asyncer := a } = none ∧
      c.finish errMsg = finishWrite errMsg { c with finished := true, asyncer := a }) := by
  unfold finish finishCancel
  rw [hfin, if_neg nofun]
  split
  next h notify hasyncer =>
    refine .inl ⟨h, ?_, rfl⟩
    have hc : c.asyncer = some ⟨some h, notify, false⟩ := hasyncer
    unfold undelivered
    rw [hc]
  next h notify hasyncer =>
    have hc : c.asyncer = some ⟨some h, notify, true⟩ := hasyncer
    refine .inr ⟨_, ?_, rfl, rfl⟩
    unfold undelivered
    rw [hc]
  next hno _ =>
    have hnone : c.undelivered = none := by
      unfold undelivered
      split
      next h notify hasyncer => exact absurd hasyncer (hno h notify)
      next => rfl
    exact .inr ⟨_, hnone, hnone, rfl⟩

theorem finish_finished (errMsg : String) (hfin : c.finished = true) :
    c.finish errMsg = c.return_ := by
  unfold finish
  rw [hfin, if_pos rfl]

/-- `writeHandler` with an empty buffer: the write is over. -/
theorem writeHandler_empty {r : SysResult} {sent : List UInt8}
    (hempty : c.writeBuffer.readIndex = c.writeBuffer.writeIndex)
    (ho : c.writeHandler r = some (o, sent)) :
    ∃ h e, c.userWriteHandler = some h ∧ c.event = some e ∧
      o = ⟨{ c with writeDone := true, event := some { e with writeNotify := false } },
        some (.write h "", .done)⟩ := by
  unfold writeHandler at ho
  obtain ⟨⟨count, buf⟩, hread, ho⟩ := Option.bind_eq_some_iff.mp ho
  rw [Buffer.read, if_pos hempty] at hread
  cases hread
  obtain ⟨e, he, ho⟩ := Option.bind_eq_some_iff.mp ho
  obtain ⟨h, hh, ho⟩ := Option.bind_eq_some_iff.mp ho
  cases ho
  exact ⟨h, e, hh, he, rfl⟩

/-- `writeHandler` with bytes in the buffer: failure, or bytes handed to the socket. -/
theorem writeHandler_bytes {r : SysResult} {sent : List UInt8}
    (hne : c.writeBuffer.readIndex ≠ c.writeBuffer.writeIndex)
    (ho : c.writeHandler r = some (o, sent)) :
    (∃ h b errMsg, c.userWriteHandler = some h ∧ errMsg ≠ "" ∧
      o = ⟨{ c with writeBuffer := b, writeDone := true },
        some (.write h errMsg, .callFinish errMsg)⟩) ∨
    (∃ b, o = return_ { c with writeBuffer := b }) := by
  unfold writeHandler at ho
  obtain ⟨⟨count, buf⟩, hread, ho⟩ := Option.bind_eq_some_iff.mp ho
  have hcount : count ≠ 0 := Buffer.read_ne_zero hne (by decide) hread
  simp only [hcount, if_false] at ho
  generalize Socket.write buf r = res at ho
  obtain ⟨errMsg, n, bytes⟩ := res
  simp only at ho
  split at ho
  next herr =>
    obtain ⟨h, hh, ho⟩ := Option.bind_eq_some_iff.mp ho
    cases ho
    exact .inl ⟨h, _, errMsg, hh, herr, rfl⟩
  next =>
    cases ho
    exact .inr ⟨_, rfl⟩

/-- `writeHandler`: success, failure, or bytes handed to the socket. -/
theorem writeHandler_outcome {r : SysResult} {sent : List UInt8}
    (ho : c.writeHandler r = some (o, sent)) :
    (∃ h e, c.userWriteHandler = some h ∧ c.event = some e ∧
      o = ⟨{ c with writeDone := true, event := some { e with writeNotify := false } },
        some (.write h "", .done)⟩) ∨
    (∃ h b errMsg, c.userWriteHandler = some h ∧ errMsg ≠ "" ∧
      o = ⟨{ c with writeBuffer := b, writeDone := true },
        some (.write h errMsg, .callFinish errMsg)⟩) ∨
    (∃ b, o = return_ { c with writeBuffer := b }) := by
  rcases eq_or_ne c.writeBuffer.readIndex c.writeBuffer.writeIndex with hempty | hempty
  · exact .inl (writeHandler_empty hempty ho)
  · exact .inr (writeHandler_bytes hempty ho)

end TcpConnection

end Sheep
