import Sheep.Client.BaseClient
import Sheep.Http.RespParser

/-!
# `HttpClient`

The functions that `HttpClient` (`small_client/http_client.h`) overrides. `RespPop` empties the
read buffer into the response parser, at most 1024 bytes at a time.
-/

namespace Sheep

structure HttpClient (http : HttpParser) where
  /-- what `formarter_.Format()` returns -/
  req : Bytes
  parser : RespParser http

namespace HttpClient

variable {http : HttpParser}

def reqPush (c : HttpClient http) (b : Buffer) : Option (String × Buffer × HttpClient http) :=
  (b.push c.req).map fun b => ("", b, c)

def toText (bytes : Bytes) : String := String.ofList (bytes.map fun b => Char.ofNat b.toNat)

/-- The loop of `RespPop`. -/
def popLoop : Nat → Bool → RespParser http → Buffer →
    Option (String × Bool × Buffer × RespParser http)
  | 0, _, _, _ => none
  | fuel + 1, finish, parser, b =>
    (b.popHead 1024).bind fun (len, tmp, b) =>
      if len = 0 then some ("", finish, b, parser)
      else
        match parser.feed "" tmp with
        | (errMsg, finished, parser) =>
          if errMsg ≠ "" then some (errMsg ++ " with buffer: " ++ toText tmp, finish, b, parser)
          else popLoop fuel finished parser b

/-- `RespPop`: `finish` is set to `false` first. -/
def respPop (c : HttpClient http) (_ : Bool) (b : Buffer) :
    Option (String × Bool × Buffer × HttpClient http) :=
  (popLoop (b.unread.length + 1) false c.parser b).map fun (errMsg, finish, b, parser) =>
    (errMsg, finish, b, { c with parser := parser })

def derived (http : HttpParser) : Derived (HttpClient http) := ⟨reqPush, respPop⟩

def getRespStr (c : HttpClient http) : Bytes := c.parser.getBody

/-- Each round takes bytes off the buffer or is the last. -/
theorem popLoop_isSome {fuel : Nat} {finish : Bool} {parser : RespParser http} {b : Buffer}
    (hb : b.Ok) (hfuel : b.unread.length < fuel) : (popLoop fuel finish parser b).isSome := by
  induction fuel generalizing finish parser b with
  | zero => exact absurd hfuel (Nat.not_lt_zero _)
  | succ fuel ih =>
    obtain ⟨⟨n, tmp, b'⟩, hpop⟩ := Option.isSome_iff_exists.mp
      (@Buffer.popHead_isSome _ 1024 hb (by decide))
    have hround := Buffer.popHead_popped hb (by decide) hpop
    unfold popLoop
    rw [hpop]
    simp only [Option.bind_some]
    rcases eq_or_ne n 0 with hzero | hzero
    · rw [if_pos hzero]
      rfl
    · rw [if_neg hzero]
      generalize parser.feed "" tmp = res
      obtain ⟨errMsg, finished, parser'⟩ := res
      simp only
      split
      next => rfl
      next =>
        refine ih hround.ok ?_
        exact Nat.lt_of_lt_of_le (hround.shorter hzero) (Nat.le_of_lt_succ hfuel)

/-- `RespPop` comes to an end. -/
theorem respPop_isSome (c : HttpClient http) (finish : Bool) {b : Buffer} (hb : b.Ok) :
    (c.respPop finish b).isSome := by
  unfold respPop
  rw [Option.isSome_map]
  exact popLoop_isSome hb (Nat.lt_succ_self _)

end HttpClient

/-- A request with a timeout of 100 ms on a new connection. -/
def pingRequest : RequestRun (HttpClient smallParser) :=
  (RequestRun.doReq (HttpClient.derived smallParser) .new 100 .connected
    ⟨bytes "GET / HTTP/1.1\r\n\r\n", .new smallParser⟩ false).get (by decide +kernel)

theorem doReq_pingRequest : RequestRun.doReq (HttpClient.derived smallParser) .new 100 .connected
    ⟨bytes "GET / HTTP/1.1\r\n\r\n", .new smallParser⟩ false = some pingRequest :=
  (Option.some_get _).symm

end Sheep
