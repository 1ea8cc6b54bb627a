import Sheep.Client.Served
import Sheep.Http.Delimited

/-!
# The response of a request

An HTTP request in a `served` exchange: the parser gets the bytes that the read callback pops.
`answered_iff` says which runs end with `onDone_("")` and the complete body: those of a response
that does not end with the connection, in which nothing fails and the end of the stream is not read
before the write callback has been called. The loop turns the end of the stream into an error, and
the library is never told of it.
-/

namespace Sheep

open RequestRun TcpConnection

/-! ## What `RespPop` makes of it -/

namespace HttpClient

variable {http : HttpParser} {popped : Bytes}

/-- The loop feeds all that is there. -/
theorem popLoop_fed (hdoc : http.Documented) {fuel : Nat} {finish : Bool}
    {parser : RespParser http} {b : Buffer} {r : String × Bool × Buffer × RespParser http}
    (hb : b.Ok) (hfed : Fed popped parser)
    (hok : ∀ xs, xs <+: popped ++ b.unread → http.httpErrno (http.after xs).1 = 0)
    (hfinish : b.unread = [] → finish = parser.finished)
    (hr : popLoop fuel finish parser b = some r) :
    r.1 = "" ∧ r.2.2.1.unread = [] ∧ Fed (popped ++ b.unread) r.2.2.2 ∧
      r.2.1 = r.2.2.2.finished := by
  induction fuel generalizing finish parser b popped with
  | zero => cases hr
  | succ fuel ih =>
    obtain ⟨⟨len, tmp, b'⟩, hpop, hr⟩ := Option.bind_eq_some_iff.mp hr
    have hround := Buffer.popHead_popped hb (by decide) hpop
    have hpieces := hround.pieces
    simp only at hr
    split at hr
    next hzero =>
      -- nothing is left
      have hnil : b.unread = [] := hround.nothing hzero
      cases hr
      rw [hnil] at hpieces ⊢
      rw [List.append_nil]
      exact ⟨rfl, (List.append_eq_nil_iff.mp hpieces).2, hfed, hfinish hnil⟩
    next hzero =>
      rw [← hpieces] at hok ⊢
      obtain ⟨parser', hfeed, hfed'⟩ := hfed.feed hdoc (hround.ne_nil hzero)
        (fitsInt_of_le hround.fits) (hok (popped ++ tmp) ⟨b'.unread, List.append_assoc _ _ _⟩)
      rw [hfeed] at hr
      simp only [ne_eq, not_true_eq_false, if_false] at hr
      obtain ⟨herr, hempty, hall, hlast⟩ := ih hround.ok hfed'
        (fun xs hxs => hok xs (by rwa [List.append_assoc] at hxs)) (fun _ => rfl) hr
      rw [List.append_assoc] at hall
      exact ⟨herr, hempty, hall, hlast⟩

/-- `RespPop`, when there is something to read. -/
theorem respPop_fed (hdoc : http.Documented) {c : HttpClient http} (finish : Bool) {b : Buffer}
    {r : String × Bool × Buffer × HttpClient http} (hb : b.Ok) (hsome : b.unread ≠ [])
    (hfed : Fed popped c.parser)
    (hok : ∀ xs, xs <+: popped ++ b.unread → http.httpErrno (http.after xs).1 = 0)
    (hr : c.respPop finish b = some r) :
    r.1 = "" ∧ r.2.2.1.unread = [] ∧ Fed (popped ++ b.unread) r.2.2.2.parser ∧
      r.2.1 = r.2.2.2.parser.finished := by
  obtain ⟨r', hloop, rfl⟩ := Option.map_eq_some_iff.mp hr
  exact popLoop_fed hdoc hb hfed hok (fun hc => absurd hc hsome) hloop

end HttpClient

/-! ## What ends a run -/

/-- `onDone_("")`, with the complete body. -/
def Answered {http : HttpParser} (body : Bytes) (e : Exchange (HttpClient http)) : Prop :=
  e.request.dones = [""] ∧ e.request.derived.getRespStr = body

/-- The condition on a step: nothing fails before the request is finished, other than that the end
of the stream is read, and that not before the write callback has been called. -/
def InTime {σ : Type} (e : Exchange σ) : ExchangeAction → Prop
  | .request a => e.request.finished = false → a.Fails e.request →
      a = .readable (.bytes []) ∧ e.request.conn.userReadHandler ≠ none
  | _ => True

instance {σ : Type} (e : Exchange σ) : ∀ a, Decidable (InTime e a)
  | .request a => inferInstanceAs (Decidable (e.request.finished = false → a.Fails e.request →
      a = .readable (.bytes []) ∧ e.request.conn.userReadHandler ≠ none))
  | .arrive _ | .read _ => isTrue True.intro

/-! ## Until `onDone_` -/

section

variable {http : HttpParser} {delimiter : Delimiter} {response body : Bytes}
  {e e' : Exchange (HttpClient http)} {a : ExchangeAction}

/-- The request is not finished, and the parser has the bytes that were popped. -/
structure Receiving {http : HttpParser} (response : Bytes) (e : Exchange (HttpClient http)) :
    Prop where
  opened : RequestOpen e.request
  timer : TimerOk e.request
  counted : ReadCounted e.request.conn
  accounts : e.Accounts []
  arrived : e.arrived <+: response
  fed : Fed e.popped e.request.derived.parser
  going : e.request.derived.parser.finished = false

/-- What a step does to a request that is not finished. -/
inductive ServedStep {http : HttpParser} (delimiter : Delimiter) (response body : Bytes)
    (e : Exchange (HttpClient http)) (a : ExchangeAction) (e' : Exchange (HttpClient http)) : Prop
  | receives (h : Receiving response e') (hin : InTime e a) (heof : a ≠ .eof)
  | answers (d : HttpClient http) (hdelimiter : delimiter ≠ .close) (hover : Over "" d e'.request)
      (hbody : d.getRespStr = body) (hin : InTime e a)
  | fails (errMsg : String) (d : HttpClient http) (hne : errMsg ≠ "")
      (hover : Over errMsg d e'.request) (hin : InTime e a → delimiter = .close)

theorem Receiving.listening (h : Receiving response e) : Listening response e :=
  ⟨h.opened, h.timer, h.counted, h.accounts, h.arrived⟩

/-- The request reads the end of the stream while it waits for the response: all bytes of the
response were popped before. -/
theorem Receiving.popped_all (h : Receiving response e) (harrived : e.arrived = response)
    (hsocket : e.socket = []) (hwaits : e.request.conn.userReadHandler ≠ none) :
    e.popped = response := by
  obtain ⟨-, hall⟩ := h.accounts.held h.opened.inserts
  rw [h.counted.caughtUp hwaits, hsocket, List.append_nil, List.append_nil, List.nil_append] at hall
  exact hall.trans harrived

/-- A step in which nothing fails is in time, and is not the end of the stream. -/
theorem calm_inTime (hcalm : ∀ b, a = .request b → ¬ b.Fails e.request) :
    InTime e a ∧ a ≠ .eof := by
  refine ⟨?_, ?_⟩
  · cases a with
    | request b => exact fun _ hc => absurd hc (hcalm b rfl)
    | arrive bs | read n => exact True.intro
  · rintro rfl
    exact hcalm _ rfl rfl

/-- A step of the exchange. -/
theorem Receiving.step (hdoc : http.Documented) (hstay : http.ErrorsStay)
    (hresponse : http.Delimits delimiter response body) (h : Receiving response e)
    {init : Exchange (HttpClient http)}
    (hstep : (served (HttpClient.derived http) response init).step e a = some e') :
    ServedStep delimiter response body e a e' := by
  cases h.listening.step (D := HttpClient.popDerived http) hstep with
  | keeps h' hderived hpopped hcall hcalm =>
    obtain ⟨hin, hne⟩ := calm_inTime hcalm
    refine .receives ⟨h'.opened, h'.timer, h'.counted, h'.accounts, h'.arrived, ?_, ?_⟩ hin hne
    · rw [hpopped, hderived]
      exact h.fed
    · rw [hderived]
      exact h.going
  | pops b r hok hsome hcall hsent hpop hderived hpopped hcases hcalm =>
    obtain ⟨hin, hne⟩ := calm_inTime hcalm
    obtain ⟨herr, hempty, hfed, hfinish⟩ := HttpClient.respPop_fed hdoc e.request.finish hok hsome
      h.fed (fun xs hxs => hresponse.ok hdoc hstay (hxs.trans hsent)) hpop
    rw [← hderived] at hfed hfinish
    rcases hcases with ⟨hend, hended⟩ | ⟨⟨-, hend⟩, hlistens⟩
    · have hfinished : r.2.1 = true := hend.resolve_left (not_not_intro herr)
      obtain ⟨hdelimiter, hbody⟩ := hresponse.finished hsent hfed (hfinish.symm.trans hfinished)
      rw [herr] at hended
      exact .answers _ hdelimiter hended.over hbody hin
    · have h' := hlistens hempty
      refine .receives ⟨h'.opened, h'.timer, h'.counted, h'.accounts, h'.arrived, ?_, ?_⟩ hin hne
      · rw [hpopped hempty]
        exact hfed
      · exact hfinish.symm.trans hend
  | fails errMsg b hne hended hpopped hcall ha hfails heof =>
    subst ha
    refine .fails errMsg _ hne hended.over fun hin => ?_
    obtain ⟨rfl, hwaits⟩ := hin h.opened.unfinished hfails
    obtain ⟨harrived, hempty⟩ := heof rfl
    -- the parser had all bytes before
    have hfed := h.fed
    rw [h.popped_all harrived hempty hwaits] at hfed
    exact hresponse.unfinished hfed h.going

/-! ## Runs -/

theorem Over.inTime {errMsg : String} {d : HttpClient http} (a : ExchangeAction)
    (hover : Over errMsg d e.request) : InTime e a := by
  cases a with
  | request b => exact fun hc => absurd (hover.finished.symm.trans hc) nofun
  | arrive bs | read n => exact True.intro

theorem served_run_over {errMsg : String} {d : HttpClient http} {as : List ExchangeAction}
    {init : Exchange (HttpClient http)} (hover : Over errMsg d e.request)
    (hrun : (served (HttpClient.derived http) response init).run e as = some e') :
    Over errMsg d e'.request ∧
      (served (HttpClient.derived http) response init).AllSteps InTime e as := by
  have hkeep : ∀ e a e', Over errMsg d e.request →
      (served (HttpClient.derived http) response init).step e a = some e' →
      Over errMsg d e'.request :=
    fun _ _ _ h hstep => (h.step_served (D := HttpClient.popDerived http) hstep).1
  constructor
  · exact System.run_invariant (P := fun e => Over errMsg d e.request) hover hkeep hrun
  · exact System.AllSteps.trivial.imp (P := fun e => Over errMsg d e.request) hover
      (fun e a e' h _ => hkeep e a e' h) fun _ a h _ => h.inTime a

/-- How a run ends: the request still receives, it is answered, or it has failed. -/
theorem served_run (hdoc : http.Documented) (hstay : http.ErrorsStay)
    (hresponse : http.Delimits delimiter response body) {as : List ExchangeAction}
    {init : Exchange (HttpClient http)} (h : Receiving response e)
    (hrun : (served (HttpClient.derived http) response init).run e as = some e') :
    (Receiving response e' ∧ .eof ∉ as) ∨
    (e'.request.finished = true ∧ delimiter ≠ .close ∧ Answered body e' ∧
      (served (HttpClient.derived http) response init).AllSteps InTime e as) ∨
    (e'.request.finished = true ∧ ¬ Answered body e' ∧
      ((served (HttpClient.derived http) response init).AllSteps InTime e as →
        delimiter = .close)) := by
  induction as generalizing e with
  | nil =>
    cases hrun
    exact .inl ⟨h, List.not_mem_nil⟩
  | cons a as ih =>
    obtain ⟨e₁, hstep, hrun⟩ := Option.bind_eq_some_iff.mp hrun
    have hcons : InTime e a →
        ((served (HttpClient.derived http) response init).AllSteps InTime e (a :: as) ↔
          (served (HttpClient.derived http) response init).AllSteps InTime e₁ as) := by
      intro hin
      refine ⟨fun hall => hall.2 e₁ hstep, fun hall => ⟨hin, fun e₂ hstep₂ => ?_⟩⟩
      obtain rfl := Option.some.inj (hstep.symm.trans hstep₂)
      exact hall
    cases h.step hdoc hstay hresponse hstep with
    | receives h₁ hin heof =>
      rw [hcons hin]
      refine (ih h₁ hrun).imp (fun hleft => ⟨hleft.1, ?_⟩) id
      exact List.not_mem_cons_of_ne_of_not_mem heof.symm hleft.2
    | answers d hdelimiter hover hbody hin =>
      obtain ⟨hlast, hall⟩ := served_run_over hover hrun
      refine .inr (.inl ⟨hlast.finished, hdelimiter, ⟨hlast.dones, ?_⟩, (hcons hin).mpr hall⟩)
      rw [hlast.derived rfl]
      exact hbody
    | fails errMsg d hne hover hin =>
      obtain ⟨hlast, -⟩ := served_run_over hover hrun
      refine .inr (.inr ⟨hlast.finished, fun hanswered => hne ?_, fun hall => hin hall.1⟩)
      exact (List.cons.inj (hlast.dones.symm.trans hanswered.1)).1

/-- `doReq` on a connection that has read nothing. -/
theorem Receiving.start {timeoutMs : UInt64} {conn : TcpConnection} {req : Bytes} {finish : Bool}
    {s : RequestRun (HttpClient http)} (hconn : Pooled conn) (hfresh : Fresh conn)
    (hs : doReq (HttpClient.derived http) .new timeoutMs conn ⟨req, .new http⟩ finish = some s) :
    Receiving response (.start s []) ∧ Wired s.conn := by
  obtain ⟨r, hpush, hderived, hcases⟩ := Listening.start hconn hfresh hs
  obtain ⟨b, -, rfl⟩ := Option.map_eq_some_iff.mp hpush
  rcases hcases with ⟨-, h, hwired⟩ | ⟨hne, -⟩
  · refine ⟨⟨h.opened, h.timer, h.counted, h.accounts, h.arrived, ?_, ?_⟩, hwired⟩
    · rw [show (Exchange.start s []).request.derived = _ from hderived]
      exact Fed.new
    · rw [show (Exchange.start s []).request.derived = _ from hderived]
      rfl
  · exact absurd rfl hne

theorem Receiving.goes_on (h : Receiving response e) (hwired : Wired e.request.conn)
    (init : Exchange (HttpClient http)) :
    GoesOn (served (HttpClient.derived http) response init) response e :=
  h.listening.goes_on (D := HttpClient.popDerived http) hwired
    (fun _ hok _ => HttpClient.respPop_isSome e.request.derived e.request.finish hok) init

/-- The exchange does not get stuck before the request is finished, and it is finished when the end
of the stream has been read. Then `onDone_` has been called with no error and the body is complete
exactly if the connection does not delimit the body and all steps have been in time. -/
theorem answered_iff (hdoc : http.Documented) (hstay : http.ErrorsStay)
    (hresponse : http.Delimits delimiter response body) {timeoutMs : UInt64} {conn : TcpConnection}
    {req : Bytes} {finish : Bool} {s : RequestRun (HttpClient http)} (hconn : Pooled conn)
    (hfresh : Fresh conn)
    (hs : doReq (HttpClient.derived http) .new timeoutMs conn ⟨req, .new http⟩ finish = some s)
    {as : List ExchangeAction}
    (hrun : (served (HttpClient.derived http) response (.start s [])).run (.start s []) as =
      some e) :
    (e.request.finished = false →
      GoesOn (served (HttpClient.derived http) response (.start s [])) response e) ∧
    (.eof ∈ as → e.request.finished = true) ∧
    (e.request.finished = true → (Answered body e ↔
      delimiter ≠ .close ∧ (served (HttpClient.derived http) response (.start s [])).AllSteps InTime
        (.start s []) as)) := by
  obtain ⟨hstart, hwired⟩ : Receiving response (.start s []) ∧ Wired s.conn :=
    Receiving.start hconn hfresh hs
  rcases served_run hdoc hstay hresponse hstart hrun with
    ⟨hreceives, heof⟩ | ⟨hfin, hdelimiter, hanswered, hall⟩ | ⟨hfin, hnot, hclose⟩
  · have hopen := hreceives.opened.unfinished
    have hwired' := hstart.listening.wired (D := HttpClient.popDerived http) hwired hrun hopen
    refine ⟨fun _ => hreceives.goes_on hwired' _,
      fun hc => absurd hc heof, fun hfin => ?_⟩
    exact absurd (hopen.symm.trans hfin) nofun
  · refine ⟨fun hopen => absurd (hfin.symm.trans hopen) nofun, fun _ => hfin, fun _ => ?_⟩
    exact ⟨fun _ => ⟨hdelimiter, hall⟩, fun _ => hanswered⟩
  · refine ⟨fun hopen => absurd (hfin.symm.trans hopen) nofun, fun _ => hfin, fun _ => ?_⟩
    exact ⟨fun h => absurd h hnot, fun h => absurd (hclose h.2) h.1⟩

end

/-! ## Two responses -/

def helloRequest : RequestRun (HttpClient lengthParser) :=
  (doReq (HttpClient.derived lengthParser) .new 0 .connected
    ⟨bytes "GET / HTTP/1.1\r\n\r\n", .new lengthParser⟩ false).get (by decide +kernel)

theorem doReq_helloRequest : doReq (HttpClient.derived lengthParser) .new 0 .connected
    ⟨bytes "GET / HTTP/1.1\r\n\r\n", .new lengthParser⟩ false = some helloRequest :=
  (Option.some_get _).symm

/-- An exchange on a new connection. -/
def hello (response : Bytes) : System (Exchange (HttpClient lengthParser)) ExchangeAction :=
  served (HttpClient.derived lengthParser) response (.start helloRequest [])

/-- A response with a length, in two pieces, the first of which comes before the request is
written. -/
theorem answered_helloLength :
    ∃ e, (hello (bytes "HTTP/1.1 200 OK\r\nContent-Length: 5\r\n\r\nhello")).run
        (.start helloRequest [])
        [.request .deliver, .arrive (bytes "HTTP/1.1 200 OK\r\nContent-Length: 5\r\n\r\nhe"),
          .read 40, .request (.writable (.count 18)), .request (.writable .eagain),
          .request .resume, .request .resume, .arrive (bytes "llo"), .read 3] = some e ∧
      Answered (bytes "hello") e := by
  have hend : ((hello (bytes "HTTP/1.1 200 OK\r\nContent-Length: 5\r\n\r\nhello")).run
      (.start helloRequest [])
      [.request .deliver, .arrive (bytes "HTTP/1.1 200 OK\r\nContent-Length: 5\r\n\r\nhe"),
        .read 40, .request (.writable (.count 18)), .request (.writable .eagain),
        .request .resume, .request .resume, .arrive (bytes "llo"), .read 3]).map
      (·.request.finished) = some true := by
    decide +kernel
  obtain ⟨e, hrun, hfin⟩ := Option.map_eq_some_iff.mp hend
  refine ⟨e, hrun, ((answered_iff lengthParser_documented lengthParser_errorsStay
    lengthParser_contentLength Pooled.connected Fresh.connected doReq_helloRequest hrun).2.2
    hfin).mpr ⟨by decide, by decide +kernel⟩⟩

/-- A response that the connection ends: the request gets all of it, and then the error "Finished"
for the end of the stream. -/
theorem close_is_an_error :
    lengthParser.Documented ∧ lengthParser.ErrorsStay ∧
      lengthParser.Delimits .close (bytes "HTTP/1.1 200 OK\r\n\r\nhello") (bytes "hello") ∧
      ∃ e, (hello (bytes "HTTP/1.1 200 OK\r\n\r\nhello")).run (.start helloRequest [])
          [.request .deliver, .request (.writable (.count 18)), .request (.writable .eagain),
            .request .resume, .arrive (bytes "HTTP/1.1 200 OK\r\n\r\nhello"), .read 24,
            .request .resume, .eof] = some e ∧
        e.request.dones = ["Finished"] ∧ e.request.derived.getRespStr = bytes "hello" ∧
        ¬ Answered (bytes "hello") e := by
  refine ⟨lengthParser_documented, lengthParser_errorsStay, lengthParser_close, ?_⟩
  have hend : ((hello (bytes "HTTP/1.1 200 OK\r\n\r\nhello")).run (.start helloRequest [])
      [.request .deliver, .request (.writable (.count 18)), .request (.writable .eagain),
        .request .resume, .arrive (bytes "HTTP/1.1 200 OK\r\n\r\nhello"), .read 24,
        .request .resume, .eof]).map
      (fun e => (e.request.dones, e.request.derived.getRespStr)) =
      some (["Finished"], bytes "hello") := by
    decide +kernel
  obtain ⟨e, hrun, he⟩ := Option.map_eq_some_iff.mp hend
  obtain ⟨hdones, hbody⟩ := Prod.mk.inj he
  refine ⟨e, hrun, hdones, hbody, fun hanswered => ?_⟩
  exact absurd (hdones.symm.trans hanswered.1) (by decide)

end Sheep
