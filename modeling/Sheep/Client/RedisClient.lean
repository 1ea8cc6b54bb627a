import Sheep.Client.HttpClient

/-!
# `RedisClient`

The functions that `RedisClient` (`small_client/redis_client.h`) overrides, and `GetResp`, which
hands the reply to the user. `RespPop` empties the read buffer into the reader of hiredis and stores
the reply once there is one. hiredis is not part of this repository: `Hiredis` has the functions
that the client calls, and `RedisReply.Typed` is what it promises of a reply.

`reported_iff` says which replies `GetResp` gives back: `RespPop` has no case for integers, whose
`str` is null, and takes the elements of an array as C strings.
-/

namespace Sheep

/-! ## hiredis -/

/-- The `REDIS_REPLY_*` constants. -/
inductive ReplyType
  | string
  | array
  | integer
  | nil
  | status
  | error
  deriving DecidableEq, Repr

/-- `redisReply`. `str` are the `len` bytes that the pointer `str` points to, `none` for a null
pointer, with which `len` is 0. -/
structure RedisReply where
  type : ReplyType
  integer : Int64
  str : Option Bytes
  element : List RedisReply

/-- hiredis calls `str` a string in these types only. -/
def RedisReply.Typed (r : RedisReply) : Prop :=
  r.str.isSome ↔ r.type = .string ∨ r.type = .status ∨ r.type = .error

instance (r : RedisReply) : Decidable r.Typed :=
  inferInstanceAs (Decidable (r.str.isSome ↔ r.type = .string ∨ r.type = .status ∨ r.type = .error))

def redisOk : Int := 0

structure Hiredis where
  Reader : Type
  readerCreate : Reader
  readerFeed : Reader → Bytes → Reader
  /-- the result, and what it writes to `*reply` -/
  readerGetReply : Reader → Int × Option RedisReply × Reader
  /-- the result, and the buffer of that length -/
  formatCommand : Bytes → Int × Bytes

/-! ## Numbers -/

/-- `std::stoll`: `none` for the exceptions `invalid_argument` and `out_of_range`. -/
def stoll (s : Bytes) : Option Int64 :=
  let s := (cString s).dropWhile isSpace
  let negative := s.head? == some 45
  let s := if s.head? == some 45 || s.head? == some 43 then s.tail else s
  let digits := s.takeWhile isDigit
  if digits = [] then none
  else
    let abs : Nat := digits.foldl (fun n c => 10 * n + (c.toNat - 48)) 0
    let n : Int := if negative then -abs else abs
    if -2 ^ 63 ≤ n ∧ n < 2 ^ 63 then some (Int64.ofInt n) else none

theorem cString_digits {text : Bytes} (h : ∀ ch ∈ text, isDigit ch = true) : cString text = text :=
  cString_eq_self.mpr fun hnul => absurd (h 0 hnul) (by decide)

/-- `stoll` reads a numeral that `int64_t` has room for. -/
theorem stoll_of_decimal {text : Bytes} {n : Nat} (h : decimal text = some n) :
    stoll text = if (n : Int) < 2 ^ 63 then some (Int64.ofInt n) else none := by
  unfold decimal at h
  split at h
  next hall =>
    obtain rfl : ofDigits text = n := Option.some.inj h
    obtain ⟨hne, hall⟩ := hall
    have hdigits := List.all_eq_true.mp hall
    cases text with
    | nil => exact absurd rfl hne
    | cons d digits =>
      -- a digit is no blank and no sign
      have hfirst : isSpace d = false ∧ d ≠ 45 ∧ d ≠ 43 := by
        have hd := hdigits d List.mem_cons_self
        revert hd
        exact forall_byte (p := fun d =>
          isDigit d = true → isSpace d = false ∧ d ≠ 45 ∧ d ≠ 43) (by decide +kernel) d
      obtain ⟨hspace, hminus, hplus⟩ := hfirst
      have hdrop : (d :: digits).dropWhile isSpace = d :: digits := by
        rw [List.dropWhile_cons, hspace]
        rfl
      have htake : (d :: digits).takeWhile isDigit = d :: digits :=
        List.takeWhile_eq_self_iff.mpr hdigits
      have hlow : (-2 ^ 63 : Int) ≤ ofDigits (d :: digits) :=
        Int.le_trans (by decide) (Int.natCast_nonneg _)
      unfold stoll
      simp only [cString_digits hdigits, hdrop, List.head?_cons, Option.some_beq_some,
        beq_eq_false_iff_ne.mpr hminus, beq_eq_false_iff_ne.mpr hplus, Bool.or_self,
        Bool.false_eq_true, if_false, htake, reduceCtorEq]
      exact ite_congr (propext (and_iff_right hlow)) (fun _ => rfl) fun _ => rfl
  next => cases h

/-! ## The client -/

structure RedisClient (hiredis : Hiredis) where
  command : Bytes
  reader : hiredis.Reader
  reply : Option RedisReply
  value : Bytes
  arrayValues : List Bytes
  /-- `none` is 0, which is no type -/
  respType : Option ReplyType

namespace RedisClient

variable {hiredis : Hiredis}

def new (hiredis : Hiredis) (command : Bytes) : RedisClient hiredis :=
  ⟨command, hiredis.readerCreate, none, [], [], none⟩

def reqPush (c : RedisClient hiredis) (b : Buffer) :
    Option (String × Buffer × RedisClient hiredis) :=
  match hiredis.formatCommand (cString c.command) with
  | (cmdBufLen, cmdBuf) =>
    if cmdBufLen < 0 then
      some ("redisFormatCommand error! len = " ++ toString cmdBufLen, b, c)
    else (b.push cmdBuf).map fun b => ("", b, c)

/-- The loop of `RespPop`. -/
def feedLoop : Nat → hiredis.Reader → Buffer → Option (Buffer × hiredis.Reader)
  | 0, _, _ => none
  | fuel + 1, reader, b =>
    (b.popHead 1024).bind fun (len, tmpBuf, b) =>
      if len = 0 then some (b, reader)
      else feedLoop fuel (hiredis.readerFeed reader tmpBuf) b

def feedAll (c : RedisClient hiredis) (b : Buffer) : Option (Buffer × hiredis.Reader) :=
  feedLoop (b.unread.length + 1) c.reader b

/-- `push_back(r->element[i]->str)`, from the element `i` on. A null `str` makes no `std::string`,
and `i` is an `int`. -/
def pushElements (i : Nat) (arrayValues : List Bytes) : List RedisReply → Option (List Bytes)
  | [] => some arrayValues
  | e :: es =>
    e.str.bind fun str =>
      if i + 1 < 2 ^ 31 then pushElements (i + 1) (arrayValues ++ [cString str]) es else none

/-- `RespPop` once there is a reply: `errMsg`, and the members. `none` is undefined behaviour. -/
def store (c : RedisClient hiredis) (r : RedisReply) : Option (String × RedisClient hiredis) :=
  if r.type = .error then some ("redisReply return REDIS_REPLY_ERROR", c)
  else
    let c := { c with respType := some r.type }
    match r.type with
    | .nil => some ("", c)
    | .array =>
      (pushElements 0 c.arrayValues r.element).map fun values =>
        ("", { c with arrayValues := values })
    | .string | .integer | .status | .error =>
      -- `append(nullptr, 0)` reads nothing
      some ("", { c with value := c.value ++ r.str.getD [] })

/-- `RespPop` leaves `finish` alone while the reply is not complete. -/
def respPop (c : RedisClient hiredis) (finish : Bool) (b : Buffer) :
    Option (String × Bool × Buffer × RedisClient hiredis) :=
  (c.feedAll b).bind fun (b, reader) =>
    match hiredis.readerGetReply reader with
    | (ret, reply, reader) =>
      let c := { c with reader := reader, reply := reply }
      if ret ≠ redisOk then some ("redisReaderGetReply error: " ++ toString ret, true, b, c)
      else
        match reply with
        | none => some ("", finish, b, c)
        | some r => (c.store r).map fun (errMsg, c) => (errMsg, true, b, c)

def derived (hiredis : Hiredis) : Derived (RedisClient hiredis) := ⟨reqPush, respPop⟩

/-- `GetResp` for an `int64_t`: `error`, `ok` and `resp` come with what the caller has put there.
The exception is caught by value, as a `std::exception`. -/
def getRespInt (c : RedisClient hiredis) (error : String) (_ok : Bool) (resp : Int64) :
    String × Bool × Int64 :=
  if c.respType = some .nil then (error, false, resp)
  else if c.respType ≠ some .integer ∧ c.respType ≠ some .string then
    ("invalid resp type", false, resp)
  else
    match stoll c.value with
    | some n => (error, true, n)
    | none => ("std::exception", false, resp)

/-- `GetResp` for a `std::string`. -/
def getRespString (c : RedisClient hiredis) (error : String) (_ok : Bool) (resp : Bytes) :
    String × Bool × Bytes :=
  if c.respType = some .nil then (error, false, resp)
  else if c.respType ≠ some .string then ("invalid resp type", false, resp)
  else (error, true, c.value)

/-- `GetResp` for a `std::vector<std::string>`. -/
def getRespVector (c : RedisClient hiredis) (error : String) (_ok : Bool) (resp : List Bytes) :
    String × Bool × List Bytes :=
  if c.respType = some .nil then (error, false, resp)
  else if c.respType ≠ some .array then ("invalid resp type", false, resp)
  else (error, true, c.arrayValues)

/-! ## What `RespPop` does -/

section

variable {c d : RedisClient hiredis} {finish : Bool} {b b' : Buffer}
  {reader reader' : hiredis.Reader} {r : RedisReply}

theorem respPop_null (hfeed : c.feedAll b = some (b', reader))
    (hreply : hiredis.readerGetReply reader = (redisOk, none, reader')) :
    c.respPop finish b = some ("", finish, b', { c with reader := reader', reply := none }) := by
  unfold respPop
  rw [hfeed, Option.bind_some]
  simp only [hreply, ne_eq, not_true_eq_false, if_false]

theorem respPop_reply (hfeed : c.feedAll b = some (b', reader))
    (hreply : hiredis.readerGetReply reader = (redisOk, some r, reader')) :
    c.respPop finish b =
      (store { c with reader := reader', reply := some r } r).map fun (errMsg, c) =>
        (errMsg, true, b', c) := by
  unfold respPop
  rw [hfeed, Option.bind_some]
  simp only [hreply, ne_eq, not_true_eq_false, if_false]

theorem store_reply {errMsg : String} (h : c.store r = some (errMsg, d)) : d.reply = c.reply := by
  unfold store at h
  split at h
  next => cases h; rfl
  next =>
    cases htype : r.type with
    | array =>
      simp only [htype] at h
      obtain ⟨values, -, hd⟩ := Option.map_eq_some_iff.mp h
      cases hd
      rfl
    | string | integer | nil | status | error =>
      simp only [htype] at h
      cases h
      rfl

/-- A call that finds no reply keeps nothing. -/
theorem respPop_waits {errMsg : String} {f : Bool}
    (h : c.respPop finish b = some (errMsg, f, b', d)) (hnull : d.reply = none) :
    d.value = c.value ∧ d.arrayValues = c.arrayValues := by
  obtain ⟨⟨b₁, reader⟩, -, h⟩ := Option.bind_eq_some_iff.mp h
  rcases hget : hiredis.readerGetReply reader with ⟨ret, reply, reader'⟩
  simp only [hget] at h
  split at h
  next => cases h; exact ⟨rfl, rfl⟩
  next =>
    cases reply with
    | none => cases h; exact ⟨rfl, rfl⟩
    | some r =>
      obtain ⟨⟨e, d'⟩, hstore, hd⟩ := Option.map_eq_some_iff.mp h
      cases hd
      cases (store_reply hstore).symm.trans hnull

/-- The elements as C strings, if none has a null `str` and `i` does not overflow. -/
theorem pushElements_eq_some_iff {i : Nat} {values values' : List Bytes} {es : List RedisReply} :
    pushElements i values es = some values' ↔
      (∀ e ∈ es, e.str.isSome) ∧ (es ≠ [] → i + es.length < 2 ^ 31) ∧
        values' = values ++ es.map fun e => cString (e.str.getD []) := by
  induction es generalizing i values with
  | nil =>
    rw [pushElements, Option.some.injEq, List.map_nil, List.append_nil]
    exact ⟨fun h => ⟨nofun, fun hc => absurd rfl hc, h.symm⟩, fun h => h.2.2.symm⟩
  | cons e es ih =>
    unfold pushElements
    cases hstr : e.str with
    | none => simp [hstr]
    | some str =>
      rw [Option.bind_some, Option.ite_none_right_eq_some, ih, List.forall_mem_cons, hstr,
        List.map_cons, hstr, List.length_cons, List.append_assoc]
      constructor
      · rintro ⟨hi, hall, hlen, rfl⟩
        refine ⟨⟨rfl, hall⟩, fun _ => ?_, rfl⟩
        cases es with
        | nil => exact hi
        | cons e' es =>
          have hrest := hlen nofun
          omega
      · rintro ⟨⟨-, hall⟩, hlen, rfl⟩
        have hrest := hlen nofun
        exact ⟨by omega, hall, fun _ => by omega, rfl⟩

end

/-! ## What `GetResp` gives back -/

/-- `RespPop` was called any number of times, and there is no reply yet. -/
inductive Waiting : RedisClient hiredis → Prop
  | new (command : Bytes) : Waiting (new hiredis command)
  | respPop {c d : RedisClient hiredis} {finish f : Bool} {b b' : Buffer} {errMsg : String}
      (hc : Waiting c) (hpop : c.respPop finish b = some (errMsg, f, b', d))
      (hnull : d.reply = none) : Waiting d

theorem Waiting.empty {c : RedisClient hiredis} (h : c.Waiting) :
    c.value = [] ∧ c.arrayValues = [] := by
  induction h with
  | new command => exact ⟨rfl, rfl⟩
  | respPop hc hpop hnull ih =>
    obtain ⟨hvalue, harray⟩ := respPop_waits hpop hnull
    exact ⟨hvalue.trans ih.1, harray.trans ih.2⟩

/-- `GetResp` hands the reply on, whatever the caller has in `error`, `ok` and `resp`. -/
structure Reports (c : RedisClient hiredis) (r : RedisReply) : Prop where
  integer : r.type = .integer → ∀ error ok resp,
    (c.getRespInt error ok resp).2 = (true, r.integer)
  string : r.type = .string → ∀ str ∈ r.str, ∀ error ok resp,
    (c.getRespString error ok resp).2 = (true, str)
  array : r.type = .array → ∀ error ok resp, ∃ values : List Bytes,
    (c.getRespVector error ok resp).2 = (true, values) ∧ values.length = r.element.length ∧
      ∀ (i : Nat), ∀ e ∈ r.element[i]?, e.type = .string → values[i]? = e.str

end RedisClient

/-- The replies that `RespPop` keeps. -/
structure RedisReply.Kept (r : RedisReply) : Prop where
  notInteger : r.type ≠ .integer
  elements : r.type = .array → r.element.length < 2 ^ 31 ∧
    ∀ e ∈ r.element, e.str.isSome ∧ (e.type = .string → ∀ str ∈ e.str, 0 ∉ str)

namespace RedisClient

variable {hiredis : Hiredis} {c : RedisClient hiredis} {finish : Bool} {b b' : Buffer}
  {reader reader' : hiredis.Reader} {r : RedisReply}

theorem store_integer (htype : r.type = .integer) :
    c.store r =
      some ("", { c with respType := some .integer, value := c.value ++ r.str.getD [] }) := by
  simp [store, htype]

theorem store_string (htype : r.type = .string) :
    c.store r =
      some ("", { c with respType := some .string, value := c.value ++ r.str.getD [] }) := by
  simp [store, htype]

theorem store_array (htype : r.type = .array) :
    c.store r = (pushElements 0 c.arrayValues r.element).map fun values =>
      ("", { c with respType := some .array, arrayValues := values }) := by
  simp [store, htype]

/-- An integer has no text. -/
theorem not_reports_integer (hc : c.value = []) (hr : r.Typed) (htype : r.type = .integer)
    {errMsg : String} {d : RedisClient hiredis} (hstore : c.store r = some (errMsg, d)) :
    ¬ d.Reports r := by
  intro hreports
  have hstr : r.str = none := by
    rw [RedisReply.Typed, htype] at hr
    simpa using hr
  rw [store_integer htype, hc, hstr] at hstore
  cases hstore
  have hget := hreports.integer htype "" true 0
  have hbad : (false, (0 : Int64)) = (true, r.integer) := hget
  cases hbad

/-- The elements of an array that is stored. -/
theorem reports_array_iff (hc : c.arrayValues = []) (htype : r.type = .array) :
    (∃ res, c.store r = some res ∧ res.2.Reports r) ↔ r.Kept := by
  rw [store_array htype, hc]
  constructor
  · rintro ⟨res, hstore, hreports⟩
    obtain ⟨values, hpush, rfl⟩ := Option.map_eq_some_iff.mp hstore
    obtain ⟨hsome, hlen, rfl⟩ := pushElements_eq_some_iff.mp hpush
    obtain ⟨values, hget, -, hvalues⟩ := hreports.array htype "" true []
    refine ⟨by rw [htype]; exact nofun, fun _ => ⟨?_, fun e he => ⟨hsome e he, ?_⟩⟩⟩
    · rcases eq_or_ne r.element [] with hnil | hne
      · rw [hnil]
        decide
      · have hbound := hlen hne
        omega
    · intro hstring str hstr
      obtain ⟨i, hi⟩ := List.getElem?_of_mem he
      have hvalue := hvalues i e hi hstring
      cases hget
      rw [List.nil_append, List.getElem?_map, hi, Option.map_some, hstr] at hvalue
      exact cString_eq_self.mp (Option.some.inj hvalue)
  · intro hkept
    obtain ⟨hlen, hall⟩ := hkept.elements htype
    have hpush : pushElements 0 [] r.element =
        some (r.element.map fun e => cString (e.str.getD [])) :=
      pushElements_eq_some_iff.mpr ⟨fun e he => (hall e he).1, fun _ => by omega, rfl⟩
    rw [hpush]
    refine ⟨_, rfl, ⟨fun h => ?_, fun h => ?_, fun _ error ok resp => ?_⟩⟩
    · cases htype.symm.trans h
    · cases htype.symm.trans h
    · refine ⟨_, rfl, List.length_map _, fun i e hi hstring => ?_⟩
      obtain ⟨hsome, hnul⟩ := hall e (List.mem_of_getElem? hi)
      obtain ⟨str, hstr⟩ := Option.isSome_iff_exists.mp hsome
      rw [List.getElem?_map, hi, Option.map_some, hstr]
      exact congrArg some (cString_eq_self.mpr (hnul hstring str hstr))

theorem reports_iff (hc : c.value = [] ∧ c.arrayValues = []) (hr : r.Typed)
    (hne : r.type ≠ .error) : (∃ res, c.store r = some res ∧ res.2.Reports r) ↔ r.Kept := by
  cases htype : r.type with
  | array => exact reports_array_iff hc.2 htype
  | integer =>
    refine iff_of_false ?_ fun hkept => hkept.notInteger htype
    rintro ⟨⟨errMsg, d⟩, hstore, hreports⟩
    exact not_reports_integer hc.1 hr htype hstore hreports
  | string =>
    refine iff_of_true ⟨_, store_string htype, ⟨fun h => ?_, fun _ str hstr error ok resp => ?_,
      fun h => ?_⟩⟩ ⟨by rw [htype]; exact nofun, fun h => ?_⟩
    · cases htype.symm.trans h
    · show (true, c.value ++ r.str.getD []) = _
      rw [hc.1, hstr]
      rfl
    · cases htype.symm.trans h
    · cases htype.symm.trans h
  | nil | status =>
    have hother : ∀ {type : ReplyType}, r.type = type → type = .nil ∨ type = .status := by
      rintro type rfl
      simp [htype]
    refine iff_of_true ⟨_, by simp only [store, htype]; rfl,
      ⟨fun h => ?_, fun h => ?_, fun h => ?_⟩⟩ ⟨by rw [htype]; exact nofun, fun h => ?_⟩
    all_goals
      rcases hother h with h | h
      · cases h
      · cases h
  | error => exact absurd htype hne

/-- After `RespPop` has got the reply, `GetResp` gives it back exactly if it is no integer and, if
it is an array, has strings without a NUL byte only. -/
theorem reported_iff (hc : c.Waiting) (hfeed : c.feedAll b = some (b', reader))
    (hreply : hiredis.readerGetReply reader = (redisOk, some r, reader')) (hr : r.Typed)
    (hne : r.type ≠ .error) :
    (∃ res, c.respPop finish b = some res ∧ res.2.2.2.Reports r) ↔ r.Kept := by
  rw [← reports_iff (c := { c with reader := reader', reply := some r }) hc.empty hr hne,
    respPop_reply hfeed hreply]
  constructor
  · rintro ⟨res, hpop, hreports⟩
    obtain ⟨stored, hstore, rfl⟩ := Option.map_eq_some_iff.mp hpop
    exact ⟨stored, hstore, hreports⟩
  · rintro ⟨stored, hstore, hreports⟩
    exact ⟨_, by rw [hstore, Option.map_some], hreports⟩

end RedisClient

/-! ## A small reader -/

/-- Takes a line off, without its end. -/
def cutLine : Bytes → Option (Bytes × Bytes)
  | 13 :: 10 :: rest => some ([], rest)
  | c :: rest => (cutLine rest).map fun (line, rest) => (c :: line, rest)
  | [] => none

/-- The replies other than arrays. -/
def parseReply : Bytes → Option (RedisReply × Bytes)
  | 43 :: s => (cutLine s).map fun (line, rest) => (⟨.status, 0, some line, []⟩, rest)
  | 45 :: s => (cutLine s).map fun (line, rest) => (⟨.error, 0, some line, []⟩, rest)
  | 58 :: s => (cutLine s).map fun (line, rest) => (⟨.integer, (stoll line).getD 0, none, []⟩, rest)
  | 36 :: s =>
    (cutLine s).bind fun (line, rest) =>
      match (stoll line).map Int64.toInt with
      | some (Int.ofNat n) =>
        if rest.length < n + 2 then none
        else some (⟨.string, 0, some (rest.take n), []⟩, rest.drop (n + 2))
      | some (Int.negSucc _) | none => some (⟨.nil, 0, none, []⟩, rest)
  | _ => none

/-- A command without arguments in quotes. -/
def formatWords (command : Bytes) : Bytes :=
  let words := (command.splitOn 32).filter (· ≠ [])
  words.foldl (fun buf word =>
      buf ++ bytes ("$" ++ toString word.length ++ "\r\n") ++ word ++ bytes "\r\n")
    (bytes ("*" ++ toString words.length ++ "\r\n"))

/-- hiredis for commands of plain words and replies that are no arrays. -/
def smallReader : Hiredis where
  Reader := Bytes
  readerCreate := []
  readerFeed s bs := s ++ bs
  readerGetReply s :=
    match parseReply s with
    | some (r, rest) => (redisOk, some r, rest)
    | none => (redisOk, none, s)
  formatCommand command := (((formatWords command).length : Nat), formatWords command)

instance : DecidableEq smallReader.Reader := inferInstanceAs (DecidableEq Bytes)

namespace RedisClient

/-- The read buffer of a new connection that has received `s`. -/
def received (s : String) : Buffer := (Buffer.new.write (bytes s)).getD .new

/-- A bulk string. -/
theorem reported_bulkString :
    ∃ res, (new smallReader (bytes "GET a")).respPop false (received "$5\r\nhello\r\n") = some res ∧
      res.2.2.2.Reports ⟨.string, 0, some (bytes "hello"), []⟩ := by
  have hfeed : (new smallReader (bytes "GET a")).feedAll (received "$5\r\nhello\r\n") =
      some (.reset, smallReader.readerFeed smallReader.readerCreate (bytes "$5\r\nhello\r\n")) := by
    decide +kernel
  have hreply : smallReader.readerGetReply
      (smallReader.readerFeed smallReader.readerCreate (bytes "$5\r\nhello\r\n")) =
      (redisOk, some ⟨.string, 0, some (bytes "hello"), []⟩, []) := rfl
  exact (reported_iff (.new _) hfeed hreply (by decide) (by decide)).mpr ⟨nofun, nofun⟩

/-- The reply to `INCR`: `stoll` finds no digits in `value_`. -/
theorem integer_not_reported :
    ∃ b reader reader' r,
      (new smallReader (bytes "INCR a")).feedAll (received ":7\r\n") = some (b, reader) ∧
      smallReader.readerGetReply reader = (redisOk, some r, reader') ∧
      r.type = .integer ∧ r.integer = 7 ∧ r.Typed ∧
      ¬ ∃ res, (new smallReader (bytes "INCR a")).respPop false (received ":7\r\n") = some res ∧
        res.2.2.2.Reports r := by
  refine ⟨.reset, bytes ":7\r\n", [], ⟨.integer, 7, none, []⟩, by decide +kernel, rfl, rfl, rfl,
    by decide, ?_⟩
  rintro ⟨res, hpop, hreports⟩
  have hget : ((new smallReader (bytes "INCR a")).respPop false (received ":7\r\n")).map
      (fun res => res.2.2.2.getRespInt "" true 0) = some ("std::exception", false, 0) := by
    decide +kernel
  rw [hpop, Option.map_some, Option.some.injEq] at hget
  have hok := hreports.integer rfl "" true 0
  rw [hget] at hok
  cases hok

end RedisClient

end Sheep
