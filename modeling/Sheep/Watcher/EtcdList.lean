import Sheep.Client.RedisClient
import Sheep.Config.JsonFaults
import Sheep.Http.RespParser
import Sheep.Watcher.Etcd

/-!
# `Etcd::List`

The request that lists a directory, and what its `onDone` makes of the reply: an error of the HTTP
client, or a response with any headers and any body. `onListDone` follows the callback through the
accessors of rapidjson, `Map::Get` and `std::stoll`, each of which may end it (`Crash`).

`ListLaw`: the handler is called exactly once, the request is taken out of `httpClients_`, and
without an error only for a header that is a decimal number. `listLaw_iff` says which replies that
is so for. `onListReply` has the replies that `Sheep.Watcher.Etcd` works with.
-/

namespace Sheep

/-! ## What may end the callback -/

inductive Crash
  /-- an exception of the standard library -/
  | throws
  /-- a `RAPIDJSON_ASSERT` fails -/
  | asserts
  /-- the end of a map is read -/
  | pastEnd
  deriving DecidableEq, Repr

section

variable {ε α β : Type}

theorem ok_bind (a : α) (f : α → Except ε β) : (Except.ok a >>= f) = f a := rfl

theorem error_bind (e : ε) (f : α → Except ε β) : (Except.error e >>= f) = .error e := rfl

end

namespace Json

/-- `HasMember`, and `operator[]` for a member that is there. -/
def findMember (obj : Json) (name : String) : Except Crash (Option Json) :=
  match obj with
  | .object members => .ok (members.lookup name)
  | _ => .error .asserts

def getUint64 : Json → Except Crash Nat
  | .number n => if 0 ≤ n ∧ n < 18446744073709551616 then .ok n.toNat else .error .asserts
  | _ => .error .asserts

/-- `GetString`, which the code takes for a C string. -/
def getString : Json → Except Crash Bytes
  | .string bytes => .ok (cString bytes)
  | _ => .error .asserts

def getObject : Json → Except Crash Json
  | .object members => .ok (.object members)
  | _ => .error .asserts

def getArray : Json → Except Crash (List Json)
  | .array vs => .ok vs
  | _ => .error .asserts

end Json

/-- `Map::Get`: a key that is not there is looked up all the same. -/
def Map.get (m : Map) (key : Bytes) : Except Crash Bytes :=
  match m.kvs key with
  | none => .error .pastEnd
  | some value => .ok value

/-! ## `onDone` -/

/-- The arguments of the handler. -/
structure ListCall where
  errMsg : Bytes
  afterIndex : UInt64
  keys : Option (List Bytes)
  deriving DecidableEq, Repr

/-- What `onDone` gets: the error, and the response of the client. -/
structure EtcdReply where
  argErrMsg : Bytes
  respHeaders : Map
  respStr : Bytes

def etcdIndexKey : Bytes := bytes "X-Etcd-Index"

def parseErrMsg (respStr : Bytes) (code offset : Nat) : Bytes :=
  bytes "parse " ++ respStr ++ bytes " Failed: code " ++ bytes (toString code) ++
    bytes " offset " ++ bytes (toString offset)

def errorMsg (errorCode : Nat) : Bytes := bytes "errorCode: " ++ bytes (toString errorCode)

/-- The branch of an answer with an `errorCode`. -/
def errorCall (jsonDoc errorCode : Json) : Except Crash ListCall := do
  let errorCode ← errorCode.getUint64
  match ← jsonDoc.findMember "message" with
  | some message =>
    let message ← message.getString
    .ok ⟨errorMsg errorCode ++ bytes " message: " ++ message, 0, none⟩
  | none => .ok ⟨errorMsg errorCode, 0, none⟩

/-- The loop over the nodes of the directory. -/
def nodeKeys : List Json → List Bytes → Except Crash (List Bytes)
  | [], keys => .ok keys
  | n :: nodes, keys => do
    match ← n.findMember "key" with
    | some key =>
      let key ← key.getString
      nodeKeys nodes (keys ++ [key])
    | none => nodeKeys nodes keys

def directoryKeys (jsonDoc : Json) : Except Crash (List Bytes) := do
  match ← jsonDoc.findMember "node" with
  | some node =>
    let node ← node.getObject
    match ← node.findMember "nodes" with
    | some nodes =>
      let nodes ← nodes.getArray
      nodeKeys nodes []
    | none => .ok []
  | none => .ok []

/-- The branch of an answer without an `errorCode`. -/
def indexCall (respHeaders : Map) (jsonDoc : Json) : Except Crash ListCall := do
  let etcdIndexStr ← respHeaders.get etcdIndexKey
  match stoll etcdIndexStr with
  | none => .error .throws
  | some etcdIndex =>
    if etcdIndex = -1 then .ok ⟨bytes "invalid etcdIndex " ++ etcdIndexStr, 0, none⟩
    else
      let keys ← directoryKeys jsonDoc
      .ok ⟨[], (etcdIndex + 1).toUInt64, some keys⟩

structure EtcdClients where
  httpClients : List Nat
  /-- the calls of the handler so far -/
  calls : List ListCall
  deriving DecidableEq, Repr

section

-- `Parse`: the code and the offset of an error, or the document; and what the handler does to
-- `httpClients_`
variable (parse : Bytes → Except (Nat × Nat) Json) (handler : ListCall → List Nat → List Nat)

def listCall (r : EtcdReply) : Except Crash ListCall :=
  if r.argErrMsg ≠ [] then .ok ⟨r.argErrMsg, 0, none⟩
  else
    match parse (cString r.respStr) with
    | .error (code, offset) => .ok ⟨parseErrMsg r.respStr code offset, 0, none⟩
    | .ok jsonDoc => do
      match ← jsonDoc.findMember "errorCode" with
      | some errorCode => errorCall jsonDoc errorCode
      | none => indexCall r.respHeaders jsonDoc

/-- `onDone` of the request `id`: every branch calls the handler and erases the request. -/
def onListDone (id : Nat) (r : EtcdReply) (s : EtcdClients) : Except Crash EtcdClients := do
  let call ← listCall parse r
  .ok ⟨(handler call s.httpClients).filter (· ≠ id), s.calls ++ [call]⟩

/-! ## The contract -/

/-- The callback returns. It has called the handler once and erased the request, and if there was
no error, the header is a decimal number and `afterIndex` the next one. -/
def ListLaw (id : Nat) (r : EtcdReply) (s : EtcdClients) : Prop :=
  ∃ t call, onListDone parse handler id r s = .ok t ∧ t.calls = s.calls ++ [call] ∧
    id ∉ t.httpClients ∧
    (call.errMsg = [] → ∃ text i, r.respHeaders.kvs etcdIndexKey = some text ∧
      decimal text = some i ∧ call.afterIndex.toNat = i + 1)

end

/-- An answer with an `errorCode`, as etcd writes it. -/
def ErrorAnswer (jsonDoc errorCode : Json) : Prop :=
  (∃ n : Int, errorCode = .number n ∧ 0 ≤ n ∧ n < 18446744073709551616) ∧
    ∀ v, jsonDoc.member "message" = some v → FieldType.string.Holds v

/-- A node of a directory, as far as it is looked at. -/
def etcdNode : Struct := .field "key" .string .nil

/-- An answer with a directory. -/
def etcdDirectory : Struct :=
  .field "node" (.element (.field "nodes" (.vector (.element etcdNode)) .nil)) .nil

/-- The replies that `List` copes with: the HTTP client's error, a text that is no JSON, an error
of etcd, an index of -1, and a directory with an index. -/
def ListReplyOk (parse : Bytes → Except (Nat × Nat) Json) (r : EtcdReply) : Prop :=
  r.argErrMsg = [] → ∀ jsonDoc, parse (cString r.respStr) = .ok jsonDoc →
    (∃ members, jsonDoc = .object members) ∧
    match jsonDoc.member "errorCode" with
    | some errorCode => ErrorAnswer jsonDoc errorCode
    | none => ∃ text, r.respHeaders.kvs etcdIndexKey = some text ∧
      (stoll text = some (-1) ∨
        (∃ i, decimal text = some i ∧ (i : Int) < 2 ^ 63) ∧ etcdDirectory.Typed jsonDoc)

/-! ## The accessors -/

namespace Json

theorem findMember_object (members : List (String × Json)) (name : String) :
    (object members).findMember name = .ok ((object members).member name) := rfl

end Json

/-- A node that the loop gets past. -/
theorem etcdNode_holds_iff {n : Json} : (ElementType.element etcdNode).Holds n ↔
    (∃ members, n = .object members) ∧ ∀ v, n.member "key" = some v → FieldType.string.Holds v := by
  cases n <;> simp [ElementType.Holds, etcdNode, Struct.Typed]

theorem nodeKeys_ok_iff (nodes : List Json) (keys : List Bytes) :
    (∃ keys', nodeKeys nodes keys = .ok keys') ↔
      ∀ n ∈ nodes, (ElementType.element etcdNode).Holds n := by
  induction nodes generalizing keys with
  | nil => simp [nodeKeys]
  | cons n nodes ih =>
    rw [List.forall_mem_cons, etcdNode_holds_iff]
    cases n with
    | object members =>
      simp only [nodeKeys, Json.findMember_object, ok_bind]
      cases (Json.object members).member "key" with
      | none => simp [ih]
      | some v =>
        cases v with
        | string key => simp [Json.getString, ih, FieldType.Holds, ok_bind]
        | null | bool b | number n | double d | array vs | object members =>
          simp [Json.getString, FieldType.Holds, error_bind]
    | null | bool b | number n | double d | string bytes | array vs =>
      simp [nodeKeys, Json.findMember, error_bind]

theorem directoryKeys_ok_iff (members : List (String × Json)) :
    (∃ keys, directoryKeys (.object members) = .ok keys) ↔
      etcdDirectory.Typed (.object members) := by
  simp only [directoryKeys, Json.findMember_object, ok_bind, etcdDirectory, Struct.Typed, and_true]
  cases (Json.object members).member "node" with
  | none => simp
  | some node =>
    cases node with
    | object members =>
      simp only [Json.getObject, ok_bind, Json.findMember_object, FieldType.Holds, Struct.Typed,
        Option.some.injEq, forall_eq', Json.object.injEq, exists_eq_left', and_true]
      cases (Json.object members).member "nodes" with
      | none => simp
      | some nodes =>
        cases nodes with
        | array vs => simpa [Json.getArray, ok_bind, FieldType.Holds] using nodeKeys_ok_iff vs []
        | null | bool b | number n | double d | string bytes | object members =>
          simp [Json.getArray, error_bind]
    | null | bool b | number n | double d | string bytes | array vs =>
      simp [Json.getObject, error_bind, FieldType.Holds]

theorem errorMsg_ne_nil (errorCode : Nat) : errorMsg errorCode ≠ [] := by
  intro h
  exact absurd (List.append_eq_nil_iff.mp h).1 (by decide)

/-- The branch of an `errorCode` returns for an error as etcd writes it, and reports one. -/
theorem errorCall_iff (members : List (String × Json)) (errorCode : Json) (p : ListCall → Prop) :
    (∃ call, errorCall (.object members) errorCode = .ok call ∧ (call.errMsg = [] → p call)) ↔
      ErrorAnswer (.object members) errorCode := by
  unfold errorCall ErrorAnswer
  cases errorCode with
  | number n =>
    simp only [Json.getUint64, Json.findMember_object, Json.number.injEq, exists_eq_left']
    by_cases hn : 0 ≤ n ∧ n < 18446744073709551616
    · rw [if_pos hn, ok_bind, ok_bind]
      refine Iff.trans ?_ (and_iff_right hn).symm
      cases (Json.object members).member "message" with
      | none => simp [errorMsg_ne_nil]
      | some message =>
        cases message with
        | string bytes => simp [Json.getString, ok_bind, FieldType.Holds, errorMsg_ne_nil]
        | null | bool b | number n | double d | array vs | object members =>
          simp [Json.getString, error_bind, FieldType.Holds]
    · rw [if_neg hn, error_bind]
      simp only [reduceCtorEq, false_and, exists_false, false_iff]
      exact fun h => hn h.1
  | null | bool b | double d | string bytes | array vs | object members =>
    simp [Json.getUint64, error_bind]

/-- The sum does not leave the type. -/
theorem toNat_next_index {i : Nat} (hi : (i : Int) < 2 ^ 63) :
    (Int64.ofInt i + 1).toUInt64.toNat = i + 1 := by
  have hlt : i + 1 < 2 ^ 64 := by omega
  have hnat : (UInt64.ofNat (i + 1)).toNat = i + 1 := UInt64.toNat_ofNat_of_lt hlt
  have hsum : Int64.ofInt i + 1 = Int64.ofInt (UInt64.ofNat (i + 1)).toNat := by
    rw [hnat, Int.natCast_add, Int64.ofInt_add]
    rfl
  rw [hsum, IntType.ofInt_uint64, hnat]

/-- What `stoll` makes of a decimal number. -/
theorem decimal_of_stoll {text : Bytes} {n : Int64} {i : Nat} (hstoll : stoll text = some n)
    (hdecimal : decimal text = some i) : (i : Int) < 2 ^ 63 ∧ n = Int64.ofInt i := by
  rw [stoll_of_decimal hdecimal] at hstoll
  split at hstoll
  next hi => exact ⟨hi, (Option.some.inj hstoll).symm⟩
  next => cases hstoll

theorem invalidIndex_ne_nil (text : Bytes) : bytes "invalid etcdIndex " ++ text ≠ [] := by
  intro h
  exact absurd (List.append_eq_nil_iff.mp h).1 (by decide)

theorem indexCall_iff (respHeaders : Map) (members : List (String × Json)) :
    (∃ call, indexCall respHeaders (.object members) = .ok call ∧
      (call.errMsg = [] → ∃ text i, respHeaders.kvs etcdIndexKey = some text ∧
        decimal text = some i ∧ call.afterIndex.toNat = i + 1)) ↔
      ∃ text, respHeaders.kvs etcdIndexKey = some text ∧
        (stoll text = some (-1) ∨
          (∃ i, decimal text = some i ∧ (i : Int) < 2 ^ 63) ∧
            etcdDirectory.Typed (.object members)) := by
  unfold indexCall Map.get
  cases respHeaders.kvs etcdIndexKey with
  | none => simp [error_bind]
  | some text =>
    simp only [ok_bind, Option.some.injEq, exists_eq_left']
    cases hstoll : stoll text with
    | none =>
      refine iff_of_false ?_ ?_
      · rintro ⟨call, hcall, -⟩
        cases hcall
      · rintro (hminus | ⟨⟨i, hi, hlt⟩, -⟩)
        · cases hminus
        · rw [stoll_of_decimal hi, if_pos hlt] at hstoll
          cases hstoll
    | some n =>
      simp only
      by_cases hn : n = -1
      · subst hn
        rw [if_pos rfl]
        exact iff_of_true ⟨_, rfl, fun h => absurd h (invalidIndex_ne_nil text)⟩ (.inl rfl)
      · rw [if_neg hn, ← directoryKeys_ok_iff members]
        cases directoryKeys (.object members) with
        | error e =>
          refine iff_of_false ?_ ?_
          · rintro ⟨call, hcall, -⟩
            cases hcall
          · rintro (hminus | ⟨-, keys, hkeys⟩)
            · exact hn (Option.some.inj hminus)
            · cases hkeys
        | ok keys =>
          constructor
          · rintro ⟨call, hcall, hindex⟩
            cases hcall
            obtain ⟨text', i, rfl, hi, -⟩ := hindex rfl
            exact .inr ⟨⟨i, hi, (decimal_of_stoll hstoll hi).1⟩, keys, rfl⟩
          · rintro (hminus | ⟨⟨i, hi, hlt⟩, -⟩)
            · exact absurd (Option.some.inj hminus) hn
            · refine ⟨_, rfl, fun _ => ⟨text, i, rfl, hi, ?_⟩⟩
              rw [(decimal_of_stoll hstoll hi).2]
              exact toNat_next_index hlt

/-! ## Every reply -/

section

variable (parse : Bytes → Except (Nat × Nat) Json) (handler : ListCall → List Nat → List Nat)

/-- Whatever the handler does to `httpClients_`, the request is erased after it. -/
theorem listLaw_iff_call (id : Nat) (r : EtcdReply) (s : EtcdClients) :
    ListLaw parse handler id r s ↔ ∃ call, listCall parse r = .ok call ∧
      (call.errMsg = [] → ∃ text i, r.respHeaders.kvs etcdIndexKey = some text ∧
        decimal text = some i ∧ call.afterIndex.toNat = i + 1) := by
  unfold ListLaw onListDone
  cases listCall parse r with
  | error e =>
    refine iff_of_false ?_ ?_
    · rintro ⟨t, call, ht, -⟩
      cases ht
    · rintro ⟨call, hcall, -⟩
      cases hcall
  | ok call =>
    constructor
    · rintro ⟨t, call', ht, hcalls, -, hindex⟩
      cases ht
      obtain rfl : call = call' := List.singleton_inj.mp (List.append_cancel_left hcalls)
      exact ⟨call, rfl, hindex⟩
    · rintro ⟨call', hcall, hindex⟩
      cases hcall
      refine ⟨_, call, rfl, rfl, ?_, hindex⟩
      intro hid
      exact of_decide_eq_true (List.mem_filter.mp hid).2 rfl

theorem parseErrMsg_ne_nil (respStr : Bytes) (code offset : Nat) :
    parseErrMsg respStr code offset ≠ [] := by
  unfold parseErrMsg
  simp only [List.append_assoc]
  intro h
  exact absurd (List.append_eq_nil_iff.mp h).1 (by decide)

/-- The callback does what it has to exactly for the replies that `List` copes with: an error of
the HTTP client; a text that is no JSON; an object with an `errorCode` and a `message` of their
types; an object and a header that `stoll` reads -1 from; a directory and a header with a decimal
number. -/
theorem listLaw_iff (id : Nat) (r : EtcdReply) (s : EtcdClients) :
    ListLaw parse handler id r s ↔ ListReplyOk parse r := by
  rw [listLaw_iff_call]
  unfold listCall ListReplyOk
  by_cases hargs : r.argErrMsg = []
  · rw [if_neg (not_not_intro hargs)]
    simp only [hargs, true_imp_iff]
    cases parse (cString r.respStr) with
    | error err =>
      obtain ⟨code, offset⟩ := err
      refine iff_of_true ⟨_, rfl, fun h => ?_⟩ (fun jsonDoc hdoc => by cases hdoc)
      exact absurd h (parseErrMsg_ne_nil r.respStr code offset)
    | ok jsonDoc =>
      simp only [Except.ok.injEq, forall_eq']
      cases jsonDoc with
      | object members =>
        rw [Json.findMember_object, ok_bind]
        refine Iff.trans ?_ (and_iff_right ⟨members, rfl⟩).symm
        cases (Json.object members).member "errorCode" with
        | some errorCode => exact errorCall_iff members errorCode _
        | none => exact indexCall_iff r.respHeaders members
      | null | bool b | number n | double d | string bytes | array vs =>
        simp [Json.findMember, error_bind]
  · rw [if_pos hargs]
    exact iff_of_true ⟨_, rfl, fun h => absurd h hargs⟩ fun h => absurd h hargs

end

def emptyBody : Bytes := bytes "\x7b\x7d"

/-- A parser of the empty object. -/
def parseEmpty (text : Bytes) : Except (Nat × Nat) Json :=
  if text = emptyBody then .ok (.object []) else .error (3, 0)

def noHeaders : Map := ⟨fun _ => none⟩

def indexHeader (value : Bytes) : Map :=
  ⟨fun key => if key = etcdIndexKey then some value else none⟩

/-- Without the header, the end of the map is read. A header with something behind the digits is
taken for a number. -/
theorem header_missing :
    listCall parseEmpty ⟨[], noHeaders, emptyBody⟩ = .error .pastEnd ∧
      ¬ ListLaw parseEmpty (fun _ clients => clients) 1 ⟨[], noHeaders, emptyBody⟩ ⟨[1], []⟩ ∧
      listCall parseEmpty ⟨[], indexHeader (bytes "12abc"), emptyBody⟩ = .ok ⟨[], 13, some []⟩ ∧
      ¬ ListLaw parseEmpty (fun _ clients => clients) 1
        ⟨[], indexHeader (bytes "12abc"), emptyBody⟩ ⟨[1], []⟩ := by
  have hpast : listCall parseEmpty ⟨[], noHeaders, emptyBody⟩ = .error .pastEnd := rfl
  have htaken : listCall parseEmpty ⟨[], indexHeader (bytes "12abc"), emptyBody⟩ =
      .ok ⟨[], 13, some []⟩ := by decide +kernel
  refine ⟨hpast, ?_, htaken, ?_⟩
  · rw [listLaw_iff_call, hpast]
    rintro ⟨call, hcall, -⟩
    cases hcall
  · rw [listLaw_iff_call, htaken]
    rintro ⟨call, hcall, hindex⟩
    cases hcall
    obtain ⟨text, i, htext, hi, -⟩ := hindex rfl
    obtain rfl : bytes "12abc" = text := Option.some.inj htext
    rw [show decimal (bytes "12abc") = none by decide +kernel] at hi
    cases hi

/-! ## The replies of `ListWatch` -/

theorem bytes_append (s t : String) : bytes (s ++ t) = bytes s ++ bytes t := by
  unfold bytes
  rw [String.toList_append, List.map_append]

theorem bytes_eq_nil_iff {s : String} : bytes s = [] ↔ s = "" := by
  unfold bytes
  rw [List.map_eq_nil_iff, String.toList_eq_nil_iff]

/-- A member that is a C string, or is not there. -/
def StringMember (obj : Json) (name : String) (text : Option String) : Prop :=
  obj.member name = text.map (fun text => .string (bytes text)) ∧ ∀ t ∈ text, 0 ∉ bytes t

def NodeHas (n : Json) (key : Option String) : Prop :=
  (∃ members, n = .object members) ∧ StringMember n "key" key

/-- The directory of the document has these nodes. -/
def DirectoryHas (jsonDoc : Json) (nodes : List (Option String)) : Prop :=
  match jsonDoc.member "node" with
  | none => nodes = []
  | some node => (∃ members, node = .object members) ∧
    match node.member "nodes" with
    | none => nodes = []
    | some v => ∃ ns, v = .array ns ∧ List.Forall₂ NodeHas ns nodes

/-- The fields of `ListReply` are those of the reply. -/
structure EtcdReply.Reads (parse : Bytes → Except (Nat × Nat) Json) (r : EtcdReply)
    (l : ListReply) : Prop where
  args : r.argErrMsg = bytes l.argErrMsg
  text : r.respStr = bytes l.respStr
  failed : ∀ err, l.parseError = some err → parse (cString r.respStr) = .error err
  document : l.parseError = none → ∃ members, parse (cString r.respStr) = .ok (.object members) ∧
    match l.errorCode with
    | some errorCode => (Json.object members).member "errorCode" = some (.number errorCode) ∧
      errorCode < 18446744073709551616 ∧ StringMember (.object members) "message" l.message
    | none => (Json.object members).member "errorCode" = none ∧
      r.respHeaders.kvs etcdIndexKey = some (bytes l.etcdIndexStr) ∧
      (stoll (bytes l.etcdIndexStr)).map Int64.toInt = l.etcdIndex ∧
      DirectoryHas (.object members) l.nodes

theorem getString_bytes {s : String} (h : 0 ∉ bytes s) :
    Json.getString (.string (bytes s)) = .ok (bytes s) :=
  congrArg Except.ok (cString_eq_self.mpr h)

theorem nodeKeys_of_forall₂ {ns : List Json} {nodes : List (Option String)}
    (h : List.Forall₂ NodeHas ns nodes) (keys : List Bytes) :
    nodeKeys ns keys = .ok (keys ++ (nodes.filterMap id).map bytes) := by
  induction h generalizing keys with
  | nil => simp [nodeKeys]
  | @cons n key ns nodes hn _ ih =>
    obtain ⟨⟨members, rfl⟩, hmember, hnul⟩ := hn
    rw [nodeKeys, Json.findMember_object, ok_bind, hmember]
    cases key with
    | none => exact ih keys
    | some key =>
      have hkeys : keys ++ [bytes key] ++ (nodes.filterMap id).map bytes =
          keys ++ ((some key :: nodes).filterMap id).map bytes := by simp
      rw [Option.map_some, ← hkeys, ← ih (keys ++ [bytes key])]
      simp only [getString_bytes (hnul key rfl), ok_bind]

theorem directoryKeys_of_has {members : List (String × Json)} {nodes : List (Option String)}
    (h : DirectoryHas (.object members) nodes) :
    directoryKeys (.object members) = .ok ((nodes.filterMap id).map bytes) := by
  unfold DirectoryHas at h
  rw [directoryKeys, Json.findMember_object, ok_bind]
  cases hnode : (Json.object members).member "node" with
  | none =>
    rw [hnode] at h
    obtain rfl : nodes = [] := h
    rfl
  | some node =>
    rw [hnode] at h
    obtain ⟨⟨members, rfl⟩, h⟩ := h
    simp only [Json.getObject, ok_bind, Json.findMember_object]
    cases hnodes : (Json.object members).member "nodes" with
    | none =>
      rw [hnodes] at h
      obtain rfl : nodes = [] := h
      rfl
    | some v =>
      rw [hnodes] at h
      obtain ⟨ns, rfl, h⟩ := h
      exact nodeKeys_of_forall₂ h []

/-- The sum of `int64_t` as the argument of the handler. -/
theorem toUInt64_add_one (n : Int64) : (n + 1).toUInt64 = UInt64.ofInt (n.toInt + 1) := by
  rw [UInt64.ofInt_add, ← IntType.toUInt64_ofInt, Int64.ofInt_toInt, Int64.toUInt64_add]
  rfl

theorem getUint64_number {n : Nat} (h : n < 18446744073709551616) :
    Json.getUint64 (.number n) = .ok n := by
  rw [Json.getUint64, if_pos ⟨Int.natCast_nonneg n, Int.ofNat_lt.mpr h⟩, Int.toNat_natCast]

theorem errorCall_of_message {members : List (String × Json)} {errorCode : Nat}
    {message : Option String} (hlt : errorCode < 18446744073709551616)
    (h : StringMember (.object members) "message" message) :
    errorCall (.object members) (.number errorCode) =
      .ok ⟨errorMsg errorCode ++ message.elim [] fun message =>
        bytes " message: " ++ bytes message, 0, none⟩ := by
  obtain ⟨hmessage, hnul⟩ := h
  simp only [errorCall, getUint64_number hlt, ok_bind, Json.findMember_object, hmessage]
  cases message with
  | none => simp only [Option.map_none, Option.elim_none, List.append_nil]
  | some message =>
    simp only [Option.map_some, getString_bytes (hnul message rfl), ok_bind, Option.elim_some,
      List.append_assoc]

theorem indexCall_of_directory {respHeaders : Map} {members : List (String × Json)} {text : Bytes}
    {nodes : List (Option String)} (hheader : respHeaders.kvs etcdIndexKey = some text)
    (hdirectory : DirectoryHas (.object members) nodes) :
    indexCall respHeaders (.object members) =
      match stoll text with
      | none => .error .throws
      | some n =>
        if n = -1 then .ok ⟨bytes "invalid etcdIndex " ++ text, 0, none⟩
        else .ok ⟨[], (n + 1).toUInt64, some ((nodes.filterMap id).map bytes)⟩ := by
  simp only [indexCall, Map.get, hheader, ok_bind, directoryKeys_of_has hdirectory]

/-- `ListReply.onDone` has the calls of the handler for the replies that it reads. -/
theorem listCall_of_reads {parse : Bytes → Except (Nat × Nat) Json} {r : EtcdReply}
    {l : ListReply} (h : r.Reads parse l) :
    listCall parse r =
      match l.onDone with
      | none => .error .throws
      | some (errMsg, afterIndex, keys) =>
        .ok ⟨bytes errMsg, afterIndex, keys.map fun keys => keys.map bytes⟩ := by
  obtain ⟨hargs, htext, hfailed, hdocument⟩ := h
  unfold listCall ListReply.onDone
  rw [hargs]
  by_cases hempty : l.argErrMsg = ""
  · rw [if_neg (not_not_intro (bytes_eq_nil_iff.mpr hempty)), if_neg (not_not_intro hempty)]
    cases hparse : l.parseError with
    | some err =>
      obtain ⟨code, offset⟩ := err
      rw [hfailed _ hparse]
      simp only [parseErrMsg, htext, bytes_append, Option.map_none]
    | none =>
      obtain ⟨members, hp, hmembers⟩ := hdocument hparse
      rw [hp]
      simp only [Json.findMember_object, ok_bind]
      cases herror : l.errorCode with
      | some errorCode =>
        rw [herror] at hmembers
        obtain ⟨hcode, hlt, hmessage⟩ := hmembers
        rw [hcode]
        simp only [errorCall_of_message hlt hmessage]
        cases l.message with
        | none => simp [errorMsg, bytes_append]
        | some message => simp [errorMsg, bytes_append]
      | none =>
        rw [herror] at hmembers
        obtain ⟨hcode, hheader, hindex, hdirectory⟩ := hmembers
        rw [hcode]
        simp only [indexCall_of_directory hheader hdirectory, ← hindex]
        cases stoll (bytes l.etcdIndexStr) with
        | none => rfl
        | some n =>
          simp only [Option.map_some]
          by_cases hn : n = -1
          · subst hn
            rw [if_pos rfl, if_pos (show (-1 : Int64).toInt = -1 by decide), bytes_append]
            rfl
          · have hne : n.toInt ≠ -1 := fun h => hn (Int64.toInt_inj.mp h)
            rw [if_neg hn, if_neg hne, toUInt64_add_one]
            rfl
  · rw [if_pos fun h => hempty (bytes_eq_nil_iff.mp h), if_pos hempty]
    rfl

end Sheep
