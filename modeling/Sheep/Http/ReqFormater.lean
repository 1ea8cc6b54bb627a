import Sheep.Http.RespParser
import Sheep.Http.UrlCode
import Sheep.Lib.OrderedMap

/-!
# `ReqFormater`

The request formater (`extends/small_http_parser/req_formater.cpp`). `Format` appends the query
string to `target_`, files the host and the length of the body under `headers_`, and writes the
request from there. The keys of a `Map` are in order.

`query_reads_back`: whoever splits the query string at its separators and decodes the parts gets
the entries of the map.
-/

namespace Sheep

/-- The `std::map` of a `Map`. -/
abbrev Kvs := OrderedMap Bytes Bytes

/-- The `Map` as the response parser uses it. -/
def Map.ofKvs (kvs : Kvs) : Map := ⟨kvs.find⟩

/-- `Map::Set` is `insert`. -/
theorem Map.ofKvs_insert (kvs : Kvs) (key value : Bytes) :
    Map.ofKvs (kvs.insert key value) = (Map.ofKvs kvs).set key value := by
  unfold Map.set Map.ofKvs
  cases hfind : kvs.find key with
  | some _ =>
    rw [OrderedMap.insert_of_find hfind]
    simp only [hfind]
  | none =>
    simp only [hfind, Map.mk.injEq]
    funext k
    rw [OrderedMap.find_insert hfind, Function.update_apply]
    exact ite_congr rfl (fun _ => rfl) fun _ => rfl

structure ReqFormater where
  method : Bytes
  host : Bytes
  target : Bytes
  body : Bytes
  result : Bytes
  headers : Kvs
  queryStrings : Kvs

namespace ReqFormater

def methodPOST : Bytes := bytes "POST"

def methodPUT : Bytes := bytes "PUT"

def lr : Bytes := bytes "\r\n"

def hostField : Bytes := bytes "Host"

def contentLength : Bytes := bytes "Content-Length"

def new (method target body : Bytes) : ReqFormater :=
  ⟨method, [], target, body, [], .empty, .empty⟩

/-- The loop over the query strings, which appends to `target`. -/
def appendQuery (first : Bool) (target : Bytes) : List (Bytes × Bytes) → Bytes
  | [] => target
  | (key, value) :: rest =>
    let flag := if first then bytes "?" else bytes "&"
    appendQuery false (target ++ (flag ++ urlEncode key ++ bytes "=" ++ urlEncode value)) rest

/-- The loop over the headers, which appends to `result`. -/
def appendHeaders (result : Bytes) : List (Bytes × Bytes) → Bytes
  | [] => result
  | (name, value) :: rest => appendHeaders (result ++ (name ++ bytes ": " ++ value ++ lr)) rest

/-- The methods that `Format` sends the body for. -/
def hasBody (f : ReqFormater) : Bool := f.method = methodPUT || f.method = methodPOST

/-- The headers after `Format` has set the host. -/
def hostHeaders (f : ReqFormater) : Kvs :=
  if f.host ≠ [] then f.headers.insert hostField f.host else f.headers

/-- The headers after `Format` has set the host and the length. -/
def sentHeaders (f : ReqFormater) : Kvs :=
  if f.hasBody then f.hostHeaders.insert contentLength (bytes (toString f.body.length))
  else f.hostHeaders

/-- `Format`: the formater after it, with the text in `result`. -/
def format (f : ReqFormater) : ReqFormater :=
  let target := appendQuery true f.target f.queryStrings.entries
  let result := f.method ++ bytes " " ++ target ++ bytes " HTTP/1.1" ++ lr
  let headers := f.sentHeaders
  let result := appendHeaders result headers.entries ++ lr
  let result := if f.hasBody then result ++ f.body else result
  { f with target := target, headers := headers, result := result }

def setHost (f : ReqFormater) (host : Bytes) : ReqFormater := { f with host := host }

def setHeader (f : ReqFormater) (map : Kvs) : ReqFormater := { f with headers := map }

def setQueryString (f : ReqFormater) (map : Kvs) : ReqFormater := { f with queryStrings := map }

/-! ## What is written -/

/-- A query string without its flag. -/
def queryPiece (kv : Bytes × Bytes) : Bytes := urlEncode kv.1 ++ '='.toUInt8 :: urlEncode kv.2

/-- What is appended to the target. -/
def queryText : List (Bytes × Bytes) → Bytes
  | [] => []
  | kvs => '?'.toUInt8 :: ['&'.toUInt8].intercalate (kvs.map queryPiece)

theorem queryText_cons (kv : Bytes × Bytes) (rest : List (Bytes × Bytes)) :
    queryText (kv :: rest) =
      '?'.toUInt8 :: ['&'.toUInt8].intercalate ((kv :: rest).map queryPiece) := rfl

def headerLine (header : Bytes × Bytes) : Bytes := header.1 ++ bytes ": " ++ header.2 ++ lr

theorem appendQuery_false (target : Bytes) (kvs : List (Bytes × Bytes)) :
    appendQuery false target kvs =
      target ++ kvs.flatMap fun kv => '&'.toUInt8 :: queryPiece kv := by
  induction kvs generalizing target with
  | nil => exact (List.append_nil target).symm
  | cons kv rest ih =>
    rw [appendQuery, ih, List.flatMap_cons]
    simp [queryPiece, bytes]

theorem intercalate_cons (sep : UInt8) (piece : Bytes) (pieces : List Bytes) :
    [sep].intercalate (piece :: pieces) = piece ++ pieces.flatMap (sep :: ·) := by
  induction pieces generalizing piece with
  | nil => simp
  | cons next rest ih =>
    rw [List.intercalate_cons_cons, ih, List.flatMap_cons]
    simp

theorem appendQuery_true (target : Bytes) (kvs : List (Bytes × Bytes)) :
    appendQuery true target kvs = target ++ queryText kvs := by
  cases kvs with
  | nil => exact (List.append_nil target).symm
  | cons kv rest =>
    rw [appendQuery, appendQuery_false, queryText_cons, List.map_cons, intercalate_cons,
      List.flatMap_map]
    simp [queryPiece, bytes]

theorem appendHeaders_eq (result : Bytes) (headers : List (Bytes × Bytes)) :
    appendHeaders result headers = result ++ headers.flatMap headerLine := by
  induction headers generalizing result with
  | nil => exact (List.append_nil result).symm
  | cons header rest ih =>
    rw [appendHeaders, ih, List.flatMap_cons, List.append_assoc]
    rfl

/-- The target after `Format`. -/
theorem format_target (f : ReqFormater) :
    f.format.target = f.target ++ queryText f.queryStrings.entries :=
  appendQuery_true _ _

/-- The text that `Format` returns. -/
theorem format_result (f : ReqFormater) :
    f.format.result =
      f.method ++ bytes " " ++ f.format.target ++ bytes " HTTP/1.1" ++ lr ++
        f.sentHeaders.entries.flatMap headerLine ++ lr ++ if f.hasBody then f.body else [] := by
  show (if f.hasBody then appendHeaders _ _ ++ lr ++ f.body else appendHeaders _ _ ++ lr) = _
  rw [appendHeaders_eq]
  split
  next => rfl
  next => exact (List.append_nil _).symm

/-! ## Reading the query string -/

/-- A piece between two separators, split at its first `=` and decoded. -/
def readPiece (piece : Bytes) : Option (Bytes × Bytes) :=
  (splitFirst '='.toUInt8 piece).map fun (key, value) => (urlDecode key, urlDecode value)

/-- The text of a query string that gives the entries back. -/
structure ReadsBack (kvs : List (Bytes × Bytes)) (text : Bytes) : Prop where
  empty : kvs = [] → text = []
  pieces : kvs ≠ [] → ∃ rest, text = '?'.toUInt8 :: rest ∧
    (rest.splitOn '&'.toUInt8).map readPiece = kvs.map some ∧
    ∀ piece ∈ rest.splitOn '&'.toUInt8, ∀ key value,
      splitFirst '='.toUInt8 piece = some (key, value) → Encoded key ∧ Encoded value

theorem splitFirst_queryPiece (kv : Bytes × Bytes) :
    splitFirst '='.toUInt8 (queryPiece kv) = some (urlEncode kv.1, urlEncode kv.2) :=
  splitFirst_append ((encoded_urlEncode kv.1).not_mem (by decide)) _

theorem amp_not_mem_queryPiece (kv : Bytes × Bytes) : '&'.toUInt8 ∉ queryPiece kv := by
  unfold queryPiece
  rw [List.mem_append, List.mem_cons]
  rintro (h | h | h)
  · exact (encoded_urlEncode kv.1).not_mem (by decide) h
  · exact absurd h (by decide)
  · exact (encoded_urlEncode kv.2).not_mem (by decide) h

theorem not_mem_queryText {ch : UInt8} (hchar : urlChar ch = false) (hflag : ch ≠ '?'.toUInt8)
    (hamp : ch ≠ '&'.toUInt8) (heq : ch ≠ '='.toUInt8) (kvs : List (Bytes × Bytes)) :
    ch ∉ queryText kvs := by
  have hpiece : ∀ kv, ch ∉ queryPiece kv := by
    intro kv hmem
    rcases List.mem_append.mp hmem with h | h
    · exact (encoded_urlEncode kv.1).not_mem hchar h
    · rcases List.mem_cons.mp h with h | h
      · exact heq h
      · exact (encoded_urlEncode kv.2).not_mem hchar h
  cases kvs with
  | nil => exact List.not_mem_nil
  | cons kv rest =>
    rw [queryText_cons, List.map_cons, intercalate_cons]
    intro hmem
    rcases List.mem_cons.mp hmem with h | h
    · exact hflag h
    · rcases List.mem_append.mp h with h | h
      · exact hpiece kv h
      · obtain ⟨piece, hpiece', hmem⟩ := List.mem_flatMap.mp h
        obtain ⟨kv', -, rfl⟩ := List.mem_map.mp hpiece'
        rcases List.mem_cons.mp hmem with h | h
        · exact hamp h
        · exact hpiece kv' h

theorem readPiece_queryPiece {kv : Bytes × Bytes} (hkey : 0 ∉ kv.1) (hvalue : 0 ∉ kv.2) :
    readPiece (queryPiece kv) = some kv := by
  rw [readPiece, splitFirst_queryPiece]
  simp only [Option.map_some, urlDecode_urlEncode hkey, urlDecode_urlEncode hvalue]

theorem splitOn_pieces {kvs : List (Bytes × Bytes)} (h : kvs ≠ []) :
    (['&'.toUInt8].intercalate (kvs.map queryPiece)).splitOn '&'.toUInt8 =
      kvs.map queryPiece := by
  refine List.splitOn_intercalate _ ?_ fun hnil => h (List.map_eq_nil_iff.mp hnil)
  intro piece hpiece
  obtain ⟨kv, -, rfl⟩ := List.mem_map.mp hpiece
  exact amp_not_mem_queryPiece kv

/-- `Format` appends a text to the target that gives the entries of the map back. -/
theorem query_reads_back (f : ReqFormater)
    (hnul : ∀ kv ∈ f.queryStrings.entries, 0 ∉ kv.1 ∧ 0 ∉ kv.2) :
    ∃ text, f.format.target = f.target ++ text ∧
      (f.method ++ bytes " " ++ f.target ++ text ++ bytes " HTTP/1.1") <+: f.format.result ∧
      ReadsBack f.queryStrings.entries text := by
  refine ⟨queryText f.queryStrings.entries, f.format_target, ?_, ?_, ?_⟩
  · rw [format_result, format_target]
    simp only [List.append_assoc]
    simp
  · intro hnil
    rw [hnil]
    rfl
  · intro hne
    obtain ⟨kv, rest, hcons⟩ := List.exists_cons_of_ne_nil hne
    refine ⟨_, by rw [hcons, queryText_cons], ?_⟩
    rw [← hcons, splitOn_pieces hne]
    constructor
    · rw [List.map_map]
      refine List.map_congr_left fun kv hkv => ?_
      exact readPiece_queryPiece (hnul kv hkv).1 (hnul kv hkv).2
    · intro piece hpiece key value hsplit
      obtain ⟨kv, -, rfl⟩ := List.mem_map.mp hpiece
      rw [splitFirst_queryPiece] at hsplit
      cases hsplit
      exact ⟨encoded_urlEncode _, encoded_urlEncode _⟩

/-- The formater of the test. -/
def testReqFormater : ReqFormater :=
  (((new methodPOST (bytes "/") (bytes "wtf")).setHost (bytes "www.baidu.com")).setHeader
      ((OrderedMap.empty.insert (bytes "Accept") (bytes "*/*")).insert
        (bytes "Connection") (bytes "keep-alive"))).setQueryString
    ((OrderedMap.empty.insert (bytes "a ") (bytes "a")).insert (bytes "b") (bytes "b "))

theorem query_reads_back_test :
    ∃ text, testReqFormater.format.target = testReqFormater.target ++ text ∧
      (testReqFormater.method ++ bytes " " ++ testReqFormater.target ++ text ++
        bytes " HTTP/1.1") <+: testReqFormater.format.result ∧
      ReadsBack testReqFormater.queryStrings.entries text :=
  query_reads_back testReqFormater (by decide)

example : testReqFormater.format.result =
    bytes "POST /?a+=a&b=b+ HTTP/1.1\r\nAccept: */*\r\nConnection: keep-alive\r\n" ++
      bytes "Content-Length: 3\r\nHost: www.baidu.com\r\n\r\nwtf" := by decide

end ReqFormater

end Sheep
