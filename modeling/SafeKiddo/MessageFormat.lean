import SafeKiddo.Lib.WireFormat
import SafeKiddo.Worker

/-!
# The messages of safekiddo.proto

The classes that protoc generates are a parameter: they serialize a message and parse it. Messages
in the order in which they are serialized are an instance.

Results:
1. `safekiddoProto_documented`: what is serialized is parsed back.
-/

namespace SafeKiddo

open ByteString WireFormat

deriving instance DecidableEq for Request

/-! ## 1. Generated classes -/

/-- `SerializeWithCachedSizesToArray` and `ParseFromArray` of both messages. -/
structure Protobuf where
  serializeRequest : Request → Bytes
  parseRequest : Bytes → Option Request
  serializeResponse : Response → Bytes
  parseResponse : Bytes → Option Response

structure Protobuf.Documented (protobuf : Protobuf) : Prop where
  request : ∀ rq, protobuf.parseRequest (protobuf.serializeRequest rq) = some rq
  response : ∀ rs, protobuf.parseResponse (protobuf.serializeResponse rs) = some rs

/-! ## 2. The order of the fields -/

def UserActionCode.number : UserActionCode → Nat
  | .nonIntentionalRequest => 0
  | .intentionalRequest => 1
  | .categoryGroupQuery => 2

def UserActionCode.ofNumber : Nat → Option UserActionCode
  | 0 => some .nonIntentionalRequest
  | 1 => some .intentionalRequest
  | 2 => some .categoryGroupQuery
  | _ => none

def resultCodes : List ResponseCode :=
  [.resOk, .resInternetAccessForbidden, .resCategoryBlockedDefault, .resCategoryBlockedCustom,
    .resCategoryBlockedGlobal, .resUrlBlockedDefault, .resUrlBlockedCustom, .resUrlBlockedGlobal,
    .resIpReputationCheckFailed, .resUnknownUser]

def resultOfNumber (n : Nat) : Option ResponseCode := resultCodes.find? (·.value = n)

/-- An `int32` is written with 64 bits. -/
def int32Varint (n : Int32) : Bytes := varint (n.toInt % 2 ^ 64).toNat

def readInt32 : Reader Int32 := fun text =>
  (readVarint text).map fun (n, rest) => (Int32.ofInt n, rest)

def serializeRequest (rq : Request) : Bytes :=
  key 1 2 :: chunk rq.url ++
    (key 2 2 :: chunk rq.userId ++ key 3 0 :: varint rq.userAction.number)

def parseRequest (text : Bytes) : Option Request := do
  let (url, text) ← readField (key 1 2) readChunk text
  let (userId, text) ← readField (key 2 2) readChunk text
  let (userAction, text) ← readField (key 3 0) readVarint text
  if text.isEmpty then (UserActionCode.ofNumber userAction).map (⟨url, userId, ·⟩) else none

/-- A name and its id, when there are any. -/
def pairFields (nameKey idKey : Byte) : Option (Int32 × Bytes) → Bytes
  | none => []
  | some (id, name) => nameKey :: chunk name ++ idKey :: int32Varint id

def readPair (nameKey idKey : Byte) : Reader (Option (Int32 × Bytes)) := fun text => do
  let (name, text) ← readOptional nameKey readChunk text
  match name with
  | none => some (none, text)
  | some name =>
    let (id, text) ← readField idKey readInt32 text
    some (some (id, name), text)

def serializeResponse (rs : Response) : Bytes :=
  key 1 0 :: varint rs.result.value ++
    (pairFields (key 2 2) (key 3 0) rs.usedProfile ++
      pairFields (key 4 2) (key 5 0) rs.categoryGroup)

def parseResponse (text : Bytes) : Option Response := do
  let (result, text) ← readField (key 1 0) readVarint text
  let result ← resultOfNumber result
  let (usedProfile, text) ← readPair (key 2 2) (key 3 0) text
  let (categoryGroup, text) ← readPair (key 4 2) (key 5 0) text
  if text.isEmpty then some ⟨result, usedProfile, categoryGroup⟩ else none

def safekiddoProto : Protobuf :=
  ⟨serializeRequest, parseRequest, serializeResponse, parseResponse⟩

/-! ## 3. Parsed back -/

theorem ofNumber_number (userAction : UserActionCode) :
    UserActionCode.ofNumber userAction.number = some userAction := by
  cases userAction <;> rfl

theorem resultOfNumber_value (result : ResponseCode) :
    resultOfNumber result.value = some result := by
  cases result <;> decide +kernel

theorem parses_int32 (n : Int32) : Parses readInt32 (int32Varint n) n := by
  intro rest
  have hle := n.le_toInt
  have hlt := n.toInt_lt
  have hsame : Int32.ofInt ((n.toInt % 2 ^ 64).toNat : Int) = n := by
    refine Int32.toInt_inj.mp ?_
    rw [Int.toNat_of_nonneg (Int.emod_nonneg _ (by decide)), Int32.toInt_ofInt, Int.bmod,
      Int32.size]
    omega
  rw [readInt32, int32Varint, parses_varint]
  simp only [Option.map_some, hsame]

theorem parseRequest_serializeRequest (rq : Request) :
    parseRequest (serializeRequest rq) = some rq := by
  have hurl := (parses_chunk rq.url).field (key 1 2)
    (key 2 2 :: chunk rq.userId ++ key 3 0 :: varint rq.userAction.number)
  have huserId := (parses_chunk rq.userId).field (key 2 2)
    (key 3 0 :: varint rq.userAction.number)
  have huserAction := (parses_varint rq.userAction.number).field (key 3 0) []
  rw [List.append_nil] at huserAction
  simp only [parseRequest, serializeRequest, hurl, huserId, huserAction, ofNumber_number,
    Option.bind_eq_bind, Option.bind_some, List.isEmpty_nil, if_true, Option.map_some]

theorem readPair_pairFields {nameKey idKey : Byte} (pair : Option (Int32 × Bytes)) {rest : Bytes}
    (hrest : Ends nameKey rest) :
    readPair nameKey idKey (pairFields nameKey idKey pair ++ rest) = some (pair, rest) := by
  cases pair with
  | none => simp [readPair, pairFields, readOptional_of_ends hrest]
  | some pair =>
    obtain ⟨id, name⟩ := pair
    have hname := (parses_chunk name).optional nameKey (idKey :: int32Varint id ++ rest)
    have hid := (parses_int32 id).field idKey rest
    simp only [readPair, pairFields, List.append_assoc, hname, hid, Option.bind_eq_bind,
      Option.bind_some]

theorem ends_pairFields (pair : Option (Int32 × Bytes)) :
    Ends (key 2 2) (pairFields (key 4 2) (key 5 0) pair) := by
  cases pair with
  | none => nofun
  | some pair =>
    intro b hb
    cases hb
    decide

theorem parseResponse_serializeResponse (rs : Response) :
    parseResponse (serializeResponse rs) = some rs := by
  have hresult := (parses_varint rs.result.value).field (key 1 0)
    (pairFields (key 2 2) (key 3 0) rs.usedProfile ++
      pairFields (key 4 2) (key 5 0) rs.categoryGroup)
  have hprofile := @readPair_pairFields (key 2 2) (key 3 0) rs.usedProfile _
    (ends_pairFields rs.categoryGroup)
  have hgroup := @readPair_pairFields (key 4 2) (key 5 0) rs.categoryGroup [] nofun
  rw [List.append_nil] at hgroup
  simp only [parseResponse, serializeResponse, hresult, resultOfNumber_value, hprofile, hgroup,
    Option.bind_eq_bind, Option.bind_some, List.isEmpty_nil, if_true]

theorem safekiddoProto_documented : safekiddoProto.Documented :=
  ⟨parseRequest_serializeRequest, parseResponse_serializeResponse⟩

end SafeKiddo
