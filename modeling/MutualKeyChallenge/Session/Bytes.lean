import MutualKeyChallenge.Session.Defaults
import MutualKeyChallenge.Session.Legs
import MutualKeyChallenge.Wire.JsonText

/-! The same formats as bytes: what either side writes is what the other side reads. -/
namespace MutualKeyChallenge

/-- How a double is read from a numeral and written. No message here holds a number. -/
structure NumberText where
  toDouble : List Char → UInt64
  ofDouble : UInt64 → List Char

/-- `JSON.parse` on any text. -/
def NumberText.parser (numbers : NumberText) : JsonParser := JsonText.parser numbers.toDouble

/-- A value as it is sent, stringified and in UTF-8. -/
def Json.bytes (numbers : NumberText) (value : Json) : Bytes :=
  Utf8.encode (JsonText.stringify numbers.ofDouble value)

/-- What `send` sends of a JSON value or of a text. -/
def ResponseBody.bytes (numbers : NumberText) : ResponseBody → Bytes
  | .json value => value.bytes numbers
  | .text message => Utf8.encode message.toList

/-- The package's `express.json()`: how many bytes a body may have, and what it reads from the
bytes of a body announced as JSON. On `none` it answers itself, and no handler of the application
sees the request. -/
structure ExpressJson where
  limit : ℕ
  read : Bytes → Option Json

/-- The option `strict`, on by default, is for these. -/
def Json.Structured : Json → Prop
  | .array _ => True
  | .object _ => True
  | _ => False

/-- What is documented of it: a body within the limit that is the text of an array or an object is
parsed, and a body over the limit is refused. -/
structure ExpressJson.Documented (express : ExpressJson) (numbers : NumberText) : Prop where
  takes : ∀ bytes value, bytes.length ≤ express.limit →
    numbers.parser.parse (Utf8.decode bytes) = .ok value → value.Structured →
      express.read bytes = some value
  refuses : ∀ bytes, express.limit < bytes.length → express.read bytes = none

/-- The body of a request is within the limit. -/
def ExpressJson.Fits (express : ExpressJson) (numbers : NumberText) (data : RequestData) : Prop :=
  (data.body.bytes numbers).length ≤ express.limit

/-- The request as it arrives, its body read from its bytes. -/
def RequestData.receivedBytes (numbers : NumberText) (express : ExpressJson) (data : RequestData)
    (reference : ℕ) : Option HttpRequest :=
  (express.read (data.body.bytes numbers)).map fun body => { data with body }.received reference

namespace Session
open JsonText
variable {K : Type} {numbers : NumberText} {express : ExpressJson} {node : NodeBuffer}
  {value : Json}

theorem parse_value (hvalue : Reads numbers.toDouble numbers.ofDouble value) :
    numbers.parser.parse (Utf8.decode (value.bytes numbers)) = .ok value := by
  rw [Json.bytes, Utf8.decode_encode]
  exact parse_stringify hvalue

/-! Everything that is sent can be read. -/

theorem reads_signed {toDouble : List Char → UInt64} {ofDouble : UInt64 → List Char}
    (message signature : Bytes) :
    Reads toDouble ofDouble
      (.object [("message", toBase64 message), ("signature", toBase64 signature)]) := by
  refine reads_object ?_ (by simp)
  intro f hf
  rcases List.mem_pair.mp hf with rfl | rfl
  · exact reads_string _
  · exact reads_string _

theorem reads_format {toDouble : List Char → UInt64} {ofDouble : UInt64 → List Char} (leg : Leg)
    (message : ClientSignedMessage (List Char) Bytes) :
    Reads toDouble ofDouble (formatAsBase64Json leg.messageField message) := by
  refine reads_object ?_ (by cases leg <;> simp [Leg.messageField])
  intro f hf
  rcases List.mem_pair.mp hf with rfl | rfl
  · exact reads_string _
  · exact reads_signed _ _

theorem reads_challenge_json {toDouble : List Char → UInt64} {ofDouble : UInt64 → List Char}
    (challenge : ServerChallenge Bytes) : Reads toDouble ofDouble challenge.toJson := by
  refine reads_object ?_ (by simp)
  intro f hf
  rcases List.mem_pair.mp hf with rfl | rfl
  · exact reads_signed _ _
  · exact reads_signed _ _

theorem reads_token {toDouble : List Char → UInt64} {ofDouble : UInt64 → List Char}
    (token : List Char) : Reads toDouble ofDouble (.object [("token", .string token)]) := by
  refine reads_object ?_ (by simp)
  intro f hf
  cases List.mem_singleton.mp hf
  exact reads_string _

section Replies
variable {token : MockUser → Option (List Char)} {response : HttpResponse} {body : ResponseBody}
  {v : Verdict MockUser K Bytes} {challenge : ServerChallenge Bytes}

theorem reads_reply {r : AuthResult K} (hr : authenticateRouter token r = some response)
    (hbody : response.body = .json value) : Reads numbers.toDouble numbers.ofDouble value := by
  unfold authenticateRouter at hr
  split at hr
  · cases hr
    cases hbody
    exact reads_challenge_json _
  · cases hr
  · split at hr
    · cases hr
      cases hbody
    · split at hr
      · cases hr
        cases hbody
      · obtain ⟨t, _, rfl⟩ := Option.map_eq_some_iff.mp hr
        cases hbody
        exact reads_token t

/-- Parsing the bytes is parsing what was sent. -/
theorem parse_bytes
    (hbody : ∀ value, body = .json value → Reads numbers.toDouble numbers.ofDouble value) :
    numbers.parser.parse (Utf8.decode (body.bytes numbers)) = numbers.parser.parseBody body := by
  cases body with
  | json value => exact parse_value (hbody value rfl)
  | text message => rw [ResponseBody.bytes, Utf8.decode_encode, JsonParser.parseBody]

/-- The client makes the same of the bytes as of what was sent. -/
theorem extractBuffer_bytes
    (hbody : ∀ value, body = .json value → Reads numbers.toDouble numbers.ofDouble value) :
    extractBuffer node numbers.parser (body.bytes numbers) =
      extractByBase64Json node numbers.parser body := by
  have hparse :
      numbers.parser.parseBody (.text (String.ofList (Utf8.decode (body.bytes numbers)))) =
        numbers.parser.parseBody body := by
    rw [JsonParser.parseBody, String.toList_ofList, parse_bytes hbody]
  simp only [extractBuffer, extractByBase64Json, hparse]

/-- A text that begins with a capital is no challenge, and neither is a token. -/
theorem extract_reply (hcapital : ∀ error, v = .error error → Capital error.message)
    (hr : authenticateRouter token (.ofVerdict v) = some response) :
    extractByBase64Json node numbers.parser response.body = .ok challenge ↔
      ∃ status, v = .fail challenge status ∧ status ≠ 0 := by
  cases v with
  | success user info =>
    obtain ⟨t, _, rfl⟩ := Option.map_eq_some_iff.mp hr
    constructor
    · intro h
      cases h
    · rintro ⟨status, h, _⟩
      cases h
  | fail sent status =>
    by_cases hs : status = 0
    · subst hs
      cases hr
      rw [extractByBase64Json_text (c := 'U') rfl (by decide) (by decide)]
      constructor
      · intro h
        cases h
      · rintro ⟨_, h, hs⟩
        cases h
        exact (hs rfl).elim
    · rw [authenticateRouter_challenge rfl rfl hs] at hr
      cases hr
      rw [extract_toJson]
      constructor
      · intro h
        cases h
        exact ⟨status, rfl, hs⟩
      · rintro ⟨_, h, _⟩
        cases h
        rfl
  | error error =>
    cases hr
    obtain ⟨c, text, hm, h1, h2⟩ := hcapital error rfl
    rw [extractByBase64Json_text hm h1 h2]
    constructor
    · intro h
      cases h
    · rintro ⟨status, h, _⟩
      cases h

end Replies

/-! The requests. -/

section Requests
variable {leg : Leg} {message : ClientSignedMessage (List Char) Bytes} {o : HandshakeRequestOptions}
  {reference : ℕ} {req : HttpRequest}

/-- A formatted request within the limit arrives with the message it was made of. -/
theorem receivedBytes_format (hdoc : express.Documented numbers)
    (hfits : express.Fits numbers (formatRequest leg.messageField message o.toRequestOptions)) :
    (formatRequest leg.messageField message o.toRequestOptions).receivedBytes numbers express
      reference = some (jsonRequest leg.messageField message reference) := by
  have hread : express.read
      ((formatRequest leg.messageField message o.toRequestOptions).body.bytes numbers) =
      some (formatAsBase64Json leg.messageField message) :=
    hdoc.takes _ _ hfits (parse_value (reads_format leg message)) trivial
  rw [RequestData.receivedBytes, hread]
  exact congrArg some (formatRequest_received leg.messageField message o reference)

theorem fits_of_received (hdoc : express.Documented numbers) {data : RequestData}
    (h : data.receivedBytes numbers express reference = some req) : express.Fits numbers data := by
  by_contra hover
  rw [RequestData.receivedBytes, hdoc.refuses _ (Nat.lt_of_not_le hover)] at h
  cases h

theorem received_format (hdoc : express.Documented numbers)
    (h : (formatRequest leg.messageField message o.toRequestOptions).receivedBytes numbers express
      reference = some req) : req = jsonRequest leg.messageField message reference := by
  have hfits := fits_of_received hdoc h
  exact Option.some.inj (h.symm.trans (receivedBytes_format hdoc hfits))

end Requests

/-- The requests that reach the application are those within the limit of `express.json()`, and
from the bytes of either kind the server reads what the client wrote. The client reads from the
bytes of a reply the challenge that it carries, and none from any other reply. -/
structure BytesRoundTrip (numbers : NumberText) (express : ExpressJson) (node : NodeBuffer) :
    Prop where
  request : ∀ (leg : Leg) (message : ClientSignedMessage (List Char) Bytes)
    (o : HandshakeRequestOptions) (reference now : ℕ),
      let data := formatRequest leg.messageField message o.toRequestOptions
      ((data.receivedBytes numbers express reference).isSome ↔ express.Fits numbers data) ∧
        ∀ req, data.receivedBytes numbers express reference = some req → message.userId ≠ [] →
          challengeByBase64Body node "userId" "challenge" "response" req now =
            .ok (leg.extracted message now)
  reply : ∀ (K : Type) (token : MockUser → Option (List Char)) (v : Verdict MockUser K Bytes)
    (response : HttpResponse), (∀ error, v = .error error → Capital error.message) →
      authenticateRouter token (.ofVerdict v) = some response →
        ∀ challenge, extractBuffer node numbers.parser (response.body.bytes numbers) =
            .ok challenge ↔
          ∃ status, v = .fail challenge status ∧ status ≠ 0

/-- Nothing is lost or changed between a value and its bytes, whatever text the user id is. -/
theorem bytes_roundTrip (numbers : NumberText) (express : ExpressJson) (node : NodeBuffer)
    (hdoc : express.Documented numbers) : BytesRoundTrip numbers express node where
  request leg message o reference now := by
    refine ⟨⟨?_, ?_⟩, ?_⟩
    · intro hsome
      obtain ⟨req, hreq⟩ := Option.isSome_iff_exists.mp hsome
      exact fits_of_received hdoc hreq
    · intro hfits
      rw [receivedBytes_format hdoc hfits]
      rfl
    · intro req hreq hu
      rw [received_format hdoc hreq]
      cases leg with
      | challenge => exact extract_challenge hu
      | response => exact extract_response hu
  reply K token v response hcapital hr challenge := by
    rw [extractBuffer_bytes fun _ => reads_reply hr]
    exact extract_reply hcapital hr

/-- Reads every number as zero. -/
def zeroNumbers : NumberText := ⟨fun _ => 0, fun _ => ['0']⟩

/-- An `express.json()` with the default limit that reads nothing but what is documented. -/
def expressJson (numbers : NumberText) : ExpressJson where
  limit := 102400
  read bytes :=
    if bytes.length ≤ 102400 then
      match numbers.parser.parse (Utf8.decode bytes) with
      | .ok (.array elements) => some (.array elements)
      | .ok (.object fields) => some (.object fields)
      | _ => none
    else none

theorem expressJson_documented (numbers : NumberText) :
    (expressJson numbers).Documented numbers where
  takes bytes value hfits hparse hstructured := by
    rw [expressJson] at hfits ⊢
    simp only [if_pos hfits, hparse]
    cases value with
    | array | object => rfl
    | null | bool | number | string => cases hstructured
  refuses bytes hover := if_neg (Nat.not_le_of_lt hover)

theorem bytes_roundTrip_alice :
    let node : NodeBuffer := ⟨fun _ => .error .typeError⟩
    let data := formatRequest "challenge" ⟨"alice".toList, ⟨[1, 2], [3]⟩⟩
      (HandshakeRequestOptions.toRequestOptions ⟨"localhost", some 8080, none, false⟩)
    (expressJson zeroNumbers).Fits zeroNumbers data ∧
      BytesRoundTrip zeroNumbers (expressJson zeroNumbers) node := by
  intro node data
  have hlength : (data.body.bytes zeroNumbers).length ≤ 102400 := by decide +kernel
  exact ⟨hlength, bytes_roundTrip _ _ node (expressJson_documented zeroNumbers)⟩

end Session
end MutualKeyChallenge
