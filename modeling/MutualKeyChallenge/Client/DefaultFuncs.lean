import MutualKeyChallenge.Client.HandshakeClient
import MutualKeyChallenge.Wire.Json

/-! The client's default formats. -/
namespace MutualKeyChallenge

/-- The JSON body of a request; `messageField` is `challenge` or `response`. -/
def formatAsBase64Json (messageField : String) (message : ClientSignedMessage (List Char) Bytes) :
    Json :=
  .object [("userId", .string message.userId),
    (messageField, .object [("message", toBase64 message.data.message),
      ("signature", toBase64 message.data.signature)])]

/-- The options of `http.request` that the package and its callers set; `none` is a property that
is not there. Headers are listed as they are written. -/
structure RequestOptions where
  host : Option String := none
  port : Option ℕ := none
  path : Option String := none
  isSslRequest : Option Bool := none
  method : Option String := none
  headers : Option (List (String × String)) := none

/-- The body is the value that was stringified. -/
structure RequestData where
  options : RequestOptions
  body : Json

/-- What `formatAsBase64Json(messageField)` makes of a message. The properties of `baseOptions` go
before its own. -/
def formatRequest (messageField : String) (message : ClientSignedMessage (List Char) Bytes)
    (baseOptions : RequestOptions) : RequestData :=
  { options :=
      { baseOptions with
        method := baseOptions.method.or (some "POST")
        headers := baseOptions.headers.or (some [("content-type", "application/json")]) }
    body := formatAsBase64Json messageField message }

/-- `bodyObj[name].message` and `bodyObj[name].signature`, both decoded. -/
def SignedMessage.ofMember (node : NodeBuffer) (bodyObj : Json) (name : String) :
    Except Thrown (SignedMessage Bytes) := do
  let sent ← Json.member (some bodyObj) name
  let message ← node.fromBase64 (← Json.member sent "message")
  let signature ← node.fromBase64 (← Json.member sent "signature")
  return { message, signature }

def extractByBase64Json (node : NodeBuffer) (json : JsonParser) (body : ResponseBody) :
    Except Thrown (ServerChallenge Bytes) := do
  let bodyObj ← json.parseBody body
  let clientRequested ← SignedMessage.ofMember node bodyObj "clientRequested"
  let serverRequested ← SignedMessage.ofMember node bodyObj "serverRequested"
  return { clientRequested, serverRequested }

/-- What callers of `request` may choose. -/
structure HandshakeRequestOptions where
  host : String
  port : Option ℕ
  path : Option String
  isSslRequest : Bool

def HandshakeRequestOptions.toRequestOptions (o : HandshakeRequestOptions) : RequestOptions :=
  { host := some o.host, port := o.port, path := o.path, isSslRequest := some o.isSslRequest }

structure MutualAuthOptions where
  formatChallengeFunc : ClientSignedMessage (List Char) Bytes → RequestOptions → RequestData
  extractResponseFunc : ResponseBody → Except Thrown (ServerChallenge Bytes)
  formatResponseFunc : ClientSignedMessage (List Char) Bytes → RequestOptions → RequestData
  cryptography : ClientCryptographyOptions

/-- `RSA_PKCS1_OAEP_PADDING` is 4 and `RSA_PKCS1_PADDING` is 1. -/
def MutualAuthOptions.getDefaultOptions (node : NodeBuffer) (json : JsonParser) :
    MutualAuthOptions where
  formatChallengeFunc := formatRequest "challenge"
  extractResponseFunc := extractByBase64Json node json
  formatResponseFunc := formatRequest "response"
  cryptography :=
    { messagePadding := 4, signVerifyPadding := 1, hashAlgorithm := "sha256", nonceSize := 128 }

/-- A body that is not JSON makes the extraction throw. -/
theorem extractByBase64Json_text {node : NodeBuffer} {json : JsonParser} {message : String}
    {c : Char} {text : List Char} (hm : message.toList = c :: text) (h1 : 'A' ≤ c) (h2 : c ≤ 'Z') :
    extractByBase64Json node json (.text message) = .error .syntaxError := by
  simp only [extractByBase64Json, JsonParser.parseBody, hm, json.parse_capital c text h1 h2]
  rfl

end MutualKeyChallenge
