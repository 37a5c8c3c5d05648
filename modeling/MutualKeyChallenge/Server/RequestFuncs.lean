import MutualKeyChallenge.Wire.Json
import MutualKeyChallenge.Wire.Regex

/-! The two extractors that the server package ships. -/
namespace MutualKeyChallenge
open Regex

/-- What arrives as a user id, as far as a `Map` tells keys apart: primitive values by value and
arrays and objects by the request they were parsed from. -/
inductive UserId
  | string (s : List Char)
  | number (bits : UInt64)
  | bool (b : Bool)
  | object (reference : ℕ)
  deriving DecidableEq, Repr

/-- The parts of an HTTP request that the extractors read. `reference` tells this request's
objects from those of other requests. -/
structure HttpRequest where
  authorization : Option (List Char) := none
  body : Option Json := none
  reference : ℕ := 0

def UserId.ofJson (reference : ℕ) : Json → UserId
  | .string s => .string s
  | .number bits => .number bits
  | .bool b => .bool b
  | _ => .object reference

/-- `message` and `signature` of what a client sent, both decoded. -/
def SignedMessage.ofJson (node : NodeBuffer) (sent : Json) :
    Except Thrown (SignedMessage Bytes) :=
  match node.fromBase64 (sent.property "message") with
  | .error e => .error e
  | .ok message =>
    match node.fromBase64 (sent.property "signature") with
    | .error e => .error e
    | .ok signature => .ok { message, signature }

def challengeByBase64Body (node : NodeBuffer)
    (userIdProperty challengeProperty responseProperty : String) (req : HttpRequest) (now : ℕ) :
    Except Thrown (Extracted UserId Bytes) :=
  match req.body with
  | none | some .null => .error .typeError
  | some body =>
    match (body.property userIdProperty).filter Json.truthy with
    | none =>
      .ok (.challengeError
        ⟨s!"The property {userIdProperty} does not contain the user's key", .clientChallenge⟩)
    | some userId =>
      match (body.property challengeProperty).filter Json.truthy with
      | some sent =>
        match SignedMessage.ofJson node sent with
        | .error e => .error e
        | .ok clientRequested =>
          .ok (.clientChallenge
            { userId := .ofJson req.reference userId, clientRequested, requestDateTime := now })
      | none =>
        match (body.property responseProperty).filter Json.truthy with
        | some sent =>
          match SignedMessage.ofJson node sent with
          | .error e => .error e
          | .ok clientResponsed =>
            .ok (.clientResponse { userId := .ofJson req.reference userId, clientResponsed })
        | none =>
          .ok (.challengeError
            ⟨s!"Both {challengeProperty} and {responseProperty} does not contain the challenge message",
              .clientChallenge⟩)

section Body
variable {node : NodeBuffer} {u c r : String} {req : HttpRequest} {now : ℕ} {body userId sent : Json}
  {data : SignedMessage Bytes}

theorem challengeByBase64Body_noUser (hb : req.body = some body) (hn : body ≠ .null)
    (hid : (body.property u).filter Json.truthy = none) :
    challengeByBase64Body node u c r req now = .ok (.challengeError
      ⟨s!"The property {u} does not contain the user's key", .clientChallenge⟩) := by
  unfold challengeByBase64Body
  rw [hb]
  cases body with
  | null => exact absurd rfl hn
  | _ => simp only [hid]

theorem challengeByBase64Body_challenge (hb : req.body = some body) (hn : body ≠ .null)
    (hid : (body.property u).filter Json.truthy = some userId)
    (hs : (body.property c).filter Json.truthy = some sent)
    (hm : SignedMessage.ofJson node sent = .ok data) :
    challengeByBase64Body node u c r req now = .ok (.clientChallenge
      { userId := .ofJson req.reference userId
        clientRequested := data
        requestDateTime := now }) := by
  unfold challengeByBase64Body
  rw [hb]
  cases body with
  | null => exact absurd rfl hn
  | _ => simp only [hid, hs, hm]

theorem challengeByBase64Body_response (hb : req.body = some body) (hn : body ≠ .null)
    (hid : (body.property u).filter Json.truthy = some userId)
    (hnone : (body.property c).filter Json.truthy = none)
    (hs : (body.property r).filter Json.truthy = some sent)
    (hm : SignedMessage.ofJson node sent = .ok data) :
    challengeByBase64Body node u c r req now = .ok (.clientResponse
      { userId := .ofJson req.reference userId, clientResponsed := data }) := by
  unfold challengeByBase64Body
  rw [hb]
  cases body with
  | null => exact absurd rfl hn
  | _ => simp only [hid, hnone, hs, hm]

end Body

/-! The header. -/

/-- What `String.prototype.trim` removes. -/
def isSpace (c : Char) : Bool :=
  c.toNat ∈ [0x09, 0x0A, 0x0B, 0x0C, 0x0D, 0x20, 0xA0, 0x1680, 0x2028, 0x2029, 0x202F, 0x205F,
    0x3000, 0xFEFF] ∨ (0x2000 ≤ c.toNat ∧ c.toNat ≤ 0x200A)

def trim (text : List Char) : List Char :=
  ((text.dropWhile isSpace).reverse.dropWhile isSpace).reverse

/-- `[A-Za-z0-9+/=]` -/
def base64Class (c : Char) : Bool := c.isAlphanum ∨ c = '+' ∨ c = '/' ∨ c = '='

/-- `(key)=([A-Za-z0-9+/=]+)`, for a name without special characters. -/
def keyRegex (keyFieldName : String) : Pattern :=
  .seq (.group 1 (literal keyFieldName.toList))
    (.seq (.chars (· = '=')) (.group 2 (.plus base64Class)))

/-- `(challenge)|(response)=([A-Za-z0-9+/=]+),([A-Za-z0-9+/=]+)`: the alternatives are the first
group alone and all the rest. -/
def challengeRegex (challengeFieldName responseFieldName : String) : Pattern :=
  .alt (.group 1 (literal challengeFieldName.toList))
    (.seq (.group 2 (literal responseFieldName.toList))
      (.seq (.chars (· = '='))
        (.seq (.group 3 (.plus base64Class))
          (.seq (.chars (· = ',')) (.group 4 (.plus base64Class))))))

def headerTypeError : ChallengeError :=
  ⟨"Header Authorization must be type: Mutual", .clientChallenge⟩

def headerFormatError (keyFieldName challengeFieldName responseFieldName : String) :
    ChallengeError :=
  ⟨s!"Header Authorization must be in the format: 'Authorization: Mutual {keyFieldName}=[base64 key],({challengeFieldName}|{responseFieldName})[base64 challenge],[base64 signature]'",
    .clientChallenge⟩

/-- `challengeResult[Message]` and `challengeResult[Signature]`, both decoded. -/
def SignedMessage.ofCaptures (node : NodeBuffer) (challengeResult : Captures) :
    Except Thrown (SignedMessage Bytes) :=
  match node.fromBase64 ((challengeResult 3).map .string) with
  | .error e => .error e
  | .ok message =>
    match node.fromBase64 ((challengeResult 4).map .string) with
    | .error e => .error e
    | .ok signature => .ok { message, signature }

/-- `KeyRegExIx.Value` is 1, the group that holds the name of the key field. -/
def keyValue (keyResult : Captures) : UserId := .string ((keyResult 1).getD [])

def challengeByBase64Header (node : NodeBuffer)
    (keyFieldName challengeFieldName responseFieldName : String) (req : HttpRequest) (now : ℕ) :
    Except Thrown (Extracted UserId Bytes) :=
  match (req.authorization.map trim).filter ("Mutual".toList.isPrefixOf ·) with
  | none => .ok (.challengeError headerTypeError)
  | some authHeader =>
    match (keyRegex keyFieldName).exec authHeader with
    | none =>
      .ok (.challengeError
        (headerFormatError keyFieldName challengeFieldName responseFieldName))
    | some keyResult =>
      match (challengeRegex challengeFieldName responseFieldName).exec authHeader with
      | none =>
        .ok (.challengeError
          (headerFormatError keyFieldName challengeFieldName responseFieldName))
      | some challengeResult =>
        match SignedMessage.ofCaptures node challengeResult with
        | .error e => .error e
        | .ok data =>
          if challengeResult 1 ≠ none ∧ challengeResult 1 ≠ some [] then
            .ok (.clientChallenge
              { userId := keyValue keyResult, clientRequested := data, requestDateTime := now })
          else .ok (.clientResponse { userId := keyValue keyResult, clientResponsed := data })

end MutualKeyChallenge
