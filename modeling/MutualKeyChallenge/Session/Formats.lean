import MutualKeyChallenge.App.AuthenticateRouter
import MutualKeyChallenge.Client.DefaultFuncs

/-! The client, the body extractor and the router agree on the JSON formats. -/
namespace MutualKeyChallenge

/-- A request that `formatAsBase64Json` wrote, as `express.json()` hands it over. -/
def jsonRequest (messageField : String) (message : ClientSignedMessage (List Char) Bytes)
    (reference : ℕ) : HttpRequest :=
  { body := some (formatAsBase64Json messageField message), reference }

/-- What `IncomingMessage.headers` has under a name, unless `http` put it there. -/
def RequestOptions.header (o : RequestOptions) (name : String) : Option (List Char) :=
  ((o.headers.getD []).find? fun h => h.1.toList.map Char.toLower = name.toList).map
    fun h => h.2.toList

/-- The request as it arrives behind `express.json()`, which leaves an empty object for the body
of another content type. `http` adds no header of the two. -/
def RequestData.received (data : RequestData) (reference : ℕ) : HttpRequest :=
  { authorization := data.options.header "authorization"
    body :=
      if (data.options.header "content-type").map (trim <| ·.takeWhile (· ≠ ';')) =
          some "application/json".toList then some data.body
      else some (.object [])
    reference }

/-- Whatever server it goes to, a formatted request arrives with its body and nothing else that
the extractors read. -/
theorem formatRequest_received (messageField : String)
    (message : ClientSignedMessage (List Char) Bytes) (o : HandshakeRequestOptions)
    (reference : ℕ) :
    (formatRequest messageField message o.toRequestOptions).received reference =
      jsonRequest messageField message reference := rfl

variable {node : NodeBuffer} {reference now : ℕ}

theorem ofJson_format (m : SignedMessage Bytes) :
    SignedMessage.ofJson node (.object [("message", toBase64 m.message),
      ("signature", toBase64 m.signature)]) = .ok m := by
  have hmessage : Json.property (.object [("message", toBase64 m.message),
      ("signature", toBase64 m.signature)]) "message" = some (toBase64 m.message) := rfl
  have hsignature : Json.property (.object [("message", toBase64 m.message),
      ("signature", toBase64 m.signature)]) "signature" = some (toBase64 m.signature) := rfl
  simp only [SignedMessage.ofJson, hmessage, hsignature, fromBase64_toBase64]

/-- The user id that a formatted request carries. -/
theorem format_userId (messageField : String) (message : ClientSignedMessage (List Char) Bytes) :
    ((formatAsBase64Json messageField message).property "userId").filter Json.truthy =
      if message.userId = [] then none else some (.string message.userId) := by
  have hprop : (formatAsBase64Json messageField message).property "userId" =
      some (.string message.userId) := rfl
  by_cases hu : message.userId = []
  · simp [hprop, Option.filter, Json.truthy, hu]
  · simp [hprop, Option.filter, Json.truthy, hu]

variable {message : ClientSignedMessage (List Char) Bytes}

theorem format_ne_null (messageField : String) :
    formatAsBase64Json messageField message ≠ .null := by
  intro h
  cases h

/-- Without a user id both kinds of request are refused. -/
theorem extract_noUser (messageField : String) (hu : message.userId = []) :
    challengeByBase64Body node "userId" "challenge" "response"
        (jsonRequest messageField message reference) now =
      .ok (.challengeError
        ⟨"The property userId does not contain the user's key", .clientChallenge⟩) := by
  apply challengeByBase64Body_noUser rfl (format_ne_null messageField)
  rw [format_userId, if_pos hu]

/-- A formatted challenge is read back as the same challenge. -/
theorem extract_challenge (hu : message.userId ≠ []) :
    challengeByBase64Body node "userId" "challenge" "response"
        (jsonRequest "challenge" message reference) now =
      .ok (.clientChallenge
        { userId := .string message.userId
          clientRequested := message.data
          requestDateTime := now }) := by
  have hid := (format_userId "challenge" message).trans (if_neg hu)
  exact challengeByBase64Body_challenge rfl (format_ne_null "challenge") hid rfl
    (ofJson_format message.data)

/-- A formatted response is read back as the same response. -/
theorem extract_response (hu : message.userId ≠ []) :
    challengeByBase64Body node "userId" "challenge" "response"
        (jsonRequest "response" message reference) now =
      .ok (.clientResponse
        { userId := .string message.userId, clientResponsed := message.data }) := by
  have hid := (format_userId "response" message).trans (if_neg hu)
  exact challengeByBase64Body_response rfl (format_ne_null "response") hid rfl rfl
    (ofJson_format message.data)

theorem toBase64_inj {b b' : Bytes} (h : toBase64 b = toBase64 b') : b = b' := by
  have hd := congrArg Base64.decode (Json.string.inj h)
  simpa using hd

/-- Different messages are never formatted alike. -/
theorem jsonRequest_inj {messageField : String} {m m' : ClientSignedMessage (List Char) Bytes}
    {reference' : ℕ}
    (h : jsonRequest messageField m reference = jsonRequest messageField m' reference') :
    m = m' := by
  obtain ⟨userId, message, signature⟩ := m
  obtain ⟨userId', message', signature'⟩ := m'
  obtain ⟨_, hbody, _⟩ := HttpRequest.mk.inj h
  have hjson := Json.object.inj (Option.some.inj hbody)
  simp only [List.cons.injEq, Prod.mk.injEq, true_and, and_true, Json.string.injEq,
    Json.object.injEq] at hjson
  obtain ⟨rfl, hmessage, hsignature⟩ := hjson
  obtain rfl := toBase64_inj hmessage
  obtain rfl := toBase64_inj hsignature
  rfl

theorem ofMember_toJson {bodyObj : Json} {name : String} (m : SignedMessage Bytes)
    (hb : Json.member (some bodyObj) name = .ok (some m.toJson)) :
    SignedMessage.ofMember node bodyObj name = .ok m := by
  have hmessage : Json.member (some m.toJson) "message" = .ok (some (toBase64 m.message)) := rfl
  have hsignature : Json.member (some m.toJson) "signature" = .ok (some (toBase64 m.signature)) :=
    rfl
  simp only [SignedMessage.ofMember, hb, hmessage, hsignature, fromBase64_toBase64, bind,
    Except.bind, pure, Except.pure]

/-- The client reads the challenge that the router sent. -/
theorem extract_toJson (json : JsonParser) (challenge : ServerChallenge Bytes) :
    extractByBase64Json node json (.json challenge.toJson) = .ok challenge := by
  have hc : SignedMessage.ofMember node challenge.toJson "clientRequested" =
      .ok challenge.clientRequested := ofMember_toJson _ rfl
  have hs : SignedMessage.ofMember node challenge.toJson "serverRequested" =
      .ok challenge.serverRequested := ofMember_toJson _ rfl
  simp only [extractByBase64Json, JsonParser.parseBody, hc, hs, bind, Except.bind, pure,
    Except.pure]

/-! Both directions at once. -/

/-- The server reads back both kinds of request that the client writes, and the client every
challenge that the router sends. -/
structure CodecsRoundTrip (node : NodeBuffer) (json : JsonParser) (userId : List Char) (m s : Bytes)
    (serverChallenge : ServerChallenge Bytes) : Prop where
  challenge : ∀ reference now,
    challengeByBase64Body node "userId" "challenge" "response"
        (jsonRequest "challenge" ⟨userId, ⟨m, s⟩⟩ reference) now =
      .ok (.clientChallenge ⟨.string userId, ⟨m, s⟩, now⟩)
  response : ∀ reference now,
    challengeByBase64Body node "userId" "challenge" "response"
        (jsonRequest "response" ⟨userId, ⟨m, s⟩⟩ reference) now =
      .ok (.clientResponse ⟨.string userId, ⟨m, s⟩⟩)
  reply : ∀ (K : Type) (token : MockUser → Option (List Char)) (r : AuthResult K) (status : ℕ),
    r.challenge = some (.challenge serverChallenge) → r.status = some status → status ≠ 0 →
      ∃ response, authenticateRouter token r = some response ∧ response.status = status ∧
        extractByBase64Json node json response.body = .ok serverChallenge

/-- A challenge that has a status is sent with it. -/
theorem authenticateRouter_challenge {K : Type} {token : MockUser → Option (List Char)}
    {r : AuthResult K} {status : ℕ} {serverChallenge : ServerChallenge Bytes}
    (hc : r.challenge = some (.challenge serverChallenge)) (hs : r.status = some status)
    (h0 : status ≠ 0) :
    authenticateRouter token r = some ⟨status, .json serverChallenge.toJson⟩ := by
  have hstatus : r.status.filter (· ≠ 0) = some status := by simp [hs, Option.filter, h0]
  simp only [authenticateRouter, hc, hstatus]

/-- No user id and no bytes are lost or changed on the way, but an empty user id is refused. -/
theorem codecs_roundTrip (node : NodeBuffer) (json : JsonParser) {userId : List Char}
    (m s : Bytes) (serverChallenge : ServerChallenge Bytes) (hu : userId ≠ []) :
    CodecsRoundTrip node json userId m s serverChallenge where
  challenge _ _ := extract_challenge hu
  response _ _ := extract_response hu
  reply _ _ _ _ hc hs h0 :=
    ⟨_, authenticateRouter_challenge hc hs h0, rfl, extract_toJson json serverChallenge⟩

/-- An id with a quote, a backslash, a control character and one outside the BMP. -/
theorem codecs_roundTrip_anyId :
    CodecsRoundTrip ⟨fun _ => .error .typeError⟩ ⟨fun _ => .error .syntaxError, fun _ _ _ _ => rfl⟩
      ['"', '\\', Char.ofNat 1, Char.ofNat 0x1F600] [] [0, 255, 7, 1]
      ⟨⟨[], [1]⟩, ⟨[1, 2], [1, 2, 3]⟩⟩ :=
  codecs_roundTrip _ _ _ _ _ (by simp)

end MutualKeyChallenge
