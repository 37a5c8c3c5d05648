import MutualKeyChallenge.Server.HeaderExtractor
import MutualKeyChallenge.Server.MutualKeyChallengeOptions
import MutualKeyChallenge.Session.Requests

/-! A client and a server that keep the default formats, and a client that keeps to the server's. -/
namespace MutualKeyChallenge.Session
open Transition Regex

/-! The client's default format. -/

def formatFunc (o : MutualAuthOptions) :
    Leg → ClientSignedMessage (List Char) Bytes → RequestOptions → RequestData
  | .challenge => o.formatChallengeFunc
  | .response => o.formatResponseFunc

/-- The message of a leg with the user id and the bytes that the client gave it. -/
def Leg.extracted (message : ClientSignedMessage (List Char) Bytes) (now : ℕ) :
    Leg → Extracted UserId Bytes
  | .challenge => .clientChallenge ⟨.string message.userId, message.data, now⟩
  | .response => .clientResponse ⟨.string message.userId, message.data⟩

/-- The server's default extractor reads the message that the client's default formatter wrote. -/
def DefaultFormatsAgree (node : NodeBuffer) (json : JsonParser) (leg : Leg)
    (requestOptions : HandshakeRequestOptions) (message : ClientSignedMessage (List Char) Bytes) :
    Prop :=
  ∀ reference now,
    (MutualKeyChallengeOptionalOptions.getDefaultOptions node).challengeOrResponseFunc
        ((formatFunc (.getDefaultOptions node json) leg message
          requestOptions.toRequestOptions).received reference) now =
      .ok (leg.extracted message now)

section Formats
variable {node : NodeBuffer} {json : JsonParser} {leg : Leg}
  {requestOptions : HandshakeRequestOptions} {message : ClientSignedMessage (List Char) Bytes}

/-- Either leg is formatted with the name of its own field. -/
theorem formatFunc_default :
    formatFunc (.getDefaultOptions node json) leg = formatRequest leg.messageField := by
  cases leg <;> rfl

/-- The server's default extractor takes nothing but the authorization header. -/
theorem default_formats_disagree :
    ¬ DefaultFormatsAgree node json leg requestOptions message := by
  intro h
  have herror := h 0 0
  rw [formatFunc_default, formatRequest_received] at herror
  have hnone : (MutualKeyChallengeOptionalOptions.getDefaultOptions node).challengeOrResponseFunc
      (jsonRequest leg.messageField message 0) 0 = .ok (.challengeError headerTypeError) := rfl
  rw [hnone] at herror
  cases leg <;> cases herror

/-- The challenge that alice's client sends to the demo server's address. -/
theorem default_formats_disagree_alice :
    ¬ DefaultFormatsAgree noBuffer demo.json .challenge
      ⟨"localhost", some 8080, some "/authenticate", false⟩ ⟨"alice".toList, ⟨[1], [2]⟩⟩ := by
  intro h
  cases h 0 0

end Formats

/-! The server's default format. -/

section Header
variable {K S : Type}

def Leg.fieldName : Leg → String
  | .challenge => "cha"
  | .response => "res"

/-- The message of a leg in the form that the header extractor documents. -/
def headerRequest (leg : Leg) (message : ClientSignedMessage (List Char) Bytes) : HttpRequest :=
  { authorization := some (headerText [' '] message.userId leg.fieldName.toList
      (Base64.encode message.data.message) (Base64.encode message.data.signature)) }

namespace Deployment
variable (cfg : Deployment K S)

/-- The strategy with the default extractor. -/
def headerStrategy : MutualKeyChallengeStrategy HttpRequest UserId MockUser K Bytes S :=
  shippedStrategy cfg.node (.header "uid" "cha" "res") cfg.userFunc
    { crypto := cfg.crypto, key := cfg.serverKey, options := cfg.cryptography }

/-- The extractor reads the message of a leg as the client wrote it. -/
def HeaderDecoded (leg : Leg) (message : ClientSignedMessage (List Char) Bytes) : Prop :=
  ∀ now, cfg.headerStrategy.challengeOrResponseFunc (headerRequest leg message) now =
    .ok (leg.extracted message now)

end Deployment

/-- A call that is done has settled as `P` says. -/
def EndsIn (call : Option (Call UserId MockUser K Bytes))
    (P : Verdict MockUser K Bytes → Prop) : Prop :=
  ∀ c, call = some c → (∃ handler, c = .suspended handler) ∨ ∃ v, c = .settled v ∧ P v

/-- The handshake of one client and a fresh server that sees no other requests. Its challenge is
decoded and answered with a challenge, which the client answers; its response is decoded and,
within `ttlMs`, accepted. -/
def HeaderHandshakeCompletes (cfg : Deployment K S) (args : HandshakeRun (List Char) K Bytes)
    (seed : S) : Prop :=
  ∃ challenge, cfg.client.challengeMessage args seed = .ok challenge ∧
    cfg.HeaderDecoded .challenge challenge ∧
    ∀ h w first arrived, (serverMachine cfg.headerStrategy cfg.ttlMs).Execution h w →
      Received h first arrived (headerRequest .challenge challenge) →
      (∀ id now req, Received h id now req → id = first) →
      EndsIn (w.calls first) fun v => ∃ serverChallenge, v = .fail serverChallenge 401 ∧
        ∃ response, cfg.client.responseMessage args serverChallenge = .ok response ∧
          cfg.HeaderDecoded .response response ∧
          ∀ es w' second now, (serverMachine cfg.headerStrategy cfg.ttlMs).Run w es w' →
            Received es second now (headerRequest .response response) →
            (∀ id now req, Received es id now req → id = second) → w'.now < arrived + cfg.ttlMs →
            EndsIn (w'.calls second) fun v => ∃ r,
              cfg.userFunc (headerRequest .response response) (.string args.userId) = some r ∧
              v = .success r.user r.publicKey

variable {cfg : Deployment K S} {args : HandshakeRun (List Char) K Bytes} {seed : S}

theorem challenge_not_decoded {message : ClientSignedMessage (List Char) Bytes} :
    ¬ cfg.HeaderDecoded .challenge message :=
  fun h => challengeByBase64Header_ne_challenge (h 0)

/-- No handshake over the header gets past its challenge. -/
theorem header_handshake_never_completes : ¬ HeaderHandshakeCompletes cfg args seed := by
  rintro ⟨challenge, _, hdecoded, _⟩
  exact challenge_not_decoded hdecoded

end Header

/-- The handshake of alice with the demo server's key. -/
theorem header_handshake_alice :
    ¬ HeaderHandshakeCompletes demo ⟨"alice".toList, 1, 0, [7]⟩ 0 := by
  rintro ⟨challenge, hc, hdecoded, _⟩
  cases hc
  cases hdecoded 0

end MutualKeyChallenge.Session
