import MutualKeyChallenge.Server.MessageVerifier

/-! The client package's handshake, cut at its two `await`s. -/
namespace MutualKeyChallenge

structure ClientSignedMessage (I B : Type) where
  userId : I
  data : SignedMessage B
  deriving DecidableEq, Repr

/-- The client package's own `CryptographyOptions`. -/
structure ClientCryptographyOptions where
  messagePadding : ℕ
  signVerifyPadding : ℕ
  hashAlgorithm : String
  nonceSize : ℕ
  deriving DecidableEq, Repr

/-- The arguments of one `request` call and the nonce it drew. -/
structure HandshakeRun (I K B : Type) where
  userId : I
  clientKey : K
  serverKey : K
  nonce : B
  deriving DecidableEq, Repr

structure HandshakeClient (K B S : Type) where
  crypto : NodeCrypto K B S
  cryptOpt : ClientCryptographyOptions

namespace HandshakeClient
variable {I K B S : Type} (c : HandshakeClient K B S)

def messageOpts (key : K) : EncryptOptions K :=
  { key, padding := c.cryptOpt.messagePadding, oaepHash := c.cryptOpt.hashAlgorithm }

def signVerifyOpts (key : K) : SignatureOptions K :=
  { key, padding := c.cryptOpt.signVerifyPadding }

/-- The nonce `request` draws. -/
def nonce (random : S) : B := c.crypto.randomBytes c.cryptOpt.nonceSize random

/-- `request` up to the first `await`: the signed message given to `formatChallengeFunc`. -/
def challengeMessage (run : HandshakeRun I K B) (seed : S) :
    Except Thrown (ClientSignedMessage I B) :=
  match c.crypto.publicEncrypt (c.messageOpts run.serverKey) seed run.nonce with
  | .error e => .error e
  | .ok message =>
    .ok
      { userId := run.userId
        data :=
          { message
            signature :=
              c.crypto.sign c.cryptOpt.hashAlgorithm run.nonce (c.signVerifyOpts run.clientKey) } }

/-- `request` between its two `await`s: both checks, then the signed message given to
`formatResponseFunc`. -/
def responseMessage [DecidableEq B] (run : HandshakeRun I K B)
    (serverChallenge : ServerChallenge B) : Except Thrown (ClientSignedMessage I B) :=
  let isClientReqVerified := c.crypto.verify c.cryptOpt.hashAlgorithm
    serverChallenge.clientRequested.message (c.signVerifyOpts run.serverKey)
    serverChallenge.clientRequested.signature
  if serverChallenge.clientRequested.message ≠ run.nonce ∨ ¬ isClientReqVerified then
    .error (.error "Failed to verify client challenge")
  else
    match c.crypto.privateDecrypt (c.messageOpts run.clientKey)
        serverChallenge.serverRequested.message with
    | .error e => .error e
    | .ok message =>
      let isServerReqVerified := c.crypto.verify c.cryptOpt.hashAlgorithm message
        (c.signVerifyOpts run.serverKey) serverChallenge.serverRequested.signature
      if ¬ isServerReqVerified then
        .error (.error "Failed to verify server challenge")
      else
        .ok
          { userId := run.userId
            data :=
              { message
                signature := c.crypto.sign c.cryptOpt.hashAlgorithm message
                  (c.signVerifyOpts run.clientKey) } }

variable {c} {args : HandshakeRun I K B} {sent : ClientSignedMessage I B} {seed : S}

theorem challengeMessage_userId (h : c.challengeMessage args seed = .ok sent) :
    sent.userId = args.userId := by
  unfold challengeMessage at h
  split at h <;> cases h
  rfl

/-- The response is the decrypted nonce, signed. -/
theorem responseMessage_ok [DecidableEq B] {serverChallenge : ServerChallenge B}
    (h : c.responseMessage args serverChallenge = .ok sent) :
    ∃ message, c.crypto.privateDecrypt (c.messageOpts args.clientKey)
        serverChallenge.serverRequested.message = .ok message ∧
      sent =
        { userId := args.userId
          data :=
            { message
              signature := c.crypto.sign c.cryptOpt.hashAlgorithm message
                (c.signVerifyOpts args.clientKey) } } := by
  simp only [responseMessage] at h
  split at h
  · cases h
  · split at h
    · cases h
    · rename_i message hm
      split at h <;> cases h
      exact ⟨message, hm, rfl⟩

theorem responseMessage_userId [DecidableEq B] {serverChallenge : ServerChallenge B}
    (h : c.responseMessage args serverChallenge = .ok sent) : sent.userId = args.userId := by
  obtain ⟨message, _, rfl⟩ := responseMessage_ok h
  rfl

end HandshakeClient
end MutualKeyChallenge
