import MutualKeyChallenge.Server.MessageVerifier
import MutualKeyChallenge.Server.LocalChallengeCache

/-! The strategy's two handlers, cut at every `await`. -/
namespace MutualKeyChallenge
variable {Req I U K B S : Type}

structure MutualKeyChallengeStrategy (Req I U K B S : Type) where
  challengeOrResponseFunc : Req → ℕ → Except Thrown (Extracted I B)
  userFunc : Req → I → Option (UserKeyRecord U K)
  verifier : MessageVerifier K B S

/-- One call of `this.success`, `this.fail` or `this.error`. -/
inductive Verdict (U K B : Type)
  | success (user : U) (info : K)
  | fail (challenge : ServerChallenge B) (status : ℕ)
  | error (error : ChallengeError)
  deriving DecidableEq, Repr

/-- A suspended `authenticate` call: the `await` it stopped at and its live local variables.
`...User` waits for `getUserResult`, `...Verify`, `...Decrypt`, `...Sign` and `...Encrypt` for
the server key inside the verifier, the others for the verifier's own promise. -/
inductive Handler (I U K B : Type)
  | responseUser (message : ClientResponse I B) (user : Except ChallengeError (UserKeyRecord U K))
  | responseVerify (message : ClientResponse I B) (user : UserKeyRecord U K)
  | responseVerified (message : ClientResponse I B) (user : UserKeyRecord U K) (verified : Bool)
  | challengeUser (message : ClientChallenge I B)
      (user : Except ChallengeError (UserKeyRecord U K))
  | challengeDecrypt (message : ClientChallenge I B) (user : UserKeyRecord U K)
  | challengeDecrypted (message : ClientChallenge I B) (user : UserKeyRecord U K)
      (decrypted : Option B)
  | challengeSign (message : ClientChallenge I B) (user : UserKeyRecord U K) (decrypted : B)
  | challengeSigned (message : ClientChallenge I B) (user : UserKeyRecord U K)
      (decryptedMessage : SignedMessage B)
  | challengeEncrypt (message : ClientChallenge I B) (user : UserKeyRecord U K)
      (decryptedMessage : SignedMessage B) (nonce : B)
  | challengeEncrypted (message : ClientChallenge I B) (user : UserKeyRecord U K)
      (decryptedMessage : SignedMessage B) (nonce : B) (nonceMessage : SignedMessage B)

/-- What a handler does at the end of one synchronous segment. -/
inductive Action (I U K B : Type)
  | suspend (handler : Handler I U K B)
  | cacheGet (message : ClientResponse I B) (user : UserKeyRecord U K)
  | cacheSet (key : I) (value : CachedChallenge I B) (challenge : ServerChallenge B)
  | verdict (verdict : Verdict U K B)
  | reject (thrown : Thrown)

/-- What the environment supplies to one segment: the key an application's server key function
gives, and the randomness of `randomBytes` and of the padding. -/
structure Inputs (K S : Type) where
  returnedKey : K
  random : S
  seed : S

def noUserError : ChallengeError := ⟨"No user could be found", .serverChallenge⟩
def notVerifiedError : ChallengeError := ⟨"The response could not be verified", .serverChallenge⟩
def notInitiatedError : ChallengeError :=
  ⟨"Challenge is not initiated or expired", .serverChallenge⟩
def incorrectError : ChallengeError := ⟨"Challenge is incorrect", .serverChallenge⟩

namespace MutualKeyChallengeStrategy
variable (s : MutualKeyChallengeStrategy Req I U K B S)

def getUserResult (req : Req) (userId : I) : Except ChallengeError (UserKeyRecord U K) :=
  match s.userFunc req userId with
  | none => .error noUserError
  | some user => .ok user

/-- `authenticate` up to its first `await`. -/
def authenticate (req : Req) (now : ℕ) : Action I U K B :=
  match s.challengeOrResponseFunc req now with
  | .error e => .reject e
  | .ok (.challengeError error) => .verdict (.error error)
  | .ok (.clientResponse message) =>
    .suspend (.responseUser message (s.getUserResult req message.userId))
  | .ok (.clientChallenge message) =>
    .suspend (.challengeUser message (s.getUserResult req message.userId))

/-- One segment of `handleChallengeResponse` or `handleChallengeRequest`. -/
def resume (i : Inputs K S) : Handler I U K B → Action I U K B
  | .responseUser message user =>
    match user with
    | .error error => .verdict (.error error)
    | .ok user => .suspend (.responseVerify message user)
  | .responseVerify message user =>
    .suspend (.responseVerified message user
      (s.verifier.verify user.publicKey message.clientResponsed))
  | .responseVerified message user verified =>
    if verified then .cacheGet message user else .verdict (.error notVerifiedError)
  | .challengeUser message user =>
    match user with
    | .error error => .verdict (.error error)
    | .ok user => .suspend (.challengeDecrypt message user)
  | .challengeDecrypt message user =>
    match s.verifier.decryptAndVerify (s.verifier.serverKey i.returnedKey) user.publicKey
        message.clientRequested with
    | .error e => .reject e
    | .ok decrypted => .suspend (.challengeDecrypted message user decrypted)
  | .challengeDecrypted message user decrypted =>
    match decrypted with
    | none => .verdict (.error notVerifiedError)
    | some decrypted => .suspend (.challengeSign message user decrypted)
  | .challengeSign message user decrypted =>
    .suspend (.challengeSigned message user
      (s.verifier.sign (s.verifier.serverKey i.returnedKey) decrypted))
  -- `getNonce` runs here, before the call of `encryptAndSign` suspends
  | .challengeSigned message user decryptedMessage =>
    .suspend (.challengeEncrypt message user decryptedMessage (s.verifier.getNonce i.random))
  | .challengeEncrypt message user decryptedMessage nonce =>
    match s.verifier.encryptAndSign (s.verifier.serverKey i.returnedKey) i.seed user.publicKey
        nonce with
    | .error e => .reject e
    | .ok nonceMessage =>
      .suspend (.challengeEncrypted message user decryptedMessage nonce nonceMessage)
  | .challengeEncrypted message _ decryptedMessage nonce nonceMessage =>
    .cacheSet message.userId
      { userId := message.userId
        clientChallenged := nonce
        requestDateTime := message.requestDateTime }
      { clientRequested := decryptedMessage, serverRequested := nonceMessage }

/-- The rest of `handleChallengeResponse` once the cache has answered. -/
def afterGet [DecidableEq B] (message : ClientResponse I B) (user : UserKeyRecord U K)
    (challenge : Option (CachedChallenge I B)) : Verdict U K B :=
  match challenge with
  | none => .error notInitiatedError
  | some challenge =>
    if challenge.clientChallenged = message.clientResponsed.message then
      .success user.user user.publicKey
    else .error incorrectError

/-- The rest of `handleChallengeRequest` once the cache has stored the challenge. -/
def afterSet (challenge : ServerChallenge B) : Verdict U K B := .fail challenge 401

variable {s} {i : Inputs K S} {handler : Handler I U K B}

/-- `authenticate` itself never touches the cache and settles only with an error. -/
theorem authenticate_cases (req : Req) (now : ℕ) :
    (∃ handler, s.authenticate req now = .suspend handler) ∨
      (∃ error, s.authenticate req now = .verdict (.error error)) ∨
      ∃ e, s.authenticate req now = .reject e := by
  unfold authenticate
  split
  · exact Or.inr (Or.inr ⟨_, rfl⟩)
  · exact Or.inr (Or.inl ⟨_, rfl⟩)
  · exact Or.inl ⟨_, rfl⟩
  · exact Or.inl ⟨_, rfl⟩

/-- Only a verified response reads the cache. -/
theorem resume_cacheGet {message : ClientResponse I B} {user : UserKeyRecord U K}
    (h : s.resume i handler = .cacheGet message user) :
    handler = .responseVerified message user true := by
  cases handler <;> simp only [resume] at h <;> (try split at h) <;> cases h
  rename_i hverified
  rw [hverified]

/-- Only a challenge request that ran to its end writes the cache. -/
theorem resume_cacheSet {key : I} {value : CachedChallenge I B} {challenge : ServerChallenge B}
    (h : s.resume i handler = .cacheSet key value challenge) :
    ∃ message user dm nonce nm, handler = .challengeEncrypted message user dm nonce nm ∧
      key = message.userId ∧ value = ⟨message.userId, nonce, message.requestDateTime⟩ ∧
      challenge = ⟨dm, nm⟩ := by
  cases handler <;> simp only [resume] at h <;> (try split at h) <;> cases h
  exact ⟨_, _, _, _, _, rfl, rfl, rfl, rfl⟩

/-- A segment that ends without the cache ends in an error. -/
theorem resume_verdict {v : Verdict U K B} (h : s.resume i handler = .verdict v) :
    ∃ error, v = .error error := by
  cases handler <;> simp only [resume] at h <;> (try split at h) <;> cases h
  all_goals exact ⟨_, rfl⟩

end MutualKeyChallengeStrategy
end MutualKeyChallenge
