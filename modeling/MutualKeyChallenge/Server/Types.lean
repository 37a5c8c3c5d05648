import Mathlib.Tactic.Common

/-! The server package's messages, errors and user records. `B` stands for `Buffer`, `I` for the
values that arrive as user ids, `U` for the application's users and `K` for RSA key pairs. -/
namespace MutualKeyChallenge

structure SignedMessage (B : Type) where
  message : B
  signature : B
  deriving DecidableEq, Repr

/-- `requestDateTime` is in milliseconds, as `Date.now()` counts them. -/
structure ClientChallenge (I B : Type) where
  userId : I
  clientRequested : SignedMessage B
  requestDateTime : ℕ
  deriving DecidableEq, Repr

structure ClientResponse (I B : Type) where
  userId : I
  clientResponsed : SignedMessage B
  deriving DecidableEq, Repr

structure ServerChallenge (B : Type) where
  clientRequested : SignedMessage B
  serverRequested : SignedMessage B
  deriving DecidableEq, Repr

inductive ChallengeStage
  | none
  | clientChallenge
  | serverChallenge
  deriving DecidableEq, Repr

structure ChallengeError where
  message : String
  stage : ChallengeStage := .none
  deriving DecidableEq, Repr

structure CachedChallenge (I B : Type) where
  userId : I
  clientChallenged : B
  requestDateTime : ℕ
  deriving DecidableEq, Repr

structure UserKeyRecord (U K : Type) where
  user : U
  publicKey : K
  deriving DecidableEq, Repr

/-- What a `GetClientChallengeOrResponseFunc` returns. -/
inductive Extracted (I B : Type)
  | clientChallenge (message : ClientChallenge I B)
  | clientResponse (message : ClientResponse I B)
  | challengeError (error : ChallengeError)
  deriving DecidableEq, Repr

/-- A JavaScript exception: of the language, of node's crypto, or a thrown `Error`. -/
inductive Thrown
  | typeError
  | syntaxError
  | cryptoError
  | error (message : String)
  deriving DecidableEq, Repr

end MutualKeyChallenge
