import MutualKeyChallenge.Server.RequestFuncs
import MutualKeyChallenge.Server.MutualKeyChallengeStrategy

/-! The demo server: its users, its tokens and the router around the strategy. -/
namespace MutualKeyChallenge
variable {K : Type}

structure MockUser where
  id : UserId
  deriving DecidableEq, Repr

/-- Every id is a user, with the key that `client.key.pub` holds. -/
def getUser (clientKey : K) (userId : UserId) : Option (UserKeyRecord MockUser K) :=
  some { user := { id := userId }, publicKey := clientKey }

def REALM : String := "api.local"

structure JwtOptions where
  expiresIn : String
  audience : String
  issuer : String
  algorithm : String
  deriving DecidableEq, Repr

def JWT_OPTIONS : JwtOptions where
  expiresIn := "12 h"
  audience := REALM
  issuer := "auth.api.local"
  algorithm := "RS256"

/-- The third argument of the router's callback: passport hands over the challenge of `fail` and
the `info` of `success`. -/
inductive Info (K : Type)
  | challenge (challenge : ServerChallenge Bytes)
  | publicKey (key : K)

/-- The arguments passport calls the router's callback with. -/
structure AuthResult (K : Type) where
  authError : Option ChallengeError
  user : Option MockUser
  challenge : Option (Info K)
  status : Option ℕ

/-- What passport makes of the strategy's one verdict. -/
def AuthResult.ofVerdict : Verdict MockUser K Bytes → AuthResult K
  | .success user info => ⟨none, some user, some (.publicKey info), none⟩
  | .fail challenge status => ⟨none, none, some (.challenge challenge), some status⟩
  | .error error => ⟨some error, none, none, none⟩

def SignedMessage.toJson (m : SignedMessage Bytes) : Json :=
  .object [("message", toBase64 m.message), ("signature", toBase64 m.signature)]

def ServerChallenge.toJson (c : ServerChallenge Bytes) : Json :=
  .object [("clientRequested", c.clientRequested.toJson),
    ("serverRequested", c.serverRequested.toJson)]

/-- The callback of `authenticateRouter`; `token` is what `sign` gives for a user, if it does not
throw. No response is sent when something throws. -/
def authenticateRouter (token : MockUser → Option (List Char)) (r : AuthResult K) :
    Option HttpResponse :=
  match r.challenge, r.status.filter (· ≠ 0) with
  | some (.challenge challenge), some status => some ⟨status, .json challenge.toJson⟩
  | some (.publicKey _), some _ => none
  | _, _ =>
    match r.authError with
    | some error => some ⟨401, .text error.message⟩
    | none =>
      match r.user with
      | none => some ⟨500, .text "Unspecified Error"⟩
      | some user => (token user).map fun t => ⟨200, .json (.object [("token", .string t)])⟩

end MutualKeyChallenge
