import MutualKeyChallenge.App.AuthenticateRouter
import MutualKeyChallenge.Protocol.Agreement

/-! Which tokens open the protected route, when one private key serves both protocols. -/
namespace MutualKeyChallenge
open Transition Symbolic
variable {K : Type}

/-- A token as the verifier takes it apart: the text before the second dot, which is what an RS256
signature is over, and the signature. -/
structure JwtToken (K : Type) where
  signed : Bytes
  signature : Term K

/-- The claims of a token that `addJwtStrategy` and its callers read. -/
structure IJwtPayload where
  sub : Option (List Char)
  exp : Option ℕ
  deriving DecidableEq, Repr

/-- The options of `JwtStrategy`. -/
structure JwtStrategyOptions where
  issuer : String
  audience : String
  algorithms : List String
  deriving DecidableEq, Repr

def jwtStrategyOptions : JwtStrategyOptions where
  issuer := JWT_OPTIONS.issuer
  audience := JWT_OPTIONS.audience
  algorithms := [JWT_OPTIONS.algorithm]

/-- The package `jsonwebtoken`: the text that `sign` signs for a user at a given time, unless it
throws, and what `verify` returns or says. -/
structure Jsonwebtoken (K : Type) where
  signingInput : MockUser → JwtOptions → UserId → ℕ → Option Bytes
  verify : K → JwtStrategyOptions → ℕ → JwtToken K → Except String IJwtPayload

/-- What the app relies on: `verify` checks the signature with the key, finds the subject a token
was signed with, and explains every refusal. -/
structure Jsonwebtoken.Documented [DecidableEq K] (jwt : Jsonwebtoken K) : Prop where
  signature : ∀ key o now token payload, jwt.verify key o now token = .ok payload →
    token.signature = .sig key (.data token.signed)
  subject : ∀ user o subject now key vo now' token payload,
    jwt.signingInput user o subject now = some token.signed →
    jwt.verify key vo now' token = .ok payload → ∃ s, subject = .string s ∧ payload.sub = some s
  refusal : ∀ key o now token, jwt.verify key o now token ≠ .error ""

/-- The arguments of a passport callback. -/
structure JwtResult where
  error : Option String
  payload : Option IJwtPayload
  info : Option String

/-- `JwtStrategy` with the app's own check, as passport reports it. -/
def jwtStrategy (jwt : Jsonwebtoken K) (key : K) (now : ℕ) (token : Option (JwtToken K)) :
    JwtResult :=
  match token with
  | none => ⟨none, none, some "No auth token"⟩
  | some token =>
    match jwt.verify key jwtStrategyOptions now token with
    | .error message => ⟨none, none, some message⟩
    | .ok payload =>
      -- `Date.now()` is in milliseconds
      if payload.exp.any fun exp => exp ≠ 0 ∧ exp * 1000 < now then
        ⟨some "JWT Expired", none, none⟩
      else ⟨none, some payload, none⟩

inductive Guarded
  | next
  | unauthorized (message : String)
  deriving DecidableEq, Repr

def authenticateJwt (r : JwtResult) : Guarded :=
  let errorMessage :=
    match r.error with
    | some error => some error
    | none =>
      match r.info with
      | some message => some message
      | none => if r.payload.isNone then some "Not Authorized" else none
  match errorMessage.filter (· ≠ "") with
  | some message => .unauthorized message
  | none => .next

/-- The text that the router signs for a user. -/
def routerSigns (jwt : Jsonwebtoken K) (user : MockUser) (now : ℕ) : Option Bytes :=
  jwt.signingInput user JWT_OPTIONS user.id now

/-- The demo server: `server.key` both answers challenges and signs tokens. -/
def app (jwt : Jsonwebtoken K) (clientKey serverKey : K) (attacker : Attacker K) :
    Setting Unit UserId MockUser K where
  userFunc _ userId := getUser clientKey userId
  serverKey
  ttlMs := 120000
  attacker
  onSuccess user now := (routerSigns jwt user now).toList

variable [DecidableEq K]

/-- In the given state the network can present this token, and `authenticateJwt` lets it pass. -/
def Passes (jwt : Jsonwebtoken K) (cfg : Setting Unit UserId MockUser K)
    (w : World UserId MockUser K) (token : JwtToken K) : Prop :=
  Derivable cfg.attacker w.wire token.signature ∧
    authenticateJwt (jwtStrategy jwt cfg.serverKey w.server.now (some token)) = .next

/-- At some point of the history, the router signed this text after a success for a user whose id
is the subject `verify` finds in it. -/
def IssuedByRouter (jwt : Jsonwebtoken K) (cfg : Setting Unit UserId MockUser K)
    (h : List (WorldEvent Unit UserId MockUser K)) (now : ℕ) (token : JwtToken K) : Prop :=
  ∃ k id issued response user s payload, SucceededAt h k id issued response user ∧
    routerSigns jwt user.user issued = some token.signed ∧ user.user.id = .string s ∧
    jwt.verify cfg.serverKey jwtStrategyOptions now token = .ok payload ∧ payload.sub = some s

/-- Every token that opens the protected route was issued by the router. -/
def OnlyRouterIssues (jwt : Jsonwebtoken K) (clientKey serverKey : K) (attacker : Attacker K) :
    Prop :=
  ∀ h w, (app jwt clientKey serverKey attacker).world.Execution h w → ∀ token,
    Passes jwt (app jwt clientKey serverKey attacker) w token →
      IssuedByRouter jwt (app jwt clientKey serverKey attacker) h w.server.now token

/-- Header `{"alg":"RS256"}` and the claims of user `admin` until 43200 seconds. -/
def forgedText : Bytes :=
  ("eyJhbGciOiJSUzI1NiJ9.eyJhdWQiOiJhcGkubG9jYWwiLCJleHAiOjQzMjAwLCJpc3MiOiJhdXRoLmFwaS5sb2NhbCIsInN1YiI6ImFkbWluIn0".toList).map
    fun c => UInt8.ofNat c.toNat

/-- `jsonwebtoken` on that text; it need not sign anything. -/
def forgedJwt : Jsonwebtoken ℕ where
  signingInput _ _ _ _ := none
  verify key _ _ token :=
    if token.signed ≠ forgedText then .error "jwt malformed"
    else if token.signature ≠ .sig key (.data token.signed) then .error "invalid signature"
    else .ok { sub := some "admin".toList, exp := some 43200 }

/-- The owner of the client key sends the text as its nonce. -/
def forgeMoves : List (WorldMove Unit UserId ℕ) :=
  challengeMoves 0 () (.string "guest".toList)
    ⟨.encrypt 0 0 (.data forgedText), .sign 1 (.data forgedText)⟩

/-- The demo server against the owner of the client key. -/
def forgedApp : Setting Unit UserId MockUser ℕ :=
  app forgedJwt 1 0 { owns := fun k => k = 1, digests := true }

def forgedToken : JwtToken ℕ := ⟨forgedText, .sig 0 (.data forgedText)⟩

theorem forged_passes : Passes forgedJwt forgedApp (forgedApp.world.final forgeMoves) forgedToken :=
  ⟨⟨.seen 1, by decide +kernel⟩, by decide +kernel⟩

/-- The signature that gives the nonce back makes it a token. -/
theorem challenge_mints_token :
    ¬ OnlyRouterIssues forgedJwt 1 0 { owns := fun k => k = 1, digests := true } := by
  intro hall
  have hx := forgedApp.world.final_execution forgeMoves
  obtain ⟨_, _, _, _, user, _, _, _, hsigned, _⟩ := hall _ _ hx _ forged_passes
  cases hsigned

variable {jwt : Jsonwebtoken K} {clientKey serverKey : K} {attacker : Attacker K}
  {h : List (WorldEvent Unit UserId MockUser K)} {w : World UserId MockUser K}
  {token : JwtToken K}

/-- A token passes only if `verify` accepts it. -/
theorem passes_verified (hdoc : jwt.Documented) {key : K} {now : ℕ}
    (hn : authenticateJwt (jwtStrategy jwt key now (some token)) = .next) :
    ∃ payload, jwt.verify key jwtStrategyOptions now token = .ok payload := by
  unfold jwtStrategy at hn
  cases hv : jwt.verify key jwtStrategyOptions now token with
  | ok payload => exact ⟨payload, rfl⟩
  | error message =>
    have hne : message ≠ "" := fun he => hdoc.refusal key jwtStrategyOptions now token (he ▸ hv)
    simp [hv, authenticateJwt, Option.filter, hne] at hn

/-- Byte for byte the token's text is what a challenge request encrypted for the server: the
strategy decrypted it, verified it with the key of the user named in the request, and answered with
`fail`. -/
def GivenBack (cfg : Setting Unit UserId MockUser K)
    (h : List (WorldEvent Unit UserId MockUser K)) (token : JwtToken K) : Prop :=
  ∃ k id request user n, FailedAt h k id request user (.data token.signed) n ∧
    cfg.Registered request.userId user ∧ cfg.Opens request user (.data token.signed)

/-- Every token that opens the protected route was issued by the router, or its text is the nonce
of a challenge request that the strategy verified and gave back. -/
theorem token_origin (hdoc : jwt.Documented) (hserver : attacker.owns serverKey = false)
    (hx : (app jwt clientKey serverKey attacker).world.Execution h w)
    (hp : Passes jwt (app jwt clientKey serverKey attacker) w token) :
    IssuedByRouter jwt (app jwt clientKey serverKey attacker) h w.server.now token ∨
      GivenBack (app jwt clientKey serverKey attacker) h token := by
  obtain ⟨hder, hnext⟩ := hp
  obtain ⟨payload, hv⟩ := passes_verified hdoc hnext
  rw [hdoc.signature _ _ _ _ _ hv] at hder
  obtain ⟨k, id, request, user, d, n, hf, hd | hn⟩ |
    ⟨k, id, now, response, user, bytes, hs, hb, hm⟩ := server_signed hx hserver hder
  · rw [← hd] at hf
    obtain ⟨hregistered, hopens, _⟩ := failed_facts hx hf
    exact Or.inr ⟨k, id, request, user, n, hf, hregistered, hopens⟩
  · -- a nonce of the server is no text
    obtain ⟨_, _, ⟨g, _, hg, _⟩, _⟩ := failed_facts hx hf
    rw [← hn] at hg
    cases hg
  · cases hm
    have hsigned : routerSigns jwt user.user now = some token.signed := by
      simpa [app] using hb
    obtain ⟨s, hid, hsub⟩ := hdoc.subject _ _ _ _ _ _ _ _ _ hsigned hv
    exact Or.inl ⟨k, id, now, response, user, s, payload, hs, hsigned, hid, hv, hsub⟩

theorem forgedJwt_documented : forgedJwt.Documented where
  signature := by
    intro key o now token payload hv
    simp only [forgedJwt] at hv
    split at hv
    · cases hv
    · split at hv
      · cases hv
      · rename_i hs
        exact not_not.mp hs
  subject := by
    intro user o subject now key vo now' token payload hs
    cases hs
  refusal := by
    intro key o now token hv
    simp only [forgedJwt] at hv
    split at hv
    · simp at hv
    · split at hv <;> simp at hv

/-- The forged token is of the second kind. -/
theorem token_origin_forged :
    IssuedByRouter forgedJwt forgedApp (forgedApp.world.history forgeMoves)
        (forgedApp.world.final forgeMoves).server.now forgedToken ∨
      GivenBack forgedApp (forgedApp.world.history forgeMoves) forgedToken :=
  token_origin forgedJwt_documented rfl (forgedApp.world.final_execution forgeMoves) forged_passes

end MutualKeyChallenge
