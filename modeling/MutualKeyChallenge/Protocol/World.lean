import MutualKeyChallenge.Symbolic.Policy
import MutualKeyChallenge.Server.Calls
import MutualKeyChallenge.Client.HandshakeClient

/-! Clients, one strategy and a network in the attacker's hands. -/
namespace MutualKeyChallenge
open Transition Symbolic

/-- Node's crypto on symbolic byte strings: only the right key opens a ciphertext, and a
signature verifies exactly when it is the key's signature of the data. -/
def symbolicCrypto {K : Type} [DecidableEq K] : NodeCrypto K (Term K) ℕ where
  randomBytes _ n := .nonce n
  publicEncrypt options seed m := .ok (.aenc options.key seed m)
  privateDecrypt options c :=
    match c with
    | .aenc k _ m => if k = options.key then .ok m else .error .cryptoError
    | _ => .error .cryptoError
  sign _ m options := .sig options.key m
  verify _ m options signature := decide (signature = .sig options.key m)

/-- The content of a request once the strategy's extractor has parsed it. -/
inductive Content (I B : Type)
  | challenge (userId : I) (data : SignedMessage B)
  | response (userId : I) (data : SignedMessage B)
  | malformed (error : ChallengeError)
  deriving DecidableEq, Repr

/-- A request: its content, and everything else `userFunc` may look at. -/
structure Incoming (C I B : Type) where
  ctx : C
  content : Content I B
  deriving DecidableEq, Repr

/-- The deployment: users, the server's key, the cache's `ttlMs` and the attacker. `onSuccess`
lists the byte strings that the application behind the strategy signs with the server's key when
`success` is called; it is empty when the key is used by the strategy alone. -/
structure Setting (C I U K : Type) where
  userFunc : C → I → Option (UserKeyRecord U K)
  serverKey : K
  ttlMs : ℕ
  attacker : Attacker K
  onSuccess : U → ℕ → List (List UInt8)

/-- `HandshakeClient.request` after its challenge request was sent. -/
inductive RunState (I K B : Type)
  | awaitingChallenge (run : HandshakeRun I K B)
  | awaitingResult (run : HandshakeRun I K B) (answered : B)
  | threw (e : Thrown)
  deriving DecidableEq, Repr

/-- `wire` is all the attacker has seen; `fresh` numbers the values `randomBytes` gives. -/
structure World (I U K : Type) where
  server : Server I U K (Term K)
  runs : ℕ → Option (RunState I K (Term K))
  wire : List (Term K)
  fresh : ℕ

inductive WorldMove (C I K : Type)
  | deliver (id : ℕ) (ctx : C) (content : Content I (Recipe K))
  | resume (id seed : ℕ)
  | timer (t : ℕ)
  | tick (ms : ℕ)
  | start (run : ℕ) (userId : I) (clientKey serverKey : K) (seed : ℕ)
  | reply (run : ℕ) (serverChallenge : ServerChallenge (Recipe K))

inductive WorldEvent (C I U K : Type)
  | server (e : ServerEvent (Incoming C I (Term K)) I U K (Term K) ℕ)
  | started (run : ℕ) (args : HandshakeRun I K (Term K))
      (sent : ClientSignedMessage I (Term K))
  | replied (run : ℕ) (args : HandshakeRun I K (Term K))
      (serverChallenge : ServerChallenge (Term K)) (after : RunState I K (Term K))

variable {C I U K : Type} [DecidableEq I] [DecidableEq K]

def SignedMessage.eval (a : Attacker K) (seen : List (Term K)) (m : SignedMessage (Recipe K)) :
    Option (SignedMessage (Term K)) :=
  match m.message.eval a seen, m.signature.eval a seen with
  | some message, some signature => some { message, signature }
  | _, _ => none

def Content.eval (a : Attacker K) (seen : List (Term K)) :
    Content I (Recipe K) → Option (Content I (Term K))
  | .challenge userId data => (data.eval a seen).map (.challenge userId)
  | .response userId data => (data.eval a seen).map (.response userId)
  | .malformed error => some (.malformed error)

def ServerChallenge.eval (a : Attacker K) (seen : List (Term K))
    (m : ServerChallenge (Recipe K)) : Option (ServerChallenge (Term K)) :=
  match m.clientRequested.eval a seen, m.serverRequested.eval a seen with
  | some clientRequested, some serverRequested => some { clientRequested, serverRequested }
  | _, _ => none

/-- Both byte strings of a signed message can be computed by the attacker. -/
def SignedMessage.Derivable (a : Attacker K) (seen : List (Term K))
    (m : SignedMessage (Term K)) : Prop :=
  Symbolic.Derivable a seen m.message ∧ Symbolic.Derivable a seen m.signature

namespace Setting
variable (cfg : Setting C I U K)

/-- An honest client's key: the attacker does not own it and it is not the server's. -/
def Honest (k : K) : Prop := cfg.attacker.owns k = false ∧ k ≠ cfg.serverKey

instance (k : K) : Decidable (cfg.Honest k) := inferInstanceAs (Decidable (_ ∧ _))

/-- The default options of both packages; ideal cryptography does not look at them. -/
def cryptography : CryptographyOptions :=
  { messagePadding := 4, signaturePadding := 1, hashAlgorithm := "sha256", nonceSize := 128 }

def clientCryptography : ClientCryptographyOptions :=
  { messagePadding := 4, signVerifyPadding := 1, hashAlgorithm := "sha256", nonceSize := 128 }

def strategy : MutualKeyChallengeStrategy (Incoming C I (Term K)) I U K (Term K) ℕ where
  challengeOrResponseFunc req now :=
    match req.content with
    | .challenge userId data =>
      .ok (.clientChallenge { userId, clientRequested := data, requestDateTime := now })
    | .response userId data => .ok (.clientResponse { userId, clientResponsed := data })
    | .malformed error => .ok (.challengeError error)
  userFunc req userId := cfg.userFunc req.ctx userId
  verifier :=
    { crypto := symbolicCrypto, key := .keyObject cfg.serverKey, options := cryptography }

def client : HandshakeClient K (Term K) ℕ where
  crypto := symbolicCrypto
  cryptOpt := clientCryptography

/-- What a server event puts on the wire: the four byte strings of a challenge, or what the
application signs for the user it logged in. -/
def published : ServerEvent (Incoming C I (Term K)) I U K (Term K) ℕ → List (Term K)
  | .resume _ _ _ _ (.settled (.fail challenge _)) =>
    [challenge.clientRequested.message, challenge.clientRequested.signature,
      challenge.serverRequested.message, challenge.serverRequested.signature]
  | .resume _ now _ _ (.settled (.success user _)) =>
    (cfg.onSuccess user now).flatMap fun bytes =>
      [.data bytes, .sig cfg.serverKey (.data bytes)]
  | _ => []

def serverStep (w : World I U K) (move : ServerMove (Incoming C I (Term K)) K ℕ) :
    Option (World I U K × WorldEvent C I U K) :=
  match w.server.step cfg.strategy move with
  | none => none
  | some (server, e) =>
    some ({ w with server, wire := w.wire ++ cfg.published e, fresh := w.fresh + 1 }, .server e)

def step (w : World I U K) : WorldMove C I K → Option (World I U K × WorldEvent C I U K)
  | .deliver id ctx content =>
    match content.eval cfg.attacker w.wire with
    | none => none
    | some content => cfg.serverStep w (.authenticate id { ctx, content })
  | .resume id seed =>
    cfg.serverStep w (.resume id
      { returnedKey := cfg.serverKey, random := w.fresh, seed })
  | .timer t => cfg.serverStep w (.timer t)
  | .tick ms => cfg.serverStep w (.tick ms)
  | .start run userId clientKey serverKey seed =>
    match w.runs run with
    | some _ => none
    | none =>
      if cfg.Honest clientKey then
        let args := { userId, clientKey, serverKey, nonce := client.nonce w.fresh }
        match client.challengeMessage args seed with
        | .error _ => none
        | .ok sent =>
          some ({ w with
              runs := Function.update w.runs run (some (.awaitingChallenge args))
              wire := w.wire ++ [sent.data.message, sent.data.signature]
              fresh := w.fresh + 1 }, .started run args sent)
      else none
  | .reply run serverChallenge =>
    match w.runs run with
    | some (.awaitingChallenge args) =>
      match serverChallenge.eval cfg.attacker w.wire with
      | none => none
      | some serverChallenge =>
        match client.responseMessage args serverChallenge with
        | .error e =>
          some ({ w with
              runs := Function.update w.runs run (some (.threw e))
              fresh := w.fresh + 1 }, .replied run args serverChallenge (.threw e))
        | .ok sent =>
          let after := .awaitingResult args sent.data.message
          some ({ w with
              runs := Function.update w.runs run (some after)
              wire := w.wire ++ [sent.data.message, sent.data.signature]
              fresh := w.fresh + 1 }, .replied run args serverChallenge after)
    | _ => none

/-- Any number of client runs and `authenticate` calls, all messages through the attacker. -/
def world : Machine (World I U K) (WorldMove C I K) (WorldEvent C I U K) where
  init := { server := .new cfg.ttlMs, runs := fun _ => none, wire := [], fresh := 0 }
  step := cfg.step

end Setting

/-! Scripts of the usual exchanges, for runs on concrete settings. -/

/-- A challenge request and the seven segments of its call. -/
def challengeMoves (id : ℕ) (ctx : C) (userId : I) (data : SignedMessage (Recipe K)) :
    List (WorldMove C I K) :=
  .deliver id ctx (.challenge userId data) :: List.replicate 7 (.resume id 0)

/-- A response request and the three segments of its call. -/
def responseMoves (id : ℕ) (ctx : C) (userId : I) (data : SignedMessage (Recipe K)) :
    List (WorldMove C I K) :=
  .deliver id ctx (.response userId data) :: List.replicate 3 (.resume id 0)

/-- What the attacker saw at `i` and `i + 1`, taken for a signed message. -/
def seenAt (i : ℕ) : SignedMessage (Recipe K) := ⟨.seen i, .seen (i + 1)⟩

/-- Users 1 and 2 with the key pairs of the same numbers; the attacker owns pair 2 and the server
pair 0. -/
def twoUsers : Setting Unit ℕ ℕ ℕ where
  userFunc _ userId := if userId = 1 ∨ userId = 2 then some ⟨userId, userId⟩ else none
  serverKey := 0
  ttlMs := 120000
  attacker := { owns := fun k => k = 2, digests := false }
  onSuccess _ _ := []

/-- One undisturbed handshake of user 1: run 0 and the calls 0 and 1. -/
def handshakeMoves : List (WorldMove Unit ℕ ℕ) :=
  .start 0 1 1 0 0 :: challengeMoves 0 () 1 (seenAt 0) ++
    .reply 0 ⟨seenAt 2, seenAt 4⟩ :: responseMoves 1 () 1 (seenAt 6)

end MutualKeyChallenge
