import MutualKeyChallenge.Client.BadReplies
import MutualKeyChallenge.Session.Formats
import MutualKeyChallenge.Server.Verdicts

/-! Clients and the demo server's route, with every message delivered as it was sent. -/
namespace MutualKeyChallenge.Session
open Transition
variable {K S : Type}

/-- A server and the options its clients use. The strategy takes its requests from a JSON body;
`token` is what `sign` gives for a user. -/
structure Deployment (K S : Type) where
  crypto : NodeCrypto K Bytes S
  cryptography : CryptographyOptions
  clientCryptography : ClientCryptographyOptions
  serverKey : ServerKey K
  userFunc : HttpRequest → UserId → Option (UserKeyRecord MockUser K)
  ttlMs : ℕ
  node : NodeBuffer
  json : JsonParser
  token : MockUser → Option (List Char)

/-- The two requests of a handshake. -/
inductive Leg
  | challenge
  | response
  deriving DecidableEq, Repr

def Leg.messageField : Leg → String
  | .challenge => "challenge"
  | .response => "response"

/-- One `request` call. It waits for the reply to what it sent, which is on its way or has become
a call of the strategy; or its promise is settled; or it hangs, because the callback that should
have settled the promise threw. -/
inductive RequestState (K : Type)
  | awaiting (leg : Leg) (args : HandshakeRun (List Char) K Bytes)
      (sent : ClientSignedMessage (List Char) Bytes) (call : Option ℕ)
  | resolved (args : HandshakeRun (List Char) K Bytes)
      (sent : ClientSignedMessage (List Char) Bytes) (response : HttpResponse)
  | rejected (args : HandshakeRun (List Char) K Bytes) (e : Thrown)
  | hanging (args : HandshakeRun (List Char) K Bytes) (e : Thrown)

def RequestState.args : RequestState K → HandshakeRun (List Char) K Bytes
  | .awaiting _ args _ _ => args
  | .resolved args _ _ => args
  | .rejected args _ => args
  | .hanging args _ => args

structure State (K : Type) where
  server : Server UserId MockUser K Bytes
  requests : ℕ → Option (RequestState K)

/-- `disconnect`: `http` reports an error of the request that the run waits for; of a reply that is
cut off after its head it reports none, and the run makes no move. `server` also brings in the
requests of any other clients. -/
inductive Move (K S : Type)
  | start (run : ℕ) (userId : List Char) (clientKey serverKey : K) (random seed : S)
  | arrive (run call : ℕ)
  | receive (run : ℕ)
  | disconnect (run : ℕ) (e : Thrown)
  | server (move : ServerMove HttpRequest K S)

inductive Event (K S : Type)
  | started (run : ℕ) (args : HandshakeRun (List Char) K Bytes) (after : RequestState K)
  | arrived (run : ℕ) (leg : Leg) (e : ServerEvent HttpRequest UserId MockUser K Bytes S)
  | received (run : ℕ) (response : HttpResponse) (after : RequestState K)
  | disconnected (run : ℕ)
  | server (e : ServerEvent HttpRequest UserId MockUser K Bytes S)

namespace Deployment
variable (cfg : Deployment K S)

def strategy : MutualKeyChallengeStrategy HttpRequest UserId MockUser K Bytes S :=
  shippedStrategy cfg.node (.body "userId" "challenge" "response") cfg.userFunc
    { crypto := cfg.crypto, key := cfg.serverKey, options := cfg.cryptography }

def client : HandshakeClient K Bytes S where
  crypto := cfg.crypto
  cryptOpt := cfg.clientCryptography

/-- `request` up to its first `await`. -/
def begin (args : HandshakeRun (List Char) K Bytes) (seed : S) : RequestState K :=
  match cfg.client.challengeMessage args seed with
  | .error e => .rejected args e
  | .ok sent => .awaiting .challenge args sent none

/-- What `request` makes of the reply it waits for. The status of the reply is not looked at. -/
def onReply (leg : Leg) (args : HandshakeRun (List Char) K Bytes)
    (sent : ClientSignedMessage (List Char) Bytes) (response : HttpResponse) : RequestState K :=
  match leg with
  | .response => .resolved args sent response
  | .challenge =>
    match extractByBase64Json cfg.node cfg.json response.body with
    | .error e => .hanging args e
    | .ok serverChallenge =>
      match cfg.client.responseMessage args serverChallenge with
      | .error e => .rejected args e
      | .ok sent => .awaiting .response args sent none

/-- The reply to a settled call, if the router sends one. -/
def reply (call : Option (Call UserId MockUser K Bytes)) : Option HttpResponse :=
  match call with
  | some (.settled v) => authenticateRouter cfg.token (.ofVerdict v)
  | _ => none

def step (w : State K) : Move K S → Option (State K × Event K S)
  | .start run userId clientKey serverKey random seed =>
    match w.requests run with
    | some _ => none
    | none =>
      let args := { userId, clientKey, serverKey, nonce := cfg.client.nonce random }
      let after := cfg.begin args seed
      some ({ w with requests := Function.update w.requests run (some after) },
        .started run args after)
  | .arrive run call =>
    match w.requests run with
    | some (.awaiting leg args sent none) =>
      match w.server.step cfg.strategy
          (.authenticate call (jsonRequest leg.messageField sent call)) with
      | none => none
      | some (server, e) =>
        some
          ({ server
             requests :=
               Function.update w.requests run (some (.awaiting leg args sent (some call))) },
            .arrived run leg e)
    | _ => none
  | .receive run =>
    match w.requests run with
    | some (.awaiting leg args sent (some call)) =>
      match cfg.reply (w.server.calls call) with
      | none => none
      | some response =>
        let after := cfg.onReply leg args sent response
        some ({ w with requests := Function.update w.requests run (some after) },
          .received run response after)
    | _ => none
  | .disconnect run e =>
    match w.requests run with
    | some (.awaiting _ args _ _) =>
      some ({ w with requests := Function.update w.requests run (some (.rejected args e)) },
        .disconnected run)
    | _ => none
  | .server move =>
    match w.server.step cfg.strategy move with
    | none => none
    | some (server, e) => some ({ w with server }, .server e)

/-- Any number of `request` calls and of other requests, interleaved in any way. -/
def session : Machine (State K) (Move K S) (Event K S) where
  init := { server := .new cfg.ttlMs, requests := fun _ => none }
  step := cfg.step

end Deployment

/-- Crypto that marks what it encrypts and signs with the key's number. -/
def markingCrypto : NodeCrypto UInt8 Bytes UInt8 where
  randomBytes _ random := [random]
  publicEncrypt o _ m := .ok (o.key :: m)
  privateDecrypt o c :=
    match c with
    | [] => .error .cryptoError
    | key :: m => if key = o.key then .ok m else .error .cryptoError
  sign _ m o := o.key :: m
  verify _ m o signature := decide (signature = o.key :: m)

/-- The demo server with the default options; its key is 0 and the users' key is 1. -/
def demo : Deployment UInt8 UInt8 where
  crypto := markingCrypto
  cryptography := ⟨4, 1, "sha256", 128⟩
  clientCryptography := ⟨4, 1, "sha256", 128⟩
  serverKey := .keyObject 0
  userFunc := fun _ => getUser 1
  ttlMs := 120000
  node := ⟨fun _ => .error .typeError⟩
  json := ⟨fun _ => .error .syntaxError, fun _ _ _ _ => rfl⟩
  token := fun _ => some "token".toList

/-- Run `run` of user `u` sends its challenge, which is answered as call `call`. -/
def challengeLeg (run call : ℕ) : List (Move UInt8 UInt8) :=
  [.start run "u".toList 1 0 7 0, .arrive run call] ++
    List.replicate 7 (.server (.resume call ⟨0, .ofNat call, 0⟩)) ++ [.receive run]

/-- The run sends its response, which is answered as call `call`. -/
def responseLeg (run call : ℕ) : List (Move UInt8 UInt8) :=
  [.arrive run call] ++ List.replicate 3 (.server (.resume call ⟨0, .ofNat call, 0⟩)) ++
    [.receive run]

/-! What one step can do. -/

variable {cfg : Deployment K S} {w w' : State K} {e : Event K S} {h : List (Event K S)}

/-- The steps by the event they record. -/
inductive Step (cfg : Deployment K S) (w : State K) : Event K S → State K → Prop
  | started {run args seed} (hfree : w.requests run = none) :
      Step cfg w (.started run args (cfg.begin args seed))
        { w with requests := Function.update w.requests run (some (cfg.begin args seed)) }
  | arrived {run leg args sent call after server}
      (hrun : w.requests run = some (.awaiting leg args sent none))
      (hs : ServerStep cfg.strategy w.server
        (.authenticate call w.server.now (jsonRequest leg.messageField sent call) after) server) :
      Step cfg w (.arrived run leg
          (.authenticate call w.server.now (jsonRequest leg.messageField sent call) after))
        { server
          requests := Function.update w.requests run (some (.awaiting leg args sent (some call))) }
  | received {run leg args sent call v response}
      (hrun : w.requests run = some (.awaiting leg args sent (some call)))
      (hcall : w.server.calls call = some (.settled v))
      (hreply : authenticateRouter cfg.token (.ofVerdict v) = some response) :
      Step cfg w (.received run response (cfg.onReply leg args sent response))
        { w with
          requests := Function.update w.requests run (some (cfg.onReply leg args sent response)) }
  | disconnected {run leg args sent call e}
      (hrun : w.requests run = some (.awaiting leg args sent call)) :
      Step cfg w (.disconnected run)
        { w with requests := Function.update w.requests run (some (.rejected args e)) }
  | server {se server} (hs : ServerStep cfg.strategy w.server se server) :
      Step cfg w (.server se) { w with server }

theorem step_inv (h : cfg.session.Step w e w') : Step cfg w e w' := by
  have server_inv : ∀ {move server se}, w.server.step cfg.strategy move = some (server, se) →
      ServerStep cfg.strategy w.server se server := by
    intro move server se hs
    have hstep : (serverMachine cfg.strategy cfg.ttlMs).Step w.server se server := ⟨move, hs⟩
    exact server_step_inv hstep
  obtain ⟨move, h⟩ := h
  simp only [Deployment.session] at h
  cases move with
  | start run userId clientKey serverKey random seed =>
    simp only [Deployment.step] at h
    split at h
    · cases h
    · rename_i hfree
      cases h
      exact .started hfree
  | arrive run call =>
    simp only [Deployment.step] at h
    split at h
    · rename_i leg args sent hrun
      split at h
      · cases h
      · rename_i server se hs
        cases h
        have hstep := server_inv hs
        simp only [Server.step] at hs
        split at hs
        · cases hs
        · cases hs
          exact .arrived hrun hstep
    · cases h
  | receive run =>
    simp only [Deployment.step] at h
    split at h
    · rename_i leg args sent call hrun
      split at h
      · cases h
      · rename_i response hreply
        cases h
        unfold Deployment.reply at hreply
        split at hreply
        · rename_i v hcall
          exact .received hrun hcall hreply
        · cases hreply
    · cases h
  | disconnect run e =>
    simp only [Deployment.step] at h
    split at h
    · rename_i hrun
      cases h
      exact .disconnected hrun
    · cases h
  | server move =>
    simp only [Deployment.step] at h
    split at h
    · cases h
    · rename_i server se hs
      cases h
      exact .server (server_inv hs)

/-! The server alone. -/

/-- The server's part of a history. -/
def serverEvents (h : List (Event K S)) :
    List (ServerEvent HttpRequest UserId MockUser K Bytes S) :=
  h.filterMap fun e =>
    match e with
    | .arrived _ _ se => some se
    | .server se => some se
    | _ => none

theorem mem_serverEvents {se : ServerEvent HttpRequest UserId MockUser K Bytes S}
    (he : .server se ∈ h) : se ∈ serverEvents h := List.mem_filterMap.mpr ⟨_, he, rfl⟩

/-- What the server sees of the sessions. -/
def serverView (cfg : Deployment K S) :
    Projection cfg.session (serverMachine cfg.strategy cfg.ttlMs) where
  state := State.server
  event := fun e =>
    match e with
    | .arrived _ _ se => some se
    | .server se => some se
    | _ => none
  init := rfl
  step := by
    intro w e w' hstep
    cases step_inv hstep with
    | arrived hrun hs => exact Or.inl ⟨_, rfl, hs.step⟩
    | server hs => exact Or.inl ⟨_, rfl, hs.step⟩
    | started | received | disconnected => exact Or.inr ⟨rfl, rfl⟩

theorem session_server_step {se : ServerEvent HttpRequest UserId MockUser K Bytes S}
    (hstep : cfg.session.Step w (.server se) w') :
    ServerStep cfg.strategy w.server se w'.server := by
  cases step_inv hstep with
  | server hs => exact hs

/-- The server runs as it could alone. -/
theorem session_server (hx : cfg.session.Execution h w) :
    (serverMachine cfg.strategy cfg.ttlMs).Execution (serverEvents h) w.server :=
  (serverView cfg).execution hx

/-! The reply, event by event. -/

/-- How far `request` has come after the reply to its challenge. -/
def RequestState.stage : RequestState K → RequestStage (List Char) Bytes
  | .awaiting _ _ sent _ => .sends sent
  | .rejected _ e => .rejects e
  | .resolved _ _ _ | .hanging _ _ => .waiting

/-- What the listeners and the `await` come to, in whatever chunks the reply arrives, is what
`onReply` makes of it in one step. -/
theorem exchange_onReply {args : HandshakeRun (List Char) K Bytes}
    {sent : ClientSignedMessage (List Char) Bytes} {status : ℕ}
    {h : List (ExchangeEvent (List Char))} {w : Exchange (List Char)}
    (hx : (exchange cfg.client args fun _ => extractBuffer cfg.node cfg.json).Execution h w)
    (hhalted : (exchange cfg.client args fun _ => extractBuffer cfg.node cfg.json).Halted w)
    (hfailed : ¬ RequestFailed h) :
    w.request = (cfg.onReply .challenge args sent
      ⟨status, .text (String.ofList (Utf8.decode (replyBody h)))⟩).stage := by
  simp only [Deployment.onReply]
  cases halted_outcome hx hhalted with
  | @extracted serverChallenge _ hextract hrequest =>
    rw [extractBuffer] at hextract
    simp only [hrequest, HandshakeClient.afterAwait, hextract]
    cases cfg.client.responseMessage args serverChallenge with
    | error e => rfl
    | ok message => rfl
  | failed _ hfailed' _ => exact (hfailed hfailed').elim
  | hanging _ hextract _ hrequest =>
    rw [extractBuffer] at hextract
    simp only [hrequest, hextract, RequestState.stage]

end MutualKeyChallenge.Session
