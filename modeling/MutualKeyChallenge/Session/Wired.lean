import MutualKeyChallenge.Client.RequestLife
import MutualKeyChallenge.Session.Bytes

/-! The sessions byte by byte: requests and replies are bytes, replies come in any parts, and a
client may give up a request that the server answers all the same. A request that `express.json()`
does not take has no step here, and neither has a reply that is cut off without an error. -/
namespace MutualKeyChallenge.Session
open Transition
variable {K S : Type}

/-- A `request` call that has sent a request: its last message, the call of the strategy that this
has become, and the bytes of the reply that have not been delivered, once there is a reply. -/
structure SentRun (K : Type) where
  args : HandshakeRun (List Char) K Bytes
  options : HandshakeRequestOptions
  message : ClientSignedMessage (List Char) Bytes
  request : RequestCall (List Char) := {}
  call : Option ℕ := none
  reply : Option Bytes := none

/-- A `request` call; its first request was never made when something threw before. -/
inductive WiredRun (K : Type)
  | threw (args : HandshakeRun (List Char) K Bytes) (e : Thrown)
  | sent (run : SentRun K)

structure WiredState (K : Type) where
  server : Server UserId MockUser K Bytes
  runs : ℕ → Option (WiredRun K)

/-- What comes next of a reply; `data` is as many bytes of it. -/
inductive Part
  | response
  | data (size : ℕ)
  | ended
  | error (e : Thrown)

inductive WiredMove (K S : Type)
  | start (run : ℕ) (options : HandshakeRequestOptions) (userId : List Char)
      (clientKey serverKey : K) (random seed : S)
  | arrive (run call : ℕ)
  | http (run : ℕ) (part : Part)
  | await (run : ℕ)
  | server (move : ServerMove HttpRequest K S)

inductive WiredEvent (K S : Type)
  | started (run : ℕ)
  | arrived (run : ℕ) (e : ServerEvent HttpRequest UserId MockUser K Bytes S)
  | http (run : ℕ) (event : HttpEvent)
  | awaited (run : ℕ)
  | server (e : ServerEvent HttpRequest UserId MockUser K Bytes S)

namespace SentRun

def leg (r : SentRun K) : Leg :=
  match r.request.exchange.request with
  | .sends _ => .response
  | _ => .challenge

/-- What `request.end` was given. -/
def data (r : SentRun K) : RequestData :=
  formatRequest r.leg.messageField r.message r.options.toRequestOptions

/-- The event of a part, and what is left of the reply after it. -/
def next (r : SentRun K) (numbers : NumberText) (answer : Option HttpResponse) :
    Part → Option (HttpEvent × Option Bytes)
  | .response =>
    match r.reply, answer with
    | none, some response => some (.response response.status, some (response.body.bytes numbers))
    | _, _ => none
  | .data size => r.reply.map fun rest => (.data (rest.take size), some (rest.drop size))
  | .ended =>
    match r.reply with
    | some [] => some (.ended, some [])
    | _ => none
  | .error e => some (.error e, r.reply)

/-- An event of the request that is under way. -/
def httpMove (r : SentRun K) (event : HttpEvent) : RequestMove :=
  match r.request.exchange.request with
  | .waiting => .exchange (.http event)
  | _ => .http event

def awaitMove (r : SentRun K) : RequestMove :=
  match r.request.exchange.request with
  | .waiting => .exchange .await
  | _ => .await

/-- After an `await` the second request may have been sent. -/
def awaited (r : SentRun K) (request : RequestCall (List Char)) : SentRun K :=
  match r.request.exchange.request, request.exchange.request with
  | .waiting, .sends message => { r with request, message, call := none, reply := none }
  | _, _ => { r with request }

end SentRun

namespace Deployment
variable (cfg : Deployment K S) (numbers : NumberText)

/-- `request` after its first request has been made. -/
def requestMachine (args : HandshakeRun (List Char) K Bytes) :
    Machine (RequestCall (List Char)) RequestMove (RequestEvent (List Char)) :=
  MutualKeyChallenge.requestMachine cfg.client args
    fun _ => extractBuffer cfg.node numbers.parser

def wiredBegin (args : HandshakeRun (List Char) K Bytes) (options : HandshakeRequestOptions)
    (seed : S) : WiredRun K :=
  match cfg.client.challengeMessage args seed with
  | .error e => .threw args e
  | .ok message => .sent { args, options, message }

/-- What the router answers to a call, if it has been made. -/
def answer (calls : ℕ → Option (Call UserId MockUser K Bytes)) (call : Option ℕ) :
    Option HttpResponse := cfg.reply (call.bind calls)

def wiredStep (express : ExpressJson) (w : WiredState K) :
    WiredMove K S → Option (WiredState K × WiredEvent K S)
  | .start run options userId clientKey serverKey random seed =>
    match w.runs run with
    | some _ => none
    | none =>
      let args := { userId, clientKey, serverKey, nonce := cfg.client.nonce random }
      some ({ w with runs := Function.update w.runs run (some (cfg.wiredBegin args options seed)) },
        .started run)
  | .arrive run call =>
    match w.runs run with
    | some (.sent r) =>
      match r.call, r.data.receivedBytes numbers express call with
      | none, some req =>
        match w.server.step cfg.strategy (.authenticate call req) with
        | none => none
        | some (server, e) =>
          some
            ({ server
               runs := Function.update w.runs run (some (.sent { r with call := some call })) },
              .arrived run e)
      | _, _ => none
    | _ => none
  | .http run part =>
    match w.runs run with
    | some (.sent r) =>
      match r.next numbers (cfg.answer w.server.calls r.call) part with
      | none => none
      | some (event, reply) =>
        match (cfg.requestMachine numbers r.args).step r.request (r.httpMove event) with
        | none => none
        | some (request, _) =>
          some
            ({ w with
                runs := Function.update w.runs run (some (.sent { r with request, reply })) },
              .http run event)
    | _ => none
  | .await run =>
    match w.runs run with
    | some (.sent r) =>
      match (cfg.requestMachine numbers r.args).step r.request r.awaitMove with
      | none => none
      | some (request, _) =>
        some ({ w with runs := Function.update w.runs run (some (.sent (r.awaited request))) },
          .awaited run)
    | _ => none
  | .server move =>
    match w.server.step cfg.strategy move with
    | none => none
    | some (server, e) => some ({ w with server }, .server e)

/-- The sessions on the wire. -/
def wired (express : ExpressJson) : Machine (WiredState K) (WiredMove K S) (WiredEvent K S) where
  init := { server := .new cfg.ttlMs, runs := fun _ => none }
  step := cfg.wiredStep numbers express

end Deployment

/-! What one step can do. -/

/-- The steps by the event they record. -/
inductive WiredStep (cfg : Deployment K S) (numbers : NumberText) (express : ExpressJson)
    (w : WiredState K) : WiredEvent K S → WiredState K → Prop
  | started {run options userId clientKey serverKey random seed} (hfree : w.runs run = none) :
      WiredStep cfg numbers express w (.started run)
        { w with
          runs := Function.update w.runs run (some (cfg.wiredBegin
            { userId, clientKey, serverKey, nonce := cfg.client.nonce random } options seed)) }
  | arrived {run r call req server se} (hrun : w.runs run = some (.sent r)) (hcall : r.call = none)
      (hreq : r.data.receivedBytes numbers express call = some req)
      (hs : w.server.step cfg.strategy (.authenticate call req) = some (server, se)) :
      WiredStep cfg numbers express w (.arrived run se)
        { server
          runs := Function.update w.runs run (some (.sent { r with call := some call })) }
  | http {run r part event reply request re} (hrun : w.runs run = some (.sent r))
      (hn : r.next numbers (cfg.answer w.server.calls r.call) part = some (event, reply))
      (hs : (cfg.requestMachine numbers r.args).step r.request (r.httpMove event) =
        some (request, re)) :
      WiredStep cfg numbers express w (.http run event)
        { w with runs := Function.update w.runs run (some (.sent { r with request, reply })) }
  | awaited {run r request re} (hrun : w.runs run = some (.sent r))
      (hs : (cfg.requestMachine numbers r.args).step r.request r.awaitMove = some (request, re)) :
      WiredStep cfg numbers express w (.awaited run)
        { w with runs := Function.update w.runs run (some (.sent (r.awaited request))) }
  | server {move server se} (hs : w.server.step cfg.strategy move = some (server, se)) :
      WiredStep cfg numbers express w (.server se) { w with server }

theorem wired_step_inv {cfg : Deployment K S} {numbers : NumberText} {express : ExpressJson}
    {w w' : WiredState K} {e : WiredEvent K S} (h : (cfg.wired numbers express).Step w e w') :
    WiredStep cfg numbers express w e w' := by
  obtain ⟨move, h⟩ := h
  simp only [Deployment.wired] at h
  cases move with
  | start run options userId clientKey serverKey random seed =>
    simp only [Deployment.wiredStep] at h
    split at h
    · cases h
    · rename_i hfree
      cases h
      exact .started hfree
  | arrive run call =>
    simp only [Deployment.wiredStep] at h
    split at h
    · rename_i r hrun
      split at h
      · rename_i req hcall hreq
        split at h
        · cases h
        · rename_i server se hs
          cases h
          exact .arrived hrun hcall hreq hs
      · cases h
    · cases h
  | http run part =>
    simp only [Deployment.wiredStep] at h
    split at h
    · rename_i r hrun
      split at h
      · cases h
      · rename_i event reply hn
        split at h
        · cases h
        · rename_i request re hs
          cases h
          exact .http hrun hn hs
    · cases h
  | await run =>
    simp only [Deployment.wiredStep] at h
    split at h
    · rename_i r hrun
      split at h
      · cases h
      · rename_i request re hs
        cases h
        exact .awaited hrun hs
    · cases h
  | server move =>
    simp only [Deployment.wiredStep] at h
    split at h
    · cases h
    · rename_i server se hs
      cases h
      exact .server hs

/-! A reply on its way. -/

section Hearing
variable {R : Type} {extractFunc : Option (ℕ → Bytes → Except Thrown R)} {numbers : NumberText}
  {answer : Option HttpResponse} {reply reply' : Option Bytes} {l l' : Listeners (R ⊕ Bytes)}
  {r : SentRun K} {part : Part} {event : HttpEvent} {callback : Callback (R ⊕ Bytes)}

/-- What the listeners of a request have heard of the answer. -/
inductive Hearing (extractFunc : Option (ℕ → Bytes → Except Thrown R)) (numbers : NumberText)
    (answer : Option HttpResponse) : Option Bytes → Listeners (R ⊕ Bytes) → Prop
  | nothing : Hearing extractFunc numbers answer none {}
  | part {response data rest} (ha : answer = some response)
      (hdata : data.flatten ++ rest = response.body.bytes numbers) :
      Hearing extractFunc numbers answer (some rest) { response := some response.status, data }
  | all {response status data} (ha : answer = some response)
      (hdata : data.flatten = response.body.bytes numbers) :
      Hearing extractFunc numbers answer (some [])
        { response := some status
          data
          finished := true
          promise :=
            match extractOrCombined extractFunc status (response.body.bytes numbers) with
            | .error _ => .pending
            | .ok value => .resolved value }
  | failed {reply response data e} :
      Hearing extractFunc numbers answer reply
        { response, data, finished := true, promise := .rejected e }

theorem Hearing.grow {answer' : Option HttpResponse}
    (hl : Hearing extractFunc numbers answer reply l)
    (hgrow : ∀ response, answer = some response → answer' = some response) :
    Hearing extractFunc numbers answer' reply l := by
  cases hl with
  | nothing => exact .nothing
  | part ha hdata => exact .part (hgrow _ ha) hdata
  | all ha hdata => exact .all (hgrow _ ha) hdata
  | failed => exact .failed

theorem Hearing.emit (hl : Hearing extractFunc numbers answer r.reply l)
    (hn : r.next numbers answer part = some (event, reply'))
    (he : l.emit extractFunc event = some (l', callback)) :
    Hearing extractFunc numbers answer reply' l' := by
  generalize hreply : r.reply = reply at hl
  cases hl with
  | nothing =>
    cases part with
    | response =>
      cases ha : answer with
      | none => simp [SentRun.next, hreply, ha] at hn
      | some response =>
        simp only [SentRun.next, hreply, ha] at hn
        cases hn
        cases he
        exact .part rfl rfl
    | data | ended => simp [SentRun.next, hreply] at hn
    | error e =>
      cases hn
      cases he
      exact .failed
  | @part response data rest ha hdata =>
    cases part with
    | response => simp [SentRun.next, hreply] at hn
    | data size =>
      simp only [SentRun.next, hreply, Option.map_some] at hn
      cases hn
      cases he
      refine .part ha ?_
      simpa using hdata
    | ended =>
      simp only [SentRun.next, hreply] at hn
      split at hn
      · rename_i hrest
        cases hn
        cases hrest
        rw [List.append_nil] at hdata
        simp only [Listeners.emit, hdata] at he
        have hall :=
          @Hearing.all R extractFunc numbers answer response response.status data ha hdata
        split at he <;> cases he <;> rename_i hextract <;> rw [hextract] at hall <;> exact hall
      · cases hn
    | error e =>
      cases hn
      cases he
      exact .failed
  | all | failed => cases event <;> cases he

end Hearing

end MutualKeyChallenge.Session
