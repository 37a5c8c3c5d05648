import MutualKeyChallenge.Machine
import MutualKeyChallenge.Client.DefaultFuncs
import MutualKeyChallenge.Wire.Utf8

/-! The listeners that settle the promise of one HTTP request, event by event. -/
namespace MutualKeyChallenge
open Transition

inductive Promise (A : Type)
  | pending
  | resolved (value : A)
  | rejected (e : Thrown)

namespace Promise
variable {A : Type}

/-- The first argument of the executor. Only a pending promise can be settled. -/
def resolve (p : Promise A) (value : A) : Promise A :=
  match p with
  | .pending => .resolved value
  | p => p

/-- The second argument of the executor. -/
def reject (p : Promise A) (e : Thrown) : Promise A :=
  match p with
  | .pending => .rejected e
  | p => p

/-- What an `await` of the promise gives or throws, once there is something. -/
def awaited : Promise A → Option (Except Thrown A)
  | .pending => none
  | .resolved value => some (.ok value)
  | .rejected e => some (.error e)

end Promise

/-- What node's `http` reports of a request that gets a whole reply or fails with an error. Of a
reply that is cut off after its head it may report neither an end nor an error of the request; no
history here has one. -/
inductive HttpEvent
  | response (status : ℕ)
  | data (chunk : Bytes)
  | ended
  | error (e : Thrown)

/-- How the callback of an event ends: it returns, perhaps after it has called `resolve` or
`reject`, or throws, which nobody catches. -/
inductive Callback (A : Type)
  | returned
  | resolved (value : A)
  | rejected (e : Thrown)
  | threw (e : Thrown)

/-- The promise of `getRequestPromise` and what its listeners share. `response` is the status of
the response that has begun; `finished` is that no more events come. -/
structure Listeners (A : Type) where
  response : Option ℕ := none
  data : List Bytes := []
  finished : Bool := false
  promise : Promise A := .pending

section Listeners
variable {R : Type} (extractFunc : Option (ℕ → Bytes → Except Thrown R))

/-- `extractFunc ? extractFunc(response, combined) : combined` -/
def extractOrCombined (response : ℕ) (combined : Bytes) : Except Thrown (R ⊕ Bytes) :=
  match extractFunc with
  | none => .ok (.inr combined)
  | some extractFunc =>
    match extractFunc response combined with
    | .error e => .error e
    | .ok result => .ok (.inl result)

/-- The callback of an event. After a response has begun its data comes, and then its end; an error
of the request can come at any time before. -/
def Listeners.emit (l : Listeners (R ⊕ Bytes)) :
    HttpEvent → Option (Listeners (R ⊕ Bytes) × Callback (R ⊕ Bytes))
  | .response status =>
    match l.finished, l.response with
    | false, none => some ({ l with response := some status }, .returned)
    | _, _ => none
  | .data chunk =>
    match l.finished, l.response with
    | false, some _ => some ({ l with data := l.data ++ [chunk] }, .returned)
    | _, _ => none
  | .ended =>
    match l.finished, l.response with
    | false, some response =>
      -- the argument of `resolve` is computed in the callback, outside the executor
      match extractOrCombined extractFunc response l.data.flatten with
      | .error e => some ({ l with finished := true }, .threw e)
      | .ok value =>
        some ({ l with finished := true, promise := l.promise.resolve value }, .resolved value)
    | _, _ => none
  | .error e =>
    match l.finished with
    | false => some ({ l with finished := true, promise := l.promise.reject e }, .rejected e)
    | true => none

end Listeners

/-- `JSON.parse(body.toString())` and what follows, for a body as it arrives. -/
def extractBuffer (node : NodeBuffer) (json : JsonParser) (body : Bytes) :
    Except Thrown (ServerChallenge Bytes) :=
  extractByBase64Json node json (.text (String.ofList (Utf8.decode body)))

/-! `request` up to its second request. -/

inductive RequestStage (I B : Type)
  | waiting
  | sends (message : ClientSignedMessage I B)
  | rejects (e : Thrown)

variable {I K S : Type}

/-- `request` after its first `await`, up to the second request. A body in place of a challenge has
no `clientRequested`. -/
def HandshakeClient.afterAwait (c : HandshakeClient K Bytes S) (args : HandshakeRun I K Bytes) :
    Except Thrown (ServerChallenge Bytes ⊕ Bytes) → RequestStage I Bytes
  | .error e => .rejects e
  | .ok (.inr _) => .rejects .typeError
  | .ok (.inl serverChallenge) =>
    match c.responseMessage args serverChallenge with
    | .error e => .rejects e
    | .ok message => .sends message

structure Exchange (I : Type) where
  listeners : Listeners (ServerChallenge Bytes ⊕ Bytes) := {}
  request : RequestStage I Bytes := .waiting

inductive ExchangeMove
  | http (event : HttpEvent)
  | await

inductive ExchangeEvent (I : Type)
  | http (event : HttpEvent) (callback : Callback (ServerChallenge Bytes ⊕ Bytes))
  | await (after : RequestStage I Bytes)

/-- One `request` call from its first request to its second. -/
def exchange (c : HandshakeClient K Bytes S) (args : HandshakeRun I K Bytes)
    (extractFunc : ℕ → Bytes → Except Thrown (ServerChallenge Bytes)) :
    Machine (Exchange I) ExchangeMove (ExchangeEvent I) where
  init := {}
  step w
    | .http event =>
      match w.listeners.emit (some extractFunc) event with
      | none => none
      | some (listeners, callback) => some ({ w with listeners }, .http event callback)
    | .await =>
      match w.request, w.listeners.promise.awaited with
      | .waiting, some result =>
        let after := c.afterAwait args result
        some ({ w with request := after }, .await after)
      | _, _ => none

section Steps
variable {c : HandshakeClient K Bytes S} {args : HandshakeRun I K Bytes}
  {extractFunc : ℕ → Bytes → Except Thrown (ServerChallenge Bytes)} {w w' : Exchange I}
  {e : ExchangeEvent I} {h : List (ExchangeEvent I)}

/-- The steps by the event they record. -/
inductive ExchangeStep (c : HandshakeClient K Bytes S) (args : HandshakeRun I K Bytes)
    (extractFunc : ℕ → Bytes → Except Thrown (ServerChallenge Bytes)) (w : Exchange I) :
    ExchangeEvent I → Exchange I → Prop
  | response {status : ℕ} (hfinished : w.listeners.finished = false)
      (hnone : w.listeners.response = none) :
      ExchangeStep c args extractFunc w (.http (.response status) .returned)
        { w with listeners := { w.listeners with response := some status } }
  | data {status : ℕ} {chunk : Bytes} (hfinished : w.listeners.finished = false)
      (hsome : w.listeners.response = some status) :
      ExchangeStep c args extractFunc w (.http (.data chunk) .returned)
        { w with listeners := { w.listeners with data := w.listeners.data ++ [chunk] } }
  | threw {status : ℕ} {thrown : Thrown} (hfinished : w.listeners.finished = false)
      (hsome : w.listeners.response = some status)
      (he : extractFunc status w.listeners.data.flatten = .error thrown) :
      ExchangeStep c args extractFunc w (.http .ended (.threw thrown))
        { w with listeners := { w.listeners with finished := true } }
  | resolved {status : ℕ} {serverChallenge : ServerChallenge Bytes}
      (hfinished : w.listeners.finished = false) (hsome : w.listeners.response = some status)
      (he : extractFunc status w.listeners.data.flatten = .ok serverChallenge) :
      ExchangeStep c args extractFunc w (.http .ended (.resolved (.inl serverChallenge)))
        { w with
          listeners :=
            { w.listeners with
              finished := true
              promise := w.listeners.promise.resolve (.inl serverChallenge) } }
  | error {thrown : Thrown} (hfinished : w.listeners.finished = false) :
      ExchangeStep c args extractFunc w (.http (.error thrown) (.rejected thrown))
        { w with
          listeners :=
            { w.listeners with finished := true, promise := w.listeners.promise.reject thrown } }
  | await {result : Except Thrown (ServerChallenge Bytes ⊕ Bytes)} (hw : w.request = .waiting)
      (hr : w.listeners.promise.awaited = some result) :
      ExchangeStep c args extractFunc w (.await (c.afterAwait args result))
        { w with request := c.afterAwait args result }

theorem exchange_step_inv (h : (exchange c args extractFunc).Step w e w') :
    ExchangeStep c args extractFunc w e w' := by
  obtain ⟨move, h⟩ := h
  simp only [exchange] at h
  cases move with
  | http event =>
    simp only at h
    split at h
    · cases h
    · rename_i listeners callback hemit
      cases h
      cases event with
      | response status =>
        simp only [Listeners.emit] at hemit
        split at hemit
        · rename_i hfinished hnone
          cases hemit
          exact .response hfinished hnone
        · cases hemit
      | data chunk =>
        simp only [Listeners.emit] at hemit
        split at hemit
        · rename_i status hfinished hsome
          cases hemit
          exact .data hfinished hsome
        · cases hemit
      | ended =>
        simp only [Listeners.emit, extractOrCombined] at hemit
        split at hemit
        · rename_i response hfinished hsome
          cases he : extractFunc response w.listeners.data.flatten with
          | error thrown =>
            simp only [he] at hemit
            cases hemit
            exact .threw hfinished hsome he
          | ok serverChallenge =>
            simp only [he] at hemit
            cases hemit
            exact .resolved hfinished hsome he
        · cases hemit
      | error thrown =>
        simp only [Listeners.emit] at hemit
        split at hemit
        · rename_i hfinished
          cases hemit
          exact .error hfinished
        · cases hemit
  | await =>
    simp only at h
    split at h
    · rename_i result hw hr
      cases h
      exact .await hw hr
    · cases h

end Steps

end MutualKeyChallenge
