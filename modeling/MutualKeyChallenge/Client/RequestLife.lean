import MutualKeyChallenge.Client.BadReplies

/-! One `request` call from its first request to the end of its promise. -/
namespace MutualKeyChallenge
open Transition
variable {I K S : Type}

/-- The first request and what follows it, the listeners of the second, which get no `extractFunc`,
and the promise that `request` has returned. -/
structure RequestCall (I : Type) where
  exchange : Exchange I := {}
  second : Listeners (Empty ⊕ Bytes) := {}
  result : Promise Bytes := .pending

/-- `http` is an event of the second request, `await` what follows its `await`. -/
inductive RequestMove
  | exchange (move : ExchangeMove)
  | http (event : HttpEvent)
  | await

inductive RequestEvent (I : Type)
  | exchange (e : ExchangeEvent I)
  | http (event : HttpEvent) (callback : Callback (Empty ⊕ Bytes))
  | returned (result : Except Thrown Bytes)

/-- An exception in an `async` function rejects its promise. -/
def RequestStage.settle (stage : RequestStage I Bytes) (result : Promise Bytes) : Promise Bytes :=
  match stage with
  | .rejects e => result.reject e
  | _ => result

/-- One `request` call whose first request has been made. -/
def requestMachine (c : HandshakeClient K Bytes S) (args : HandshakeRun I K Bytes)
    (extractFunc : ℕ → Bytes → Except Thrown (ServerChallenge Bytes)) :
    Machine (RequestCall I) RequestMove (RequestEvent I) where
  init := {}
  step w
    | .exchange move =>
      match (exchange c args extractFunc).step w.exchange move with
      | none => none
      | some (x, e) =>
        some ({ w with exchange := x, result := x.request.settle w.result }, .exchange e)
    | .http event =>
      match w.exchange.request, w.second.emit none event with
      | .sends _, some (second, callback) => some ({ w with second }, .http event callback)
      | _, _ => none
    | .await =>
      match w.result, w.second.promise.awaited with
      | .pending, some (.ok (.inr body)) =>
        some ({ w with result := .resolved body }, .returned (.ok body))
      | .pending, some (.error e) =>
        some ({ w with result := .rejected e }, .returned (.error e))
      | _, _ => none

/-- What happened on the first request. -/
def exchangeEvents (h : List (RequestEvent I)) : List (ExchangeEvent I) :=
  h.filterMap fun e =>
    match e with
    | .exchange e => some e
    | _ => none

/-- What happened on the second request. -/
def secondEvents (h : List (RequestEvent I)) : List HttpEvent :=
  h.filterMap fun e =>
    match e with
    | .http event _ => some event
    | _ => none

/-- The bytes of a reply, however they were split. -/
def bodyOf (es : List HttpEvent) : Bytes :=
  (es.filterMap fun event =>
    match event with
    | .data chunk => some chunk
    | _ => none).flatten

section Steps
variable {c : HandshakeClient K Bytes S} {args : HandshakeRun I K Bytes}
  {extractFunc : ℕ → Bytes → Except Thrown (ServerChallenge Bytes)} {w w' : RequestCall I}
  {e : RequestEvent I} {h : List (RequestEvent I)}

/-- The steps by the event they record. -/
inductive RequestStep (c : HandshakeClient K Bytes S) (args : HandshakeRun I K Bytes)
    (extractFunc : ℕ → Bytes → Except Thrown (ServerChallenge Bytes)) (w : RequestCall I) :
    RequestEvent I → RequestCall I → Prop
  | exchange {e x} (hs : (exchange c args extractFunc).Step w.exchange e x) :
      RequestStep c args extractFunc w (.exchange e)
        { w with exchange := x, result := x.request.settle w.result }
  | http {message event second callback} (hr : w.exchange.request = .sends message)
      (he : w.second.emit none event = some (second, callback)) :
      RequestStep c args extractFunc w (.http event callback) { w with second }
  | resolved {body} (hp : w.result = .pending)
      (ha : w.second.promise.awaited = some (.ok (.inr body))) :
      RequestStep c args extractFunc w (.returned (.ok body)) { w with result := .resolved body }
  | rejected {thrown} (hp : w.result = .pending)
      (ha : w.second.promise.awaited = some (.error thrown)) :
      RequestStep c args extractFunc w (.returned (.error thrown))
        { w with result := .rejected thrown }

theorem request_step_inv (h : (requestMachine c args extractFunc).Step w e w') :
    RequestStep c args extractFunc w e w' := by
  obtain ⟨move, h⟩ := h
  simp only [requestMachine] at h
  cases move with
  | exchange move =>
    simp only at h
    split at h
    · cases h
    · rename_i x d hstep
      cases h
      exact .exchange ⟨move, hstep⟩
  | http event =>
    simp only at h
    split at h
    · rename_i message second callback hr he
      cases h
      exact .http hr he
    · cases h
  | await =>
    simp only at h
    split at h
    · rename_i body hp ha
      cases h
      exact .resolved hp ha
    · rename_i thrown hp ha
      cases h
      exact .rejected hp ha
    · cases h

/-- The first request by itself. -/
def exchangeView (c : HandshakeClient K Bytes S) (args : HandshakeRun I K Bytes)
    (extractFunc : ℕ → Bytes → Except Thrown (ServerChallenge Bytes)) :
    Projection (requestMachine c args extractFunc) (exchange c args extractFunc) where
  state := RequestCall.exchange
  event := fun e =>
    match e with
    | .exchange e => some e
    | _ => none
  init := rfl
  step := by
    intro w e w' hstep
    cases request_step_inv hstep with
    | exchange hs => exact Or.inl ⟨_, rfl, hs⟩
    | http | resolved | rejected => exact Or.inr ⟨rfl, rfl⟩

theorem request_exchange (hx : (requestMachine c args extractFunc).Execution h w) :
    (exchange c args extractFunc).Execution (exchangeEvents h) w.exchange :=
  (exchangeView c args extractFunc).execution hx

end Steps

/-! The second reply. -/

section Second
variable {es : List HttpEvent} {l l' : Listeners (Empty ⊕ Bytes)} {event : HttpEvent}
  {callback : Callback (Empty ⊕ Bytes)}

theorem bodyOf_data {chunk : Bytes} : bodyOf (es ++ [.data chunk]) = bodyOf es ++ chunk := by
  simp [bodyOf]

theorem bodyOf_other (he : ∀ chunk, event ≠ .data chunk) : bodyOf (es ++ [event]) = bodyOf es := by
  cases event with
  | data chunk => exact (he chunk rfl).elim
  | response | ended | error => simp [bodyOf]

/-- How far the second reply has come. -/
inductive SecondOk (es : List HttpEvent) (l : Listeners (Empty ⊕ Bytes)) : Prop
  | receiving (hfinished : l.finished = false) (hp : l.promise = .pending)
      (hdata : l.data.flatten = bodyOf es) (hfailed : ∀ e, .error e ∉ es) : SecondOk es l
  | ended (hfinished : l.finished = true) (hp : l.promise = .resolved (.inr (bodyOf es)))
      (hfailed : ∀ e, .error e ∉ es) : SecondOk es l
  | failed {e : Thrown} (hfinished : l.finished = true) (hp : l.promise = .rejected e)
      (hfailed : .error e ∈ es) : SecondOk es l

theorem SecondOk.of_open (hok : SecondOk es l) (hfinished : l.finished = false) :
    l.promise = .pending ∧ l.data.flatten = bodyOf es ∧ ∀ e, .error e ∉ es := by
  cases hok with
  | receiving _ hp hdata hfailed => exact ⟨hp, hdata, hfailed⟩
  | ended hfinished' | failed hfinished' =>
    rw [hfinished] at hfinished'
    cases hfinished'

/-- Without an `extractFunc` no callback throws. -/
theorem second_step (hok : SecondOk es l) (he : l.emit none event = some (l', callback)) :
    SecondOk (es ++ [event]) l' := by
  cases event with
  | response status =>
    simp only [Listeners.emit] at he
    split at he
    · rename_i hfinished _
      cases he
      obtain ⟨hp, hdata, hfailed⟩ := hok.of_open hfinished
      refine .receiving hfinished hp ?_ (by simpa using hfailed)
      rw [bodyOf_other (by simp)]
      exact hdata
    · cases he
  | data chunk =>
    simp only [Listeners.emit] at he
    split at he
    · rename_i hfinished _
      cases he
      obtain ⟨hp, hdata, hfailed⟩ := hok.of_open hfinished
      refine .receiving hfinished hp ?_ (by simpa using hfailed)
      rw [bodyOf_data, ← hdata]
      simp
    · cases he
  | ended =>
    simp only [Listeners.emit, extractOrCombined] at he
    split at he
    · rename_i hfinished _
      cases he
      obtain ⟨hp, hdata, hfailed⟩ := hok.of_open hfinished
      refine .ended rfl ?_ (by simpa using hfailed)
      rw [bodyOf_other (by simp), hp, hdata]
      rfl
    · cases he
  | error thrown =>
    simp only [Listeners.emit] at he
    split at he
    · rename_i hfinished
      cases he
      obtain ⟨hp, _, _⟩ := hok.of_open hfinished
      refine .failed (e := thrown) rfl ?_ (by simp)
      rw [hp]
      rfl
    · cases he

theorem emit_open (he : l.emit none event = some (l', callback)) : l.finished = false := by
  cases hfinished : l.finished with
  | false => rfl
  | true => cases event <;> simp [Listeners.emit, hfinished] at he

theorem SecondOk.finished_of_awaited {r : Except Thrown (Empty ⊕ Bytes)} (hok : SecondOk es l)
    (ha : l.promise.awaited = some r) : l.finished = true := by
  cases hok with
  | receiving _ hp =>
    rw [hp] at ha
    cases ha
  | ended hfinished | failed hfinished => exact hfinished

end Second

/-! The whole call. -/

section Life
variable {c : HandshakeClient K Bytes S} {args : HandshakeRun I K Bytes}
  {extract : Bytes → Except Thrown (ServerChallenge Bytes)} {w w' : RequestCall I}
  {e : RequestEvent I} {h : List (RequestEvent I)} {x x' : Exchange I} {d : ExchangeEvent I}
  {hd : List (ExchangeEvent I)}

/-- The exchange does nothing any more once `request` has gone on. -/
theorem exchange_waiting (hx : (exchange c args fun _ => extract).Execution hd x)
    (hs : (exchange c args fun _ => extract).Step x d x') : x.request = .waiting := by
  have hp := progress_run hx
  cases exchange_step_inv hs with
  | response hfinished | data hfinished | threw hfinished | resolved hfinished | error hfinished =>
    exact (hp.of_open hfinished).2.2.2.2
  | await hw => exact hw

/-- An error of the request is what rejects the promise of its listeners. -/
theorem failed_rejects (hx : (exchange c args fun _ => extract).Execution hd x) :
    RequestFailed hd → ∃ thrown, x.listeners.promise = .rejected thrown := by
  apply Machine.Execution.invariant (P := fun hd (x : Exchange I) =>
    RequestFailed hd → ∃ thrown, x.listeners.promise = .rejected thrown) ?_ ?_ hx
  · rintro ⟨thrown, callback, hmem⟩
    cases hmem
  · intro hd x d x' hx ih hstep hfailed
    have hp := progress_run hx
    cases exchange_step_inv hstep with
    | response hfinished | data hfinished | threw hfinished | resolved hfinished =>
      rw [requestFailed_concat (by simp)] at hfailed
      exact ((hp.of_open hfinished).2.2.2.1 hfailed).elim
    | @error thrown hfinished =>
      refine ⟨thrown, ?_⟩
      simp only [(hp.of_open hfinished).1, Promise.reject]
    | await =>
      rw [requestFailed_concat (by simp)] at hfailed
      exact ih hfailed

/-- How far a call has come. -/
inductive Life (h : List (RequestEvent I)) (w : RequestCall I) : Prop
  | waiting (hr : w.exchange.request = .waiting) (hresult : w.result = .pending)
      (hsecond : w.second = {}) (hnone : secondEvents h = []) : Life h w
  | threw {thrown : Thrown} (hr : w.exchange.request = .rejects thrown)
      (hresult : w.result = .rejected thrown) (hsecond : w.second = {})
      (hnone : secondEvents h = []) : Life h w
  | sent {message : ClientSignedMessage I Bytes} (hr : w.exchange.request = .sends message)
      (hok : SecondOk (secondEvents h) w.second)
      (hresult : w.result = .pending ∨
        (∃ body, w.second.promise.awaited = some (.ok (.inr body)) ∧ w.result = .resolved body) ∨
        ∃ thrown, w.second.promise.awaited = some (.error thrown) ∧ w.result = .rejected thrown) :
      Life h w

theorem secondEvents_exchange : secondEvents (h ++ [.exchange d]) = secondEvents h := by
  simp [secondEvents]

theorem secondEvents_http {event : HttpEvent} {callback : Callback (Empty ⊕ Bytes)} :
    secondEvents (h ++ [.http event callback]) = secondEvents h ++ [event] := by
  simp [secondEvents]

theorem secondEvents_returned {r : Except Thrown Bytes} :
    secondEvents (h ++ [.returned r]) = secondEvents h := by
  simp [secondEvents]

/-- The promise of the second request settles only after that request was made. -/
theorem Life.of_awaited {r : Except Thrown (Empty ⊕ Bytes)} (hl : Life h w)
    (ha : w.second.promise.awaited = some r) :
    ∃ message, w.exchange.request = .sends message ∧ SecondOk (secondEvents h) w.second := by
  cases hl with
  | waiting _ _ hsecond | threw _ _ hsecond =>
    rw [hsecond] at ha
    cases ha
  | sent hr hok => exact ⟨_, hr, hok⟩

theorem life_step (hx : (requestMachine c args fun _ => extract).Execution h w)
    (hs : RequestStep c args (fun _ => extract) w e w') (hl : Life h w) : Life (h ++ [e]) w' := by
  cases hs with
  | @exchange d x hs =>
    have hwaiting := exchange_waiting (request_exchange hx) hs
    cases hl with
    | waiting _ hresult hsecond hnone =>
      have hnone' : secondEvents (h ++ [.exchange d]) = [] := secondEvents_exchange.trans hnone
      cases hr : x.request with
      | waiting => exact .waiting hr (by simp [RequestStage.settle, hresult]) hsecond hnone'
      | rejects thrown =>
        refine .threw hr ?_ hsecond hnone'
        simp only [RequestStage.settle, hresult, Promise.reject]
      | sends message =>
        refine .sent hr ?_ (Or.inl (by simp [RequestStage.settle, hresult]))
        rw [hnone']
        simp only [hsecond]
        exact .receiving rfl rfl rfl (by simp)
    | threw hr | sent hr =>
      rw [hr] at hwaiting
      cases hwaiting
  | @http message event second callback hr he =>
    cases hl with
    | waiting hr' | threw hr' =>
      rw [hr] at hr'
      cases hr'
    | sent hr' hok hresult =>
      have hopen := emit_open he
      refine .sent hr' (by rw [secondEvents_http]; exact second_step hok he) (Or.inl ?_)
      rcases hresult with hpending | ⟨body, ha, _⟩ | ⟨thrown, ha, _⟩
      · exact hpending
      · rw [hok.finished_of_awaited ha] at hopen
        cases hopen
      · rw [hok.finished_of_awaited ha] at hopen
        cases hopen
  | @resolved body hp ha =>
    obtain ⟨message, hr, hok⟩ := hl.of_awaited ha
    refine .sent hr ?_ (Or.inr (Or.inl ⟨body, ha, rfl⟩))
    rwa [secondEvents_returned]
  | @rejected thrown hp ha =>
    obtain ⟨message, hr, hok⟩ := hl.of_awaited ha
    refine .sent hr ?_ (Or.inr (Or.inr ⟨thrown, ha, rfl⟩))
    rwa [secondEvents_returned]

theorem life_run (hx : (requestMachine c args fun _ => extract).Execution h w) : Life h w := by
  apply Machine.Execution.invariant (P := fun h (w : RequestCall I) => Life h w) ?_ ?_ hx
  · exact .waiting rfl rfl rfl rfl
  · intro h w e w' hx hl hstep
    exact life_step hx (request_step_inv hstep) hl

/-! When nothing more can happen. -/

theorem responseMessage_ok_iff {serverChallenge : ServerChallenge Bytes} :
    (∃ message, c.responseMessage args serverChallenge = .ok message) ↔
      ∃ nonce, ChallengePasses c args serverChallenge nonce := by
  constructor
  · rintro ⟨message, hm⟩
    exact ⟨_, responseMessage_passes hm⟩
  · rintro ⟨nonce, hpasses⟩
    have hfirst := not_or.mpr ⟨not_not.mpr hpasses.nonce, not_not.mpr hpasses.clientRequested⟩
    simp only [HandshakeClient.responseMessage]
    rw [if_neg hfirst]
    simp [hpasses.decrypted, hpasses.serverRequested]

/-- How the first request has ended, which is one of three ways. -/
inductive FirstEnd (c : HandshakeClient K Bytes S) (args : HandshakeRun I K Bytes)
    (extract : Bytes → Except Thrown (ServerChallenge Bytes)) (hd : List (ExchangeEvent I))
    (x : Exchange I) : Prop
  | extracted {serverChallenge : ServerChallenge Bytes} (hfailed : ¬ RequestFailed hd)
      (hextract : extract (replyBody hd) = .ok serverChallenge)
      (hr : x.request = c.afterAwait args (.ok (.inl serverChallenge))) :
      FirstEnd c args extract hd x
  | failed {thrown : Thrown} (hfailed : RequestFailed hd) (hr : x.request = .rejects thrown) :
      FirstEnd c args extract hd x
  | hanging {thrown : Thrown} (hfailed : ¬ RequestFailed hd)
      (hextract : extract (replyBody hd) = .error thrown) (hr : x.request = .waiting) :
      FirstEnd c args extract hd x

theorem first_end (hx : (exchange c args fun _ => extract).Execution hd x)
    (hhalted : (exchange c args fun _ => extract).Halted x) : FirstEnd c args extract hd x := by
  obtain ⟨hfinished, hawaited⟩ := halted_iff.mp hhalted
  have hrejected := failed_rejects hx
  cases progress_run hx with
  | receiving hfinished' =>
    rw [hfinished] at hfinished'
    cases hfinished'
  | @settled result _ hp _ _ hcause hrequest =>
    have hafter : x.request = c.afterAwait args result := by
      refine hrequest.resolve_left fun hwaiting => ?_
      rw [hawaited hwaiting] at hp
      cases hp
    rcases hcause with ⟨serverChallenge, hextract, rfl⟩ | ⟨hfailed, e, rfl⟩
    · refine .extracted ?_ hextract hafter
      intro hfailed
      obtain ⟨thrown, hthrown⟩ := hrejected hfailed
      rw [hthrown] at hp
      cases hp
    · exact .failed hfailed hafter
  | hanging _ hp _ hextract hfailed hrequest => exact .hanging hfailed hextract hrequest

/-- A call that has nothing left to do has ended both of its requests. -/
theorem request_halted
    (hhalted : (requestMachine c args fun _ => extract).Halted w) :
    (exchange c args fun _ => extract).Halted w.exchange ∧
      ∀ message, w.exchange.request = .sends message →
        w.second.finished = true ∧ (w.result = .pending → w.second.promise.awaited = none) := by
  refine ⟨?_, ?_⟩
  · intro move
    have hmove := hhalted (.exchange move)
    simp only [requestMachine] at hmove
    split at hmove
    · assumption
    · cases hmove
  · intro message hr
    constructor
    · cases hfinished : w.second.finished with
      | true => rfl
      | false =>
        have hmove := hhalted (.http (.error .typeError))
        simp [requestMachine, hr, Listeners.emit, hfinished] at hmove
    · intro hpending
      have hmove := hhalted .await
      simp only [requestMachine, hpending] at hmove
      cases ha : w.second.promise.awaited with
      | none => rfl
      | some r =>
        rcases r with thrown | ⟨nothing | body⟩
        · simp [ha] at hmove
        · exact nothing.elim
        · simp [ha] at hmove

/-- A call has nothing left to do when both requests are over and no `await` can go on. -/
theorem request_halted_of {extractFunc : ℕ → Bytes → Except Thrown (ServerChallenge Bytes)}
    {w : RequestCall I} (hfirst : w.exchange.listeners.finished = true)
    (hawaited : w.exchange.request = .waiting → w.exchange.listeners.promise.awaited = none)
    (hsecond : ∀ message, w.exchange.request = .sends message → w.second.finished = true)
    (hresult : w.result = .pending → w.second.promise.awaited = none) :
    (requestMachine c args extractFunc).Halted w := by
  intro move
  have hexchange : (exchange c args extractFunc).Halted w.exchange :=
    halted_iff.mpr ⟨hfirst, hawaited⟩
  simp only [requestMachine]
  cases move with
  | exchange move => simp only [hexchange move]
  | http event =>
    cases hr : w.exchange.request with
    | waiting | rejects => rfl
    | sends message =>
      have hfinished := hsecond message hr
      cases event <;> simp [Listeners.emit, hfinished]
  | await =>
    cases hpending : w.result with
    | pending => simp [hresult hpending]
    | resolved | rejected => rfl

/-- What the promise of `request` has come to, by what happened on its two requests: it hangs when a
first reply came that cannot be extracted, resolves with the bytes of the second reply when both
replies came and the challenge passes, and has otherwise been rejected. -/
structure RequestEnd (c : HandshakeClient K Bytes S) (args : HandshakeRun I K Bytes)
    (extract : Bytes → Except Thrown (ServerChallenge Bytes)) (h : List (RequestEvent I))
    (result : Promise Bytes) : Prop where
  pending : result = .pending ↔ ¬ RequestFailed (exchangeEvents h) ∧
    ¬ ∃ serverChallenge, extract (replyBody (exchangeEvents h)) = .ok serverChallenge
  resolved : ∀ body, result = .resolved body ↔
    (¬ RequestFailed (exchangeEvents h) ∧ ∃ serverChallenge nonce,
      extract (replyBody (exchangeEvents h)) = .ok serverChallenge ∧
      ChallengePasses c args serverChallenge nonce) ∧
    (∀ thrown, .error thrown ∉ secondEvents h) ∧ body = bodyOf (secondEvents h)

/-- The second request ends in the bytes of its reply, or in its error. -/
theorem second_end {es : List HttpEvent} {l : Listeners (Empty ⊕ Bytes)} {result : Promise Bytes}
    (hok : SecondOk es l) (hfinished : l.finished = true)
    (hawaited : result = .pending → l.promise.awaited = none)
    (hresult : result = .pending ∨
      (∃ body, l.promise.awaited = some (.ok (.inr body)) ∧ result = .resolved body) ∨
      ∃ thrown, l.promise.awaited = some (.error thrown) ∧ result = .rejected thrown) :
    (result = .resolved (bodyOf es) ∧ ∀ thrown, .error thrown ∉ es) ∨
      (∃ thrown, result = .rejected thrown) ∧ ∃ thrown, .error thrown ∈ es := by
  cases hok with
  | receiving hfinished' =>
    rw [hfinished] at hfinished'
    cases hfinished'
  | ended _ hp hfailed =>
    rw [hp] at hawaited hresult
    rcases hresult with hpending | ⟨body, ha, rfl⟩ | ⟨thrown, ha, _⟩
    · cases hawaited hpending
    · cases ha
      exact Or.inl ⟨rfl, hfailed⟩
    · cases ha
  | @failed e _ hp hfailed =>
    rw [hp] at hawaited hresult
    rcases hresult with hpending | ⟨body, ha, _⟩ | ⟨thrown, ha, rfl⟩
    · cases hawaited hpending
    · cases ha
    · exact Or.inr ⟨⟨thrown, rfl⟩, e, hfailed⟩

/-- A rejected promise, where one of the three conditions fails. -/
theorem RequestEnd.of_rejected {thrown : Thrown}
    (hpending : ¬ RequestFailed (exchangeEvents h) →
      ∃ serverChallenge, extract (replyBody (exchangeEvents h)) = .ok serverChallenge)
    (hresolved : ¬ RequestFailed (exchangeEvents h) → ∀ serverChallenge nonce,
      extract (replyBody (exchangeEvents h)) = .ok serverChallenge →
      ChallengePasses c args serverChallenge nonce → ∃ e, .error e ∈ secondEvents h) :
    RequestEnd c args extract h (.rejected thrown) where
  pending := by
    refine iff_of_false (by simp) ?_
    rintro ⟨hfailed, hnone⟩
    exact hnone (hpending hfailed)
  resolved := by
    intro body
    refine iff_of_false (by simp) ?_
    rintro ⟨⟨hfailed, serverChallenge, nonce, hextract, hpasses⟩, hquiet, _⟩
    obtain ⟨e, he⟩ := hresolved hfailed serverChallenge nonce hextract hpasses
    exact hquiet e he

/-- Whatever the order and the splitting of what arrives, a call that has nothing left to do has
ended as its replies say. -/
theorem request_settles (hx : (requestMachine c args fun _ => extract).Execution h w)
    (hhalted : (requestMachine c args fun _ => extract).Halted w) :
    RequestEnd c args extract h w.result := by
  obtain ⟨hfirst, hsecond⟩ := request_halted hhalted
  have hlife := life_run hx
  cases first_end (request_exchange hx) hfirst with
  | @failed thrown hfailed hr =>
    cases hlife with
    | waiting hr' | sent hr' =>
      rw [hr] at hr'
      cases hr'
    | threw _ hresult =>
      rw [hresult]
      exact .of_rejected (fun hno => (hno hfailed).elim) fun hno => (hno hfailed).elim
  | @hanging thrown hfailed hextract hr =>
    cases hlife with
    | threw hr' | sent hr' =>
      rw [hr] at hr'
      cases hr'
    | waiting _ hresult =>
      rw [hresult]
      refine ⟨iff_of_true rfl ⟨hfailed, by simp [hextract]⟩, ?_⟩
      intro body
      exact iff_of_false (by simp) (by simp [hextract])
  | @extracted serverChallenge hfailed hextract hr =>
    have hsome : ∃ s, extract (replyBody (exchangeEvents h)) = .ok s := ⟨_, hextract⟩
    cases hm : c.responseMessage args serverChallenge with
    | error thrown =>
      simp only [HandshakeClient.afterAwait, hm] at hr
      cases hlife with
      | waiting hr' | sent hr' =>
        rw [hr] at hr'
        cases hr'
      | threw _ hresult =>
        rw [hresult]
        refine .of_rejected (fun _ => hsome) ?_
        intro _ serverChallenge' nonce hextract' hpasses
        cases hextract.symm.trans hextract'
        obtain ⟨message, hok⟩ := responseMessage_ok_iff.mpr ⟨nonce, hpasses⟩
        cases hm.symm.trans hok
    | ok message =>
      simp only [HandshakeClient.afterAwait, hm] at hr
      obtain ⟨nonce, hpasses⟩ := responseMessage_ok_iff.mp ⟨message, hm⟩
      cases hlife with
      | waiting hr' | threw hr' =>
        rw [hr] at hr'
        cases hr'
      | sent hr' hok hresult =>
        obtain ⟨hfinished, hawaited⟩ := hsecond message hr
        rcases second_end hok hfinished hawaited hresult with
          ⟨heq, hquiet⟩ | ⟨⟨thrown, heq⟩, herror⟩
        · rw [heq]
          refine ⟨iff_of_false (by simp) fun hno => hno.2 hsome, ?_⟩
          intro body
          constructor
          · intro hbody
            cases hbody
            exact ⟨⟨hfailed, serverChallenge, nonce, hextract, hpasses⟩, hquiet, rfl⟩
          · rintro ⟨_, _, rfl⟩
            rfl
        · rw [heq]
          exact .of_rejected (fun _ => hsome) fun _ _ _ _ _ => herror

end Life

/-- Crypto that takes everything. -/
def trustingCrypto : NodeCrypto Unit Bytes Unit where
  randomBytes _ _ := []
  publicEncrypt _ _ m := .ok m
  privateDecrypt _ c := .ok c
  sign _ _ _ := []
  verify _ _ _ _ := true

def trustingClient : HandshakeClient Unit Bytes Unit := ⟨trustingCrypto, ⟨4, 1, "sha256", 128⟩⟩

/-- Takes every body for a challenge. -/
def bodyAsChallenge (body : Bytes) : Except Thrown (ServerChallenge Bytes) :=
  .ok ⟨⟨[], []⟩, ⟨body, []⟩⟩

/-- Both replies come, the second as an error in two parts. -/
def bothReplies : List RequestMove :=
  [.exchange (.http (.response 401)), .exchange (.http (.data [7])), .exchange (.http .ended),
    .exchange .await, .http (.response 401), .http (.data [1]), .http (.data [2]), .http .ended,
    .await]

theorem request_settles_bothReplies :
    let m := requestMachine trustingClient refusedArgs fun _ => bodyAsChallenge
    (m.final bothReplies).result = .resolved [1, 2] ∧
      RequestEnd trustingClient refusedArgs bodyAsChallenge (m.history bothReplies)
        (m.final bothReplies).result := by
  intro m
  refine ⟨rfl, request_settles (m.final_execution bothReplies) ?_⟩
  intro move
  cases move with
  | exchange move =>
    cases move with
    | http event => cases event <;> rfl
    | await => rfl
  | http event => cases event <;> rfl
  | await => rfl

end MutualKeyChallenge
