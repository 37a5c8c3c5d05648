import MutualKeyChallenge.Session.WireRefinement

/-! The other direction: whatever a session does with requests that `express.json()` takes can
happen on the wire, with each reply in one part. -/
namespace MutualKeyChallenge.Session
open Transition
variable {K S : Type} {cfg : Deployment K S} {numbers : NumberText} {express : ExpressJson}
  {calls : ℕ → Option (Call UserId MockUser K Bytes)} {r r' : SentRun K} {w : WiredState K}
  {s s' : State K} {h : List (Event K S)}

/-- What the parts of a reply and the `await`s make of one run while the server stands still. -/
inductive Progresses (cfg : Deployment K S) (numbers : NumberText)
    (calls : ℕ → Option (Call UserId MockUser K Bytes)) : SentRun K → SentRun K → Prop
  | refl {r : SentRun K} : Progresses cfg numbers calls r r
  | http {r r' : SentRun K} {part event reply request re}
      (hn : r.next numbers (cfg.answer calls r.call) part = some (event, reply))
      (hs : (cfg.requestMachine numbers r.args).step r.request (r.httpMove event) =
        some (request, re)) (hrest : Progresses cfg numbers calls { r with request, reply } r') :
      Progresses cfg numbers calls r r'
  | await {r r' : SentRun K} {request re}
      (hs : (cfg.requestMachine numbers r.args).step r.request r.awaitMove = some (request, re))
      (hrest : Progresses cfg numbers calls (r.awaited request) r') :
      Progresses cfg numbers calls r r'

/-- The progress of one run is a run of the whole, unseen by the server. -/
theorem Progresses.wired_run {run : ℕ} (hp : Progresses cfg numbers calls r r')
    (hcalls : calls = w.server.calls) (hrun : w.runs run = some (.sent r)) :
    ∃ es, (cfg.wired numbers express).Run w es
        { w with runs := Function.update w.runs run (some (.sent r')) } ∧
      wiredServer es = [] := by
  induction hp generalizing w with
  | refl =>
    refine ⟨[], ?_, rfl⟩
    rw [← hrun, Function.update_eq_self]
    exact .nil
  | @http r r' part event reply request re hn hs hrest ih =>
    subst hcalls
    have hstep : (cfg.wired numbers express).Step w (.http run event)
        { w with
          runs := Function.update w.runs run (some (.sent { r with request, reply })) } := by
      refine ⟨.http run part, ?_⟩
      simp only [Deployment.wired, Deployment.wiredStep, hrun, hn, hs]
    obtain ⟨es, hes, hnone⟩ := ih
      (w := { w with runs := Function.update w.runs run (some (.sent { r with request, reply })) })
      rfl (Function.update_self ..)
    refine ⟨.http run event :: es, .cons hstep ?_, hnone⟩
    simpa using hes
  | @await r r' request re hs hrest ih =>
    subst hcalls
    have hstep : (cfg.wired numbers express).Step w (.awaited run)
        { w with runs := Function.update w.runs run (some (.sent (r.awaited request))) } := by
      refine ⟨.await run, ?_⟩
      simp only [Deployment.wired, Deployment.wiredStep, hrun, hs]
    obtain ⟨es, hes, hnone⟩ := ih
      (w := { w with runs := Function.update w.runs run (some (.sent (r.awaited request))) })
      rfl (Function.update_self ..)
    refine ⟨.awaited run :: es, .cons hstep ?_, hnone⟩
    simpa using hes

/-! What happens to the listeners when nothing was heard. -/

/-- The listeners after a reply in one part. -/
def heard {R : Type} (extractFunc : Option (ℕ → Bytes → Except Thrown R)) (status : ℕ)
    (body : Bytes) : Listeners (R ⊕ Bytes) where
  response := some status
  data := [body]
  finished := true
  promise :=
    match extractOrCombined extractFunc status body with
    | .error _ => .pending
    | .ok value => .resolved value

theorem emit_heard {R : Type} (extractFunc : Option (ℕ → Bytes → Except Thrown R)) (status : ℕ)
    (body : Bytes) :
    ∃ callback, Listeners.emit extractFunc { response := some status, data := [body] } .ended =
      some (heard extractFunc status body, callback) := by
  have hbody : [body].flatten = body := by simp
  simp only [Listeners.emit, hbody, heard]
  cases extractOrCombined extractFunc status body with
  | error e => exact ⟨_, rfl⟩
  | ok value => exact ⟨_, rfl⟩

section Moves
theorem first_http (cfg : Deployment K S) (numbers : NumberText) (r : SentRun K) (event : HttpEvent)
    {l : Listeners (ServerChallenge Bytes ⊕ Bytes)}
    {callback : Callback (ServerChallenge Bytes ⊕ Bytes)}
    (hr : r.request.exchange.request = .waiting)
    (he : r.request.exchange.listeners.emit
      (some fun _ => extractBuffer cfg.node numbers.parser) event = some (l, callback)) :
    ∃ re, (cfg.requestMachine numbers r.args).step r.request (r.httpMove event) =
      some ({ r.request with exchange := { r.request.exchange with listeners := l } }, re) := by
  simp only [SentRun.httpMove, hr, Deployment.requestMachine, requestMachine, exchange, he,
    RequestStage.settle]
  exact ⟨_, rfl⟩

theorem second_http (cfg : Deployment K S) (numbers : NumberText) (r : SentRun K)
    (event : HttpEvent) {message : ClientSignedMessage (List Char) Bytes}
    {l : Listeners (Empty ⊕ Bytes)} {callback : Callback (Empty ⊕ Bytes)}
    (hr : r.request.exchange.request = .sends message)
    (he : r.request.second.emit none event = some (l, callback)) :
    ∃ re, (cfg.requestMachine numbers r.args).step r.request (r.httpMove event) =
      some ({ r.request with second := l }, re) := by
  simp only [SentRun.httpMove, hr, Deployment.requestMachine, requestMachine, he]
  exact ⟨_, rfl⟩

theorem first_await (cfg : Deployment K S) (numbers : NumberText) (r : SentRun K)
    {result : Except Thrown (ServerChallenge Bytes ⊕ Bytes)}
    (hr : r.request.exchange.request = .waiting)
    (ha : r.request.exchange.listeners.promise.awaited = some result) :
    ∃ re, (cfg.requestMachine numbers r.args).step r.request r.awaitMove =
      some ({ r.request with
        exchange := { r.request.exchange with request := cfg.client.afterAwait r.args result }
        result := (cfg.client.afterAwait r.args result).settle r.request.result }, re) := by
  simp only [SentRun.awaitMove, hr, Deployment.requestMachine, requestMachine, exchange, ha]
  exact ⟨_, rfl⟩

theorem second_await (cfg : Deployment K S) (numbers : NumberText) (r : SentRun K)
    {message : ClientSignedMessage (List Char) Bytes} {body : Bytes}
    (hr : r.request.exchange.request = .sends message) (hresult : r.request.result = .pending)
    (hp : r.request.second.promise = .resolved (.inr body)) :
    ∃ re, (cfg.requestMachine numbers r.args).step r.request r.awaitMove =
      some ({ r.request with result := .resolved body }, re) := by
  simp only [SentRun.awaitMove, hr, Deployment.requestMachine, requestMachine, hresult, hp,
    Promise.awaited]
  exact ⟨_, rfl⟩

theorem second_await_failed (cfg : Deployment K S) (numbers : NumberText) (r : SentRun K)
    {message : ClientSignedMessage (List Char) Bytes} {e : Thrown}
    (hr : r.request.exchange.request = .sends message) (hresult : r.request.result = .pending)
    (hp : r.request.second.promise = .rejected e) :
    ∃ re, (cfg.requestMachine numbers r.args).step r.request r.awaitMove =
      some ({ r.request with result := .rejected e }, re) := by
  simp only [SentRun.awaitMove, hr, Deployment.requestMachine, requestMachine, hresult, hp,
    Promise.awaited]
  exact ⟨_, rfl⟩

end Moves

/-! A reply in one part. -/

/-- The first request's listeners have heard this much. -/
def SentRun.first (r : SentRun K) (l : Listeners (ServerChallenge Bytes ⊕ Bytes))
    (reply : Option Bytes) : SentRun K :=
  { r with
    request := { r.request with exchange := { r.request.exchange with listeners := l } }
    reply }

/-- The second request's listeners have heard this much. -/
def SentRun.second (r : SentRun K) (l : Listeners (Empty ⊕ Bytes)) (reply : Option Bytes) :
    SentRun K :=
  { r with request := { r.request with second := l }, reply }

section Replies
variable {answer : Option HttpResponse} {response : HttpResponse} {body : Bytes}

theorem next_response (hreply : r.reply = none) (ha : answer = some response) :
    r.next numbers answer .response =
      some (.response response.status, some (response.body.bytes numbers)) := by
  simp only [SentRun.next, hreply, ha]

theorem next_data (hreply : r.reply = some body) :
    r.next numbers answer (.data body.length) = some (.data body, some []) := by
  simp [SentRun.next, hreply]

theorem next_ended (hreply : r.reply = some []) :
    r.next numbers answer .ended = some (.ended, some []) := by
  simp only [SentRun.next, hreply]

theorem progresses_first (hr : r.request.exchange.request = .waiting)
    (hl : r.request.exchange.listeners = {}) (hreply : r.reply = none)
    (ha : cfg.answer calls r.call = some response)
    (hrest : Progresses cfg numbers calls
      (r.first (heard (some fun _ => extractBuffer cfg.node numbers.parser) response.status
        (response.body.bytes numbers)) (some [])) r') :
    Progresses cfg numbers calls r r' := by
  obtain ⟨callback, hended⟩ := emit_heard (some fun _ => extractBuffer cfg.node numbers.parser)
    response.status (response.body.bytes numbers)
  -- the response begins
  obtain ⟨_, hs⟩ := first_http cfg numbers r (.response response.status) hr (by rw [hl]; rfl)
  refine .http (next_response hreply ha) hs ?_
  -- its body comes
  obtain ⟨_, hs⟩ := first_http cfg numbers
    (r.first { response := some response.status } (some (response.body.bytes numbers)))
    (.data (response.body.bytes numbers)) hr rfl
  refine .http (next_data rfl) hs ?_
  -- it ends
  obtain ⟨_, hs⟩ := first_http cfg numbers
    (r.first { response := some response.status, data := [response.body.bytes numbers] } (some []))
    .ended hr hended
  exact .http (next_ended rfl) hs hrest

theorem progresses_second {message : ClientSignedMessage (List Char) Bytes}
    (hr : r.request.exchange.request = .sends message) (hl : r.request.second = {})
    (hreply : r.reply = none) (ha : cfg.answer calls r.call = some response)
    (hrest : Progresses cfg numbers calls
      (r.second (heard none response.status (response.body.bytes numbers)) (some [])) r') :
    Progresses cfg numbers calls r r' := by
  obtain ⟨_, hs⟩ := second_http cfg numbers r (.response response.status) hr (by rw [hl]; rfl)
  refine .http (next_response hreply ha) hs ?_
  obtain ⟨_, hs⟩ := second_http cfg numbers
    (r.second { response := some response.status } (some (response.body.bytes numbers)))
    (.data (response.body.bytes numbers)) hr rfl
  refine .http (next_data rfl) hs ?_
  obtain ⟨callback, hended⟩ := emit_heard (R := Empty) none response.status
    (response.body.bytes numbers)
  obtain ⟨_, hs⟩ := second_http cfg numbers
    (r.second { response := some response.status, data := [response.body.bytes numbers] } (some []))
    .ended hr hended
  exact .http (next_ended rfl) hs hrest

end Replies

/-! The session's steps of one run. -/

/-- Nothing has come of the reply to a run's last request. -/
structure Unheard (r : SentRun K) : Prop where
  reply : r.reply = none
  first : r.request.exchange.request = .waiting → r.request.exchange.listeners = {}
  second : ∀ message, r.request.exchange.request = .sends message → r.request.second = {}

/-- The run has come to where the session's run is; if that waits, then from the beginning. -/
structure Reaches (cfg : Deployment K S) (numbers : NumberText)
    (calls : ℕ → Option (Call UserId MockUser K Bytes)) (r : SentRun K) (st : RequestState K) :
    Prop where
  matched : Matches cfg numbers calls (.sent r) st
  unheard : ∀ leg args sent call, st = .awaiting leg args sent call → Unheard r

/-- The second request has just been sent. -/
theorem unheard_awaited {request : RequestCall (List Char)}
    {message : ClientSignedMessage (List Char) Bytes} (hr : r.request.exchange.request = .waiting)
    (hsecond : request.second = {}) (hsends : request.exchange.request = .sends message) :
    Unheard (r.awaited request) := by
  simp only [SentRun.awaited, hr, hsends]
  refine ⟨rfl, ?_, fun _ _ => hsecond⟩
  intro hwaiting
  cases hsends.symm.trans hwaiting

section Run
variable {leg : Leg} {args : HandshakeRun (List Char) K Bytes}
  {sent : ClientSignedMessage (List Char) Bytes} {call : Option ℕ} {response : HttpResponse}

/-- The first reply. -/
theorem reaches_challenge (hjson : cfg.json = numbers.parser)
    (hr : r.request.exchange.request = .waiting) (hresult : r.request.result = .pending)
    (hsecond : r.request.second = {}) (hu : Unheard r)
    (ha : cfg.answer calls r.call = some response) :
    ∃ r', Progresses cfg numbers calls r r' ∧
      Reaches cfg numbers calls r' (cfg.onReply .challenge r.args r.message response) := by
  obtain ⟨_, v, _, _, hreply⟩ := answer_some ha
  have hbytes : extractBuffer cfg.node numbers.parser (response.body.bytes numbers) =
      extractByBase64Json cfg.node cfg.json response.body := by
    rw [extractBuffer_bytes fun _ => reads_reply hreply, hjson]
  generalize hl : heard (some fun _ => extractBuffer cfg.node numbers.parser) response.status
    (response.body.bytes numbers) = l
  have hfinished : l.finished = true := by rw [← hl]; rfl
  cases hextract : extractBuffer cfg.node numbers.parser (response.body.bytes numbers) with
  | error e =>
    -- the callback throws, and the promise stays as it is
    have hpending : l.promise = .pending := by
      simp only [← hl, heard, extractOrCombined, hextract]
    refine ⟨r.first l (some []), ?_, ?_⟩
    · refine progresses_first hr (hu.first hr) hu.reply ha ?_
      rw [hl]
      exact .refl
    · rw [hextract] at hbytes
      simp only [Deployment.onReply, ← hbytes]
      constructor
      · refine .hanging (r := r.first l (some [])) (request_halted_of hfinished ?_ ?_ ?_) hresult
        · intro _
          exact congrArg Promise.awaited hpending
        · intro message hsends
          cases hr.symm.trans hsends
        · intro _
          exact congrArg (fun l => l.promise.awaited) hsecond
      · intro leg args sent call h
        cases h
  | ok challenge =>
    have hresolved : l.promise = .resolved (.inl challenge) := by
      simp only [← hl, heard, extractOrCombined, hextract]
    have hawaited : l.promise.awaited = some (.ok (.inl challenge)) := by rw [hresolved]; rfl
    obtain ⟨_, hs⟩ := first_await cfg numbers (r.first l (some [])) hr hawaited
    have hm := matches_challenge (r := r.first l (some [])) hjson hr hresult hsecond hfinished ha
      hextract
    refine ⟨_, progresses_first hr (hu.first hr) hu.reply ha ?_, hm, ?_⟩
    · rw [hl]
      exact .await hs .refl
    intro leg args sent call h
    rw [hextract] at hbytes
    simp only [Deployment.onReply, ← hbytes] at h
    cases hmessage : cfg.client.responseMessage r.args challenge with
    | error e =>
      rw [hmessage] at h
      cases h
    | ok message =>
      refine unheard_awaited hr hsecond (?_ : _ = RequestStage.sends message)
      simp only [HandshakeClient.afterAwait, SentRun.first, hmessage]

/-- The second reply. -/
theorem reaches_response (hr : r.request.exchange.request = .sends r.message)
    (hresult : r.request.result = .pending)
    (hfirst : r.request.exchange.listeners.finished = true) (hu : Unheard r)
    (ha : cfg.answer calls r.call = some response) :
    ∃ r', Progresses cfg numbers calls r r' ∧
      Reaches cfg numbers calls r' (cfg.onReply .response r.args r.message response) := by
  obtain ⟨_, hs⟩ := second_await cfg numbers
    (r.second (heard none response.status (response.body.bytes numbers)) (some [])) hr hresult rfl
  refine ⟨_, progresses_second hr (hu.second _ hr) hu.reply ha (.await hs .refl), ?_, ?_⟩
  · exact matches_response
      (r := r.second (heard none response.status (response.body.bytes numbers)) (some []))
      hr hfirst rfl ha
  · intro leg args sent call h
    cases h

/-- An error of the request that is under way. -/
theorem reaches_rejected {e : Thrown}
    (hm : Matches cfg numbers calls (.sent r) (.awaiting leg args sent call)) (hu : Unheard r) :
    ∃ r', Progresses cfg numbers calls r r' ∧ Reaches cfg numbers calls r' (.rejected args e) := by
  have hn : ∀ answer, r.next numbers answer (.error e) = some (.error e, r.reply) := fun _ => rfl
  cases hm with
  | first hr hresult hsecond _ _ =>
    obtain ⟨_, hs⟩ := first_http cfg numbers r (.error e) hr (by rw [hu.first hr]; rfl)
    obtain ⟨_, hawait⟩ := first_await cfg numbers
      (r.first { finished := true, promise := .rejected e } r.reply) hr rfl
    refine ⟨_, .http (hn _) hs (.await hawait .refl), ?_, ?_⟩
    · exact matches_failed_first
        (r := r.first { finished := true, promise := .rejected e } r.reply) hr hresult hsecond rfl
    · intro leg args sent call h
      cases h
  | second hr hresult hfirst _ =>
    obtain ⟨_, hs⟩ := second_http cfg numbers r (.error e) hr (by rw [hu.second _ hr]; rfl)
    obtain ⟨_, hawait⟩ := second_await_failed cfg numbers
      (r.second { finished := true, promise := .rejected e } r.reply) hr hresult rfl
    refine ⟨_, .http (hn _) hs (.await hawait .refl), ?_, ?_⟩
    · exact matches_failed_second
        (r := r.second { finished := true, promise := .rejected e } r.reply) hr hfirst rfl
    · intro leg args sent call h
      cases h

end Run

/-! The session's steps. -/

/-- The wire is where the session is, and has heard nothing that the session has not. -/
structure Realized (cfg : Deployment K S) (numbers : NumberText) (s : State K) (w : WiredState K) :
    Prop where
  sim : Simulated cfg numbers w s
  unheard : ∀ run r leg args sent call, w.runs run = some (.sent r) →
    s.requests run = some (.awaiting leg args sent call) → Unheard r

/-- The wire can follow. -/
def Followed (cfg : Deployment K S) (numbers : NumberText) (express : ExpressJson)
    (w : WiredState K) (e : Event K S) (s' : State K) : Prop :=
  ∃ es w', (cfg.wired numbers express).Run w es w' ∧ wiredServer es = serverEvents [e] ∧
    Realized cfg numbers s' w'

theorem Realized.follow {run : ℕ} {a : WiredRun K} {st : RequestState K}
    (hreal : Realized cfg numbers s w) (hm : Matches cfg numbers w.server.calls a st)
    (hu : ∀ r leg args sent call, a = .sent r → st = .awaiting leg args sent call → Unheard r) :
    Realized cfg numbers { s with requests := Function.update s.requests run (some st) }
      { w with runs := Function.update w.runs run (some a) } where
  sim := hreal.sim.follow hm
  unheard := by
    intro run' r leg args sent call hrun hst
    by_cases hsame : run' = run
    · subst hsame
      simp only [Function.update_self, Option.some.injEq] at hrun hst
      exact hu r leg args sent call hrun hst
    · simp only [Function.update_of_ne hsame] at hrun hst
      exact hreal.unheard run' r leg args sent call hrun hst

theorem Realized.serve {server : Server UserId MockUser K Bytes} (hreal : Realized cfg numbers s w)
    (hgrows : Grows cfg w.server.calls server.calls) :
    Realized cfg numbers { s with server } { w with server } where
  sim := hreal.sim.serve hgrows
  unheard := hreal.unheard

/-- A waiting run, with the request it has sent. -/
theorem Realized.awaiting {run : ℕ} {leg : Leg} {args : HandshakeRun (List Char) K Bytes}
    {sent : ClientSignedMessage (List Char) Bytes} {call : Option ℕ}
    (hreal : Realized cfg numbers s w)
    (hst : s.requests run = some (.awaiting leg args sent call)) :
    ∃ r, w.runs run = some (.sent r) ∧
      Matches cfg numbers w.server.calls (.sent r) (.awaiting leg args sent call) ∧ Unheard r := by
  have hm := hreal.sim.runs run
  rw [hst] at hm
  generalize hrun : w.runs run = a at hm
  cases hm with
  | @some a _ hm =>
    cases a with
    | threw args e => cases hm
    | sent r => exact ⟨r, rfl, hm, hreal.unheard run r leg args sent call hrun hst⟩

/-- One run goes on by the parts of a reply. -/
theorem Realized.followed {run : ℕ} {st : RequestState K} {e : Event K S}
    (hreal : Realized cfg numbers s w) (hnone : serverEvents [e] = [])
    (hrun : w.runs run = some (.sent r))
    (hr : ∃ r', Progresses cfg numbers w.server.calls r r' ∧
      Reaches cfg numbers w.server.calls r' st) :
    Followed cfg numbers express w e
      { s with requests := Function.update s.requests run (some st) } := by
  obtain ⟨r', hprogress, hreach⟩ := hr
  obtain ⟨es, hes, hunseen⟩ := hprogress.wired_run rfl hrun
  refine ⟨es, _, hes, hunseen.trans hnone.symm, hreal.follow hreach.matched ?_⟩
  rintro r leg args sent call ⟨⟩ hst
  exact hreach.unheard leg args sent call hst

theorem followed_start {run : ℕ} {userId : List Char} {clientKey serverKey : K} {random seed : S}
    (options : HandshakeRequestOptions) (hreal : Realized cfg numbers s w)
    (hfree : s.requests run = none) :
    let args := { userId, clientKey, serverKey, nonce := cfg.client.nonce random }
    Followed cfg numbers express w (.started run args (cfg.begin args seed))
      { s with requests := Function.update s.requests run (some (cfg.begin args seed)) } := by
  intro args
  have hunstarted : w.runs run = none := by
    have hm := hreal.sim.runs run
    rw [hfree] at hm
    generalize w.runs run = a at hm
    cases hm
    rfl
  have hstep : (cfg.wired numbers express).Step w (.started run)
      { w with
        runs := Function.update w.runs run (some (cfg.wiredBegin args options seed)) } := by
    refine ⟨.start run options userId clientKey serverKey random seed, ?_⟩
    simp only [Deployment.wired, Deployment.wiredStep, hunstarted]
    rfl
  refine ⟨_, _, .cons hstep .nil, rfl, hreal.follow ?_ ?_⟩
  · exact matches_begin
  · intro r leg args' sent call ha _
    unfold Deployment.wiredBegin at ha
    split at ha
    · cases ha
    · cases ha
      refine ⟨rfl, fun _ => rfl, ?_⟩
      intro message hsends
      cases hsends

/-- The bodies of the requests that have arrived are within the limit of `express.json()`. -/
def BodiesFit (numbers : NumberText) (express : ExpressJson) (h : List (Event K S)) : Prop :=
  ∀ run leg call now req after value, .arrived run leg (.authenticate call now req after) ∈ h →
    req.body = some value → (value.bytes numbers).length ≤ express.limit

theorem BodiesFit.of_subset {h h' : List (Event K S)} (hfits : BodiesFit numbers express h')
    (hsub : h ⊆ h') : BodiesFit numbers express h :=
  fun run leg call now req after value he => hfits run leg call now req after value (hsub he)

theorem followed_arrive {run call : ℕ} {leg : Leg} {args : HandshakeRun (List Char) K Bytes}
    {sent : ClientSignedMessage (List Char) Bytes} {server : Server UserId MockUser K Bytes}
    {se : ServerEvent HttpRequest UserId MockUser K Bytes S} (hdoc : express.Documented numbers)
    (hfits : BodiesFit numbers express [.arrived run leg se]) (hreal : Realized cfg numbers s w)
    (hst : s.requests run = some (.awaiting leg args sent none))
    (hs : s.server.step cfg.strategy
      (.authenticate call (jsonRequest leg.messageField sent call)) = some (server, se)) :
    Followed cfg numbers express w (.arrived run leg se)
      { server
        requests :=
          Function.update s.requests run (some (.awaiting leg args sent (some call))) } := by
  obtain ⟨r, hrun, hm, hu⟩ := hreal.awaiting hst
  rw [hreal.sim.server] at hs
  have harrive : r.leg = leg → r.message = sent → r.call = none →
      (cfg.wired numbers express).Step w (.arrived run se)
        { server
          runs := Function.update w.runs run (some (.sent { r with call := some call })) } := by
    rintro rfl rfl hcall
    refine ⟨.arrive run call, ?_⟩
    have hreceived : r.data.receivedBytes numbers express call =
        some (jsonRequest r.leg.messageField r.message call) := by
      obtain ⟨after, rfl⟩ := arrival_event hs
      exact receivedBytes_format hdoc (hfits run r.leg call w.server.now
        (jsonRequest r.leg.messageField r.message call) after _ (List.mem_singleton.mpr rfl) rfl)
    simp only [Deployment.wired, Deployment.wiredStep, hrun, hcall, hreceived, hs]
  have hserve := hreal.serve (server_step_grows hs)
  have hunheard : ∀ r' leg' args' sent' call',
      WiredRun.sent { r with call := some call } = .sent r' →
        RequestState.awaiting leg args sent (some call) = .awaiting leg' args' sent' call' →
          Unheard r' := by
    rintro r' leg' args' sent' call' ⟨⟩ -
    exact ⟨hu.reply, hu.first, hu.second⟩
  generalize hnone : (none : Option ℕ) = before at hm
  have hanswer : before = none → ∀ response, cfg.answer w.server.calls before = some response →
      cfg.answer server.calls (some call) = some response := by
    rintro rfl response ha
    cases ha
  cases hm with
  | first hr hresult hsecond hl hsettled =>
    refine ⟨_, _, .cons (harrive (by rw [SentRun.leg, hr]) rfl hnone.symm) .nil, rfl,
      hserve.follow ?_ hunheard⟩
    exact .first (r := { r with call := some call }) hr hresult hsecond
      (hl.grow (hanswer hnone.symm)) hsettled
  | second hr hresult hfirst hl =>
    refine ⟨_, _, .cons (harrive (by rw [SentRun.leg, hr]) rfl hnone.symm) .nil, rfl,
      hserve.follow ?_ hunheard⟩
    exact .second (r := { r with call := some call }) hr hresult hfirst
      (hl.grow (hanswer hnone.symm))

theorem followed_receive {run call : ℕ} {leg : Leg} {args : HandshakeRun (List Char) K Bytes}
    {sent : ClientSignedMessage (List Char) Bytes} {response : HttpResponse}
    (hjson : cfg.json = numbers.parser) (hreal : Realized cfg numbers s w)
    (hst : s.requests run = some (.awaiting leg args sent (some call)))
    (hreply : cfg.reply (s.server.calls call) = some response) :
    Followed cfg numbers express w (.received run response (cfg.onReply leg args sent response))
      { s with
        requests :=
          Function.update s.requests run (some (cfg.onReply leg args sent response)) } := by
  obtain ⟨r, hrun, hm, hu⟩ := hreal.awaiting hst
  refine hreal.followed rfl hrun ?_
  rw [hreal.sim.server] at hreply
  generalize hsome : some call = arrived at hm
  have ha : cfg.answer w.server.calls arrived = some response := by
    rw [← hsome]
    exact hreply
  cases hm with
  | first hr hresult hsecond _ _ => exact reaches_challenge hjson hr hresult hsecond hu ha
  | second hr hresult hfirst _ => exact reaches_response hr hresult hfirst hu ha

/-- Each step of the session is followed on the wire. -/
theorem session_followed (options : HandshakeRequestOptions) {e : Event K S}
    (hjson : cfg.json = numbers.parser) (hdoc : express.Documented numbers)
    (hfits : BodiesFit numbers express [e]) (hreal : Realized cfg numbers s w)
    (hstep : cfg.session.Step s e s') : Followed cfg numbers express w e s' := by
  obtain ⟨move, hstep⟩ := hstep
  simp only [Deployment.session] at hstep
  cases move with
  | start run userId clientKey serverKey random seed =>
    simp only [Deployment.step] at hstep
    split at hstep
    · cases hstep
    · rename_i hfree
      cases hstep
      exact followed_start options hreal hfree
  | arrive run call =>
    simp only [Deployment.step] at hstep
    split at hstep
    · rename_i leg args sent hst
      split at hstep
      · cases hstep
      · rename_i server se hs
        cases hstep
        exact followed_arrive hdoc hfits hreal hst hs
    · cases hstep
  | receive run =>
    simp only [Deployment.step] at hstep
    split at hstep
    · rename_i leg args sent call hst
      split at hstep
      · cases hstep
      · rename_i response hreply
        cases hstep
        exact followed_receive hjson hreal hst hreply
    · cases hstep
  | disconnect run e =>
    simp only [Deployment.step] at hstep
    split at hstep
    · rename_i leg args sent call hst
      cases hstep
      obtain ⟨r, hrun, hm, hu⟩ := hreal.awaiting hst
      exact hreal.followed rfl hrun (reaches_rejected hm hu)
    · cases hstep
  | server move =>
    simp only [Deployment.step] at hstep
    split at hstep
    · cases hstep
    · rename_i server se hs
      cases hstep
      rw [hreal.sim.server] at hs
      have hwired : (cfg.wired numbers express).Step w (.server se) { w with server } := by
        refine ⟨.server move, ?_⟩
        simp only [Deployment.wired, Deployment.wiredStep, hs]
      exact ⟨_, _, .cons hwired .nil, rfl, hreal.serve (server_step_grows hs)⟩

/-- Whatever a session does, as long as its requests are within the limit of `express.json()`, is
done by some execution on the wire, with the same events in the server, in which the same runs have
started and ended alike. -/
theorem wire_realizes_session (hjson : cfg.json = numbers.parser)
    (hdoc : express.Documented numbers) (hx : cfg.session.Execution h s)
    (hfits : BodiesFit numbers express h) :
    ∃ h' w, (cfg.wired numbers express).Execution h' w ∧ wiredServer h' = serverEvents h ∧
      s.server = w.server ∧
      ∀ run, (w.runs run = none ↔ s.requests run = none) ∧
        ∀ a st, w.runs run = some a → s.requests run = some st →
          SameOutcome cfg numbers a st := by
  suffices hreal : ∃ h' w, (cfg.wired numbers express).Execution h' w ∧
      wiredServer h' = serverEvents h ∧ Realized cfg numbers s w by
    obtain ⟨h', w, hx', hserver, hreal⟩ := hreal
    exact ⟨h', w, hx', hserver, hreal.sim.server, hreal.sim.outcomes⟩
  revert hfits
  apply Machine.Execution.invariant (P := fun h (s : State K) => BodiesFit numbers express h →
    ∃ h' w, (cfg.wired numbers express).Execution h' w ∧ wiredServer h' = serverEvents h ∧
      Realized cfg numbers s w) ?_ ?_ hx
  · intro _
    refine ⟨[], _, .init, rfl, ⟨rfl, fun _ => .none⟩, ?_⟩
    intro run r leg args sent call hrun
    cases hrun
  · intro h s e s' _ ih hstep hfits
    let options : HandshakeRequestOptions := ⟨"localhost", some 8080, some "/authenticate", false⟩
    obtain ⟨h', w, hx', hserver, hreal⟩ := ih (hfits.of_subset (List.subset_append_left ..))
    obtain ⟨es, w', hrun, hsame, hreal'⟩ := session_followed options hjson hdoc
      (hfits.of_subset (List.subset_append_right ..)) hreal hstep
    refine ⟨_, w', hx'.run hrun, ?_, hreal'⟩
    have happend : wiredServer (h' ++ es) = wiredServer h' ++ wiredServer es :=
      List.filterMap_append
    rw [happend, hserver, hsame, serverEvents, serverEvents, serverEvents, List.filterMap_append]

/-- A handshake, and a second run that fails before its request arrives. -/
def sessionHandshake : List (Move UInt8 UInt8) :=
  challengeLeg 0 0 ++ [.start 1 "u".toList 1 0 8 0, .disconnect 1 .typeError] ++ responseLeg 0 1

/-- The lengths of the bodies of the requests that have arrived. -/
def bodyLengths (numbers : NumberText) (h : List (Event K S)) : List ℕ :=
  h.filterMap fun e =>
    match e with
    | .arrived _ _ (.authenticate _ _ req _) =>
      req.body.map fun value => (value.bytes numbers).length
    | _ => none

theorem bodiesFit_of_lengths (hlengths : ∀ n ∈ bodyLengths numbers h, n ≤ express.limit) :
    BodiesFit numbers express h := by
  intro run leg call now req after value he hvalue
  refine hlengths _ (List.mem_filterMap.mpr ⟨_, he, ?_⟩)
  simp only [hvalue, Option.map_some]

theorem wire_realizes_session_handshake :
    let h := wiredDemo.session.history sessionHandshake
    let s := wiredDemo.session.final sessionHandshake
    serverEvents h ≠ [] ∧
      ∃ h' w, wiredDemoMachine.Execution h' w ∧ wiredServer h' = serverEvents h ∧
        s.server = w.server ∧
        ∀ run, (w.runs run = none ↔ s.requests run = none) ∧
          ∀ a st, w.runs run = some a → s.requests run = some st →
            SameOutcome wiredDemo zeroNumbers a st := by
  intro h s
  have hevents : (serverEvents h).length = 12 := by decide +kernel
  have hlengths : ∀ n ∈ bodyLengths zeroNumbers h, n ≤ 102400 := by decide +kernel
  refine ⟨?_, wire_realizes_session rfl (expressJson_documented zeroNumbers)
    (wiredDemo.session.final_execution sessionHandshake) (bodiesFit_of_lengths hlengths)⟩
  intro hnone
  rw [hnone] at hevents
  cases hevents

end MutualKeyChallenge.Session
