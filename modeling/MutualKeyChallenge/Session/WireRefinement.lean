import MutualKeyChallenge.Session.Wired

/-! The sessions on the wire are the sessions: each part of a reply is a step of the session or
none. -/
namespace MutualKeyChallenge.Session
open Transition
variable {K S : Type}

variable {cfg : Deployment K S} {numbers : NumberText} {express : ExpressJson}
  {calls calls' : ℕ → Option (Call UserId MockUser K Bytes)} {r : SentRun K} {w w' : WiredState K}
  {s : State K} {e : WiredEvent K S} {h : List (WiredEvent K S)} {run : ℕ}

/-- A run on the wire and the state that it is in to the session. -/
inductive Matches (cfg : Deployment K S) (numbers : NumberText)
    (calls : ℕ → Option (Call UserId MockUser K Bytes)) : WiredRun K → RequestState K → Prop
  | threw {args e} : Matches cfg numbers calls (.threw args e) (.rejected args e)
  | first {r : SentRun K} (hr : r.request.exchange.request = .waiting)
      (hresult : r.request.result = .pending) (hsecond : r.request.second = {})
      (hl : Hearing (some fun _ => extractBuffer cfg.node numbers.parser) numbers
        (cfg.answer calls r.call) r.reply r.request.exchange.listeners)
      (hsettled : r.request.exchange.listeners.finished = true →
        r.request.exchange.listeners.promise ≠ .pending) :
      Matches cfg numbers calls (.sent r) (.awaiting .challenge r.args r.message r.call)
  | second {r : SentRun K} (hr : r.request.exchange.request = .sends r.message)
      (hresult : r.request.result = .pending)
      (hfirst : r.request.exchange.listeners.finished = true)
      (hl : Hearing none numbers (cfg.answer calls r.call) r.reply r.request.second) :
      Matches cfg numbers calls (.sent r) (.awaiting .response r.args r.message r.call)
  | hanging {r : SentRun K} {e} (hhalted : (cfg.requestMachine numbers r.args).Halted r.request)
      (hresult : r.request.result = .pending) :
      Matches cfg numbers calls (.sent r) (.hanging r.args e)
  | resolved {r : SentRun K} {response}
      (hhalted : (cfg.requestMachine numbers r.args).Halted r.request)
      (hresult : r.request.result = .resolved (response.body.bytes numbers))
      (hr : r.request.exchange.request = .sends r.message)
      (ha : cfg.answer calls r.call = some response) :
      Matches cfg numbers calls (.sent r) (.resolved r.args r.message response)
  | rejected {r : SentRun K} {e} (hhalted : (cfg.requestMachine numbers r.args).Halted r.request)
      (hresult : r.request.result = .rejected e) :
      Matches cfg numbers calls (.sent r) (.rejected r.args e)

/-- A run that has not started on the wire has not started in the session. -/
inductive MatchesAt (cfg : Deployment K S) (numbers : NumberText)
    (calls : ℕ → Option (Call UserId MockUser K Bytes)) :
    Option (WiredRun K) → Option (RequestState K) → Prop
  | none : MatchesAt cfg numbers calls none none
  | some {a st} (hm : Matches cfg numbers calls a st) :
      MatchesAt cfg numbers calls (some a) (some st)

structure Simulated (cfg : Deployment K S) (numbers : NumberText) (w : WiredState K)
    (s : State K) : Prop where
  server : s.server = w.server
  runs : ∀ run, MatchesAt cfg numbers w.server.calls (w.runs run) (s.requests run)

/-- Calls that are answered stay answered. -/
def Grows (cfg : Deployment K S) (calls calls' : ℕ → Option (Call UserId MockUser K Bytes)) :
    Prop :=
  ∀ call response, cfg.answer calls call = some response → cfg.answer calls' call = some response

theorem answer_some {call : Option ℕ} {response : HttpResponse}
    (ha : cfg.answer calls call = some response) :
    ∃ id v, call = some id ∧ calls id = some (.settled v) ∧
      authenticateRouter cfg.token (.ofVerdict v) = some response := by
  cases call with
  | none => cases ha
  | some id =>
    simp only [Deployment.answer, Option.bind_some, Deployment.reply] at ha
    split at ha
    · rename_i v hcall
      exact ⟨id, v, rfl, hcall, ha⟩
    · cases ha

theorem server_grows {srv srv' : Server UserId MockUser K Bytes}
    {se : ServerEvent HttpRequest UserId MockUser K Bytes S}
    (hs : ServerStep cfg.strategy srv se srv') : Grows cfg srv.calls srv'.calls := by
  intro call response ha
  obtain ⟨id, v, rfl, hcall, hreply⟩ := answer_some ha
  suffices hcall' : srv'.calls id = some (.settled v) by
    rw [Deployment.answer, Option.bind_some, hcall']
    exact hreply
  cases hs with
  | @authenticate id' req call' cache hfree _ =>
    have hne : id ≠ id' := by
      rintro rfl
      rw [hcall] at hfree
      cases hfree
    simpa [hne] using hcall
  | @resume id' inputs handler call' cache hsuspended _ =>
    have hne : id ≠ id' := by
      rintro rfl
      rw [hcall] at hsuspended
      cases hsuspended
    simpa [hne] using hcall
  | timer | tick => exact hcall

theorem server_step_grows {srv srv' : Server UserId MockUser K Bytes}
    {move : ServerMove HttpRequest K S} {se : ServerEvent HttpRequest UserId MockUser K Bytes S}
    (hs : srv.step cfg.strategy move = some (srv', se)) : Grows cfg srv.calls srv'.calls := by
  have hstep : (serverMachine cfg.strategy cfg.ttlMs).Step srv se srv' := ⟨move, hs⟩
  exact server_grows (server_step_inv hstep)

theorem arrival_event {srv srv' : Server UserId MockUser K Bytes} {call : ℕ} {req : HttpRequest}
    {se : ServerEvent HttpRequest UserId MockUser K Bytes S}
    (hs : srv.step cfg.strategy (.authenticate call req) = some (srv', se)) :
    ∃ after, se = .authenticate call srv.now req after := by
  simp only [Server.step] at hs
  split at hs
  · cases hs
  · cases hs
    exact ⟨_, rfl⟩

theorem Matches.grow {a : WiredRun K} {st : RequestState K} (hm : Matches cfg numbers calls a st)
    (hgrows : Grows cfg calls calls') : Matches cfg numbers calls' a st := by
  cases hm with
  | threw => exact .threw
  | first hr hresult hsecond hl hsettled =>
    exact .first hr hresult hsecond (hl.grow (hgrows _)) hsettled
  | second hr hresult hfirst hl => exact .second hr hresult hfirst (hl.grow (hgrows _))
  | hanging hhalted hresult => exact .hanging hhalted hresult
  | resolved hhalted hresult hr ha => exact .resolved hhalted hresult hr (hgrows _ _ ha)
  | rejected hhalted hresult => exact .rejected hhalted hresult

/-- The server goes on. -/
theorem Simulated.serve {server : Server UserId MockUser K Bytes} (hsim : Simulated cfg numbers w s)
    (hgrows : Grows cfg w.server.calls server.calls) :
    Simulated cfg numbers { w with server } { s with server } where
  server := rfl
  runs := by
    intro run
    have hrun := hsim.runs run
    generalize w.runs run = a at hrun
    generalize s.requests run = st at hrun
    cases hrun with
    | none => exact .none
    | some hm => exact .some (hm.grow hgrows)

/-- One run goes on, on both sides. -/
theorem Simulated.follow {a : WiredRun K} {st : RequestState K} (hsim : Simulated cfg numbers w s)
    (hm : Matches cfg numbers w.server.calls a st) :
    Simulated cfg numbers { w with runs := Function.update w.runs run (some a) }
      { s with requests := Function.update s.requests run (some st) } where
  server := hsim.server
  runs := by
    intro run'
    by_cases hrun : run' = run
    · subst hrun
      simpa using MatchesAt.some hm
    · simpa [hrun] using hsim.runs run'

/-- One run goes on, unseen by the session. -/
theorem Simulated.stay {a : WiredRun K} {st : RequestState K} (hsim : Simulated cfg numbers w s)
    (hst : s.requests run = some st) (hm : Matches cfg numbers w.server.calls a st) :
    Simulated cfg numbers { w with runs := Function.update w.runs run (some a) } s := by
  have hboth : Simulated cfg numbers { w with runs := Function.update w.runs run (some a) }
      { s with requests := Function.update s.requests run (some st) } := hsim.follow hm
  rwa [← hst, Function.update_eq_self] at hboth

/-! What a part or an `await` does to a `request` call. -/

section Parts
variable {event : HttpEvent} {request : RequestCall (List Char)}
  {re : RequestEvent (List Char)}

theorem http_first (hr : r.request.exchange.request = .waiting)
    (hs : (cfg.requestMachine numbers r.args).step r.request (r.httpMove event) =
      some (request, re)) :
    ∃ l callback, r.request.exchange.listeners.emit
        (some fun _ => extractBuffer cfg.node numbers.parser) event = some (l, callback) ∧
      request = { r.request with exchange := { r.request.exchange with listeners := l } } := by
  simp only [SentRun.httpMove, hr, Deployment.requestMachine, requestMachine, exchange] at hs
  cases he : r.request.exchange.listeners.emit
      (some fun _ => extractBuffer cfg.node numbers.parser) event with
  | none =>
    rw [he] at hs
    cases hs
  | some p =>
    obtain ⟨l, callback⟩ := p
    rw [he] at hs
    simp only [RequestStage.settle] at hs
    cases hs
    refine ⟨l, callback, rfl, ?_⟩
    simp only [hr]

theorem http_second {message : ClientSignedMessage (List Char) Bytes}
    (hr : r.request.exchange.request = .sends message)
    (hs : (cfg.requestMachine numbers r.args).step r.request (r.httpMove event) =
      some (request, re)) :
    ∃ l callback, r.request.second.emit none event = some (l, callback) ∧
      request = { r.request with second := l } := by
  simp only [SentRun.httpMove, hr, Deployment.requestMachine, requestMachine] at hs
  cases he : r.request.second.emit none event with
  | none =>
    rw [he] at hs
    cases hs
  | some p =>
    obtain ⟨l, callback⟩ := p
    rw [he] at hs
    cases hs
    exact ⟨l, callback, rfl, rfl⟩

theorem await_first (hr : r.request.exchange.request = .waiting)
    (hs : (cfg.requestMachine numbers r.args).step r.request r.awaitMove = some (request, re)) :
    ∃ result, r.request.exchange.listeners.promise.awaited = some result ∧
      request = { r.request with
        exchange := { r.request.exchange with request := cfg.client.afterAwait r.args result }
        result := (cfg.client.afterAwait r.args result).settle r.request.result } := by
  simp only [SentRun.awaitMove, hr, Deployment.requestMachine, requestMachine, exchange] at hs
  cases ha : r.request.exchange.listeners.promise.awaited with
  | none =>
    rw [ha] at hs
    cases hs
  | some result =>
    rw [ha] at hs
    cases hs
    exact ⟨result, rfl, rfl⟩

theorem await_second {message : ClientSignedMessage (List Char) Bytes}
    (hr : r.request.exchange.request = .sends message) (hresult : r.request.result = .pending)
    (hs : (cfg.requestMachine numbers r.args).step r.request r.awaitMove = some (request, re)) :
    (∃ body, r.request.second.promise = .resolved (.inr body) ∧
      request = { r.request with result := .resolved body }) ∨
    ∃ e, r.request.second.promise = .rejected e ∧
      request = { r.request with result := .rejected e } := by
  simp only [SentRun.awaitMove, hr, Deployment.requestMachine, requestMachine, hresult] at hs
  cases hp : r.request.second.promise with
  | pending =>
    rw [hp] at hs
    cases hs
  | resolved value =>
    rw [hp] at hs
    rcases value with nothing | body
    · exact nothing.elim
    · cases hs
      exact Or.inl ⟨body, rfl, rfl⟩
  | rejected e =>
    rw [hp] at hs
    cases hs
    exact Or.inr ⟨e, rfl, rfl⟩

end Parts

/-! One step of the wire is one of the session or none. -/

/-- The end of the first reply leaves the promise pending only when the extraction throws. -/
theorem Hearing.pending {R : Type} {extractFunc : Option (ℕ → Bytes → Except Thrown R)}
    {answer : Option HttpResponse} {reply : Option Bytes} {l : Listeners (R ⊕ Bytes)}
    (hl : Hearing extractFunc numbers answer reply l) (hfinished : l.finished = true)
    (hp : l.promise = .pending) :
    ∃ response status e, answer = some response ∧
      extractOrCombined extractFunc status (response.body.bytes numbers) = .error e := by
  cases hl with
  | nothing | part => cases hfinished
  | failed => cases hp
  | @all response status data ha hdata =>
    simp only at hp
    split at hp
    · rename_i e hextract
      exact ⟨response, status, e, ha, hextract⟩
    · cases hp

theorem extractOrCombined_error {numbers : NumberText} {status : ℕ} {body : Bytes} {e : Thrown}
    (he : extractOrCombined (some fun _ => extractBuffer cfg.node numbers.parser) status body =
      .error e) : extractBuffer cfg.node numbers.parser body = .error e := by
  simp only [extractOrCombined] at he
  split at he
  · rename_i hextract
    cases he
    exact hextract
  · cases he

/-- The parts of a reply, up to a first reply that cannot be read. -/
theorem matches_http {st : RequestState K} {part : Part} {event : HttpEvent}
    {reply : Option Bytes} {request : RequestCall (List Char)} {re : RequestEvent (List Char)}
    (hm : Matches cfg numbers calls (.sent r) st)
    (hn : r.next numbers (cfg.answer calls r.call) part = some (event, reply))
    (hs : (cfg.requestMachine numbers r.args).step r.request (r.httpMove event) =
      some (request, re)) :
    Matches cfg numbers calls (.sent { r with request, reply }) st ∨
      ∃ response e, st = .awaiting .challenge r.args r.message r.call ∧
        cfg.answer calls r.call = some response ∧
        extractBuffer cfg.node numbers.parser (response.body.bytes numbers) = .error e ∧
        Matches cfg numbers calls (.sent { r with request, reply }) (.hanging r.args e) := by
  cases hm with
  | hanging hhalted | resolved hhalted | rejected hhalted =>
    rw [hhalted] at hs
    cases hs
  | first hr hresult hsecond hl hsettled =>
    obtain ⟨l, callback, he, rfl⟩ := http_first hr hs
    have hl' := hl.emit hn he
    by_cases hsettled' : l.finished = true → l.promise ≠ .pending
    · exact Or.inl (.first hr hresult hsecond hl' hsettled')
    · simp only [ne_eq, Classical.not_imp, not_not] at hsettled'
      obtain ⟨hfinished, hp⟩ := hsettled'
      obtain ⟨response, status, e, ha, hextract⟩ := hl'.pending hfinished hp
      refine Or.inr ⟨response, e, rfl, ha, extractOrCombined_error hextract, ?_⟩
      refine .hanging (request_halted_of hfinished ?_ ?_ ?_) hresult
      · intro _
        exact congrArg Promise.awaited hp
      · intro message hsends
        cases hr.symm.trans hsends
      · intro _
        exact congrArg (fun l => l.promise.awaited) hsecond
  | second hr hresult hfirst hl =>
    obtain ⟨l, callback, he, rfl⟩ := http_second hr hs
    exact Or.inl (.second hr hresult hfirst (hl.emit hn he))

/-- What the listeners' promise resolves to. -/
theorem Hearing.resolved {R : Type} {extractFunc : Option (ℕ → Bytes → Except Thrown R)}
    {answer : Option HttpResponse} {reply : Option Bytes} {l : Listeners (R ⊕ Bytes)}
    {value : R ⊕ Bytes} (hl : Hearing extractFunc numbers answer reply l)
    (hp : l.promise = .resolved value) :
    l.finished = true ∧ ∃ response status, answer = some response ∧
      extractOrCombined extractFunc status (response.body.bytes numbers) = .ok value := by
  cases hl with
  | nothing | part | failed => cases hp
  | @all response status data ha hdata =>
    simp only at hp
    split at hp
    · cases hp
    · rename_i hextract
      cases hp
      exact ⟨rfl, response, status, ha, hextract⟩

theorem Hearing.rejected {R : Type} {extractFunc : Option (ℕ → Bytes → Except Thrown R)}
    {answer : Option HttpResponse} {reply : Option Bytes} {l : Listeners (R ⊕ Bytes)} {e : Thrown}
    (hl : Hearing extractFunc numbers answer reply l) (hp : l.promise = .rejected e) :
    l.finished = true := by
  cases hl with
  | nothing | part => cases hp
  | all | failed => rfl

theorem extractOrCombined_ok {numbers : NumberText} {status : ℕ} {body : Bytes}
    {value : ServerChallenge Bytes ⊕ Bytes}
    (hv : extractOrCombined (some fun _ => extractBuffer cfg.node numbers.parser) status body =
      .ok value) :
    ∃ challenge, value = .inl challenge ∧
      extractBuffer cfg.node numbers.parser body = .ok challenge := by
  simp only [extractOrCombined] at hv
  split at hv
  · cases hv
  · rename_i challenge hextract
    cases hv
    exact ⟨challenge, rfl, hextract⟩

/-- The client has read the first reply. -/
theorem matches_challenge (hjson : cfg.json = numbers.parser) {response : HttpResponse}
    {challenge : ServerChallenge Bytes} (hr : r.request.exchange.request = .waiting)
    (hresult : r.request.result = .pending) (hsecond : r.request.second = {})
    (hfinished : r.request.exchange.listeners.finished = true)
    (ha : cfg.answer calls r.call = some response)
    (hextract : extractBuffer cfg.node numbers.parser (response.body.bytes numbers) =
      .ok challenge) :
    Matches cfg numbers calls
      (.sent (r.awaited { r.request with
        exchange :=
          { r.request.exchange with request := cfg.client.afterAwait r.args (.ok (.inl challenge)) }
        result := (cfg.client.afterAwait r.args (.ok (.inl challenge))).settle r.request.result }))
      (cfg.onReply .challenge r.args r.message response) := by
  obtain ⟨_, v, _, _, hreply⟩ := answer_some ha
  rw [extractBuffer_bytes fun _ => reads_reply hreply, ← hjson] at hextract
  simp only [Deployment.onReply, hextract, HandshakeClient.afterAwait]
  cases hm : cfg.client.responseMessage r.args challenge with
  | error e =>
    simp only [SentRun.awaited, hr]
    refine .rejected (request_halted_of hfinished ?_ ?_ ?_) ?_
    · intro h
      cases h
    · intro message h
      cases h
    · intro _
      exact congrArg (fun l => l.promise.awaited) hsecond
    · simp only [RequestStage.settle, hresult, Promise.reject]
  | ok message =>
    simp only [SentRun.awaited, hr]
    refine .second rfl ?_ hfinished ?_
    · exact hresult
    · simp only [hsecond]
      exact .nothing

/-- The first request has failed, and `request` has thrown. -/
theorem matches_failed_first {e : Thrown} (hr : r.request.exchange.request = .waiting)
    (hresult : r.request.result = .pending) (hsecond : r.request.second = {})
    (hfinished : r.request.exchange.listeners.finished = true) :
    Matches cfg numbers calls
      (.sent (r.awaited { r.request with
        exchange := { r.request.exchange with request := cfg.client.afterAwait r.args (.error e) }
        result := (cfg.client.afterAwait r.args (.error e)).settle r.request.result }))
      (.rejected r.args e) := by
  simp only [HandshakeClient.afterAwait, SentRun.awaited, hr]
  refine .rejected (request_halted_of hfinished ?_ ?_ ?_) ?_
  · intro h
    cases h
  · intro message h
    cases h
  · intro _
    exact congrArg (fun l => l.promise.awaited) hsecond
  · simp only [RequestStage.settle, hresult, Promise.reject]

/-- The client has read the second reply, which it returns as it is. -/
theorem matches_response {response : HttpResponse}
    (hr : r.request.exchange.request = .sends r.message)
    (hfirst : r.request.exchange.listeners.finished = true)
    (hfinished : r.request.second.finished = true)
    (ha : cfg.answer calls r.call = some response) :
    Matches cfg numbers calls
      (.sent (r.awaited { r.request with result := .resolved (response.body.bytes numbers) }))
      (.resolved r.args r.message response) := by
  simp only [SentRun.awaited, hr]
  refine .resolved (request_halted_of hfirst ?_ ?_ ?_) rfl hr ha
  · intro h
    cases hr.symm.trans h
  · intro _ _
    exact hfinished
  · intro h
    cases h

/-- The second request has failed. -/
theorem matches_failed_second {message : ClientSignedMessage (List Char) Bytes} {e : Thrown}
    (hr : r.request.exchange.request = .sends message)
    (hfirst : r.request.exchange.listeners.finished = true)
    (hfinished : r.request.second.finished = true) :
    Matches cfg numbers calls (.sent (r.awaited { r.request with result := .rejected e }))
      (.rejected r.args e) := by
  simp only [SentRun.awaited, hr]
  refine .rejected (request_halted_of hfirst ?_ ?_ ?_) rfl
  · intro h
    cases hr.symm.trans h
  · intro _ _
    exact hfinished
  · intro h
    cases h

/-- An `await` goes on after a reply or after an error. -/
theorem matches_await (hjson : cfg.json = numbers.parser) {st : RequestState K}
    {request : RequestCall (List Char)} {re : RequestEvent (List Char)}
    (hm : Matches cfg numbers calls (.sent r) st)
    (hs : (cfg.requestMachine numbers r.args).step r.request r.awaitMove = some (request, re)) :
    ∃ leg, st = .awaiting leg r.args r.message r.call ∧
      ((∃ e, Matches cfg numbers calls (.sent (r.awaited request)) (.rejected r.args e)) ∨
        ∃ response, cfg.answer calls r.call = some response ∧
          Matches cfg numbers calls (.sent (r.awaited request))
            (cfg.onReply leg r.args r.message response)) := by
  cases hm with
  | hanging hhalted | resolved hhalted | rejected hhalted =>
    rw [hhalted] at hs
    cases hs
  | first hr hresult hsecond hl hsettled =>
    refine ⟨.challenge, rfl, ?_⟩
    obtain ⟨result, ha, rfl⟩ := await_first hr hs
    cases hp : r.request.exchange.listeners.promise with
    | pending =>
      rw [hp] at ha
      cases ha
    | resolved value =>
      rw [hp] at ha
      cases ha
      obtain ⟨hfinished, response, status, ha, hvalue⟩ := hl.resolved hp
      obtain ⟨challenge, rfl, hextract⟩ := extractOrCombined_ok hvalue
      exact Or.inr ⟨response, ha,
        matches_challenge hjson hr hresult hsecond hfinished ha hextract⟩
    | rejected e =>
      rw [hp] at ha
      cases ha
      exact Or.inl ⟨e, matches_failed_first hr hresult hsecond (hl.rejected hp)⟩
  | second hr hresult hfirst hl =>
    refine ⟨.response, rfl, ?_⟩
    rcases await_second hr hresult hs with ⟨body, hp, rfl⟩ | ⟨e, hp, rfl⟩
    · obtain ⟨hfinished, response, status, ha, hvalue⟩ := hl.resolved hp
      cases hvalue
      exact Or.inr ⟨response, ha, matches_response hr hfirst hfinished ha⟩
    · exact Or.inl ⟨e, matches_failed_second hr hfirst (hl.rejected hp)⟩

/-! The session's step for each step of the wire. -/

/-- The server's part of a history. -/
def wiredServer (h : List (WiredEvent K S)) :
    List (ServerEvent HttpRequest UserId MockUser K Bytes S) :=
  h.filterMap fun e =>
    match e with
    | .arrived _ se => some se
    | .server se => some se
    | _ => none

/-- The wire's step is one of the session, with the same part in the server, or shows nothing. -/
inductive Follows (cfg : Deployment K S) (numbers : NumberText) (s : State K)
    (e : WiredEvent K S) (w' : WiredState K) : Prop
  | stay (hnone : wiredServer [e] = []) (hsim : Simulated cfg numbers w' s) :
      Follows cfg numbers s e w'
  | step {d s'} (hstep : cfg.session.Step s d s') (hserver : serverEvents [d] = wiredServer [e])
      (hsim : Simulated cfg numbers w' s') : Follows cfg numbers s e w'

theorem Simulated.sent (hsim : Simulated cfg numbers w s) (hrun : w.runs run = some (.sent r)) :
    ∃ st, s.requests run = some st ∧ Matches cfg numbers w.server.calls (.sent r) st := by
  have hm := hsim.runs run
  rw [hrun] at hm
  generalize s.requests run = st at hm
  cases hm with
  | some hm => exact ⟨_, rfl, hm⟩

/-- A run that has just been started. -/
theorem matches_begin {args : HandshakeRun (List Char) K Bytes} {options : HandshakeRequestOptions}
    {seed : S} :
    Matches cfg numbers calls (cfg.wiredBegin args options seed) (cfg.begin args seed) := by
  cases hm : cfg.client.challengeMessage args seed with
  | error e =>
    simp only [Deployment.wiredBegin, Deployment.begin, hm]
    exact .threw
  | ok message =>
    simp only [Deployment.wiredBegin, Deployment.begin, hm]
    refine .first (r := { args, options, message }) rfl rfl rfl .nothing ?_
    intro hfinished
    cases hfinished

theorem follows_start {options : HandshakeRequestOptions} {userId : List Char}
    {clientKey serverKey : K} {random seed : S} (hsim : Simulated cfg numbers w s)
    (hfree : w.runs run = none) :
    Follows cfg numbers s (.started run)
      { w with
        runs := Function.update w.runs run (some (cfg.wiredBegin
          { userId, clientKey, serverKey, nonce := cfg.client.nonce random } options seed)) } := by
  have hnone : s.requests run = none := by
    have hm := hsim.runs run
    rw [hfree] at hm
    generalize s.requests run = st at hm
    cases hm
    rfl
  generalize hargs : HandshakeRun.mk userId clientKey serverKey (cfg.client.nonce random) = args
  have hstep : cfg.session.Step s (.started run args (cfg.begin args seed))
      { s with requests := Function.update s.requests run (some (cfg.begin args seed)) } := by
    refine ⟨.start run userId clientKey serverKey random seed, ?_⟩
    simp only [Deployment.session, Deployment.step, hnone, hargs]
  exact .step hstep rfl (hsim.follow matches_begin)

/-- A request that the run still waits for arrives as its next leg, and any other as the request
of somebody else. -/
theorem follows_arrive {call : ℕ} {req : HttpRequest} {server : Server UserId MockUser K Bytes}
    {se : ServerEvent HttpRequest UserId MockUser K Bytes S} (hdoc : express.Documented numbers)
    (hsim : Simulated cfg numbers w s)
    (hrun : w.runs run = some (.sent r)) (hcall : r.call = none)
    (hreq : r.data.receivedBytes numbers express call = some req)
    (hs : w.server.step cfg.strategy (.authenticate call req) = some (server, se)) :
    Follows cfg numbers s (.arrived run se)
      { server
        runs := Function.update w.runs run (some (.sent { r with call := some call })) } := by
  obtain ⟨st, hst, hm⟩ := hsim.sent hrun
  have hserve := hsim.serve (server_step_grows hs)
  rw [← hsim.server] at hs
  cases received_format hdoc hreq
  have hanswer : ∀ response, cfg.answer w.server.calls r.call = some response →
      cfg.answer server.calls (some call) = some response := by
    intro response ha
    rw [hcall] at ha
    cases ha
  have arrived : ∀ leg, r.leg = leg → st = .awaiting leg r.args r.message r.call →
      Matches cfg numbers server.calls (.sent { r with call := some call })
        (.awaiting leg r.args r.message (some call)) →
      Follows cfg numbers s (.arrived run se)
        { server
          runs := Function.update w.runs run (some (.sent { r with call := some call })) } := by
    rintro leg rfl rfl hm'
    refine .step (d := .arrived run r.leg se) ⟨.arrive run call, ?_⟩ rfl (hserve.follow hm')
    rw [hcall] at hst
    simp only [Deployment.session, Deployment.step, hst, hs]
  have unseen : Matches cfg numbers server.calls (.sent { r with call := some call }) st →
      Follows cfg numbers s (.arrived run se)
        { server
          runs := Function.update w.runs run (some (.sent { r with call := some call })) } := by
    intro hm'
    refine .step (d := .server se) ⟨.server (.authenticate call
      (jsonRequest r.leg.messageField r.message call)), ?_⟩ rfl (hserve.stay hst hm')
    simp only [Deployment.session, Deployment.step, hs]
  cases hm with
  | first hr hresult hsecond hl hsettled =>
    refine arrived .challenge (by rw [SentRun.leg, hr]) rfl ?_
    exact .first hr hresult hsecond (hl.grow hanswer) hsettled
  | second hr hresult hfirst hl =>
    refine arrived .response (by rw [SentRun.leg, hr]) rfl ?_
    exact .second hr hresult hfirst (hl.grow hanswer)
  | hanging hhalted hresult => exact unseen (.hanging hhalted hresult)
  | @resolved _ response _ _ _ ha =>
    rw [hcall] at ha
    cases ha
  | rejected hhalted hresult => exact unseen (.rejected hhalted hresult)

theorem follows_http {part : Part} {event : HttpEvent} {reply : Option Bytes}
    {request : RequestCall (List Char)} {re : RequestEvent (List Char)}
    (hjson : cfg.json = numbers.parser) (hsim : Simulated cfg numbers w s)
    (hrun : w.runs run = some (.sent r))
    (hn : r.next numbers (cfg.answer w.server.calls r.call) part = some (event, reply))
    (hs : (cfg.requestMachine numbers r.args).step r.request (r.httpMove event) =
      some (request, re)) :
    Follows cfg numbers s (.http run event)
      { w with runs := Function.update w.runs run (some (.sent { r with request, reply })) } := by
  obtain ⟨st, hst, hm⟩ := hsim.sent hrun
  rcases matches_http hm hn hs with hm' | ⟨response, e, rfl, ha, hextract, hm'⟩
  · exact .stay rfl (hsim.stay hst hm')
  · obtain ⟨id, v, hid, hcall, hreply⟩ := answer_some ha
    rw [extractBuffer_bytes fun _ => reads_reply hreply, ← hjson] at hextract
    refine .step (d := .received run response (.hanging r.args e)) ⟨.receive run, ?_⟩ rfl
      (hsim.follow hm')
    rw [hid] at hst
    have hanswer : cfg.reply (s.server.calls id) = some response := by
      rw [hsim.server, hcall]
      exact hreply
    simp only [Deployment.session, Deployment.step, hst, hanswer, Deployment.onReply, hextract]

theorem follows_await {request : RequestCall (List Char)} {re : RequestEvent (List Char)}
    (hjson : cfg.json = numbers.parser) (hsim : Simulated cfg numbers w s)
    (hrun : w.runs run = some (.sent r))
    (hs : (cfg.requestMachine numbers r.args).step r.request r.awaitMove = some (request, re)) :
    Follows cfg numbers s (.awaited run)
      { w with runs := Function.update w.runs run (some (.sent (r.awaited request))) } := by
  obtain ⟨st, hst, hm⟩ := hsim.sent hrun
  obtain ⟨leg, rfl, ⟨e, hm'⟩ | ⟨response, ha, hm'⟩⟩ := matches_await hjson hm hs
  · refine .step (d := .disconnected run) ⟨.disconnect run e, ?_⟩ rfl (hsim.follow hm')
    simp only [Deployment.session, Deployment.step, hst]
  · obtain ⟨id, v, hid, hcall, hreply⟩ := answer_some ha
    refine .step (d := .received run response (cfg.onReply leg r.args r.message response))
      ⟨.receive run, ?_⟩ rfl (hsim.follow hm')
    rw [hid] at hst
    have hanswer : cfg.reply (s.server.calls id) = some response := by
      rw [hsim.server, hcall]
      exact hreply
    simp only [Deployment.session, Deployment.step, hst, hanswer]

theorem wired_follows (hjson : cfg.json = numbers.parser) (hdoc : express.Documented numbers)
    (hsim : Simulated cfg numbers w s) (hstep : (cfg.wired numbers express).Step w e w') :
    Follows cfg numbers s e w' := by
  cases wired_step_inv hstep with
  | started hfree => exact follows_start hsim hfree
  | arrived hrun hcall hreq hs => exact follows_arrive hdoc hsim hrun hcall hreq hs
  | http hrun hn hs => exact follows_http hjson hsim hrun hn hs
  | awaited hrun hs => exact follows_await hjson hsim hrun hs
  | @server move server se hs =>
    have hserve := hsim.serve (server_step_grows hs)
    rw [← hsim.server] at hs
    refine .step (d := .server se) ⟨.server move, ?_⟩ rfl hserve
    simp only [Deployment.session, Deployment.step, hs]

theorem wired_simulated (hjson : cfg.json = numbers.parser) (hdoc : express.Documented numbers)
    (hx : (cfg.wired numbers express).Execution h w) :
    ∃ h' s, cfg.session.Execution h' s ∧ serverEvents h' = wiredServer h ∧
      Simulated cfg numbers w s := by
  apply Machine.Execution.invariant (P := fun h (w : WiredState K) =>
    ∃ h' s, cfg.session.Execution h' s ∧ serverEvents h' = wiredServer h ∧
      Simulated cfg numbers w s) ?_ ?_ hx
  · exact ⟨[], _, .init, rfl, rfl, fun _ => .none⟩
  · rintro h w e w' - ⟨h', s, hx', hserver, hsim⟩ hstep
    have hconcat : wiredServer (h ++ [e]) = wiredServer h ++ wiredServer [e] :=
      List.filterMap_append
    cases wired_follows hjson hdoc hsim hstep with
    | stay hnone hsim' =>
      refine ⟨h', s, hx', ?_, hsim'⟩
      rw [hconcat, hnone, List.append_nil, hserver]
    | step hstep' hserver' hsim' =>
      refine ⟨_, _, hx'.snoc hstep', ?_, hsim'⟩
      rw [hconcat, ← hserver, ← hserver', serverEvents, List.filterMap_append]
      rfl

/-! The same outcomes. -/

/-- The promise that `request` has returned. -/
def WiredRun.result : WiredRun K → Promise Bytes
  | .threw _ e => .rejected e
  | .sent r => r.request.result

/-- No event and no `await` is left, but the promise is pending. -/
def WiredRun.Hangs (cfg : Deployment K S) (numbers : NumberText) : WiredRun K → Prop
  | .threw _ _ => False
  | .sent r => (cfg.requestMachine numbers r.args).Halted r.request ∧ r.request.result = .pending

/-- The promises end alike, with the bytes of the response or the same error, or both hang. -/
structure SameOutcome (cfg : Deployment K S) (numbers : NumberText) (a : WiredRun K)
    (st : RequestState K) : Prop where
  resolved : ∀ body, a.result = .resolved body ↔
    ∃ args sent response, st = .resolved args sent response ∧ body = response.body.bytes numbers
  rejected : ∀ e, a.result = .rejected e ↔ ∃ args, st = .rejected args e
  hangs : a.Hangs cfg numbers ↔ ∃ args e, st = .hanging args e

theorem Promise.awaited_none {A : Type} {p : Promise A} (hp : p.awaited = none) : p = .pending := by
  cases p with
  | pending => rfl
  | resolved | rejected => cases hp

theorem Matches.outcome {a : WiredRun K} {st : RequestState K}
    (hm : Matches cfg numbers calls a st) : SameOutcome cfg numbers a st := by
  cases hm with
  | threw => exact ⟨by simp [WiredRun.result], by simp [WiredRun.result],
      by simp [WiredRun.Hangs]⟩
  | @first r hr hresult hsecond hl hsettled =>
    refine ⟨by simp [WiredRun.result, hresult], by simp [WiredRun.result, hresult], ?_⟩
    refine iff_of_false ?_ (by simp)
    rintro ⟨hhalted, -⟩
    obtain ⟨hfinished, hawaited⟩ := halted_iff.mp (request_halted hhalted).1
    exact hsettled hfinished (Promise.awaited_none (hawaited hr))
  | @second r hr hresult hfirst hl =>
    refine ⟨by simp [WiredRun.result, hresult], by simp [WiredRun.result, hresult], ?_⟩
    refine iff_of_false ?_ (by simp)
    rintro ⟨hhalted, -⟩
    obtain ⟨hfinished, hawaited⟩ := (request_halted hhalted).2 _ hr
    obtain ⟨_, _, _, _, he⟩ := hl.pending hfinished (Promise.awaited_none (hawaited hresult))
    cases he
  | hanging hhalted hresult =>
    refine ⟨by simp [WiredRun.result, hresult], by simp [WiredRun.result, hresult], ?_⟩
    exact iff_of_true ⟨hhalted, hresult⟩ ⟨_, _, rfl⟩
  | resolved hhalted hresult =>
    refine ⟨by simp [WiredRun.result, hresult, eq_comm], by simp [WiredRun.result, hresult], ?_⟩
    simp [WiredRun.Hangs, hresult]
  | rejected hhalted hresult =>
    refine ⟨by simp [WiredRun.result, hresult], by simp [WiredRun.result, hresult, eq_comm], ?_⟩
    simp [WiredRun.Hangs, hresult]

/-- The same runs have started, and have ended alike. -/
theorem Simulated.outcomes (hsim : Simulated cfg numbers w s) (run : ℕ) :
    (w.runs run = none ↔ s.requests run = none) ∧
      ∀ a st, w.runs run = some a → s.requests run = some st → SameOutcome cfg numbers a st := by
  have hrun := hsim.runs run
  generalize w.runs run = a at hrun
  generalize s.requests run = st at hrun
  cases hrun with
  | none => exact ⟨by simp, by simp⟩
  | some hm =>
    refine ⟨by simp, ?_⟩
    intro a' st' ha hst
    cases ha
    cases hst
    exact hm.outcome

/-- Whatever way bytes travel, there is an execution of the session with the same events in the
server, in which the same runs have started and ended alike. -/
theorem wire_refines_session (hjson : cfg.json = numbers.parser)
    (hdoc : express.Documented numbers) (hx : (cfg.wired numbers express).Execution h w) :
    ∃ h' s, cfg.session.Execution h' s ∧ serverEvents h' = wiredServer h ∧ s.server = w.server ∧
      ∀ run, (w.runs run = none ↔ s.requests run = none) ∧
        ∀ a st, w.runs run = some a → s.requests run = some st →
          SameOutcome cfg numbers a st := by
  obtain ⟨h', s, hx', hserver, hsim⟩ := wired_simulated hjson hdoc hx
  exact ⟨h', s, hx', hserver, hsim.server, hsim.outcomes⟩

def wiredDemo : Deployment UInt8 UInt8 := { demo with json := zeroNumbers.parser }

def wiredDemoMachine :
    Machine (WiredState UInt8) (WiredMove UInt8 UInt8) (WiredEvent UInt8 UInt8) :=
  wiredDemo.wired zeroNumbers (expressJson zeroNumbers)

/-- Run 0 of the undisturbed handshake; its first reply comes in two parts. -/
def wiredHandshake : List (WiredMove UInt8 UInt8) :=
  [.start 0 ⟨"localhost", some 8080, some "/authenticate", false⟩ "u".toList 1 0 7 0,
    .arrive 0 0] ++
    List.replicate 7 (.server (.resume 0 ⟨0, 0, 0⟩)) ++
    [.http 0 .response, .http 0 (.data 50), .http 0 (.data 1000), .http 0 .ended, .await 0,
      .arrive 0 1] ++
    List.replicate 3 (.server (.resume 1 ⟨0, 1, 0⟩)) ++
    [.http 0 .response, .http 0 (.data 1000), .http 0 .ended, .await 0]

/-- The bytes that a run's promise has brought. -/
def WiredRun.body (a : WiredRun K) : Option Bytes :=
  match a.result with
  | .resolved body => some body
  | _ => none

theorem wire_refines_session_handshake :
    let w := wiredDemoMachine.final wiredHandshake
    (w.runs 0).bind WiredRun.body =
        some (Utf8.encode "\x7b\"token\":\"token\"\x7d".toList) ∧
      ∃ h' s, wiredDemo.session.Execution h' s ∧
        serverEvents h' = wiredServer (wiredDemoMachine.history wiredHandshake) ∧
        s.server = w.server ∧
        ∀ run, (w.runs run = none ↔ s.requests run = none) ∧
          ∀ a st, w.runs run = some a → s.requests run = some st →
            SameOutcome wiredDemo zeroNumbers a st := by
  intro w
  exact ⟨by decide +kernel,
    wire_refines_session rfl (expressJson_documented zeroNumbers)
      (wiredDemoMachine.final_execution wiredHandshake)⟩

end MutualKeyChallenge.Session
