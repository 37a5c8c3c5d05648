import MutualKeyChallenge.Session.WireRefinement

/-! The demo client: what `main` makes of the handshake. -/
namespace MutualKeyChallenge.Session
open Transition
variable {K S : Type}

/-- The token response of `main`, or the code that it exits with, once the promise of `request` is
settled. -/
def tokenResponse (numbers : NumberText) : Promise Bytes → Option (Except ℕ Json)
  | .pending => none
  | .rejected _ => some (.error 1)
  | .resolved buf =>
    match numbers.parser.parse (Utf8.decode buf) with
    | .error _ => some (.error 1)
    | .ok value => some (.ok value)

variable {cfg : Deployment K S} {numbers : NumberText} {express : ExpressJson} {w : WiredState K}
  {h h' : List (WiredEvent K S)} {run : ℕ} {r : SentRun K} {body : Bytes}

/-! The call that the last request of a run has become. -/

/-- The call of the run began with the run's own last request. -/
def OwnCall (h : List (WiredEvent K S)) (run : ℕ) (r : SentRun K) : Prop :=
  ∀ call, r.call = some call → ∃ now after,
    .arrived run (.authenticate call now (jsonRequest r.leg.messageField r.message call) after) ∈ h

theorem OwnCall.of_subset (hown : OwnCall h run r) (hsub : h ⊆ h') : OwnCall h' run r := by
  intro call hcall
  obtain ⟨now, after, he⟩ := hown call hcall
  exact ⟨now, after, hsub he⟩

section Parts
variable {event : HttpEvent} {reply : Option Bytes} {request : RequestCall (List Char)}
  {re : RequestEvent (List Char)}

/-- The parts of a reply alone send no request. -/
theorem http_stage (hs : (cfg.requestMachine numbers r.args).step r.request (r.httpMove event) =
      some (request, re)) : request.exchange.request = r.request.exchange.request := by
  cases hr : r.request.exchange.request with
  | waiting =>
    obtain ⟨l, callback, _, rfl⟩ := http_first hr hs
    exact hr
  | sends message =>
    obtain ⟨l, callback, _, rfl⟩ := http_second hr hs
    exact hr
  | rejects e =>
    simp only [SentRun.httpMove, hr, Deployment.requestMachine, requestMachine] at hs
    cases hs

theorem OwnCall.http (hown : OwnCall h run r)
    (hs : (cfg.requestMachine numbers r.args).step r.request (r.httpMove event) =
      some (request, re)) : OwnCall h run { r with request, reply } := by
  have hleg : SentRun.leg { r with request, reply } = r.leg := by
    simp only [SentRun.leg, http_stage hs]
  intro call hcall
  rw [hleg]
  exact hown call hcall

/-- Either the second request has just been sent, and is no call yet, or it is the same request. -/
theorem OwnCall.await (hown : OwnCall h run r)
    (hs : (cfg.requestMachine numbers r.args).step r.request r.awaitMove = some (request, re)) :
    OwnCall h run (r.awaited request) := by
  have same : SentRun.leg { r with request } = r.leg → r.awaited request = { r with request } →
      OwnCall h run (r.awaited request) := by
    intro hleg hawaited call hcall
    rw [hawaited] at hcall ⊢
    rw [hleg]
    exact hown call hcall
  cases hr : r.request.exchange.request with
  | waiting =>
    cases hafter : request.exchange.request with
    | sends message =>
      intro call hcall
      simp only [SentRun.awaited, hr, hafter] at hcall
      cases hcall
    | waiting | rejects e =>
      exact same (by simp only [SentRun.leg, hr, hafter])
        (by simp only [SentRun.awaited, hr, hafter])
  | sends message | rejects e =>
    have hexchange : request.exchange = r.request.exchange := by
      simp only [SentRun.awaitMove, hr, Deployment.requestMachine, requestMachine] at hs
      split at hs <;> cases hs <;> rfl
    exact same (by simp only [SentRun.leg, hexchange]) (by simp only [SentRun.awaited, hr])

end Parts

theorem own_call (hdoc : express.Documented numbers)
    (hx : (cfg.wired numbers express).Execution h w) :
    ∀ run r, w.runs run = some (.sent r) → OwnCall h run r := by
  apply Machine.Execution.invariant (P := fun h (w : WiredState K) =>
    ∀ run r, w.runs run = some (.sent r) → OwnCall h run r) ?_ ?_ hx
  · intro run r hrun
    cases hrun
  · intro h w e w' _ ih hstep run r hrun
    have kept : ∀ {r}, w.runs run = some (.sent r) → OwnCall (h ++ [e]) run r :=
      fun hold => (ih run _ hold).of_subset (List.subset_append_left ..)
    -- one run goes on
    have gone : ∀ {run' a}, Function.update w.runs run' (some a) run = some (.sent r) →
        (run' = run → a = .sent r → OwnCall (h ++ [e]) run r) → OwnCall (h ++ [e]) run r := by
      intro run' a hrun hnew
      by_cases hsame : run' = run
      · subst hsame
        simp only [Function.update_self, Option.some.injEq] at hrun
        exact hnew rfl hrun
      · rw [Function.update_of_ne (Ne.symm hsame)] at hrun
        exact kept hrun
    cases wired_step_inv hstep with
    | started hfree =>
      refine gone hrun ?_
      intro _ ha call hcall
      unfold Deployment.wiredBegin at ha
      split at ha
      · cases ha
      · cases ha
        cases hcall
    | arrived hrun' _ hreq hs =>
      refine gone hrun ?_
      rintro rfl ⟨⟩ call hcall
      obtain ⟨after, rfl⟩ := arrival_event hs
      cases received_format hdoc hreq
      cases hcall
      exact ⟨_, after, List.mem_append_right _ (List.mem_singleton.mpr rfl)⟩
    | http hrun' _ hs =>
      refine gone hrun ?_
      rintro rfl ⟨⟩
      exact (kept hrun').http hs
    | awaited hrun' hs =>
      refine gone hrun ?_
      rintro rfl ⟨⟩
      exact (kept hrun').await hs
    | server => exact kept hrun

/-- The run's response arrived as its call `call`, which had one verdict. -/
structure Concluded (h : List (WiredEvent K S)) (run : ℕ) (r : SentRun K) (call : ℕ)
    (v : Verdict MockUser K Bytes) : Prop where
  own : r.call = some call
  arrived : ∃ now after,
    .arrived run (.authenticate call now (jsonRequest "response" r.message call) after) ∈ h
  verdict : verdicts call (wiredServer h) = [v]

/-- A promise that resolved brought the reply to the one verdict on the response. -/
theorem resolved_reply (hjson : cfg.json = numbers.parser) (hdoc : express.Documented numbers)
    (hx : (cfg.wired numbers express).Execution h w) (hrun : w.runs run = some (.sent r))
    (hbody : r.request.result = .resolved body) :
    ∃ call v response, Concluded h run r call v ∧
      authenticateRouter cfg.token (.ofVerdict v) = some response ∧
      body = response.body.bytes numbers ∧
      ((∃ u, v = .success u.user u.publicKey ∧
          cfg.userFunc (jsonRequest "response" r.message call) (.string r.args.userId) = some u) ∨
        ∃ error, v = .error error ∧ error ∈ MutualKeyChallengeStrategy.handlerErrors) := by
  have hown := own_call hdoc hx run r hrun
  obtain ⟨h', s, hx', hserver, hsim⟩ := wired_simulated hjson hdoc hx
  obtain ⟨st, hst, hm⟩ := hsim.sent hrun
  have hok := requests_ok hx' run
  rw [hst] at hok
  cases hm with
  | first _ hresult | second _ hresult | hanging _ hresult | rejected _ hresult =>
    rw [hbody] at hresult
    cases hresult
  | @resolved _ response _ hresult hsends ha =>
    rw [hbody] at hresult
    cases hresult
    -- the response is for the user that the run was started for
    obtain ⟨a, _, _, _, hab, hans, _⟩ := hok
    have hfirst : a ∈ arrivals run h' := by simp [hab]
    obtain ⟨hid, hnamed⟩ := hans.named hx' hfirst
    obtain ⟨call, v, hcall, hsettled, hr⟩ := answer_some ha
    obtain ⟨now, after, harrived⟩ := hown call hcall
    have hleg : r.leg = .response := by simp only [SentRun.leg, hsends]
    rw [hleg] at harrived
    have hx'' := session_server hx'
    rw [hserver, hsim.server] at hx''
    have hreceived : Received (wiredServer h) call now (jsonRequest "response" r.message call) :=
      ⟨after, List.mem_filterMap.mpr ⟨_, harrived, rfl⟩⟩
    refine ⟨call, v, response, ⟨hcall, ⟨now, after, harrived⟩, ?_⟩, hr, rfl, ?_⟩
    · have hcallOk := calls_ok hx'' call
      rw [hsettled] at hcallOk
      cases hcallOk with
      | known _ _ hv => exact hv
    · have hconcludes := concludes_of_received hx'' hreceived hsettled
      rcases response_verdict (hid ▸ hnamed) hconcludes with ⟨u, rfl, hu⟩ | herror
      · exact Or.inl ⟨u, rfl, hid ▸ hu⟩
      · exact Or.inr herror

/-- The parser makes the same of the reply's bytes as of the reply. -/
theorem tokenResponse_reply {v : Verdict MockUser K Bytes} {response : HttpResponse}
    (hr : authenticateRouter cfg.token (.ofVerdict v) = some response) :
    tokenResponse numbers (.resolved (response.body.bytes numbers)) =
      match numbers.parser.parseBody response.body with
      | .error _ => some (.error 1)
      | .ok value => some (.ok value) := by
  rw [tokenResponse, parse_bytes fun _ => reads_reply hr]

/-- `main` goes on with a token only after the strategy has accepted the run's response for its
user, and the token is the router's for that user. When the strategy has refused the response,
`main` exits, since the text of an error is no JSON. -/
theorem handshake_success (hjson : cfg.json = numbers.parser) (hdoc : express.Documented numbers)
    (hx : (cfg.wired numbers express).Execution h w) (hrun : w.runs run = some (.sent r)) :
    (∀ value, tokenResponse numbers r.request.result = some (.ok value) →
      ∃ call u t, Concluded h run r call (.success u.user u.publicKey) ∧
        cfg.userFunc (jsonRequest "response" r.message call) (.string r.args.userId) = some u ∧
        cfg.token u.user = some t ∧ value = .object [("token", .string t)]) ∧
    ∀ body code, r.request.result = .resolved body →
      tokenResponse numbers r.request.result = some (.error code) →
        code = 1 ∧ ∃ call error, Concluded h run r call (.error error) ∧
          error ∈ MutualKeyChallengeStrategy.handlerErrors ∧
          Utf8.decode body = error.message.toList := by
  constructor
  · intro value hvalue
    cases hresult : r.request.result with
    | pending | rejected =>
      rw [hresult] at hvalue
      cases hvalue
    | resolved body =>
      rw [hresult] at hvalue
      obtain ⟨call, v, response, hconcluded, hr, rfl, ⟨u, rfl, hu⟩ | ⟨error, rfl, herror⟩⟩ :=
        resolved_reply hjson hdoc hx hrun hresult
      · rw [tokenResponse_reply hr] at hvalue
        obtain ⟨t, ht, rfl⟩ := Option.map_eq_some_iff.mp hr
        cases hvalue
        exact ⟨call, u, t, hconcluded, hu, ht, rfl⟩
      · rw [tokenResponse_reply hr] at hvalue
        cases hr
        obtain ⟨c, text, hm, h1, h2⟩ := handlerErrors_capital herror
        simp only [JsonParser.parseBody, hm, numbers.parser.parse_capital c text h1 h2] at hvalue
        cases hvalue
  · intro body code hresult hcode
    rw [hresult] at hcode
    obtain ⟨call, v, response, hconcluded, hr, rfl, ⟨u, rfl, hu⟩ | ⟨error, rfl, herror⟩⟩ :=
      resolved_reply hjson hdoc hx hrun hresult
    · rw [tokenResponse_reply hr] at hcode
      obtain ⟨t, ht, rfl⟩ := Option.map_eq_some_iff.mp hr
      cases hcode
    · rw [tokenResponse_reply hr] at hcode
      cases hr
      obtain ⟨c, text, hm, h1, h2⟩ := handlerErrors_capital herror
      simp only [JsonParser.parseBody, hm, numbers.parser.parse_capital c text h1 h2] at hcode
      cases hcode
      exact ⟨rfl, call, error, hconcluded, herror, Utf8.decode_encode _⟩

/-- `main` goes on with a token. -/
def WiredRun.goesOn (numbers : NumberText) : WiredRun K → Bool
  | .threw _ _ => false
  | .sent r => (tokenResponse numbers r.request.result).any Except.isOk

theorem goesOn_iff {a : WiredRun K} (h : a.goesOn numbers = true) :
    ∃ r value, a = .sent r ∧ tokenResponse numbers r.request.result = some (.ok value) := by
  cases a with
  | threw => cases h
  | sent r =>
    simp only [WiredRun.goesOn] at h
    cases hresponse : tokenResponse numbers r.request.result with
    | none =>
      rw [hresponse] at h
      cases h
    | some result =>
      rw [hresponse] at h
      cases result with
      | error => cases h
      | ok value => exact ⟨r, value, rfl, hresponse⟩

theorem handshake_success_demo :
    let m := wiredDemoMachine
    ∃ r, (m.final wiredHandshake).runs 0 = some (.sent r) ∧
      (∃ value, tokenResponse zeroNumbers r.request.result = some (.ok value)) ∧
      (∀ value, tokenResponse zeroNumbers r.request.result = some (.ok value) →
        ∃ call u t, Concluded (m.history wiredHandshake) 0 r call (.success u.user u.publicKey) ∧
          wiredDemo.userFunc (jsonRequest "response" r.message call) (.string r.args.userId) =
            some u ∧
          wiredDemo.token u.user = some t ∧ value = .object [("token", .string t)]) ∧
      ∀ body code, r.request.result = .resolved body →
        tokenResponse zeroNumbers r.request.result = some (.error code) →
          code = 1 ∧ ∃ call error, Concluded (m.history wiredHandshake) 0 r call (.error error) ∧
            error ∈ MutualKeyChallengeStrategy.handlerErrors ∧
            Utf8.decode body = error.message.toList := by
  intro m
  have hgoesOn : ((m.final wiredHandshake).runs 0).any (WiredRun.goesOn zeroNumbers) = true := by
    decide +kernel
  obtain ⟨a, hrun, ha⟩ := (Option.any_eq_true _ _).mp hgoesOn
  obtain ⟨r, value, rfl, hvalue⟩ := goesOn_iff ha
  exact ⟨r, hrun, ⟨value, hvalue⟩, handshake_success rfl (expressJson_documented zeroNumbers)
    (m.final_execution wiredHandshake) hrun⟩

end MutualKeyChallenge.Session
