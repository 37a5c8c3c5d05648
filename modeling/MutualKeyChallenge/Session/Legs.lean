import MutualKeyChallenge.Session.Requests

/-! What the runs have sent, and how the strategy has answered it. -/
namespace MutualKeyChallenge.Session
open Transition
variable {K S : Type}

/-- The requests of a run that have reached the server. -/
def arrivals (run : ℕ) (h : List (Event K S)) :
    List (Leg × ServerEvent HttpRequest UserId MockUser K Bytes S) :=
  h.filterMap fun e =>
    match e with
    | .arrived run' leg se => if run' = run then some (leg, se) else none
    | _ => none

/-- The arrival is that of this message, as call `call`. -/
def ArrivedAs (leg : Leg) (sent : ClientSignedMessage (List Char) Bytes) (call : ℕ)
    (a : Leg × ServerEvent HttpRequest UserId MockUser K Bytes S) : Prop :=
  ∃ now after,
    a = (leg, .authenticate call now (jsonRequest leg.messageField sent call) after)

/-- The run's first request arrived as `a` and was answered with a challenge that passed both of
the client's checks; `sent` is the client's response. -/
def Answered (cfg : Deployment K S) (h : List (Event K S))
    (args : HandshakeRun (List Char) K Bytes) (sent : ClientSignedMessage (List Char) Bytes)
    (a : Leg × ServerEvent HttpRequest UserId MockUser K Bytes S) : Prop :=
  ∃ seed first call challenge status, cfg.client.challengeMessage args seed = .ok first ∧
    ArrivedAs .challenge first call a ∧
    .fail challenge status ∈ verdicts call (serverEvents h) ∧
    cfg.client.responseMessage args challenge = .ok sent

/-- What a run's state says about the history. -/
def RequestOk (cfg : Deployment K S) (h : List (Event K S)) (run : ℕ) :
    Option (RequestState K) → Prop
  | none => arrivals run h = []
  | some (.awaiting .challenge args sent none) =>
    arrivals run h = [] ∧ ∃ seed, cfg.client.challengeMessage args seed = .ok sent
  | some (.awaiting .challenge args sent (some call)) =>
    ∃ a, arrivals run h = [a] ∧ ArrivedAs .challenge sent call a ∧
      ∃ seed, cfg.client.challengeMessage args seed = .ok sent
  | some (.awaiting .response args sent none) =>
    ∃ a, arrivals run h = [a] ∧ Answered cfg h args sent a
  | some (.awaiting .response args sent (some call)) =>
    ∃ a b, arrivals run h = [a, b] ∧ Answered cfg h args sent a ∧ ArrivedAs .response sent call b
  | some (.resolved args sent response) =>
    ∃ a b call v, arrivals run h = [a, b] ∧ Answered cfg h args sent a ∧
      ArrivedAs .response sent call b ∧ v ∈ verdicts call (serverEvents h) ∧
      authenticateRouter cfg.token (.ofVerdict v) = some response
  | some (.rejected _ _) => True
  | some (.hanging _ _) => True

variable {cfg : Deployment K S} {w w' : State K} {e : Event K S} {h : List (Event K S)} {run : ℕ}
  {args : HandshakeRun (List Char) K Bytes} {sent : ClientSignedMessage (List Char) Bytes}

theorem arrivals_concat : arrivals run (h ++ [e]) = arrivals run h ++ arrivals run [e] :=
  List.filterMap_append

theorem arrivals_arrived {leg : Leg} {se : ServerEvent HttpRequest UserId MockUser K Bytes S} :
    arrivals run [(.arrived run leg se : Event K S)] = [(leg, se)] := by
  simp [arrivals]

theorem mem_arrivals_append {h more : List (Event K S)}
    {a : Leg × ServerEvent HttpRequest UserId MockUser K Bytes S} :
    a ∈ arrivals run (h ++ more) ↔ a ∈ arrivals run h ∨ a ∈ arrivals run more := by
  simp only [arrivals, List.filterMap_append, List.mem_append]

theorem verdicts_grow {call : ℕ} {v : Verdict MockUser K Bytes}
    (hv : v ∈ verdicts call (serverEvents h)) :
    v ∈ verdicts call (serverEvents (h ++ [e])) := by
  simp only [verdicts, serverEvents, List.filterMap_append, List.mem_append]
  exact Or.inl hv

theorem Answered.grow {a : Leg × ServerEvent HttpRequest UserId MockUser K Bytes S}
    (ha : Answered cfg h args sent a) : Answered cfg (h ++ [e]) args sent a := by
  obtain ⟨seed, first, call, challenge, status, hbegan, harr, hv, hsent⟩ := ha
  exact ⟨seed, first, call, challenge, status, hbegan, harr, verdicts_grow hv, hsent⟩

/-- What is known of a run stays known while none of its requests arrives. -/
theorem RequestOk.grow {st : Option (RequestState K)} (hok : RequestOk cfg h run st)
    (he : arrivals run [e] = []) : RequestOk cfg (h ++ [e]) run st := by
  have harr : arrivals run (h ++ [e]) = arrivals run h := by
    rw [arrivals_concat, he, List.append_nil]
  match st, hok with
  | none, hok => exact harr.trans hok
  | some (.awaiting .challenge args sent none), ⟨hnone, hbegan⟩ => exact ⟨harr.trans hnone, hbegan⟩
  | some (.awaiting .challenge args sent (some call)), ⟨a, ha, rest⟩ =>
    exact ⟨a, harr.trans ha, rest⟩
  | some (.awaiting .response args sent none), ⟨a, ha, hans⟩ => exact ⟨a, harr.trans ha, hans.grow⟩
  | some (.awaiting .response args sent (some call)), ⟨a, b, ha, hans, hb⟩ =>
    exact ⟨a, b, harr.trans ha, hans.grow, hb⟩
  | some (.resolved args sent response), ⟨a, b, call, v, ha, hans, hb, hv, hr⟩ =>
    exact ⟨a, b, call, v, harr.trans ha, hans.grow, hb, verdicts_grow hv, hr⟩
  | some (.rejected args e), _ => trivial
  | some (.hanging args e), _ => trivial

/-! The router's replies. -/

/-- The message starts with a capital. -/
def Capital (message : String) : Prop :=
  ∃ c text, message.toList = c :: text ∧ 'A' ≤ c ∧ c ≤ 'Z'

theorem handlerErrors_capital {error : ChallengeError}
    (he : error ∈ MutualKeyChallengeStrategy.handlerErrors) : Capital error.message := by
  simp only [MutualKeyChallengeStrategy.handlerErrors, List.mem_cons, List.not_mem_nil,
    or_false] at he
  rcases he with rfl | rfl | rfl | rfl
  · exact ⟨'N', _, rfl, by decide, by decide⟩
  · exact ⟨'T', _, rfl, by decide, by decide⟩
  · exact ⟨'C', _, rfl, by decide, by decide⟩
  · exact ⟨'C', _, rfl, by decide, by decide⟩

/-! What the strategy makes of the two requests. -/

section Reads
variable {call now : ℕ}

theorem strategy_func : cfg.strategy.challengeOrResponseFunc =
    challengeByBase64Body cfg.node "userId" "challenge" "response" := rfl

theorem reads_noUser (messageField : String) (hu : sent.userId = []) :
    cfg.strategy.challengeOrResponseFunc (jsonRequest messageField sent call) now =
      .ok (.challengeError
        ⟨"The property userId does not contain the user's key", .clientChallenge⟩) := by
  rw [strategy_func]
  exact extract_noUser messageField hu

theorem reads_challenge (hu : sent.userId ≠ []) :
    cfg.strategy.challengeOrResponseFunc (jsonRequest "challenge" sent call) now =
      .ok (.clientChallenge
        { userId := .string sent.userId
          clientRequested := sent.data
          requestDateTime := now }) := by
  rw [strategy_func]
  exact extract_challenge hu

theorem reads_response (hu : sent.userId ≠ []) :
    cfg.strategy.challengeOrResponseFunc (jsonRequest "response" sent call) now =
      .ok (.clientResponse { userId := .string sent.userId, clientResponsed := sent.data }) := by
  rw [strategy_func]
  exact extract_response hu

end Reads

/-- A call of a challenge request never succeeds, and its errors are no JSON. -/
theorem challenge_verdict {call now : ℕ} {v : Verdict MockUser K Bytes}
    (hc : cfg.strategy.Concludes (jsonRequest "challenge" sent call) now (.settled v)) :
    (∃ challenge, v = .fail challenge 401) ∨ ∃ error, v = .error error ∧ Capital error.message := by
  cases v with
  | success user info =>
    obtain ⟨m, r, ⟨hm, _⟩, _⟩ := hc
    by_cases hu : sent.userId = []
    · cases hm.symm.trans (reads_noUser "challenge" hu)
    · cases hm.symm.trans (reads_challenge hu)
  | fail challenge status =>
    obtain ⟨rfl, _⟩ := hc
    exact Or.inl ⟨challenge, rfl⟩
  | error error =>
    refine Or.inr ⟨error, rfl, ?_⟩
    rcases hc with hm | he
    · by_cases hu : sent.userId = []
      · cases hm.symm.trans (reads_noUser "challenge" hu)
        exact ⟨'T', _, rfl, by decide, by decide⟩
      · cases hm.symm.trans (reads_challenge hu)
    · exact handlerErrors_capital he

/-- A call of a response request by a named user gives no challenge; it fails in one of the
handlers or succeeds for the named user. -/
theorem response_verdict {call now : ℕ} {v : Verdict MockUser K Bytes} (hu : sent.userId ≠ [])
    (hc : cfg.strategy.Concludes (jsonRequest "response" sent call) now (.settled v)) :
    (∃ r, v = .success r.user r.publicKey ∧
        cfg.userFunc (jsonRequest "response" sent call) (.string sent.userId) = some r) ∨
      ∃ error, v = .error error ∧ error ∈ MutualKeyChallengeStrategy.handlerErrors := by
  cases v with
  | success user info =>
    obtain ⟨m, r, ⟨hm, hr⟩, _, rfl, rfl⟩ := hc
    cases hm.symm.trans (reads_response hu)
    exact Or.inl ⟨r, rfl, hr⟩
  | fail challenge status =>
    obtain ⟨_, m, r, ⟨hm, _⟩, _⟩ := hc
    cases hm.symm.trans (reads_response hu)
  | error error =>
    refine Or.inr ⟨error, rfl, ?_⟩
    rcases hc with hm | he
    · cases hm.symm.trans (reads_response hu)
    · exact he

/-- The reply to a challenge moves the run on only when it holds a challenge. -/
theorem onReply_challenge {v : Verdict MockUser K Bytes} {response : HttpResponse}
    (hv : (∃ challenge, v = .fail challenge 401) ∨
      ∃ error, v = .error error ∧ Capital error.message)
    (hr : authenticateRouter cfg.token (.ofVerdict v) = some response) :
    (∃ e, cfg.onReply .challenge args sent response = .hanging args e) ∨
      (∃ e, cfg.onReply .challenge args sent response = .rejected args e) ∨
      ∃ challenge next, v = .fail challenge 401 ∧
        cfg.client.responseMessage args challenge = .ok next ∧
        cfg.onReply .challenge args sent response = .awaiting .response args next none := by
  rcases hv with ⟨challenge, rfl⟩ | ⟨error, rfl, c, text, hm, h1, h2⟩
  · cases hr
    simp only [Deployment.onReply, extract_toJson]
    cases hnext : cfg.client.responseMessage args challenge with
    | error e => exact Or.inr (Or.inl ⟨e, rfl⟩)
    | ok next => exact Or.inr (Or.inr ⟨challenge, next, rfl, hnext, rfl⟩)
  · cases hr
    simp only [Deployment.onReply, extractByBase64Json_text hm h1 h2]
    exact Or.inl ⟨_, rfl⟩

/-! The calls of a run's requests. -/

/-- What has arrived was received by the server. -/
theorem received_of_arrival {leg : Leg} {call now : ℕ} {req : HttpRequest}
    {after : Call UserId MockUser K Bytes}
    (ha : (leg, .authenticate call now req after) ∈ arrivals run h) :
    Received (serverEvents h) call now req := by
  obtain ⟨e, he, hmatch⟩ := List.mem_filterMap.mp ha
  refine ⟨after, List.mem_filterMap.mpr ⟨e, he, ?_⟩⟩
  cases e with
  | arrived run' leg' se =>
    simp only at hmatch
    split at hmatch <;> cases hmatch
    rfl
  | started | received | disconnected | server => cases hmatch

/-- What a settled call came to, for the message that arrived as that call. -/
theorem settled_call {leg : Leg} {call : ℕ} {v : Verdict MockUser K Bytes}
    {a : Leg × ServerEvent HttpRequest UserId MockUser K Bytes S}
    (hx : cfg.session.Execution h w) (ha : a ∈ arrivals run h) (harr : ArrivedAs leg sent call a)
    (hcall : w.server.calls call = some (.settled v)) :
    verdicts call (serverEvents h) = [v] ∧
      ∃ now, cfg.strategy.Concludes (jsonRequest leg.messageField sent call) now (.settled v) := by
  obtain ⟨now, after, rfl⟩ := harr
  have hr := received_of_arrival ha
  have hok := calls_ok (session_server hx) call
  rw [hcall] at hok
  cases hok with
  | known hreq hc hv =>
    obtain ⟨rfl, rfl⟩ := (hreq _ _).mp hr
    exact ⟨hv, now, hc⟩

/-! The invariant, one step at a time. -/

theorem RequestOk.begin {seed : S} (hnone : arrivals run h = []) :
    RequestOk cfg h run (some (cfg.begin args seed)) := by
  unfold Deployment.begin
  split
  · trivial
  · rename_i sent hbegan
    exact ⟨hnone, seed, hbegan⟩

theorem RequestOk.arrive {leg : Leg} {call : ℕ} {after : Call UserId MockUser K Bytes}
    (hok : RequestOk cfg h run (some (.awaiting leg args sent none)))
    (he : e = .arrived run leg
      (.authenticate call w.server.now (jsonRequest leg.messageField sent call) after)) :
    RequestOk cfg (h ++ [e]) run (some (.awaiting leg args sent (some call))) := by
  subst he
  cases leg with
  | challenge =>
    obtain ⟨hnone, hbegan⟩ := hok
    refine ⟨_, ?_, ⟨w.server.now, after, rfl⟩, hbegan⟩
    rw [arrivals_concat, hnone, arrivals_arrived, List.nil_append]
  | response =>
    obtain ⟨a, ha, hans⟩ := hok
    refine ⟨a, _, ?_, hans.grow, ⟨w.server.now, after, rfl⟩⟩
    rw [arrivals_concat, ha, arrivals_arrived, List.singleton_append]

theorem RequestOk.receive {leg : Leg} {call : ℕ} {v : Verdict MockUser K Bytes}
    {response : HttpResponse} (hx : cfg.session.Execution h w)
    (hok : RequestOk cfg h run (some (.awaiting leg args sent (some call))))
    (hcall : w.server.calls call = some (.settled v))
    (hr : authenticateRouter cfg.token (.ofVerdict v) = some response) :
    RequestOk cfg h run (some (cfg.onReply leg args sent response)) := by
  cases leg with
  | challenge =>
    obtain ⟨a, ha, harr, seed, hbegan⟩ := hok
    obtain ⟨hv, now, hc⟩ := settled_call hx (ha ▸ List.mem_singleton_self a) harr hcall
    rcases onReply_challenge (challenge_verdict hc) hr with
      ⟨e, he⟩ | ⟨e, he⟩ | ⟨challenge, next, rfl, hnext, he⟩
    · rw [he]
      trivial
    · rw [he]
      trivial
    · rw [he]
      have hfail : .fail challenge 401 ∈ verdicts call (serverEvents h) := by simp [hv]
      exact ⟨a, ha, seed, sent, call, challenge, 401, hbegan, harr, hfail, hnext⟩
  | response =>
    obtain ⟨a, b, hab, hans, harr⟩ := hok
    obtain ⟨hv, _⟩ := settled_call hx (hab ▸ by simp : b ∈ arrivals run h) harr hcall
    exact ⟨a, b, call, v, hab, hans, harr, by simp [hv], hr⟩

/-- Every run is where its requests and their verdicts have brought it. -/
theorem requests_ok (hx : cfg.session.Execution h w) :
    ∀ run, RequestOk cfg h run (w.requests run) := by
  apply Machine.Execution.invariant (P := fun h (w : State K) =>
    ∀ run, RequestOk cfg h run (w.requests run)) ?_ ?_ hx
  · intro run
    rfl
  intro h w e w' hx ih hstep run
  cases step_inv hstep with
  | @started run' args seed hfree =>
    by_cases hrun : run = run'
    · subst hrun
      have hnone := ih run
      rw [hfree] at hnone
      simp only [Function.update_self]
      exact (RequestOk.begin hnone).grow rfl
    · simp only [Function.update_of_ne hrun]
      exact (ih run).grow rfl
  | @arrived run' leg args sent call after server hwaits hs =>
    by_cases hrun : run = run'
    · subst hrun
      have hok := ih run
      rw [hwaits] at hok
      simp only [Function.update_self]
      exact hok.arrive rfl
    · simp only [Function.update_of_ne hrun]
      exact (ih run).grow (by simp [arrivals, Ne.symm hrun])
  | @received run' leg args sent call v response hwaits hcall hreply =>
    by_cases hrun : run = run'
    · subst hrun
      have hok := ih run
      rw [hwaits] at hok
      simp only [Function.update_self]
      exact (hok.receive hx hcall hreply).grow rfl
    · simp only [Function.update_of_ne hrun]
      exact (ih run).grow rfl
  | @disconnected run' leg args sent call e hwaits =>
    by_cases hrun : run = run'
    · subst hrun
      simp only [Function.update_self]
      trivial
    · simp only [Function.update_of_ne hrun]
      exact (ih run).grow rfl
  | server hs => exact (ih run).grow rfl

/-- Where the first request of a run was answered with a challenge, its user has a name. -/
theorem Answered.named {a : Leg × ServerEvent HttpRequest UserId MockUser K Bytes S}
    (hx : cfg.session.Execution h w) (ha : a ∈ arrivals run h) (hans : Answered cfg h args sent a) :
    sent.userId = args.userId ∧ args.userId ≠ [] := by
  obtain ⟨seed, first, call, challenge, status, hbegan, harr, hv, hsent⟩ := hans
  have hfirst := HandshakeClient.challengeMessage_userId hbegan
  refine ⟨HandshakeClient.responseMessage_userId hsent, ?_⟩
  intro hu
  obtain ⟨_, now, _, m, r, ⟨hm, _⟩, _⟩ :=
    settled_call hx ha harr (settled_of_verdict (session_server hx) hv)
  cases hm.symm.trans (reads_noUser "challenge" (hfirst.trans hu))

/-! Who started a run, and with what it sent its two requests. -/

/-- The run was started with these arguments and drew this nonce. -/
def StartedWith (h : List (Event K S)) (run : ℕ) (args : HandshakeRun (List Char) K Bytes) :
    Prop :=
  ∃ after, Event.started run args after ∈ h

theorem begin_args (seed : S) : (cfg.begin args seed).args = args := by
  unfold Deployment.begin
  split <;> rfl

theorem onReply_args (leg : Leg) (response : HttpResponse) :
    (cfg.onReply leg args sent response).args = args := by
  cases leg with
  | response => rfl
  | challenge =>
    simp only [Deployment.onReply]
    split
    · rfl
    · split <;> rfl

theorem startedWith_concat : StartedWith (h ++ [e]) run args ↔
    StartedWith h run args ∨ ∃ after, e = .started run args after := by
  simp only [StartedWith, List.mem_append, List.mem_singleton, exists_or, eq_comm]

theorem StartedWith.append {more : List (Event K S)} (hs : StartedWith h run args) :
    StartedWith (h ++ more) run args := by
  obtain ⟨after, ha⟩ := hs
  exact ⟨after, List.mem_append.mpr (Or.inl ha)⟩

/-- A run keeps the arguments it was started with. -/
theorem startedWith_iff (hx : cfg.session.Execution h w) :
    ∀ run args, StartedWith h run args ↔ (w.requests run).map RequestState.args = some args := by
  apply Machine.Execution.invariant (P := fun h (w : State K) => ∀ run args,
    StartedWith h run args ↔ (w.requests run).map RequestState.args = some args) ?_ ?_ hx
  · intro run args
    refine iff_of_false ?_ (by simp [Deployment.session])
    rintro ⟨after, ha⟩
    cases ha
  · intro h w e w' _ ih hstep run args
    -- no other event starts a run, and no other step changes the arguments of one
    have hkept : ∀ (run' : ℕ) (st st' : RequestState K), w.requests run' = some st →
        st'.args = st.args →
        (Function.update w.requests run' (some st') run).map RequestState.args =
          (w.requests run).map RequestState.args := by
      intro run' st st' hst hargs
      by_cases hrun : run = run'
      · subst hrun
        simp [hst, hargs]
      · simp [hrun]
    rw [startedWith_concat, ih]
    cases step_inv hstep with
    | @started run' args' seed hfree =>
      by_cases hrun : run = run'
      · subst hrun
        simp only [hfree, Function.update_self, Option.map_some, begin_args, Event.started.injEq]
        simp
      · simp [hrun, Ne.symm hrun]
    | arrived hrun hs =>
      simp only [reduceCtorEq, exists_false, or_false]
      rw [hkept _ _ _ hrun (by rfl)]
    | @received _ leg args' sent _ _ response hrun =>
      have hargs : (cfg.onReply leg args' sent response).args = args' := onReply_args leg response
      simp only [reduceCtorEq, exists_false, or_false]
      rw [hkept _ _ _ hrun hargs]
    | disconnected hrun =>
      simp only [reduceCtorEq, exists_false, or_false]
      rw [hkept _ _ _ hrun (by rfl)]
    | server hs => simp

/-- What the requests that a run has sent say about it. -/
def ArrivalsOk (cfg : Deployment K S) (h : List (Event K S)) (run : ℕ) :
    List (Leg × ServerEvent HttpRequest UserId MockUser K Bytes S) → Prop
  | [] => True
  | [a] => ∃ sent call, ArrivedAs .challenge sent call a
  | [a, b] =>
    ∃ args sent call, StartedWith h run args ∧ Answered cfg h args sent a ∧
      ArrivedAs .response sent call b
  | _ => False

theorem ArrivalsOk.grow {l : List (Leg × ServerEvent HttpRequest UserId MockUser K Bytes S)}
    (hok : ArrivalsOk cfg h run l) : ArrivalsOk cfg (h ++ [e]) run l := by
  rcases l with _ | ⟨a, _ | ⟨b, _ | ⟨c, l⟩⟩⟩
  · trivial
  · obtain ⟨sent, call, ha⟩ := hok
    exact ⟨sent, call, ha⟩
  · obtain ⟨args, sent, call, hstarted, hans, hb⟩ := hok
    exact ⟨args, sent, call, hstarted.append, hans.grow, hb⟩
  · exact hok.elim

/-- A run sends a challenge, then the response to the challenge that it was answered with, and
nothing else. -/
theorem arrivals_ok (hx : cfg.session.Execution h w) :
    ∀ run, ArrivalsOk cfg h run (arrivals run h) := by
  apply Machine.Execution.invariant (P := fun h (_ : State K) =>
    ∀ run, ArrivalsOk cfg h run (arrivals run h)) ?_ ?_ hx
  · intro run
    trivial
  · intro h w e w' hx ih hstep run
    rw [arrivals_concat]
    have hother : arrivals run [e] = [] →
        ArrivalsOk cfg (h ++ [e]) run (arrivals run h ++ arrivals run [e]) := by
      intro hnone
      rw [hnone, List.append_nil]
      exact (ih run).grow
    cases step_inv hstep with
    | @arrived run' leg args sent call after server hwaits hs =>
      by_cases hrun : run' = run
      · subst hrun
        have hok := requests_ok hx run'
        rw [hwaits] at hok
        cases leg with
        | challenge =>
          obtain ⟨hnone, _⟩ := hok
          rw [hnone, arrivals_arrived]
          exact ⟨sent, call, w.server.now, after, rfl⟩
        | response =>
          obtain ⟨a, ha, hans⟩ := hok
          have hargs : StartedWith h run' args := by
            rw [startedWith_iff hx, hwaits]
            rfl
          rw [ha, arrivals_arrived]
          exact ⟨args, sent, call, hargs.append, hans.grow,
            w.server.now, after, rfl⟩
      · exact hother (by simp [arrivals, hrun])
    | started | received | disconnected | server => exact hother rfl

end MutualKeyChallenge.Session
