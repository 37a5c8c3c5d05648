import MutualKeyChallenge.Server.Handshake
import MutualKeyChallenge.Server.Isolation
import MutualKeyChallenge.Session.Concurrent

/-! One honest handshake from its first request to its last, with any traffic of other users. -/
namespace MutualKeyChallenge.Session
open Transition
variable {K S : Type}

/-- Every nonce that the server draws fits the key. -/
def Deployment.NoncesFit (cfg : Deployment K S) (key : K) : Prop :=
  ∀ random seed, ∃ c, cfg.crypto.publicEncrypt (cfg.strategy.verifier.encryptOptions key) seed
    (cfg.strategy.verifier.getNonce random) = .ok c

/-- The run's challenge request arrives at `arrived` and becomes the call `first`. Until then no
challenge was stored for its user. From then on only the run's own calls are for its user, and
whoever is asked for the server's key gives the one that the client was given. -/
inductive HonestRun (cfg : Deployment K S) (run : ℕ) (args : HandshakeRun (List Char) K Bytes)
    (first arrived : ℕ) (h : List (Event K S)) (w : State K) : Prop
  | mk {before after w₀ w₁ sent call} (hx : cfg.session.Execution before w₀)
      (hwaits : w₀.requests run = some (.awaiting .challenge args sent none))
      (harrive : cfg.session.Step w₀ (.arrived run .challenge
        (.authenticate first arrived (jsonRequest "challenge" sent first) call)) w₁)
      (hr : cfg.session.Run w₁ after w)
      (hh : h = before ++ [.arrived run .challenge
        (.authenticate first arrived (jsonRequest "challenge" sent first) call)] ++ after)
      (hfresh : ∀ e ∈ serverEvents before, e.replaces ≠ some (.string args.userId))
      (halone : ∀ e ∈ serverEvents after, e.user cfg.strategy = some (.string args.userId) →
        e.callId = none ∨ e.callId ∈ (arrivals run h).map fun a => a.2.callId)
      (hserved : ∀ id now hd i call, .resume id now hd i call ∈ serverEvents after →
        cfg.strategy.verifier.serverKey i.returnedKey = args.serverKey)

/-- The call never rejects, and can be resumed until it has its verdict, at most seven times. -/
def Proceeds (cfg : Deployment K S) (h : List (Event K S)) (w : State K) (call : ℕ) : Prop :=
  (∀ e, w.server.calls call ≠ some (.rejected e)) ∧ resumptions call (serverEvents h) ≤ 7 ∧
    (verdicts call (serverEvents h) = [] →
      ∀ i, ∃ t, cfg.session.step w (.server (.resume call i)) = some t)

/-- The verdict on the run's challenge is a challenge. The router sends it, and the client's checks
of the reply lead it on to its response. -/
def ChallengeAnswered (cfg : Deployment K S) (args : HandshakeRun (List Char) K Bytes)
    (first : ℕ) (h : List (Event K S)) : Prop :=
  ∀ v ∈ verdicts first (serverEvents h), ∃ challenge response next,
    v = .fail challenge 401 ∧ authenticateRouter cfg.token (.ofVerdict v) = some response ∧
      ∀ sent, cfg.onReply .challenge args sent response = .awaiting .response args next none

/-- The run's response `sent` has arrived as `call`. -/
def ResponseArrived (run : ℕ) (h : List (Event K S))
    (sent : ClientSignedMessage (List Char) Bytes) (call : ℕ) : Prop :=
  ∃ b ∈ arrivals run h, ArrivedAs .response sent call b

/-- The next step, from `w` to `w'`, gives the verdict on the run's response. -/
def ResponseHandled (cfg : Deployment K S) (run : ℕ) (h : List (Event K S)) (w : State K)
    (sent : ClientSignedMessage (List Char) Bytes) (call : ℕ) (v : Verdict MockUser K Bytes)
    (w' : State K) : Prop :=
  ∃ e, cfg.session.Step w e w' ∧ ResponseArrived run (h ++ [e]) sent call ∧
    v ∈ verdicts call (serverEvents [e])

/-- The verdict is a success for the record that `userFunc` gave, and the cache has nothing left of
the user. -/
def ResponseAccepted (cfg : Deployment K S) (args : HandshakeRun (List Char) K Bytes)
    (sent : ClientSignedMessage (List Char) Bytes) (call : ℕ) (v : Verdict MockUser K Bytes)
    (w' : State K) : Prop :=
  (∃ r, cfg.userFunc (jsonRequest "response" sent call) (.string args.userId) = some r ∧
      v = .success r.user r.publicKey) ∧
    w'.server.cache.Forgotten (.string args.userId)

/-- Every honest handshake completes whose response is handled within `ttlMs` of the arrival of its
challenge. -/
def HonestHandshakesComplete (cfg : Deployment K S) : Prop :=
  cfg.crypto.RoundTrips → cfg.OptionsAgree → ∀ run args first arrived h w,
    args.userId ≠ [] → cfg.Knows args.userId args.clientKey → cfg.NoncesFit args.clientKey →
    HonestRun cfg run args first arrived h w →
    (Proceeds cfg h w first ∧ ChallengeAnswered cfg args first h) ∧
      (∀ sent call, ResponseArrived run h sent call → Proceeds cfg h w call) ∧
      ∀ sent call v w', ResponseHandled cfg run h w sent call v w' →
        w.server.now < arrived + cfg.ttlMs → ResponseAccepted cfg args sent call v w'

variable {cfg : Deployment K S} {h : List (Event K S)} {w w' : State K} {run first arrived call : ℕ}
  {args : HandshakeRun (List Char) K Bytes} {sent : ClientSignedMessage (List Char) Bytes}
  {e : Event K S} {se : ServerEvent HttpRequest UserId MockUser K Bytes S}

/-! The client and the server on each other's messages. -/

section Messages
variable {r : UserKeyRecord MockUser K} {seed : S} {n : Bytes} {challenge : ServerChallenge Bytes}

/-- What the client sends first is a genuine challenge. -/
theorem challengeMessage_genuine (hcrypto : cfg.crypto.RoundTrips) (hopts : cfg.OptionsAgree)
    (hfit : cfg.NoncesFit args.clientKey) (hkey : r.publicKey = args.clientKey)
    (hsent : cfg.client.challengeMessage args seed = .ok sent) (now : ℕ) :
    Genuine cfg.strategy ⟨.string sent.userId, sent.data, now⟩ r args.serverKey args.nonce := by
  constructor
  · unfold HandshakeClient.challengeMessage at hsent
    split at hsent
    · cases hsent
    · rename_i message hmessage
      cases hsent
      have hdec : cfg.strategy.verifier.crypto.privateDecrypt
          (cfg.strategy.verifier.encryptOptions args.serverKey) message = .ok args.nonce := by
        rw [← messageOpts_eq hopts]
        exact hcrypto.decrypt_encrypt _ _ _ _ hmessage
      have hverify : cfg.strategy.verifier.crypto.verify
          cfg.strategy.verifier.options.hashAlgorithm args.nonce
          (cfg.strategy.verifier.verifyOptions args.clientKey)
          (cfg.client.crypto.sign cfg.client.cryptOpt.hashAlgorithm args.nonce
            (cfg.client.signVerifyOpts args.clientKey)) = true := by
        rw [signVerifyOpts_eq hopts, hashAlgorithm_eq hopts]
        exact hcrypto.verify_sign _ _ _
      simp only [MessageVerifier.decryptAndVerify, hdec, hkey, hverify, if_true]
  · intro random seed
    obtain ⟨c, hc⟩ := hfit random seed
    rw [← hkey] at hc
    have hcrypt : cfg.strategy.verifier.crypto.publicEncrypt
        (cfg.strategy.verifier.encryptOptions r.publicKey) seed
        (cfg.strategy.verifier.getNonce random) = .ok c := hc
    simp only [MessageVerifier.encryptAndSign, hcrypt]
    exact ⟨_, rfl⟩

/-- The reply to a genuine challenge passes both checks. -/
theorem reply_passes (hcrypto : cfg.crypto.RoundTrips) (hopts : cfg.OptionsAgree)
    (hkey : r.publicKey = args.clientKey)
    (hreply : RepliesWith cfg.strategy r args.serverKey args.nonce n challenge) :
    ∃ next, cfg.client.responseMessage args challenge = .ok next := by
  obtain ⟨hfirst, seed, henc⟩ := hreply
  have hdec : cfg.client.crypto.privateDecrypt (cfg.client.messageOpts args.clientKey)
      challenge.serverRequested.message = .ok n := by
    rw [messageOpts_eq hopts, ← hkey]
    exact hcrypto.decrypt_encrypt _ _ _ _ (MessageVerifier.encryptAndSign_ok henc)
  have hverify : ∀ data, cfg.client.crypto.verify cfg.client.cryptOpt.hashAlgorithm data
      (cfg.client.signVerifyOpts args.serverKey)
      (cfg.strategy.verifier.crypto.sign cfg.strategy.verifier.options.hashAlgorithm data
        (cfg.strategy.verifier.signOptions args.serverKey)) = true := by
    intro data
    rw [signVerifyOpts_eq hopts, hashAlgorithm_eq hopts]
    exact hcrypto.verify_sign _ _ _
  have hsignature := MessageVerifier.encryptAndSign_signature henc
  simp [HandshakeClient.responseMessage, hfirst, MessageVerifier.sign, hdec, hsignature, hverify]

end Messages

/-! The events of an honest run. -/

/-- A step that shows the server something is a step of the server. -/
theorem server_step_of_mem (hstep : cfg.session.Step w e w') (hse : se ∈ serverEvents [e]) :
    serverEvents [e] = [se] ∧ ServerStep cfg.strategy w.server se w'.server := by
  cases step_inv hstep with
  | arrived hrun hs | server hs =>
    obtain rfl := List.mem_singleton.mp hse
    exact ⟨rfl, hs⟩
  | started | received | disconnected => cases hse

theorem serverEvents_append {h' : List (Event K S)} :
    serverEvents (h ++ h') = serverEvents h ++ serverEvents h' := List.filterMap_append

/-- A run's requests are the challenge that is known to have arrived and, after it, a response. -/
theorem own_arrivals {req : HttpRequest} {after : Call UserId MockUser K Bytes}
    {a : Leg × ServerEvent HttpRequest UserId MockUser K Bytes S}
    (hx : cfg.session.Execution h w) (hstarted : StartedWith h run args)
    (hfirst : (.challenge, .authenticate first arrived req after) ∈ arrivals run h)
    (ha : a ∈ arrivals run h) : a = (.challenge, .authenticate first arrived req after) ∨
      ∃ sent call, ArrivedAs .response sent call a ∧ sent.userId = args.userId := by
  have hok := arrivals_ok hx run
  have hnamed : ∀ {args sent a}, a ∈ arrivals run h → Answered cfg h args sent a →
      sent.userId = args.userId := fun ha hans => (hans.named hx ha).1
  generalize harr : arrivals run h = l at *
  rcases l with _ | ⟨a', _ | ⟨b, _ | ⟨c, l⟩⟩⟩
  · cases hfirst
  · rw [List.mem_singleton] at hfirst ha
    exact Or.inl (ha.trans hfirst.symm)
  · obtain ⟨args', sent', call', hstarted', hans, hb⟩ := hok
    obtain rfl := startedWith_unique hx hstarted hstarted'
    have hname := hnamed List.mem_cons_self hans
    obtain ⟨now', after', rfl⟩ := id hb
    rcases List.mem_pair.mp hfirst with rfl | heq
    · rcases List.mem_pair.mp ha with rfl | rfl
      · exact Or.inl rfl
      · exact Or.inr ⟨sent', call', hb, hname⟩
    · cases heq
  · exact hok.elim

/-- The call of a response is never one of a challenge. -/
theorem response_follows {hd : Handler UserId MockUser K Bytes} {now id : ℕ} {i : Inputs K S}
    {after : Call UserId MockUser K Bytes} (hx : cfg.session.Execution h w)
    (harr : ResponseArrived run h sent id) (hnamed : sent.userId ≠ [])
    (he : .resume id now hd i after ∈ serverEvents h) :
    ∃ arrived, cfg.strategy.Follows (jsonRequest "response" sent id) arrived hd ∧
      cfg.strategy.challengeOrResponseFunc (jsonRequest "response" sent id) arrived =
        .ok (.clientResponse ⟨.string sent.userId, sent.data⟩) := by
  obtain ⟨b, hb, arrived, after, rfl⟩ := harr
  obtain ⟨_, _, hreceived, hfollows⟩ := resumed_follows (session_server hx) he
  obtain ⟨rfl, rfl⟩ := received_unique (session_server hx) (received_of_arrival hb) hreceived
  exact ⟨_, hfollows, reads_response hnamed⟩

section Run
variable {before after : List (Event K S)} {w₀ w₁ : State K}
  {sent₀ : ClientSignedMessage (List Char) Bytes} {c : Call UserId MockUser K Bytes}

/-- Of the events that only the run's own calls may have, those that store a challenge are of its
first call, and those that take one are of a call that is over. -/
theorem own_events (hx : cfg.session.Execution h w) (hstarted : StartedWith h run args)
    (hfirst : (.challenge, .authenticate first arrived (jsonRequest "challenge" sent₀ first) c) ∈
      arrivals run h)
    (hid : sent₀.userId = args.userId) (hnamed : args.userId ≠ [])
    (hmem : se ∈ serverEvents h)
    (halone : se.user cfg.strategy = some (.string args.userId) →
      se.callId = none ∨ se.callId ∈ (arrivals run h).map fun a => a.2.callId) :
    (se.replaces = some (.string args.userId) → se.callId = some first) ∧
      (se.spends = some (.string args.userId) → ∃ sent call v, ResponseArrived run h sent call ∧
        w.server.calls call = some (.settled v)) := by
  have hown : ∀ {call now hd i after}, se = .resume call now hd i after →
      se.user cfg.strategy = some (.string args.userId) →
      call = first ∨ ∃ sent, ResponseArrived run h sent call ∧ sent.userId ≠ [] := by
    rintro call now hd i after rfl huser
    rcases halone huser with hnone | hown
    · cases hnone
    · obtain ⟨a, ha, hcall⟩ := List.mem_map.mp hown
      rcases own_arrivals hx hstarted hfirst ha with rfl | ⟨sent, call', harr, hsent⟩
      · exact Or.inl (Option.some.inj hcall).symm
      · obtain ⟨now', after', rfl⟩ := id harr
        obtain rfl := Option.some.inj hcall
        exact Or.inr ⟨sent, ⟨_, ha, harr⟩, hsent ▸ hnamed⟩
  constructor
  · intro hrep
    cases se with
    | resume call now hd i after =>
      cases hd with
      | challengeEncrypted m r dm n nm =>
        rcases hown rfl hrep with rfl | ⟨sent, harr, hsent⟩
        · rfl
        · obtain ⟨_, ⟨⟨hm, _⟩, _⟩, hread⟩ := response_follows hx harr hsent hmem
          cases hm.symm.trans hread
      | _ => cases hrep
    | authenticate | timer | tick => cases hrep
  · intro hspends
    cases se with
    | resume call now hd i after =>
      cases hd with
      | responseVerified m r verified =>
        cases verified with
        | false => cases hspends
        | true =>
          rcases hown rfl hspends with rfl | ⟨sent, harr, hsent⟩
          · obtain ⟨_, _, hreceived, hfollows⟩ := resumed_follows (session_server hx) hmem
            obtain ⟨rfl, rfl⟩ :=
              received_unique (session_server hx) (received_of_arrival hfirst) hreceived
            cases hfollows.1.1.symm.trans (reads_challenge (hid ▸ hnamed))
          · obtain ⟨v, hv⟩ := spends_settled (session_server hx) hmem
            exact ⟨sent, call, v, harr, hv⟩
      | _ => cases hspends
    | authenticate | timer | tick => cases hspends

end Run

/-- What is known of an honest run: `message` was its challenge, for the record `r`, and `es` are
the events since. -/
structure Tracked (cfg : Deployment K S) (run : ℕ) (args : HandshakeRun (List Char) K Bytes)
    (first arrived : ℕ) (h : List (Event K S)) (w : State K)
    (es : List (ServerEvent HttpRequest UserId MockUser K Bytes S))
    (message : ClientSignedMessage (List Char) Bytes) (r : UserKeyRecord MockUser K) : Prop where
  execution : cfg.session.Execution h w
  started : StartedWith h run args
  userId : message.userId = args.userId
  arrival : ∃ c, (.challenge, .authenticate first arrived (jsonRequest "challenge" message first) c)
    ∈ arrivals run h
  clock : arrived ≤ w.server.now
  publicKey : r.publicKey = args.clientKey
  stage : Stage cfg.strategy cfg.ttlMs ⟨.string args.userId, message.data, arrived⟩ r
    args.serverKey args.nonce first es w.server
  spends : ∀ e ∈ es, e.spends = some (.string args.userId) →
    ∃ sent call v, ResponseArrived run h sent call ∧ w.server.calls call = some (.settled v)
  fires : (∀ e ∈ serverEvents h, e.fires ≠ some (.string args.userId)) ↔
    ∀ e ∈ es, e.fires ≠ some (.string args.userId)

theorem HonestRun.tracked (hcrypto : cfg.crypto.RoundTrips) (hopts : cfg.OptionsAgree)
    (hnamed : args.userId ≠ []) (hknows : cfg.Knows args.userId args.clientKey)
    (hfit : cfg.NoncesFit args.clientKey) (hrun : HonestRun cfg run args first arrived h w) :
    ∃ es message r, Tracked cfg run args first arrived h w es message r := by
  obtain ⟨hx₀, hwaits, harrive, hr, hh, hfresh, halone, hserved⟩ := hrun
  rename_i before after w₀ w₁ message c
  obtain ⟨r, huser, hkey⟩ := hknows (jsonRequest "challenge" message first)
  have hsent := requests_ok hx₀ run
  rw [hwaits] at hsent
  obtain ⟨hnone, seed, hsent⟩ := hsent
  have hid := HandshakeClient.challengeMessage_userId hsent
  have hx : cfg.session.Execution h w := hh ▸ (hx₀.snoc harrive).run hr
  have hstarted : StartedWith h run args := by
    have hbefore : StartedWith before run args := by
      rw [startedWith_iff hx₀, hwaits]
      rfl
    rw [hh]
    exact hbefore.append.append
  have harrival : (.challenge, .authenticate first arrived
      (jsonRequest "challenge" message first) c) ∈ arrivals run h := by
    rw [hh, mem_arrivals_append, mem_arrivals_append, arrivals_arrived]
    exact Or.inl (Or.inr (List.mem_singleton_self _))
  obtain ⟨_, hs⟩ := server_step_of_mem harrive (List.mem_singleton_self _)
  obtain rfl : arrived = w₀.server.now := by
    generalize w₁.server = v at hs
    cases hs
    rfl
  have hevents : serverEvents h = serverEvents before ++ [.authenticate first w₀.server.now
      (jsonRequest "challenge" message first) c] ++ serverEvents after := by
    rw [hh, serverEvents_append, serverEvents_append]
    rfl
  have hown : ∀ e ∈ serverEvents after, _ := fun e he => own_events hx hstarted harrival hid hnamed
    (hevents ▸ List.mem_append_right _ he) (halone e he)
  have hread : cfg.strategy.challengeOrResponseFunc (jsonRequest "challenge" message first)
      w₀.server.now = .ok (.clientChallenge
        ⟨.string message.userId, message.data, w₀.server.now⟩) := reads_challenge (hid ▸ hnamed)
  have hgenuine := challengeMessage_genuine hcrypto hopts hfit hkey hsent w₀.server.now
  rw [hid] at hread hgenuine
  have hrun' := (serverView cfg).run hr
  refine ⟨serverEvents after, message, r, hx, hstarted, hid, ⟨c, harrival⟩, ?_, hkey, ?_, ?_, ?_⟩
  · exact Nat.le_trans (server_step_now hs) (server_run_now hrun')
  · exact stage_run hgenuine (session_server hx₀) hfresh hread rfl huser hs hrun'
      (fun e he => (hown e he).1) hserved
  · exact fun e he => (hown e he).2
  · have hbefore := fresh_not_fires (session_server hx₀) hfresh
    simp only [hevents, List.mem_append, List.mem_singleton]
    constructor
    · intro hall e he
      exact hall e (Or.inr he)
    · rintro hall e ((he | rfl) | he)
      · exact hbefore e he
      · exact nofun
      · exact hall e he

/-! What becomes of an honest run. -/

section Outcome
variable {es : List (ServerEvent HttpRequest UserId MockUser K Bytes S)}
  {message : ClientSignedMessage (List Char) Bytes} {r : UserKeyRecord MockUser K}

theorem proceeds_of_not_rejected {req : HttpRequest} (hx : cfg.session.Execution h w)
    (hreceived : Received (serverEvents h) call arrived req)
    (hno : ∀ e, w.server.calls call ≠ some (.rejected e)) : Proceeds cfg h w call := by
  refine ⟨hno, ?_⟩
  have hok := calls_ok (session_server hx) call
  generalize hcall : w.server.calls call = now at hok
  cases hok with
  | unknown hreq => exact (hreq _ _ hreceived).elim
  | @known _ _ c _ _ hv hr =>
    refine ⟨by omega, ?_⟩
    intro hnone i
    cases c with
    | suspended handler =>
      simp only [Deployment.session, Deployment.step, Server.step, hcall]
      exact ⟨_, rfl⟩
    | settled v =>
      rw [hv] at hnone
      cases hnone
    | rejected e => exact (hno e hcall).elim

theorem Tracked.first_proceeds (ht : Tracked cfg run args first arrived h w es message r) :
    Proceeds cfg h w first := by
  obtain ⟨c, harrival⟩ := ht.arrival
  refine proceeds_of_not_rejected ht.execution (received_of_arrival harrival) ?_
  intro e he
  cases ht.stage with
  | asked hcall | issued hcall =>
    rw [hcall] at he
    cases he

theorem Tracked.first_answered (hcrypto : cfg.crypto.RoundTrips) (hopts : cfg.OptionsAgree)
    (ht : Tracked cfg run args first arrived h w es message r) :
    ChallengeAnswered cfg args first h := by
  intro v hv
  have hsettled := settled_of_verdict (session_server ht.execution) hv
  cases ht.stage with
  | asked hcall =>
    rw [hcall] at hsettled
    cases hsettled
  | @issued n challenge hcall hreply =>
    rw [hcall] at hsettled
    cases hsettled
    obtain ⟨next, hnext⟩ := reply_passes hcrypto hopts ht.publicKey hreply
    refine ⟨challenge, _, next, rfl, rfl, ?_⟩
    intro sent
    simp only [Deployment.onReply, extract_toJson, hnext]

/-- The response of a run is for the run's user. -/
theorem response_userId {req : HttpRequest} {c : Call UserId MockUser K Bytes}
    (hx : cfg.session.Execution h w) (hstarted : StartedWith h run args)
    (hfirst : (.challenge, .authenticate first arrived req c) ∈ arrivals run h)
    (harr : ResponseArrived run h sent call) : sent.userId = args.userId := by
  obtain ⟨b, hb, hcall⟩ := harr
  obtain ⟨_, _, _, _, _, hsent⟩ := responds_to_challenge hx hstarted hfirst hb hcall
  exact HandshakeClient.responseMessage_userId hsent

theorem response_call_unique {sent' : ClientSignedMessage (List Char) Bytes} {call' : ℕ}
    (hx : cfg.session.Execution h w) (harr : ResponseArrived run h sent call)
    (harr' : ResponseArrived run h sent' call') : call' = call := by
  obtain ⟨b, hb, _, _, rfl⟩ := harr
  obtain ⟨b', hb', _, _, rfl⟩ := harr'
  have hok := arrivals_ok hx run
  generalize arrivals run h = l at *
  rcases l with _ | ⟨a, _ | ⟨b, _ | ⟨c, l⟩⟩⟩
  · cases hb
  · obtain ⟨_, _, _, _, rfl⟩ := hok
    cases List.mem_singleton.mp hb
  · obtain ⟨_, _, _, _, ⟨_, _, _, _, _, _, ⟨_, _, rfl⟩, _⟩, _⟩ := hok
    rcases List.mem_pair.mp hb with heq | rfl
    · cases heq
    · rcases List.mem_pair.mp hb' with heq | heq
      · cases heq
      · exact (ServerEvent.authenticate.inj (Prod.mk.inj heq).2).1
  · exact hok.elim

theorem Tracked.response_proceeds (hnamed : args.userId ≠ [])
    (ht : Tracked cfg run args first arrived h w es message r)
    (harr : ResponseArrived run h sent call) : Proceeds cfg h w call := by
  obtain ⟨c, harrival⟩ := ht.arrival
  have hid := response_userId ht.execution ht.started harrival harr
  obtain ⟨b, hb, now, after, rfl⟩ := harr
  have hreceived := received_of_arrival hb
  refine proceeds_of_not_rejected ht.execution hreceived ?_
  intro e he
  have hread : cfg.strategy.challengeOrResponseFunc (jsonRequest "response" sent call) now =
      .ok (.clientResponse ⟨.string sent.userId, sent.data⟩) := reads_response (hid ▸ hnamed)
  rcases concludes_of_received (session_server ht.execution) hreceived he with
    ⟨e', hthrown⟩ | ⟨m, _, ⟨hm, _⟩, _⟩
  · cases hthrown.symm.trans hread
  · cases hm.symm.trans hread

/-- The step in which the response gets its verdict. -/
theorem Tracked.handled_step {v : Verdict MockUser K Bytes} (hnamed : args.userId ≠ [])
    (ht : Tracked cfg run args first arrived h w es message r)
    (hhandled : ResponseHandled cfg run h w sent call v w') :
    ResponseArrived run h sent call ∧ ∃ hd i, ServerStep cfg.strategy w.server
      (.resume call w.server.now hd i (.settled v)) w'.server := by
  obtain ⟨e, hstep, harr, hv⟩ := hhandled
  obtain ⟨se, hse, hv⟩ := List.mem_filterMap.mp hv
  obtain ⟨hevents, hs⟩ := server_step_of_mem hstep hse
  obtain ⟨c, harrival⟩ := ht.arrival
  have hid := response_userId (ht.execution.snoc hstep) ht.started.append
    (mem_arrivals_append.mpr (Or.inl harrival)) harr
  have hreceived : ∃ now, Received (serverEvents h ++ [se]) call now
      (jsonRequest "response" sent call) := by
    obtain ⟨b, hb, now, after, rfl⟩ := id harr
    exact ⟨now, hevents ▸ serverEvents_append ▸ received_of_arrival hb⟩
  obtain ⟨now, hreceived⟩ := hreceived
  obtain ⟨hd, i, rfl⟩ := response_resumed (session_server ht.execution) hs hreceived
    (reads_response (hid ▸ hnamed)) hv
  refine ⟨?_, hd, i, hs⟩
  obtain ⟨b, hb, hcall⟩ := harr
  rcases mem_arrivals_append.mp hb with hb | hb
  · exact ⟨b, hb, hcall⟩
  · cases step_inv hstep with
    | arrived => cases hevents
    | started | received | disconnected | server => cases hb

/-- A response that is handled in time is accepted exactly when no timer has run for its user. -/
theorem Tracked.accepted_iff {v : Verdict MockUser K Bytes} (hcrypto : cfg.crypto.RoundTrips)
    (hopts : cfg.OptionsAgree) (hnamed : args.userId ≠ [])
    (hknows : cfg.Knows args.userId args.clientKey)
    (ht : Tracked cfg run args first arrived h w es message r)
    (hhandled : ResponseHandled cfg run h w sent call v w')
    (hnow : w.server.now < arrived + cfg.ttlMs) :
    ResponseAccepted cfg args sent call v w' ↔ cfg.ttlMs ≤ maxDelay ∨
      ∀ e ∈ serverEvents h, e.fires ≠ some (.string args.userId) := by
  obtain ⟨harr, hd, i, hs⟩ := ht.handled_step hnamed hhandled
  obtain ⟨c, harrival⟩ := ht.arrival
  have hx := session_server ht.execution
  have hid := response_userId ht.execution ht.started harrival harr
  -- the client answered the challenge that is kept
  obtain ⟨b, hb, hcall⟩ := id harr
  obtain ⟨_, _, challenge, status, hgiven, hsent⟩ :=
    responds_to_challenge ht.execution ht.started harrival hb hcall
  have hsettled := settled_of_verdict hx hgiven
  cases ht.stage with
  | asked hasked =>
    rw [hasked] at hsettled
    cases hsettled
  | @issued n challenge hissued hreply hk =>
    rw [hissued] at hsettled
    cases hsettled
    obtain ⟨_, seed, henc⟩ := hreply
    rw [ht.publicKey] at henc
    obtain ⟨rfl, hverify⟩ := nonce_returned hcrypto hopts hsent henc
    -- the call that answers it
    obtain ⟨now, after, rfl⟩ := hcall
    have hreceived := received_of_arrival hb
    obtain ⟨r', huser, hkey⟩ := hknows (jsonRequest "response" sent call)
    have hresponds : cfg.strategy.Responds (jsonRequest "response" sent call) now
        ⟨.string args.userId, sent.data⟩ r' :=
      ⟨hid ▸ reads_response (hid ▸ hnamed), huser⟩
    have hspends : ∀ e ∈ es, e.spends ≠ some (.string args.userId) := by
      intro e he hspent
      obtain ⟨sent', call', v', harr', hover⟩ := ht.spends e he hspent
      obtain rfl := response_call_unique ht.execution harr harr'
      generalize w'.server = server at hs
      cases hs with
      | resume hsuspended hp =>
        rw [hover] at hsuspended
        cases hsuspended
    have hiff := answer_iff hx hreceived hresponds (hkey ▸ hverify) hk hspends ht.clock hnow hs
    rw [ht.fires, ← hiff]
    constructor
    · rintro ⟨⟨r'', huser', hv⟩, hgone⟩
      cases huser.symm.trans huser'
      exact ⟨hv, hgone⟩
    · rintro ⟨hv, hgone⟩
      exact ⟨⟨r', huser, hv⟩, hgone⟩

end Outcome

/-- Whatever traffic of other users there is, an honest run's calls go through, its challenge is
answered and the answer passes the client's checks. Its response, handled in time, is accepted
exactly when `setTimeout` takes `ttlMs` as it is or has run no timer of the user yet. -/
theorem honest_handshake_completes_iff (hcrypto : cfg.crypto.RoundTrips) (hopts : cfg.OptionsAgree)
    (hnamed : args.userId ≠ []) (hknows : cfg.Knows args.userId args.clientKey)
    (hfit : cfg.NoncesFit args.clientKey) (hrun : HonestRun cfg run args first arrived h w) :
    (Proceeds cfg h w first ∧ ChallengeAnswered cfg args first h) ∧
      (∀ sent call, ResponseArrived run h sent call → Proceeds cfg h w call) ∧
      ∀ sent call v w', ResponseHandled cfg run h w sent call v w' →
        w.server.now < arrived + cfg.ttlMs →
        (ResponseAccepted cfg args sent call v w' ↔ cfg.ttlMs ≤ maxDelay ∨
          ∀ e ∈ serverEvents h, e.fires ≠ some (.string args.userId)) := by
  obtain ⟨es, message, r, ht⟩ := hrun.tracked hcrypto hopts hnamed hknows hfit
  refine ⟨⟨ht.first_proceeds, ht.first_answered hcrypto hopts⟩, ?_, ?_⟩
  · intro sent call harr
    exact ht.response_proceeds hnamed harr
  · intro sent call v w' hhandled hnow
    exact ht.accepted_iff hcrypto hopts hnamed hknows hhandled hnow

theorem demo_noncesFit (key : UInt8) : demo.NoncesFit key := fun _ _ => ⟨_, rfl⟩

/-- The undisturbed handshake of run 0 is accepted. -/
theorem honest_handshake_completes_iff_demo :
    let w₁ := demo.session.final ((challengeLeg 0 0).take 2)
    let w := (demo.session.played w₁ ((challengeLeg 0 0).drop 2 ++ (responseLeg 0 1).take 3)).1
    let w' := (demo.session.played w [.server (.resume 1 ⟨0, 0, 0⟩)]).1
    ResponseAccepted demo ⟨"u".toList, 1, 0, [7]⟩ ⟨"u".toList, [0], [1, 0]⟩ 1
      (.success ⟨.string "u".toList⟩ 1) w' := by
  intro w₁ w w'
  let moves := (challengeLeg 0 0).drop 2 ++ (responseLeg 0 1).take 3
  let h := demo.session.history ((challengeLeg 0 0).take 2) ++ (demo.session.played w₁ moves).2
  have hrun : HonestRun demo 0 ⟨"u".toList, 1, 0, [7]⟩ 0 0 h w := by
    have hx := demo.session.final_execution [.start 0 "u".toList 1 0 7 0]
    have hr := demo.session.played_run w₁ moves
    have harrive : demo.session.Step (demo.session.final [.start 0 "u".toList 1 0 7 0]) _ w₁ :=
      ⟨.arrive 0 0, rfl⟩
    exact .mk hx rfl harrive hr rfl (by decide +kernel) (by decide +kernel)
      (fun _ _ _ _ _ _ => rfl)
  have hhandled : ResponseHandled demo 0 h w ⟨"u".toList, [0], [1, 0]⟩ 1
      (.success ⟨.string "u".toList⟩ 1) w' := by
    have hanswer : demo.session.Step w _ w' := Machine.played_step rfl
    exact ⟨_, hanswer, ⟨_, List.mem_cons_of_mem _ List.mem_cons_self, _, _, rfl⟩,
      List.mem_cons_self⟩
  have hknows : demo.Knows "u".toList 1 := fun _ => ⟨_, rfl, rfl⟩
  have hcompletes := honest_handshake_completes_iff markingCrypto_roundTrips ⟨rfl, rfl, rfl⟩
    (by decide) hknows (demo_noncesFit 1) hrun
  exact (hcompletes.2.2 _ _ _ _ hhandled (by decide +kernel)).mpr (Or.inl (by decide))

/-- The demo server, to keep challenges for some 25 days. -/
def overlong : Deployment UInt8 UInt8 := { demo with ttlMs := 2147483648 }

/-- After the arrival of its challenge, run 0 waits a millisecond, and its timer runs. -/
def overlongMoves : List (Move UInt8 UInt8) :=
  (challengeLeg 0 0).drop 2 ++ .server (.tick 1) :: .server (.timer 0) :: (responseLeg 0 1).take 3

theorem overlong_run :
    let w₁ := overlong.session.final ((challengeLeg 0 0).take 2)
    HonestRun overlong 0 ⟨"u".toList, 1, 0, [7]⟩ 0 0
      (overlong.session.history ((challengeLeg 0 0).take 2) ++
        (overlong.session.played w₁ overlongMoves).2)
      (overlong.session.played w₁ overlongMoves).1 := by
  intro w₁
  have hx := overlong.session.final_execution [.start 0 "u".toList 1 0 7 0]
  have hr := overlong.session.played_run w₁ overlongMoves
  have harrive : overlong.session.Step (overlong.session.final [.start 0 "u".toList 1 0 7 0]) _
      w₁ := ⟨.arrive 0 0, rfl⟩
  exact .mk hx rfl harrive hr rfl (by decide +kernel) (by decide +kernel) (fun _ _ _ _ _ _ => rfl)

theorem overlong_handled :
    let w₁ := overlong.session.final ((challengeLeg 0 0).take 2)
    let w := (overlong.session.played w₁ overlongMoves).1
    let w' := (overlong.session.played w [.server (.resume 1 ⟨0, 0, 0⟩)]).1
    ResponseHandled overlong 0
      (overlong.session.history ((challengeLeg 0 0).take 2) ++
        (overlong.session.played w₁ overlongMoves).2)
      w ⟨"u".toList, [0], [1, 0]⟩ 1 (.error notInitiatedError) w' := by
  intro w₁ w w'
  have hanswer : overlong.session.Step w _ w' := Machine.played_step rfl
  exact ⟨_, hanswer, ⟨_, List.mem_cons_of_mem _ List.mem_cons_self, _, _, rfl⟩, List.mem_cons_self⟩

/-- A `ttlMs` that is too long for `setTimeout` ends a handshake after a millisecond. -/
theorem overlong_handshake_fails : ¬ HonestHandshakesComplete overlong := by
  intro hall
  have hknows : overlong.Knows "u".toList 1 := fun _ => ⟨_, rfl, rfl⟩
  have hcompletes := hall markingCrypto_roundTrips ⟨rfl, rfl, rfl⟩ _ _ _ _ _ _ (by decide) hknows
    (fun _ _ => ⟨_, rfl⟩) overlong_run
  obtain ⟨⟨r, _, hv⟩, _⟩ := hcompletes.2.2 _ _ _ _ overlong_handled (by decide +kernel)
  cases hv

end MutualKeyChallenge.Session
