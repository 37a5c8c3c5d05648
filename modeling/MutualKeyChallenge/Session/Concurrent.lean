import MutualKeyChallenge.Session.Legs
import MutualKeyChallenge.Server.Pending

/-! Handshakes of one user that run at the same time. -/
namespace MutualKeyChallenge.Session
open Transition
variable {K S : Type}

/-- Clients and server use the same options. -/
structure Deployment.OptionsAgree (cfg : Deployment K S) : Prop where
  messagePadding : cfg.clientCryptography.messagePadding = cfg.cryptography.messagePadding
  signaturePadding : cfg.clientCryptography.signVerifyPadding = cfg.cryptography.signaturePadding
  hashAlgorithm : cfg.clientCryptography.hashAlgorithm = cfg.cryptography.hashAlgorithm

/-- The user `u` exists, with this key. -/
def Deployment.Knows (cfg : Deployment K S) (u : List Char) (key : K) : Prop :=
  ∀ req, ∃ r, cfg.userFunc req (.string u) = some r ∧ r.publicKey = key

/-- The challenge request of the run arrived at `arrived`. After `before`, in `w₀`, its call is
answered with a challenge; after `between`, in `w`, the call `call` of the run's response `sent`
ends in `v`. -/
inductive Handled (cfg : Deployment K S) (run : ℕ) (args : HandshakeRun (List Char) K Bytes)
    (sent : ClientSignedMessage (List Char) Bytes) (arrived call : ℕ) (before : List (Event K S))
    (w₀ : State K) (between : List (Event K S)) (w : State K) (v : Verdict MockUser K Bytes) : Prop
  | mk {first req after b hd hd' i i' challenge status w₁ w'}
    (hx : cfg.session.Execution before w₀) (hstarted : StartedWith before run args)
    (hfirst : (.challenge, .authenticate first arrived req after) ∈ arrivals run before)
    (hissue : cfg.session.Step w₀ (.server (.resume first w₀.server.now hd i
      (.settled (.fail challenge status)))) w₁)
    (hr : cfg.session.Run w₁ between w) (hsecond : b ∈ arrivals run between)
    (hcall : ArrivedAs .response sent call b)
    (hanswer : cfg.session.Step w (.server (.resume call w.server.now hd' i' (.settled v))) w')

/-- The event is no request of anyone but the honest runs of `u`. -/
def Event.honest [DecidableEq K] (u : List Char) (clientKey serverKey : K) : Event K S → Bool
  | .started _ args _ => args.userId = u ∧ args.clientKey = clientKey ∧ args.serverKey = serverKey
  | .server (.authenticate _ _ _ _) => false
  | _ => true

/-- Whatever honest runs of `u` there are, each succeeds whose response is handled in time. -/
def ConcurrentHandshakesSucceed [DecidableEq K] (cfg : Deployment K S) (u : List Char)
    (clientKey serverKey : K) : Prop :=
  ∀ run args sent arrived call before w₀ between w v,
    Handled cfg run args sent arrived call before w₀ between w v →
    (∀ e ∈ before ++ between, e.honest u clientKey serverKey = true) →
    w.server.now < arrived + cfg.ttlMs →
    ∃ r, cfg.userFunc (jsonRequest "response" sent call) (.string u) = some r ∧
      v = .success r.user r.publicKey

/-- Run 0 gets its challenge, then run 1 of the same user gets one, and then run 0's response is
handled. -/
theorem overwritten_handled :
    let w₀ := demo.session.final ((challengeLeg 0 0).take 8)
    let w₁ := (demo.session.played w₀ [.server (.resume 0 ⟨0, 0, 0⟩)]).1
    let moves := .receive 0 :: challengeLeg 1 1 ++ (responseLeg 0 2).take 3
    Handled demo 0 ⟨"u".toList, 1, 0, [7]⟩ ⟨"u".toList, ⟨[0], [1, 0]⟩⟩ 0 2
      (demo.session.history ((challengeLeg 0 0).take 8)) w₀ (demo.session.played w₁ moves).2
      (demo.session.played w₁ moves).1 (.error incorrectError) := by
  intro w₀ w₁ moves
  have hx := demo.session.final_execution ((challengeLeg 0 0).take 8)
  have hr := demo.session.played_run w₁ moves
  have hissue : demo.session.Step w₀ _ w₁ := ⟨.server (.resume 0 ⟨0, 0, 0⟩), rfl⟩
  have hanswer : demo.session.Step (demo.session.played w₁ moves).1 _ _ :=
    ⟨.server (.resume 2 ⟨0, 0, 0⟩), rfl⟩
  exact .mk hx ⟨_, List.mem_cons_self⟩ List.mem_cons_self hissue hr List.mem_cons_self ⟨_, _, rfl⟩
    hanswer

/-- The second challenge of a user takes the place of the first in the cache. -/
theorem second_challenge_overwrites : ¬ ConcurrentHandshakesSucceed demo "u".toList 1 0 := by
  intro hall
  obtain ⟨r, _, hv⟩ := hall _ _ _ _ _ _ _ _ _ _ overwritten_handled
    (List.all_eq_true.mp (by decide +kernel)) (by decide)
  cases hv

variable {cfg : Deployment K S} {h before between : List (Event K S)} {w₀ w : State K}
  {run arrived call : ℕ} {args : HandshakeRun (List Char) K Bytes}
  {sent : ClientSignedMessage (List Char) Bytes} {v : Verdict MockUser K Bytes}

theorem startedWith_unique {args' : HandshakeRun (List Char) K Bytes}
    (hx : cfg.session.Execution h w) (h1 : StartedWith h run args)
    (h2 : StartedWith h run args') : args' = args := by
  rw [startedWith_iff hx] at h1 h2
  rw [h1] at h2
  exact (Option.some.inj h2).symm

/-- A run responds only after the strategy has answered its first request with a challenge. -/
theorem responds_to_challenge {first : ℕ} {req : HttpRequest}
    {after : Call UserId MockUser K Bytes}
    {b : Leg × ServerEvent HttpRequest UserId MockUser K Bytes S}
    (hx : cfg.session.Execution h w) (hstarted : StartedWith h run args)
    (hfirst : (.challenge, .authenticate first arrived req after) ∈ arrivals run h)
    (hsecond : b ∈ arrivals run h) (hcall : ArrivedAs .response sent call b) :
    args.userId ≠ [] ∧
      (∃ message : ClientSignedMessage (List Char) Bytes, message.userId = args.userId ∧
        req = jsonRequest "challenge" message first) ∧
      ∃ challenge status, .fail challenge status ∈ verdicts first (serverEvents h) ∧
        cfg.client.responseMessage args challenge = .ok sent := by
  have hok := arrivals_ok hx run
  have hnamed : ∀ {args sent a}, a ∈ arrivals run h → Answered cfg h args sent a →
      args.userId ≠ [] := fun ha hans => (hans.named hx ha).2
  generalize harr : arrivals run h = l at *
  rcases l with _ | ⟨a, _ | ⟨b', _ | ⟨c, l⟩⟩⟩
  · cases hfirst
  · obtain ⟨sent', call', now', after', rfl⟩ := hok
    obtain ⟨now, _, rfl⟩ := hcall
    cases List.mem_singleton.mp hsecond
  · obtain ⟨args', sent', call', hstarted', hans, now', after', rfl⟩ := hok
    obtain rfl := startedWith_unique hx hstarted hstarted'
    have hname := hnamed (List.mem_cons_self) hans
    obtain ⟨seed, message, call₁, challenge, status, hbegan, ⟨now₁, after₁, rfl⟩, hv, hsent⟩ :=
      hans
    obtain ⟨now, after₂, rfl⟩ := hcall
    have hfirst' : first = call₁ ∧ req = jsonRequest "challenge" message call₁ := by
      rcases List.mem_pair.mp hfirst with heq | heq
      · obtain ⟨rfl, _, rfl, _⟩ := ServerEvent.authenticate.inj (Prod.mk.inj heq).2
        exact ⟨rfl, rfl⟩
      · cases (Prod.mk.inj heq).1
    have hsecond' : sent = sent' := by
      rcases List.mem_pair.mp hsecond with heq | heq
      · cases (Prod.mk.inj heq).1
      · obtain ⟨_, _, hreq, _⟩ := ServerEvent.authenticate.inj (Prod.mk.inj heq).2
        exact jsonRequest_inj hreq
    obtain ⟨rfl, rfl⟩ := hfirst'
    exact ⟨hname, ⟨message, HandshakeClient.challengeMessage_userId hbegan, rfl⟩, challenge,
      status, hv, hsecond' ▸ hsent⟩
  · exact hok.elim

/-- The response that a run sent answers the challenge that its first request was given. -/
theorem response_answers {first : ℕ} {req : HttpRequest} {after : Call UserId MockUser K Bytes}
    {b : Leg × ServerEvent HttpRequest UserId MockUser K Bytes S}
    {challenge : ServerChallenge Bytes} {status : ℕ} (hx : cfg.session.Execution h w)
    (hstarted : StartedWith h run args)
    (hfirst : (.challenge, .authenticate first arrived req after) ∈ arrivals run h)
    (hissue : .fail challenge status ∈ verdicts first (serverEvents h))
    (hsecond : b ∈ arrivals run h) (hcall : ArrivedAs .response sent call b) :
    args.userId ≠ [] ∧ cfg.client.responseMessage args challenge = .ok sent ∧
      ∃ message : ClientSignedMessage (List Char) Bytes, message.userId = args.userId ∧
        req = jsonRequest "challenge" message first := by
  obtain ⟨hnamed, hmessage, challenge', status', hv, hsent⟩ :=
    responds_to_challenge hx hstarted hfirst hsecond hcall
  have hsettled := settled_of_verdict (session_server hx) hissue
  rw [settled_of_verdict (session_server hx) hv] at hsettled
  cases hsettled
  exact ⟨hnamed, hsent, hmessage⟩

theorem messageOpts_eq (hopts : cfg.OptionsAgree) (key : K) :
    cfg.client.messageOpts key = cfg.strategy.verifier.encryptOptions key := by
  simp only [HandshakeClient.messageOpts, MessageVerifier.encryptOptions, Deployment.client,
    Deployment.strategy, shippedStrategy, hopts.messagePadding, hopts.hashAlgorithm]

theorem signVerifyOpts_eq (hopts : cfg.OptionsAgree) (key : K) :
    cfg.client.signVerifyOpts key = cfg.strategy.verifier.verifyOptions key := by
  simp only [HandshakeClient.signVerifyOpts, MessageVerifier.verifyOptions, Deployment.client,
    Deployment.strategy, shippedStrategy, hopts.signaturePadding]

theorem hashAlgorithm_eq (hopts : cfg.OptionsAgree) :
    cfg.client.cryptOpt.hashAlgorithm = cfg.strategy.verifier.options.hashAlgorithm :=
  hopts.hashAlgorithm

/-- The nonce in the response is the one that the server encrypted. -/
theorem nonce_returned {challenge : ServerChallenge Bytes} {key : K} {seed : S} {nonce : Bytes}
    (hcrypto : cfg.crypto.RoundTrips) (hopts : cfg.OptionsAgree)
    (hsent : cfg.client.responseMessage args challenge = .ok sent)
    (henc : cfg.strategy.verifier.encryptAndSign key seed args.clientKey nonce =
      .ok challenge.serverRequested) :
    sent.data.message = nonce ∧
      cfg.strategy.verifier.verify args.clientKey sent.data = true := by
  obtain ⟨message, hdec, rfl⟩ := HandshakeClient.responseMessage_ok hsent
  have hround := hcrypto.decrypt_encrypt _ _ _ _ (MessageVerifier.encryptAndSign_ok henc)
  rw [messageOpts_eq hopts] at hdec
  constructor
  · exact Except.ok.inj (hdec.symm.trans hround)
  · rw [MessageVerifier.verify, signVerifyOpts_eq hopts, hashAlgorithm_eq hopts]
    exact hcrypto.verify_sign _ _ _

/-- The challenge of a run stays in the cache until its response is handled, and the response
succeeds, if it is handled less than `ttlMs` after the challenge request arrived and meanwhile
nothing else of its user reached the cache: no other challenge was stored, no other response
verified, and no timer ran that was started for an earlier challenge. -/
theorem undisturbed_handshake_succeeds (hcrypto : cfg.crypto.RoundTrips)
    (hopts : cfg.OptionsAgree) (hknows : cfg.Knows args.userId args.clientKey)
    (hhandled : Handled cfg run args sent arrived call before w₀ between w v)
    (hquiet : Quiet (.string args.userId) w₀.server.cache.timers (serverEvents between))
    (httl : cfg.ttlMs ≤ maxDelay) (hnow : w.server.now < arrived + cfg.ttlMs) :
    w.server.cache.challengeMap (.string args.userId) =
        some ⟨.string args.userId, sent.data.message, arrived⟩ ∧
      ∃ r, cfg.userFunc (jsonRequest "response" sent call) (.string args.userId) = some r ∧
        v = .success r.user r.publicKey := by
  obtain ⟨hx, hstarted, hfirst, hissue, hr, hsecond, hcall, hanswer⟩ := hhandled
  rename_i first req after b hd hd' i i' challenge status w₁ w'
  have hx₁ := hx.snoc hissue
  obtain ⟨h, hh, hx₂⟩ : ∃ h, h = before ++ [_] ++ between ∧ cfg.session.Execution h w :=
    ⟨_, rfl, hx₁.run hr⟩
  have hs₀ := session_server hx
  have hs₂ := session_server hx₂
  -- what the run was given and what it sent back
  have hstarted₂ : StartedWith h run args := hh ▸ hstarted.append.append
  have hfirst₂ : (.challenge, .authenticate first arrived req after) ∈ arrivals run h := by
    rw [hh, mem_arrivals_append, mem_arrivals_append]
    exact Or.inl (Or.inl hfirst)
  have hsecond₂ : b ∈ arrivals run h := by
    rw [hh, mem_arrivals_append]
    exact Or.inr hsecond
  have hgiven : .fail challenge status ∈ verdicts first (serverEvents h) := by
    rw [hh]
    exact given_verdict (mem_serverEvents
      (List.mem_append_left _ (List.mem_append_right _ List.mem_cons_self)))
  obtain ⟨hnamed, hsent, message, hmessage, rfl⟩ :=
    response_answers hx₂ hstarted₂ hfirst₂ hgiven hsecond₂ hcall
  have hreceived := received_of_arrival hfirst
  obtain ⟨r, nonce, returned, seed, hr', henc, hslot⟩ :=
    issued_nonce_kept hs₀ hreceived (reads_challenge (hmessage ▸ hnamed)) rfl
      (session_server_step hissue) ((serverView cfg).run hr) (hmessage ▸ hquiet) httl hnow
  simp only [hmessage] at hr' hslot
  have hkey : r.publicKey = args.clientKey := by
    obtain ⟨r', hr'', hkey⟩ := hknows (jsonRequest "challenge" message first)
    cases hr'.symm.trans hr''
    exact hkey
  rw [hkey] at henc
  obtain ⟨rfl, hverify⟩ := nonce_returned hcrypto hopts hsent henc
  refine ⟨hslot, ?_⟩
  -- the answer
  obtain ⟨r', hr'', hkey'⟩ := hknows (jsonRequest "response" sent call)
  obtain ⟨now, after', rfl⟩ := hcall
  have huser := HandshakeClient.responseMessage_userId hsent
  have hresponds : cfg.strategy.Responds (jsonRequest "response" sent call) now
      ⟨.string sent.userId, sent.data⟩ r' :=
    ⟨reads_response (huser ▸ hnamed), huser ▸ hr''⟩
  refine ⟨r', hr'', ?_⟩
  exact response_succeeds hs₂ (received_of_arrival hsecond₂) hresponds (hkey' ▸ hverify)
    (huser ▸ hslot) rfl (Nat.le_of_lt hnow) (session_server_step hanswer)

theorem markingCrypto_roundTrips : markingCrypto.RoundTrips where
  decrypt_encrypt := by
    rintro o seed m c hc
    cases hc
    simp [markingCrypto]
  verify_sign := by
    intro hash m o
    simp [markingCrypto]

/-- Run 0 is answered while the challenge of run 1, of the same user, is still in its handler. -/
theorem undisturbed_handshake_succeeds_overlap :
    let w₀ := demo.session.final ((challengeLeg 0 0).take 8)
    let w₁ := (demo.session.played w₀ [.server (.resume 0 ⟨0, 0, 0⟩)]).1
    let w := (demo.session.played w₁
      (.receive 0 :: (challengeLeg 1 1).take 8 ++ (responseLeg 0 2).take 3)).1
    w.server.cache.challengeMap (.string "u".toList) = some ⟨.string "u".toList, [0], 0⟩ ∧
      ∃ r, demo.userFunc (jsonRequest "response" ⟨"u".toList, [0], [1, 0]⟩ 2)
          (.string "u".toList) = some r ∧
        Verdict.success (⟨.string "u".toList⟩ : MockUser) (1 : UInt8) =
          (.success r.user r.publicKey : Verdict MockUser UInt8 Bytes) := by
  intro w₀ w₁ w
  have hx := demo.session.final_execution ((challengeLeg 0 0).take 8)
  have hr := demo.session.played_run w₁
    (.receive 0 :: (challengeLeg 1 1).take 8 ++ (responseLeg 0 2).take 3)
  have hissue : demo.session.Step w₀ _ w₁ := ⟨.server (.resume 0 ⟨0, 0, 0⟩), rfl⟩
  have hanswer : demo.session.Step w _ _ := ⟨.server (.resume 2 ⟨0, 0, 0⟩), rfl⟩
  have hhandled := Handled.mk hx ⟨_, List.mem_cons_self⟩ List.mem_cons_self hissue hr
    (List.mem_cons_self) ⟨_, _, rfl⟩ hanswer
  have hknows : demo.Knows "u".toList 1 := fun _ => ⟨_, rfl, rfl⟩
  exact undisturbed_handshake_succeeds markingCrypto_roundTrips ⟨rfl, rfl, rfl⟩ hknows hhandled
    (by decide +kernel) (by decide) (by decide)

end MutualKeyChallenge.Session
