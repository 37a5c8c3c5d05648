import MutualKeyChallenge.Protocol.World
import MutualKeyChallenge.Server.Pending

/-! What one step of the world can do, said once. -/
namespace MutualKeyChallenge
open Transition Symbolic
variable {C I U K : Type}

/-- The events of the server in a history. -/
def serverEvents (h : List (WorldEvent C I U K)) :
    List (ServerEvent (Incoming C I (Term K)) I U K (Term K) ℕ) :=
  h.filterMap fun e =>
    match e with
    | .server se => some se
    | _ => none

theorem mem_serverEvents {se : ServerEvent (Incoming C I (Term K)) I U K (Term K) ℕ}
    {h : List (WorldEvent C I U K)} (he : .server se ∈ h) : se ∈ serverEvents h :=
  List.mem_filterMap.mpr ⟨_, he, rfl⟩

variable [DecidableEq K] {cfg : Setting C I U K}

/-- Both byte strings of a request's content can be computed by the attacker. -/
def Content.Derivable (a : Attacker K) (seen : List (Term K)) : Content I (Term K) → Prop
  | .challenge _ data | .response _ data => data.Derivable a seen
  | .malformed _ => True

theorem SignedMessage.eval_derivable {a : Attacker K} {seen : List (Term K)}
    {r : SignedMessage (Recipe K)} {m : SignedMessage (Term K)} (h : r.eval a seen = some m) :
    m.Derivable a seen := by
  simp only [eval] at h
  split at h
  · rename_i message signature hm hs
    cases h
    exact ⟨⟨_, hm⟩, ⟨_, hs⟩⟩
  · cases h

theorem SignedMessage.Derivable.append {a : Attacker K} {seen more : List (Term K)}
    {m : SignedMessage (Term K)} (h : m.Derivable a seen) : m.Derivable a (seen ++ more) :=
  ⟨h.1.append, h.2.append⟩

theorem Content.eval_derivable {a : Attacker K} {seen : List (Term K)}
    {r : Content I (Recipe K)} {c : Content I (Term K)} (h : r.eval a seen = some c) :
    c.Derivable a seen := by
  cases r with
  | challenge userId data | response userId data =>
    simp only [eval, Option.map_eq_some_iff] at h
    obtain ⟨m, hm, rfl⟩ := h
    exact SignedMessage.eval_derivable hm
  | malformed error =>
    cases h
    trivial

theorem ServerChallenge.eval_derivable {a : Attacker K} {seen : List (Term K)}
    {r : ServerChallenge (Recipe K)} {m : ServerChallenge (Term K)} (h : r.eval a seen = some m) :
    m.clientRequested.Derivable a seen ∧ m.serverRequested.Derivable a seen := by
  simp only [eval] at h
  split at h
  · rename_i hc hs
    cases h
    exact ⟨SignedMessage.eval_derivable hc, SignedMessage.eval_derivable hs⟩
  · cases h

/-! The symbolic crypto, call by call. -/

theorem symbolic_verify {m : SignedMessage (Term K)} {k : K} :
    cfg.strategy.verifier.verify k m = true ↔ m.signature = .sig k m.message := by
  simp [Setting.strategy, MessageVerifier.verify, MessageVerifier.verifyOptions, symbolicCrypto]

/-- A challenge request opens to `d` exactly when it encrypts `d` for the server and carries the
user's signature of `d`. -/
theorem symbolic_decryptAndVerify {k k' : K} {m : SignedMessage (Term K)} {d : Term K}
    (h : cfg.strategy.verifier.decryptAndVerify k k' m = .ok (some d)) :
    ∃ seed, m = { message := .aenc k seed d, signature := .sig k' d } := by
  obtain ⟨message, signature⟩ := m
  cases message <;>
    simp only [Setting.strategy, MessageVerifier.decryptAndVerify, MessageVerifier.verifyOptions,
      MessageVerifier.encryptOptions, symbolicCrypto, reduceCtorEq] at h
  case aenc k'' seed m =>
    by_cases hk : k'' = k
    · by_cases hs : signature = .sig k' m
      · simp [hk, hs] at h
        subst h
        exact ⟨seed, by rw [hk, hs]⟩
      · simp [hk, hs] at h
    · simp [hk] at h

theorem client_challengeMessage {args : HandshakeRun I K (Term K)} {seed : ℕ}
    {sent : ClientSignedMessage I (Term K)}
    (h : Setting.client.challengeMessage args seed = .ok sent) :
    sent =
      ⟨args.userId, ⟨.aenc args.serverKey seed args.nonce, .sig args.clientKey args.nonce⟩⟩ := by
  cases h
  rfl

/-- An answer leaves the client only when both checks passed. -/
theorem client_responseMessage {args : HandshakeRun I K (Term K)}
    {reply : ServerChallenge (Term K)} {sent : ClientSignedMessage I (Term K)}
    (h : Setting.client.responseMessage args reply = .ok sent) :
    reply.clientRequested = ⟨args.nonce, .sig args.serverKey args.nonce⟩ ∧
      ∃ seed m, reply.serverRequested = ⟨.aenc args.clientKey seed m, .sig args.serverKey m⟩ ∧
        sent = ⟨args.userId, ⟨m, .sig args.clientKey m⟩⟩ := by
  obtain ⟨⟨cm, cs⟩, ⟨sm, ss⟩⟩ := reply
  simp only [Setting.client, HandshakeClient.responseMessage, HandshakeClient.signVerifyOpts,
    HandshakeClient.messageOpts, symbolicCrypto, decide_eq_true_eq] at h
  split at h
  · cases h
  · rename_i hc
    simp only [not_or, not_not] at hc
    obtain ⟨rfl, rfl⟩ := hc
    refine ⟨rfl, ?_⟩
    cases sm <;> simp only [reduceCtorEq] at h
    case aenc k seed m =>
      by_cases hk : k = args.clientKey
      · by_cases hs : ss = .sig args.serverKey m
        · simp [hk, hs] at h
          subst h
          exact ⟨seed, m, by rw [hk, hs], rfl⟩
        · simp [hk, hs] at h
      · simp [hk] at h

/-! The steps. -/

variable [DecidableEq I] {w w' : World I U K} {e : WorldEvent C I U K}

/-- The world after a server step. -/
def Setting.served (cfg : Setting C I U K) (w : World I U K) (server : Server I U K (Term K))
    (e : ServerEvent (Incoming C I (Term K)) I U K (Term K) ℕ) : World I U K :=
  { w with server, wire := w.wire ++ cfg.published e, fresh := w.fresh + 1 }

/-- The inputs of a segment: the strategy's one key and the next fresh value. -/
def Setting.inputs (cfg : Setting C I U K) (w : World I U K) (seed : ℕ) : Inputs K ℕ :=
  { returnedKey := cfg.serverKey, random := w.fresh, seed }

/-- The steps of the world by the event they record. -/
inductive WorldStep (cfg : Setting C I U K) (w : World I U K) :
    WorldEvent C I U K → World I U K → Prop
  | authenticate {id req call cache}
      (hfree : w.server.calls id = none)
      (hder : req.content.Derivable cfg.attacker w.wire)
      (hp : (cfg.strategy.authenticate req w.server.now).perform w.server.now w.server.cache =
        (call, cache)) :
      WorldStep cfg w (.server (.authenticate id w.server.now req call))
        (cfg.served w
          { w.server with cache, calls := Function.update w.server.calls id (some call) }
          (.authenticate id w.server.now req call))
  | resume {id seed handler call cache}
      (hcall : w.server.calls id = some (.suspended handler))
      (hp : (cfg.strategy.resume (cfg.inputs w seed) handler).perform w.server.now
        w.server.cache = (call, cache)) :
      WorldStep cfg w (.server (.resume id w.server.now handler (cfg.inputs w seed) call))
        (cfg.served w
          { w.server with cache, calls := Function.update w.server.calls id (some call) }
          (.resume id w.server.now handler (cfg.inputs w seed) call))
  | timer {t timer cache} (ht : w.server.cache.timers t = some timer)
      (hf : w.server.cache.fire t w.server.now = some cache) :
      WorldStep cfg w (.server (.timer t timer w.server.now))
        (cfg.served w { w.server with cache } (.timer t timer w.server.now))
  | tick {ms} :
      WorldStep cfg w (.server (.tick ms))
        (cfg.served w { w.server with now := w.server.now + ms } (.tick ms))
  | started {run args sent seed}
      (hfree : w.runs run = none) (hhonest : cfg.Honest args.clientKey)
      (hnonce : args.nonce = .nonce w.fresh)
      (hsent : Setting.client.challengeMessage args seed = .ok sent) :
      WorldStep cfg w (.started run args sent)
        { w with
          runs := Function.update w.runs run (some (.awaitingChallenge args))
          wire := w.wire ++ [sent.data.message, sent.data.signature]
          fresh := w.fresh + 1 }
  | threw {run args reply err}
      (hrun : w.runs run = some (.awaitingChallenge args)) :
      WorldStep cfg w (.replied run args reply (.threw err))
        { w with
          runs := Function.update w.runs run (some (.threw err))
          fresh := w.fresh + 1 }
  | answered {run args reply sent}
      (hrun : w.runs run = some (.awaitingChallenge args))
      (hder : reply.clientRequested.Derivable cfg.attacker w.wire ∧
        reply.serverRequested.Derivable cfg.attacker w.wire)
      (hsent : Setting.client.responseMessage args reply = .ok sent) :
      WorldStep cfg w (.replied run args reply (.awaitingResult args sent.data.message))
        { w with
          runs := Function.update w.runs run (some (.awaitingResult args sent.data.message))
          wire := w.wire ++ [sent.data.message, sent.data.signature]
          fresh := w.fresh + 1 }

theorem serverStep_inv {move : ServerMove (Incoming C I (Term K)) K ℕ}
    (h : cfg.serverStep w move = some (w', e)) :
    ∃ server se, w.server.step cfg.strategy move = some (server, se) ∧ e = .server se ∧
      w' = cfg.served w server se := by
  simp only [Setting.serverStep] at h
  split at h
  · cases h
  · rename_i server se hs
    cases h
    exact ⟨server, se, hs, rfl, rfl⟩

/-- Every step of the machine is one of these. -/
theorem world_step_inv (h : cfg.world.Step w e w') : WorldStep cfg w e w' := by
  obtain ⟨move, h⟩ := h
  simp only [Setting.world] at h
  cases move with
  | deliver id ctx content =>
    simp only [Setting.step] at h
    split at h
    · cases h
    · rename_i content hc
      obtain ⟨server, se, hs, rfl, rfl⟩ := serverStep_inv h
      simp only [Server.step] at hs
      split at hs
      · cases hs
      · rename_i hfree
        cases hs
        exact .authenticate hfree (Content.eval_derivable hc) rfl
  | resume id seed =>
    simp only [Setting.step] at h
    obtain ⟨server, se, hs, rfl, rfl⟩ := serverStep_inv h
    simp only [Server.step] at hs
    split at hs
    · rename_i handler hcall
      cases hs
      exact .resume hcall rfl
    · cases hs
  | timer t =>
    simp only [Setting.step] at h
    obtain ⟨server, se, hs, rfl, rfl⟩ := serverStep_inv h
    simp only [Server.step] at hs
    split at hs
    · rename_i timer cache ht hf
      cases hs
      exact .timer ht hf
    · cases hs
  | tick ms =>
    simp only [Setting.step] at h
    obtain ⟨server, se, hs, rfl, rfl⟩ := serverStep_inv h
    cases hs
    exact .tick
  | start run userId clientKey serverKey seed =>
    simp only [Setting.step] at h
    split at h
    · cases h
    · rename_i hfree
      split at h
      · rename_i hhonest
        split at h
        · cases h
        · rename_i sent hsent
          cases h
          exact .started hfree hhonest rfl hsent
      · cases h
  | reply run serverChallenge =>
    simp only [Setting.step] at h
    split at h
    · rename_i args hrun
      split at h
      · cases h
      · rename_i reply hreply
        split at h
        · cases h
          exact .threw hrun
        · rename_i sent hsent
          cases h
          exact .answered hrun (ServerChallenge.eval_derivable hreply) hsent
    · cases h

/-! The server alone. -/

/-- A step of the world is one of the server or leaves the server alone. -/
theorem world_server_step (hs : WorldStep cfg w e w') :
    (∃ se, e = .server se ∧ ServerStep cfg.strategy w.server se w'.server) ∨
      (∀ se, e ≠ .server se) ∧ w'.server = w.server := by
  cases hs with
  | authenticate hfree hder hp => exact Or.inl ⟨_, rfl, .authenticate hfree hp⟩
  | resume hcall hp => exact Or.inl ⟨_, rfl, .resume hcall hp⟩
  | timer ht hf => exact Or.inl ⟨_, rfl, .timer ht hf⟩
  | tick => exact Or.inl ⟨_, rfl, .tick⟩
  | started => exact Or.inr ⟨by simp, rfl⟩
  | threw => exact Or.inr ⟨by simp, rfl⟩
  | answered => exact Or.inr ⟨by simp, rfl⟩

/-- What the server sees of the world. -/
def serverView (cfg : Setting C I U K) :
    Projection cfg.world (serverMachine cfg.strategy cfg.ttlMs) where
  state := World.server
  event := fun e =>
    match e with
    | .server se => some se
    | _ => none
  init := rfl
  step := by
    intro w e w' hstep
    rcases world_server_step (world_step_inv hstep) with ⟨se, rfl, hs⟩ | ⟨he, hserver⟩
    · exact Or.inl ⟨se, rfl, hs.step⟩
    · refine Or.inr ⟨?_, hserver⟩
      cases e with
      | server se => exact (he se rfl).elim
      | started | replied => rfl

/-- Whatever clients and attacker do, the server runs as the server alone could. -/
theorem world_server (hx : cfg.world.Execution h w) :
    (serverMachine cfg.strategy cfg.ttlMs).Execution (serverEvents h) w.server :=
  (serverView cfg).execution hx

end MutualKeyChallenge
