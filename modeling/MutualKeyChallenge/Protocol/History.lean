import MutualKeyChallenge.Protocol.Steps

/-! What a recorded history says about the state it led to. -/
namespace MutualKeyChallenge
open Transition Symbolic
variable {C I U K : Type}

/-! Events by the index at which a history records them. -/

/-- At `k`, run `run` drew its nonce and sent its challenge request. -/
def StartedAt (h : List (WorldEvent C I U K)) (k run : ℕ) (args : HandshakeRun I K (Term K)) :
    Prop :=
  ∃ sent, h[k]? = some (.started run args sent)

/-- At `k`, run `run` passed both checks, signed `m` and sent its response request. -/
def AnsweredAt (h : List (WorldEvent C I U K)) (k run : ℕ) (args : HandshakeRun I K (Term K))
    (m : Term K) : Prop :=
  ∃ reply, h[k]? = some (.replied run args reply (.awaitingResult args m))

/-- At `k`, call `id` ran `getNonce` for a verified challenge request. -/
def DrewAt (h : List (WorldEvent C I U K)) (k id : ℕ) (request : ClientChallenge I (Term K))
    (user : UserKeyRecord U K) (nonce : Term K) : Prop :=
  ∃ now i dm, h[k]? = some (.server (.resume id now (.challengeSigned request user dm) i
    (.suspended (.challengeEncrypt request user dm nonce))))

/-- At `k`, call `id` stored `nonce` and ended in `this.fail(challenge, 401)`; `decrypted` is the
client's nonce that the challenge gives back. -/
def FailedAt (h : List (WorldEvent C I U K)) (k id : ℕ) (request : ClientChallenge I (Term K))
    (user : UserKeyRecord U K) (decrypted nonce : Term K) : Prop :=
  ∃ now i dm nm, h[k]? = some (.server (.resume id now
    (.challengeEncrypted request user dm nonce nm) i (.settled (.fail ⟨dm, nm⟩ 401)))) ∧
    dm.message = decrypted

/-- At `k`, when the clock read `now`, call `id` read the cache and ended in `this.success`. -/
def SucceededAt (h : List (WorldEvent C I U K)) (k id now : ℕ)
    (response : ClientResponse I (Term K)) (user : UserKeyRecord U K) : Prop :=
  ∃ i, h[k]? = some (.server (.resume id now (.responseVerified response user true) i
    (.settled (.success user.user user.publicKey))))

/-- Every signature an honest party has made, by the event that made it. -/
inductive Signed (cfg : Setting C I U K) (h : List (WorldEvent C I U K)) : K → Term K → Prop
  | started {k run : ℕ} {args : HandshakeRun I K (Term K)} (hs : StartedAt h k run args) :
      Signed cfg h args.clientKey args.nonce
  | answered {k run : ℕ} {args : HandshakeRun I K (Term K)} {m : Term K}
      (ha : AnsweredAt h k run args m) : Signed cfg h args.clientKey m
  | returned {k id : ℕ} {request : ClientChallenge I (Term K)} {user : UserKeyRecord U K}
      {d n : Term K} (hf : FailedAt h k id request user d n) : Signed cfg h cfg.serverKey d
  | challenged {k id : ℕ} {request : ClientChallenge I (Term K)} {user : UserKeyRecord U K}
      {d n : Term K} (hf : FailedAt h k id request user d n) : Signed cfg h cfg.serverKey n
  | issued {k id now : ℕ} {response : ClientResponse I (Term K)} {user : UserKeyRecord U K}
      {bytes : List UInt8} (hs : SucceededAt h k id now response user)
      (hb : bytes ∈ cfg.onSuccess user.user now) : Signed cfg h cfg.serverKey (.data bytes)

/-- A cached challenge is the one a recorded `this.fail` stored, under its own user id. -/
def CacheOk (h : List (WorldEvent C I U K)) (cache : LocalChallengeCache I (Term K)) : Prop :=
  ∀ u c, cache.challengeMap u = some c → c.userId = u ∧
    ∃ k id request user d, FailedAt h k id request user d c.clientChallenged ∧
      request.userId = u ∧ request.requestDateTime = c.requestDateTime

variable {h : List (WorldEvent C I U K)} {e : WorldEvent C I U K} {k id run now j : ℕ}
  {args : HandshakeRun I K (Term K)} {request : ClientChallenge I (Term K)}
  {response : ClientResponse I (Term K)} {user : UserKeyRecord U K} {d n m : Term K}

theorem StartedAt.concat (hs : StartedAt h k run args) : StartedAt (h ++ [e]) k run args := by
  obtain ⟨sent, hk⟩ := hs
  exact ⟨sent, getElem?_concat_of_some hk⟩

theorem AnsweredAt.concat (hs : AnsweredAt h k run args m) :
    AnsweredAt (h ++ [e]) k run args m := by
  obtain ⟨reply, hk⟩ := hs
  exact ⟨reply, getElem?_concat_of_some hk⟩

theorem DrewAt.concat (hs : DrewAt h k id request user n) :
    DrewAt (h ++ [e]) k id request user n := by
  obtain ⟨now, i, dm, hk⟩ := hs
  exact ⟨now, i, dm, getElem?_concat_of_some hk⟩

theorem FailedAt.concat (hs : FailedAt h k id request user d n) :
    FailedAt (h ++ [e]) k id request user d n := by
  obtain ⟨now, i, dm, nm, hk, hd⟩ := hs
  exact ⟨now, i, dm, nm, getElem?_concat_of_some hk, hd⟩

theorem SucceededAt.concat (hs : SucceededAt h k id now response user) :
    SucceededAt (h ++ [e]) k id now response user := by
  obtain ⟨i, hk⟩ := hs
  exact ⟨i, getElem?_concat_of_some hk⟩

theorem Signed.concat {cfg : Setting C I U K} {key : K} (hs : Signed cfg h key m) :
    Signed cfg (h ++ [e]) key m := by
  cases hs with
  | started hs => exact .started hs.concat
  | answered ha => exact .answered ha.concat
  | returned hf => exact .returned hf.concat
  | challenged hf => exact .challenged hf.concat
  | issued hs hb => exact .issued hs.concat hb

theorem StartedAt.of_take (hs : StartedAt (h.take j) k run args) :
    k < j ∧ StartedAt h k run args := by
  obtain ⟨sent, hk⟩ := hs
  exact ⟨(getElem?_take_of_some hk).1, sent, (getElem?_take_of_some hk).2⟩

theorem AnsweredAt.of_take (hs : AnsweredAt (h.take j) k run args m) :
    k < j ∧ AnsweredAt h k run args m := by
  obtain ⟨reply, hk⟩ := hs
  exact ⟨(getElem?_take_of_some hk).1, reply, (getElem?_take_of_some hk).2⟩

theorem DrewAt.of_take (hs : DrewAt (h.take j) k id request user n) :
    k < j ∧ DrewAt h k id request user n := by
  obtain ⟨now, i, dm, hk⟩ := hs
  exact ⟨(getElem?_take_of_some hk).1, now, i, dm, (getElem?_take_of_some hk).2⟩

theorem FailedAt.of_take (hs : FailedAt (h.take j) k id request user d n) :
    k < j ∧ FailedAt h k id request user d n := by
  obtain ⟨now, i, dm, nm, hk, hd⟩ := hs
  exact ⟨(getElem?_take_of_some hk).1, now, i, dm, nm, (getElem?_take_of_some hk).2, hd⟩

theorem SucceededAt.of_take (hs : SucceededAt (h.take j) k id now response user) :
    k < j ∧ SucceededAt h k id now response user := by
  obtain ⟨i, hk⟩ := hs
  exact ⟨(getElem?_take_of_some hk).1, i, (getElem?_take_of_some hk).2⟩

/-- One index, one draw: a nonce's number leads back to the call that drew it. -/
theorem DrewAt.unique {id' : ℕ} {request' : ClientChallenge I (Term K)}
    {user' : UserKeyRecord U K} {n' : Term K} (h1 : DrewAt h k id request user n)
    (h2 : DrewAt h k id' request' user' n') : id = id' := by
  obtain ⟨_, _, _, hk⟩ := h1
  obtain ⟨_, _, _, hk'⟩ := h2
  rw [hk] at hk'
  cases hk'
  rfl

theorem DrewAt.not_started (h1 : DrewAt h k id request user n) : ¬ StartedAt h k run args := by
  rintro ⟨_, hk'⟩
  obtain ⟨_, _, _, hk⟩ := h1
  rw [hk] at hk'
  cases hk'

theorem AnsweredAt.unique {run' : ℕ} {args' : HandshakeRun I K (Term K)}
    (h1 : AnsweredAt h k run args m) (h2 : AnsweredAt h k run' args' n) :
    run = run' ∧ args = args' ∧ m = n := by
  obtain ⟨_, hk⟩ := h1
  obtain ⟨_, hk'⟩ := h2
  rw [hk] at hk'
  cases hk'
  exact ⟨rfl, rfl, rfl⟩

theorem FailedAt.unique {id' : ℕ} {request' : ClientChallenge I (Term K)}
    {user' : UserKeyRecord U K} {d' n' : Term K} (h1 : FailedAt h k id request user d n)
    (h2 : FailedAt h k id' request' user' d' n') :
    id = id' ∧ request = request' ∧ user = user' ∧ d = d' ∧ n = n' := by
  obtain ⟨_, _, _, _, hk, rfl⟩ := h1
  obtain ⟨_, _, _, _, hk', rfl⟩ := h2
  rw [hk] at hk'
  cases hk'
  exact ⟨rfl, rfl, rfl, rfl, rfl⟩

theorem StartedAt.unique {run' : ℕ} {args' : HandshakeRun I K (Term K)}
    (h1 : StartedAt h k run args) (h2 : StartedAt h k run' args') : run = run' ∧ args = args' := by
  obtain ⟨_, hk⟩ := h1
  obtain ⟨_, hk'⟩ := h2
  rw [hk] at hk'
  cases hk'
  exact ⟨rfl, rfl⟩

theorem CacheOk.concat {cache : LocalChallengeCache I (Term K)} (hc : CacheOk h cache) :
    CacheOk (h ++ [e]) cache := by
  intro u c hu
  obtain ⟨hid, k, id, request, user, d, hk, hr⟩ := hc u c hu
  exact ⟨hid, k, id, request, user, d, hk.concat, hr⟩

/-- Forgetting entries keeps the rest explained. -/
theorem CacheOk.forget {cache cache' : LocalChallengeCache I (Term K)} (hc : CacheOk h cache)
    (hsub : ∀ u, cache'.challengeMap u = cache.challengeMap u ∨ cache'.challengeMap u = none) :
    CacheOk h cache' := by
  intro u c hu
  rcases hsub u with heq | hnone
  · exact hc u c (heq ▸ hu)
  · rw [hnone] at hu
    cases hu

/-- A run that has answered never answers again. -/
theorem answered_update {runs : ℕ → Option (RunState I K (Term K))} {state : RunState I K (Term K)}
    (ha : ∀ k run args m, AnsweredAt h k run args m → runs run = some (.awaitingResult args m))
    (hrun : ∀ args m, runs run ≠ some (.awaitingResult args m))
    (he : ∀ run' args' reply args m, e = .replied run' args' reply (.awaitingResult args m) →
      run' = run ∧ state = .awaitingResult args m) :
    ∀ k run' args m, AnsweredAt (h ++ [e]) k run' args m →
      Function.update runs run (some state) run' = some (.awaitingResult args m) := by
  rintro k run' args m ⟨reply, hk⟩
  rcases getElem?_concat_cases hk with hold | ⟨_, hnew⟩
  · have hset := ha k run' args m ⟨reply, hold⟩
    have hne : run' ≠ run := by
      rintro rfl
      exact hrun args m hset
    rwa [Function.update_of_ne hne]
  · obtain ⟨rfl, rfl⟩ := he run' args reply args m hnew
    simp

theorem answered_concat {runs : ℕ → Option (RunState I K (Term K))}
    (ha : ∀ k run args m, AnsweredAt h k run args m → runs run = some (.awaitingResult args m))
    (he : ∀ run args reply m, e ≠ .replied run args reply (.awaitingResult args m)) :
    ∀ k run args m, AnsweredAt (h ++ [e]) k run args m →
      runs run = some (.awaitingResult args m) := by
  rintro k run args m ⟨reply, hk⟩
  rcases getElem?_concat_cases hk with hold | ⟨_, hnew⟩
  · exact ha k run args m ⟨reply, hold⟩
  · exact absurd hnew (he run args reply m)

theorem runs_concat {w : World I U K}
    (hr : ∀ run args, w.runs run = some (.awaitingChallenge args) →
      ∃ n, args.nonce = .nonce n ∧ StartedAt h n run args) :
    ∀ run args, w.runs run = some (.awaitingChallenge args) →
      ∃ n, args.nonce = .nonce n ∧ StartedAt (h ++ [e]) n run args := by
  intro run args hrun
  obtain ⟨n, hn, hs⟩ := hr run args hrun
  exact ⟨n, hn, hs.concat⟩

variable [DecidableEq K] {cfg : Setting C I U K} {w : World I U K}

/-- Some request context made `userFunc` return this record for the id. -/
def Setting.Registered (cfg : Setting C I U K) (userId : I) (user : UserKeyRecord U K) : Prop :=
  ∃ ctx, cfg.userFunc ctx userId = some user

/-- The challenge request encrypts `d` for the server and carries the user's signature of it. -/
def Setting.Opens (cfg : Setting C I U K) (request : ClientChallenge I (Term K))
    (user : UserKeyRecord U K) (d : Term K) : Prop :=
  ∃ seed, request.clientRequested = ⟨.aenc cfg.serverKey seed d, .sig user.publicKey d⟩

/-- What a suspended call has established so far. -/
def HandlerOk (cfg : Setting C I U K) (h : List (WorldEvent C I U K)) (wire : List (Term K))
    (id : ℕ) : Handler I U K (Term K) → Prop
  | .responseUser m user =>
    m.clientResponsed.Derivable cfg.attacker wire ∧
      ∀ r, user = .ok r → cfg.Registered m.userId r
  | .responseVerify m user =>
    m.clientResponsed.Derivable cfg.attacker wire ∧ cfg.Registered m.userId user
  | .responseVerified m user verified =>
    m.clientResponsed.Derivable cfg.attacker wire ∧ cfg.Registered m.userId user ∧
      (verified = true →
        m.clientResponsed.signature = .sig user.publicKey m.clientResponsed.message)
  | .challengeUser m user =>
    m.clientRequested.Derivable cfg.attacker wire ∧
      ∀ r, user = .ok r → cfg.Registered m.userId r
  | .challengeDecrypt m user =>
    m.clientRequested.Derivable cfg.attacker wire ∧ cfg.Registered m.userId user
  | .challengeDecrypted m user decrypted =>
    m.clientRequested.Derivable cfg.attacker wire ∧ cfg.Registered m.userId user ∧
      ∀ d, decrypted = some d → cfg.Opens m user d
  | .challengeSign m user decrypted =>
    m.clientRequested.Derivable cfg.attacker wire ∧ cfg.Registered m.userId user ∧
      cfg.Opens m user decrypted
  | .challengeSigned m user dm =>
    m.clientRequested.Derivable cfg.attacker wire ∧ cfg.Registered m.userId user ∧
      cfg.Opens m user dm.message ∧ dm.signature = .sig cfg.serverKey dm.message
  | .challengeEncrypt m user dm nonce =>
    m.clientRequested.Derivable cfg.attacker wire ∧ cfg.Registered m.userId user ∧
      cfg.Opens m user dm.message ∧ dm.signature = .sig cfg.serverKey dm.message ∧
      ∃ n, nonce = .nonce n ∧ DrewAt h n id m user nonce
  | .challengeEncrypted m user dm nonce nm =>
    m.clientRequested.Derivable cfg.attacker wire ∧ cfg.Registered m.userId user ∧
      cfg.Opens m user dm.message ∧ dm.signature = .sig cfg.serverKey dm.message ∧
      (∃ n, nonce = .nonce n ∧ DrewAt h n id m user nonce) ∧
      ∃ seed, nm = ⟨.aenc user.publicKey seed nonce, .sig cfg.serverKey nonce⟩

theorem HandlerOk.grow {hd : Handler I U K (Term K)} {wire more : List (Term K)}
    (hok : HandlerOk cfg h wire id hd) : HandlerOk cfg (h ++ [e]) (wire ++ more) id hd := by
  cases hd with
  | responseUser m user | challengeUser m user | responseVerify m user | challengeDecrypt m user =>
    exact ⟨hok.1.append, hok.2⟩
  | responseVerified m user v | challengeDecrypted m user d | challengeSign m user d
  | challengeSigned m user dm =>
    exact ⟨hok.1.append, hok.2⟩
  | challengeEncrypt m user dm nonce =>
    obtain ⟨hd, hr, ho, hs, n, hn, hdrew⟩ := hok
    exact ⟨hd.append, hr, ho, hs, n, hn, hdrew.concat⟩
  | challengeEncrypted m user dm nonce nm =>
    obtain ⟨hd, hr, ho, hs, ⟨n, hn, hdrew⟩, hnm⟩ := hok
    exact ⟨hd.append, hr, ho, hs, ⟨n, hn, hdrew.concat⟩, hnm⟩

/-- The first segment leaves a handler that holds the request's derivable bytes. -/
theorem handlerOk_authenticate {req : Incoming C I (Term K)} {hd : Handler I U K (Term K)}
    {wire : List (Term K)} (hder : req.content.Derivable cfg.attacker wire)
    (ha : cfg.strategy.authenticate req now = .suspend hd) : HandlerOk cfg h wire id hd := by
  have hreg : ∀ (u : I) (r : UserKeyRecord U K),
      cfg.strategy.getUserResult req u = .ok r → cfg.Registered u r := by
    intro u r hr
    simp only [MutualKeyChallengeStrategy.getUserResult] at hr
    split at hr
    · cases hr
    · rename_i r' hu
      cases hr
      exact ⟨req.ctx, hu⟩
  obtain ⟨ctx, content⟩ := req
  cases content with
  | challenge u data =>
    cases ha
    exact ⟨hder, fun r hr => hreg u r hr⟩
  | response u data =>
    cases ha
    exact ⟨hder, fun r hr => hreg u r hr⟩
  | malformed error => cases ha

/-- A segment establishes what the next one relies on. -/
theorem handlerOk_resume {hd hd' : Handler I U K (Term K)} {seed : ℕ}
    (hok : HandlerOk cfg h w.wire id hd) (hf : w.fresh = h.length)
    (hr : cfg.strategy.resume (cfg.inputs w seed) hd = .suspend hd') :
    HandlerOk cfg (h ++ [.server (.resume id now hd (cfg.inputs w seed) (.suspended hd'))])
      w.wire id hd' := by
  cases hd with
  | responseUser m user =>
    cases user with
    | error error => cases hr
    | ok r =>
      cases hr
      exact ⟨hok.1, hok.2 r rfl⟩
  | responseVerify m user =>
    cases hr
    exact ⟨hok.1, hok.2, symbolic_verify.mp⟩
  | responseVerified m user verified => cases verified <;> cases hr
  | challengeUser m user =>
    cases user with
    | error error => cases hr
    | ok r =>
      cases hr
      exact ⟨hok.1, hok.2 r rfl⟩
  | challengeDecrypt m user =>
    simp only [MutualKeyChallengeStrategy.resume] at hr
    split at hr
    · cases hr
    · rename_i decrypted hdec
      cases hr
      refine ⟨hok.1, hok.2, ?_⟩
      rintro d rfl
      exact symbolic_decryptAndVerify hdec
  | challengeDecrypted m user decrypted =>
    cases decrypted with
    | none => cases hr
    | some d =>
      cases hr
      exact ⟨hok.1, hok.2.1, hok.2.2 d rfl⟩
  | challengeSign m user decrypted =>
    cases hr
    exact ⟨hok.1, hok.2.1, hok.2.2, rfl⟩
  | challengeSigned m user dm =>
    cases hr
    obtain ⟨hd, hreg, ho, hs⟩ := hok
    refine ⟨hd, hreg, ho, hs, w.fresh, rfl, now, cfg.inputs w seed, dm, ?_⟩
    simp [hf, Setting.inputs]
  | challengeEncrypt m user dm nonce =>
    cases hr
    obtain ⟨hd, hreg, ho, hs, n, hn, hdrew⟩ := hok
    exact ⟨hd, hreg, ho, hs, ⟨n, hn, hdrew.concat⟩, _, rfl⟩
  | challengeEncrypted m user dm nonce nm => cases hr

/-- Calls other than `id` keep what was known of them, and `id` satisfies its new handler's. -/
theorem handlers_update {calls : ℕ → Option (Call I U K (Term K))} {call : Call I U K (Term K)}
    {wire more : List (Term K)}
    (hh : ∀ id hd, calls id = some (.suspended hd) → HandlerOk cfg h wire id hd)
    (hnew : ∀ hd, call = .suspended hd → HandlerOk cfg (h ++ [e]) (wire ++ more) id hd) :
    ∀ id' hd, Function.update calls id (some call) id' = some (.suspended hd) →
      HandlerOk cfg (h ++ [e]) (wire ++ more) id' hd := by
  intro id' hd hcall
  by_cases hid : id' = id
  · subst hid
    simp only [Function.update_self, Option.some.injEq] at hcall
    exact hnew hd hcall
  · rw [Function.update_of_ne hid] at hcall
    exact (hh id' hd hcall).grow

end MutualKeyChallenge
