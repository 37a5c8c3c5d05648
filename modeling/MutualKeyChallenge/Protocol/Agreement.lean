import MutualKeyChallenge.Protocol.Secrecy

/-! Every success is the one answer to one challenge. -/
namespace MutualKeyChallenge
open Transition Symbolic
variable {C I U K : Type}

/-- The attacker may know a client's nonce once it is drawn and a server's once its challenge
has left; nothing stays sealed. -/
def announced : Knowledge C I U K where
  opened h n :=
    (∃ k run args, StartedAt h k run args ∧ args.nonce = .nonce n) ∨
      ∃ k id request user d, FailedAt h k id request user d (.nonce n)
  sealedFor _ _ _ := False

variable [DecidableEq I] [DecidableEq K] {cfg : Setting C I U K}
  {h : List (WorldEvent C I U K)} {w w' : World I U K} {e : WorldEvent C I U K}
  {id id' k k' j now now' run : ℕ} {args : HandshakeRun I K (Term K)}
  {request : ClientChallenge I (Term K)} {response response' : ClientResponse I (Term K)}
  {user user' : UserKeyRecord U K} {d n m : Term K} {key : K}

omit [DecidableEq I] [DecidableEq K] in
theorem announced_plaintext {seed : ℕ} (ha : announced.Allows cfg h (.aenc key seed m)) :
    announced.Allows cfg h m := by
  rcases ha with hm | ⟨_, hf⟩
  · exact hm
  · exact hf.elim

omit [DecidableEq I] [DecidableEq K] in
theorem announced_grows : (announced : Knowledge C I U K).Grows where
  opened := by
    rintro h e n (⟨k, run, args, hs, hn⟩ | ⟨k, id, request, user, d, hf⟩)
    · exact Or.inl ⟨k, run, args, hs.concat, hn⟩
    · exact Or.inr ⟨k, id, request, user, d, hf.concat⟩
  sealedFor _ _ _ _ hf := hf

theorem announced_guards : Guards cfg (announced : Knowledge C I U K) where
  grows := announced_grows
  started := by
    intro h e w run args seed hx hs
    have hn := (started_facts hx hs).1
    rw [hn]
    exact Or.inl (Or.inl ⟨h.length, run, args, hs, hn⟩)
  answered := by
    intro h e u w run args seed m _ _ _ _ _ hm _
    exact announced_grows.mono (announced_plaintext hm)
  failed := by
    intro h e u w id request user seed d n _ _ hx hf hm _
    obtain ⟨_, _, ⟨g, _, rfl, _⟩, _⟩ := failed_facts hx hf
    exact ⟨announced_grows.mono (announced_plaintext hm), Or.inr ⟨_, _, _, _, _, hf⟩⟩

/-- A signature of an honest client's key was made in one of that client's runs. -/
theorem client_signed (hx : cfg.world.Execution h w) (hkey : cfg.Honest key)
    (hd : Derivable cfg.attacker w.wire (.sig key m)) :
    (∃ j run args, StartedAt h j run args ∧ args.clientKey = key ∧ args.nonce = m) ∨
      ∃ j run args, AnsweredAt h j run args m ∧ args.clientKey = key := by
  have hs := signed_of_safe (announced_guards.derivable_allowed hx hd) hkey.1
  generalize hk : key = key' at hs
  cases hs with
  | started hs => exact Or.inl ⟨_, _, _, hs, rfl, rfl⟩
  | answered ha => exact Or.inr ⟨_, _, _, ha, rfl⟩
  | returned | challenged | issued => exact absurd hk hkey.2

/-- A signature of the server's key was made for a challenge or by the application. -/
theorem server_signed (hx : cfg.world.Execution h w)
    (hkey : cfg.attacker.owns cfg.serverKey = false)
    (hd : Derivable cfg.attacker w.wire (.sig cfg.serverKey m)) :
    (∃ j id request user d n, FailedAt h j id request user d n ∧ (m = d ∨ m = n)) ∨
      ∃ j id now response user bytes, SucceededAt h j id now response user ∧
        bytes ∈ cfg.onSuccess user.user now ∧ m = .data bytes := by
  have hs := signed_of_safe (announced_guards.derivable_allowed hx hd) hkey
  generalize hk : cfg.serverKey = key' at hs
  cases hs with
  | started hs => exact absurd hk.symm (started_facts hx hs).2.2
  | answered ha =>
    obtain ⟨⟨s, _, _, hs⟩, _⟩ := answered_facts hx ha
    exact absurd hk.symm (started_facts hx hs).2.2
  | returned hf => exact Or.inl ⟨_, _, _, _, _, _, hf, Or.inl rfl⟩
  | challenged hf => exact Or.inl ⟨_, _, _, _, _, _, hf, Or.inr rfl⟩
  | issued hs hb => exact Or.inr ⟨_, _, _, _, _, _, hs, hb, rfl⟩

/-- A client can answer a server nonce only after its challenge was sent. -/
theorem answered_after_failed (hx : cfg.world.Execution h w)
    (hf : FailedAt h k id request user d n) (ha : AnsweredAt h j run args n) : k < j := by
  obtain ⟨_, u, hu, _, ⟨seed, hder⟩, _⟩ := answered_facts hx ha
  have hn := announced_plaintext (announced_guards.derivable_allowed hu hder)
  obtain ⟨_, _, ⟨g, _, rfl, _⟩, _⟩ := failed_facts hx hf
  obtain ⟨k', run', args', hs, heq⟩ | ⟨k', id', request', user', d', hf'⟩ := hn
  · exact absurd heq (failed_not_started hx hf hs.of_take.2)
  · rw [failed_unique hx hf hf'.of_take.2]
    exact hf'.of_take.1

/-- Only the end of a challenge request adds to the cache. -/
theorem cached_step {u : I} {c : CachedChallenge I (Term K)} (hs : WorldStep cfg w e w')
    (hc : w'.server.cache.challengeMap u = some c) :
    w.server.cache.challengeMap u = some c ∨
      ∃ id request user d, FailedAt (h ++ [e]) h.length id request user d c.clientChallenged := by
  cases hs with
  | authenticate _ _ hp =>
    rw [← authenticate_cache hp]
    exact Or.inl hc
  | @resume id seed hd call cache hcall hp =>
    simp only [Setting.served] at hc
    obtain rfl | ⟨message, user, _, rfl, _⟩ | ⟨key, value, challenge, ha, rfl, rfl⟩ :=
      perform_cases hp
    · exact Or.inl hc
    · have hforget : (w.server.cache.get message.userId w.server.now).2.challengeMap u =
          w.server.cache.challengeMap u ∨
          (w.server.cache.get message.userId w.server.now).2.challengeMap u = none :=
        LocalChallengeCache.get_forgets
      rcases hforget with heq | hnone
      · exact Or.inl (heq ▸ hc)
      · rw [hnone] at hc
        cases hc
    · obtain ⟨request, user, dm, nonce, nm, rfl, rfl, rfl, rfl⟩ :=
        MutualKeyChallengeStrategy.resume_cacheSet ha
      by_cases hu : u = request.userId
      · subst hu
        simp only [LocalChallengeCache.set_challengeMap_self, Option.some.injEq] at hc
        subst hc
        exact Or.inr ⟨id, request, user, dm.message, w.server.now, cfg.inputs w seed, dm, nm,
          by simp, rfl⟩
      · rw [LocalChallengeCache.set_challengeMap_ne hu] at hc
        exact Or.inl hc
  | timer ht hf =>
    simp only [Setting.served] at hc
    rcases LocalChallengeCache.fire_forgets hf (k := u) with heq | hnone
    · exact Or.inl (heq ▸ hc)
    · rw [hnone] at hc
      cases hc
  | tick => exact Or.inl hc
  | started => exact Or.inl hc
  | threw => exact Or.inl hc
  | answered => exact Or.inl hc

/-- The challenge a success answered, at the index where it was issued. -/
theorem succeeded_challenge (hx : cfg.world.Execution h w)
    (hs : SucceededAt h k id now response user) :
    ∃ i id' request user' d, i < k ∧
      FailedAt h i id' request user' d response.clientResponsed.message ∧
      request.userId = response.userId ∧ now ≤ request.requestDateTime + cfg.ttlMs := by
  obtain ⟨_, _, u, hu, _, c, hc, hm, hexp⟩ := succeeded_facts hx hs
  obtain ⟨_, i, id', request, user', d, hf, huid, hdate⟩ := (consistent hu).cached _ _ hc
  rw [hm] at hf
  rw [← hdate] at hexp
  exact ⟨i, id', request, user', d, hf.of_take.1, hf.of_take.2, huid, hexp⟩

/-- A success takes its challenge out of the cache. -/
theorem succeeded_takes {i : Inputs K ℕ}
    (hs : WorldStep cfg w (.server (.resume id now (.responseVerified response user true) i
      (.settled (.success user.user user.publicKey)))) w') :
    w'.server.cache.challengeMap response.userId = none := by
  generalize he : WorldEvent.server _ = e at hs
  cases hs <;> cases he
  rename_i seed cache hcall hp
  have hcache : (w.server.cache.get response.userId w.server.now).2 = cache :=
    congrArg Prod.snd hp
  rw [← hcache]
  exact LocalChallengeCache.get_challengeMap_self

/-- Once answered, a challenge is in the cache under no id. -/
theorem succeeded_spent (hx : cfg.world.Execution h w) :
    ∀ k id now response user, SucceededAt h k id now response user →
      ∀ u c, w.server.cache.challengeMap u = some c →
        c.clientChallenged ≠ response.clientResponsed.message := by
  apply Machine.Execution.invariant (P := fun h (w : World I U K) =>
    ∀ k id now response user, SucceededAt h k id now response user →
      ∀ u c, w.server.cache.challengeMap u = some c →
        c.clientChallenged ≠ response.clientResponsed.message) ?_ ?_ hx
  · rintro k id now response user ⟨i, hk⟩
    simp at hk
  · intro h w e w' hx ih hstep k id now response user hs u c hc heq
    have hx' := hx.snoc hstep
    obtain ⟨i, id', request, user', d, hik, hf, huid, _⟩ := succeeded_challenge hx' hs
    have hkl : k < (h ++ [e]).length := by
      obtain ⟨_, hk⟩ := hs
      exact (List.getElem?_eq_some_iff.mp hk).1
    rcases cached_step (world_step_inv hstep) hc with hold | ⟨id2, request2, user2, d2, hf2⟩
    · obtain ⟨_, i2, id2, request2, user2, d2, hf2, huid2, _⟩ := (consistent hx).cached u c hold
      have hf2' : FailedAt (h ++ [e]) i2 id2 request2 user2 d2 c.clientChallenged := hf2.concat
      rw [heq] at hf2'
      have hi := failed_unique hx' hf hf2'
      subst hi
      obtain ⟨_, rfl, _⟩ := hf.unique hf2'
      obtain ⟨inp, hk⟩ := hs
      rcases getElem?_concat_cases hk with hk | ⟨_, rfl⟩
      · exact ih k id now response user ⟨inp, hk⟩ u c hold heq
      · have hnone := succeeded_takes (world_step_inv hstep)
        rw [← huid, huid2, hc] at hnone
        cases hnone
    · rw [heq] at hf2
      have hi := failed_unique hx' hf hf2
      simp at hkl
      omega

/-- Two successes never answer the same challenge. -/
theorem succeeded_unique (hx : cfg.world.Execution h w)
    (h1 : SucceededAt h k id now response user)
    (h2 : SucceededAt h k' id' now' response' user')
    (heq : response.clientResponsed.message = response'.clientResponsed.message) : k = k' := by
  have once : ∀ {k k' id id' now now' response response'} {user user' : UserKeyRecord U K},
      SucceededAt h k id now response user → SucceededAt h k' id' now' response' user' →
      response.clientResponsed.message = response'.clientResponsed.message → ¬ k < k' := by
    intro k k' id id' now now' response response' user user' h1 h2 heq hlt
    obtain ⟨_, _, u, hu, _, c, hc, hm, _⟩ := succeeded_facts hx h2
    obtain ⟨i, hk⟩ := h1
    have h1' : SucceededAt (h.take k') k id now response user :=
      ⟨i, by rw [List.getElem?_take_of_lt hlt]; exact hk⟩
    exact succeeded_spent hu _ _ _ _ _ h1' _ c hc (hm.trans heq.symm)
  rcases Nat.lt_trichotomy k k' with hlt | hk | hgt
  · exact (once h1 h2 heq hlt).elim
  · exact hk
  · exact (once h2 h1 heq.symm hgt).elim

/-- A success for an honest client's key answers a challenge issued for its user id, and a run of
that client answered the challenge in between. -/
theorem succeeded_answered (hx : cfg.world.Execution h w)
    (hs : SucceededAt h k id now response user) (hhonest : cfg.Honest user.publicKey) :
    ∃ i j id' request user' d run args, i < j ∧ j < k ∧
      FailedAt h i id' request user' d response.clientResponsed.message ∧
      request.userId = response.userId ∧ now ≤ request.requestDateTime + cfg.ttlMs ∧
      AnsweredAt h j run args response.clientResponsed.message ∧
      args.clientKey = user.publicKey := by
  obtain ⟨i, id', request, user', d, hik, hf, huid, hexp⟩ := succeeded_challenge hx hs
  obtain ⟨_, hsig, u, hu, hder, _⟩ := succeeded_facts hx hs
  have hd := hder.2
  rw [hsig] at hd
  obtain ⟨j, run, args, hst, _, hn⟩ | ⟨j, run, args, ha, hkey⟩ := client_signed hu hhonest hd
  · exact absurd hn (failed_not_started hx hf hst.of_take.2)
  · exact ⟨i, j, id', request, user', d, run, args, answered_after_failed hx hf ha.of_take.2,
      ha.of_take.1, hf, huid, hexp, ha.of_take.2, hkey⟩

/-- Injective agreement. Whatever the attacker does, a success for an honest client's key with
the nonce `M` is preceded by the `getNonce` and the `this.fail(challenge, 401)` of one call that
issued `M` for the same user id at most `ttlMs` before the cache was read, and, after that, by a
run of that client that answered `M`. No two successes share a nonce or a client run. -/
theorem server_injective_agreement (hx : cfg.world.Execution h w) :
    (∀ k id now response user, SucceededAt h k id now response user →
      cfg.Honest user.publicKey →
      ∃ g i j id' request user' d run args, g < i ∧ i < j ∧ j < k ∧
        DrewAt h g id' request user' response.clientResponsed.message ∧
        FailedAt h i id' request user' d response.clientResponsed.message ∧
        request.userId = response.userId ∧ now ≤ request.requestDateTime + cfg.ttlMs ∧
        AnsweredAt h j run args response.clientResponsed.message ∧
        args.clientKey = user.publicKey) ∧
    ∀ k id now response user k' id' now' response' user',
      SucceededAt h k id now response user → SucceededAt h k' id' now' response' user' →
      (response.clientResponsed.message = response'.clientResponsed.message ∨
        ∃ run j args j' args', AnsweredAt h j run args response.clientResponsed.message ∧
          AnsweredAt h j' run args' response'.clientResponsed.message) → k = k' := by
  constructor
  · intro k id now response user hs hhonest
    obtain ⟨i, j, id', request, user', d, run, args, hij, hjk, hf, huid, hexp, ha, hkey⟩ :=
      succeeded_answered hx hs hhonest
    obtain ⟨_, _, ⟨g, hg, _, hdrew⟩, _⟩ := failed_facts hx hf
    exact ⟨g, i, j, id', request, user', d, run, args, hg, hij, hjk, hdrew, hf, huid, hexp, ha,
      hkey⟩
  · rintro k id now response user k' id' now' response' user' h1 h2
      (heq | ⟨run, j, args, j', args', ha, ha'⟩)
    · exact succeeded_unique hx h1 h2 heq
    · have hj := answered_unique hx ha ha'
      subst hj
      exact succeeded_unique hx h1 h2 (ha.unique ha').2.2

/-- In the undisturbed handshake, call 1 succeeds at index 13 with the nonce drawn at index 6. -/
theorem server_injective_agreement_handshake :
    let h := twoUsers.world.history handshakeMoves
    SucceededAt h 13 1 0 ⟨1, ⟨.nonce 6, .sig 1 (.nonce 6)⟩⟩ ⟨1, 1⟩ ∧
      ∃ g i j id' request user' d run args, g < i ∧ i < j ∧ j < 13 ∧
        DrewAt h g id' request user' (.nonce 6) ∧ FailedAt h i id' request user' d (.nonce 6) ∧
        request.userId = 1 ∧ 0 ≤ request.requestDateTime + twoUsers.ttlMs ∧
        AnsweredAt h j run args (.nonce 6) ∧ args.clientKey = 1 := by
  obtain ⟨w, hx⟩ := twoUsers.world.history_execution handshakeMoves
  have hs : SucceededAt (twoUsers.world.history handshakeMoves) 13 1 0
      ⟨1, ⟨.nonce 6, .sig 1 (.nonce 6)⟩⟩ ⟨1, 1⟩ := ⟨_, rfl⟩
  exact ⟨hs, (server_injective_agreement hx).1 13 1 0 _ _ hs (by decide)⟩

end MutualKeyChallenge
