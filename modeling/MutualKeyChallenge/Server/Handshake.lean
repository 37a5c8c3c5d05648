import MutualKeyChallenge.Server.Pending

/-! One user's handshake among the calls of others: what its challenge call does, and what is kept
of its challenge. -/
namespace MutualKeyChallenge
open Transition
variable {Req I U K B S : Type}

/-! The challenge call. -/

/-- The challenge opens under the server key `key` to `nonce`, signed by its user, and every nonce
of the server's fits the user's key. -/
structure Genuine (s : MutualKeyChallengeStrategy Req I U K B S) (m : ClientChallenge I B)
    (r : UserKeyRecord U K) (key : K) (nonce : B) : Prop where
  opens : s.verifier.decryptAndVerify key r.publicKey m.clientRequested = .ok (some nonce)
  fits : ∀ random seed, ∃ nm,
    s.verifier.encryptAndSign key seed r.publicKey (s.verifier.getNonce random) = .ok nm

/-- The handler of a genuine challenge has taken no wrong turn. -/
def OnTrack (s : MutualKeyChallengeStrategy Req I U K B S) (m : ClientChallenge I B)
    (r : UserKeyRecord U K) (key : K) (nonce : B) : Handler I U K B → Prop
  | .challengeUser m' user => m' = m ∧ user = .ok r
  | .challengeDecrypt m' r' => m' = m ∧ r' = r
  | .challengeDecrypted m' r' decrypted => m' = m ∧ r' = r ∧ decrypted = some nonce
  | .challengeSign m' r' decrypted => m' = m ∧ r' = r ∧ decrypted = nonce
  | .challengeSigned m' r' dm => m' = m ∧ r' = r ∧ dm = s.verifier.sign key nonce
  | .challengeEncrypt m' r' dm n =>
    m' = m ∧ r' = r ∧ dm = s.verifier.sign key nonce ∧ ∃ random, n = s.verifier.getNonce random
  | .challengeEncrypted m' r' dm n nm =>
    m' = m ∧ r' = r ∧ dm = s.verifier.sign key nonce ∧
      ∃ seed, s.verifier.encryptAndSign key seed r.publicKey n = .ok nm
  | _ => False

/-- `challenge` gives the client its nonce back, signed, and the new nonce `n`. -/
def RepliesWith (s : MutualKeyChallengeStrategy Req I U K B S) (r : UserKeyRecord U K) (key : K)
    (nonce n : B) (challenge : ServerChallenge B) : Prop :=
  challenge.clientRequested = s.verifier.sign key nonce ∧
    ∃ seed, s.verifier.encryptAndSign key seed r.publicKey n = .ok challenge.serverRequested

variable {s : MutualKeyChallengeStrategy Req I U K B S} {m : ClientChallenge I B}
  {r : UserKeyRecord U K} {key : K} {nonce : B} {i : Inputs K S} {handler : Handler I U K B}

/-- Each segment of a genuine challenge leads to the next, the last one to the cache. -/
theorem resume_onTrack (hg : Genuine s m r key nonce)
    (hkey : s.verifier.serverKey i.returnedKey = key) (ht : OnTrack s m r key nonce handler) :
    (∃ handler', s.resume i handler = .suspend handler' ∧ OnTrack s m r key nonce handler') ∨
      ∃ n challenge, RepliesWith s r key nonce n challenge ∧
        s.resume i handler = .cacheSet m.userId ⟨m.userId, n, m.requestDateTime⟩ challenge := by
  cases handler with
  | responseUser m' user | responseVerify m' r' | responseVerified m' r' verified => cases ht
  | challengeUser m' user =>
    obtain ⟨rfl, rfl⟩ := ht
    exact Or.inl ⟨_, rfl, rfl, rfl⟩
  | challengeDecrypt m' r' =>
    obtain ⟨rfl, rfl⟩ := ht
    refine Or.inl ⟨.challengeDecrypted m' r' (some nonce), ?_, rfl, rfl, rfl⟩
    simp only [MutualKeyChallengeStrategy.resume, hkey, hg.opens]
  | challengeDecrypted m' r' decrypted =>
    obtain ⟨rfl, rfl, rfl⟩ := ht
    exact Or.inl ⟨_, rfl, rfl, rfl, rfl⟩
  | challengeSign m' r' decrypted =>
    obtain ⟨rfl, rfl, rfl⟩ := ht
    refine Or.inl ⟨_, rfl, rfl, rfl, ?_⟩
    rw [hkey]
  | challengeSigned m' r' dm =>
    obtain ⟨rfl, rfl, rfl⟩ := ht
    exact Or.inl ⟨_, rfl, rfl, rfl, rfl, i.random, rfl⟩
  | challengeEncrypt m' r' dm n =>
    obtain ⟨rfl, rfl, rfl, random, rfl⟩ := ht
    obtain ⟨nm, hnm⟩ := hg.fits random i.seed
    refine Or.inl ⟨.challengeEncrypted m' r' (s.verifier.sign key nonce)
      (s.verifier.getNonce random) nm, ?_, rfl, rfl, rfl, i.seed, hnm⟩
    simp only [MutualKeyChallengeStrategy.resume, hkey, hnm]
  | challengeEncrypted m' r' dm n nm =>
    obtain ⟨rfl, rfl, rfl, seed, hnm⟩ := ht
    exact Or.inr ⟨n, ⟨_, nm⟩, ⟨rfl, seed, hnm⟩, rfl⟩

/-! What is kept of a challenge. -/

variable [DecidableEq I] {ttlMs : ℕ} {user : I} {w w' : Server I U K B}
  {e : ServerEvent Req I U K B S} {h es : List (ServerEvent Req I U K B S)}

/-- No challenge of `user` is pending, and no timer runs for one. -/
structure Untouched (user : I) (w : Server I U K B) : Prop where
  pending : w.cache.challengeMap user = none
  timers : ∀ t timer, w.cache.timers t = some timer → timer.key ≠ user

/-- The challenge `value` of `user` was stored and no other: it is pending until a timer of `user`,
none of which is due before `due`, or a verified response takes it. -/
structure Kept (user : I) (value : CachedChallenge I B) (due : ℕ)
    (es : List (ServerEvent Req I U K B S)) (w : Server I U K B) : Prop where
  timers : ∀ t timer, w.cache.timers t = some timer → timer.key = user → due ≤ timer.due
  fired : ∀ e ∈ es, e.fires = some user → due ≤ w.now
  pending : (∀ e ∈ es, e.fires ≠ some user ∧ e.spends ≠ some user) →
    w.cache.challengeMap user = some value
  gone : (∃ e ∈ es, e.fires = some user) → w.cache.challengeMap user = none

/-- What a call stores is kept for `ttlMs`, or as long as `setTimeout` makes of it. -/
theorem Untouched.store {value : CachedChallenge I B} {first : ℕ} {call : Call I U K B}
    (hu : Untouched user w) (hfires : ∀ e ∈ es, e.fires ≠ some user) (he : e.fires ≠ some user)
    (hle : value.requestDateTime ≤ w.now) :
    Kept user value (value.requestDateTime + timerDelay w.cache.ttlMs) (es ++ [e])
      { w with
        cache := w.cache.set user value w.now
        calls := Function.update w.calls first (some call) } := by
  have hnone : ∀ d ∈ es ++ [e], d.fires ≠ some user := by
    intro d hd
    rcases List.mem_append.mp hd with hd | hd
    · exact hfires d hd
    · obtain rfl := List.mem_singleton.mp hd
      exact he
  constructor
  · intro t timer ht hkey
    rcases LocalChallengeCache.set_timers ht with hold | hdue
    · exact (hu.timers t timer hold hkey).elim
    · omega
  · intro d hd hfired
    exact (hnone d hd hfired).elim
  · intro _
    exact LocalChallengeCache.set_challengeMap_self
  · rintro ⟨d, hd, hfired⟩
    exact (hnone d hd hfired).elim

variable [DecidableEq B]

/-- A step that stores nothing for `user` brings it neither a challenge nor a timer. -/
theorem slot_step (hs : ServerStep s w e w') (hrep : e.replaces ≠ some user) :
    (w.cache.challengeMap user = none → w'.cache.challengeMap user = none) ∧
      ∀ t timer, w'.cache.timers t = some timer → timer.key = user →
        w.cache.timers t = some timer := by
  cases hs with
  | authenticate hfree hp =>
    rw [authenticate_cache hp]
    exact ⟨id, fun _ _ ht _ => ht⟩
  | resume hcall hp =>
    obtain rfl | ⟨m, r, _, rfl, _⟩ | ⟨k, value, challenge, ha, rfl, _⟩ := perform_cases hp
    · exact ⟨id, fun _ _ ht _ => ht⟩
    · constructor
      · intro hnone
        rcases LocalChallengeCache.get_forgets (k := user) with hsame | hgone
        · exact hsame.trans hnone
        · exact hgone
      · intro t timer ht _
        rwa [LocalChallengeCache.get_timers] at ht
    · obtain ⟨m, r, dm, n, nm, rfl, rfl, _⟩ := MutualKeyChallengeStrategy.resume_cacheSet ha
      have hne : user ≠ m.userId := fun heq => hrep (congrArg some heq.symm)
      constructor
      · intro hnone
        exact (LocalChallengeCache.set_challengeMap_ne hne).trans hnone
      · intro t timer ht hk
        by_cases hnext : t = w.cache.nextTimer
        · subst hnext
          rw [LocalChallengeCache.set_timers_self] at ht
          cases ht
          exact (hne hk.symm).elim
        · exact (LocalChallengeCache.set_timers_ne hnext).symm.trans ht
  | timer ht hf =>
    constructor
    · intro hnone
      rcases LocalChallengeCache.fire_forgets (k := user) hf with hsame | hgone
      · exact hsame.trans hnone
      · exact hgone
    · intro t timer ht' _
      exact LocalChallengeCache.fire_timers hf ht'
  | tick => exact ⟨id, fun _ _ ht _ => ht⟩

theorem Untouched.step (hu : Untouched user w) (hs : ServerStep s w e w')
    (hrep : e.replaces ≠ some user) : Untouched user w' := by
  obtain ⟨hnone, htimers⟩ := slot_step hs hrep
  refine ⟨hnone hu.pending, ?_⟩
  intro t timer ht hk
  exact hu.timers t timer (htimers t timer ht hk) hk

/-- Where no timer of `user` runs, none fires. -/
theorem Untouched.not_fires (hu : Untouched user w) (hs : ServerStep s w e w') :
    e.fires ≠ some user := by
  intro hfires
  cases hs with
  | timer ht hf => exact hu.timers _ _ ht (Option.some.inj hfires)
  | authenticate | resume | tick => cases hfires

theorem Kept.step {value : CachedChallenge I B} {due : ℕ} (hk : Kept user value due es w)
    (hs : ServerStep s w e w') (hrep : e.replaces ≠ some user) :
    Kept user value due (es ++ [e]) w' := by
  obtain ⟨hnone, htimers⟩ := slot_step hs hrep
  have hclock := server_step_now hs
  have hfires : e.fires = some user → due ≤ w.now ∧ w'.cache.challengeMap user = none := by
    intro hfires
    cases hs with
    | timer ht hf =>
      obtain rfl := Option.some.inj hfires
      obtain ⟨timer, ht', hdue, _, hmap⟩ := LocalChallengeCache.fire_cases hf
      cases ht.symm.trans ht'
      exact ⟨Nat.le_trans (hk.timers _ _ ht rfl) hdue, by simp [hmap]⟩
    | authenticate | resume | tick => cases hfires
  constructor
  · intro t timer ht hkey
    exact hk.timers t timer (htimers t timer ht hkey) hkey
  · intro d hd hfired
    rcases List.mem_append.mp hd with hd | hd
    · exact Nat.le_trans (hk.fired d hd hfired) hclock
    · obtain rfl := List.mem_singleton.mp hd
      exact Nat.le_trans (hfires hfired).1 hclock
  · intro hquiet
    have hold := hk.pending fun d hd => hquiet d (List.mem_append_left _ hd)
    obtain ⟨hnofire, hnospend⟩ := hquiet e (by simp)
    rcases pending_step hs hold with hkept | hfired | hspent | hreplaced
    · exact hkept
    · exact (hnofire hfired).elim
    · exact (hnospend hspent).elim
    · exact (hrep hreplaced).elim
  · rintro ⟨d, hd, hfired⟩
    rcases List.mem_append.mp hd with hd | hd
    · exact hnone (hk.gone ⟨d, hd, hfired⟩)
    · obtain rfl := List.mem_singleton.mp hd
      exact (hfires hfired).2

/-- Before anything is stored for `user`, nothing is pending for it. -/
theorem untouched_of_fresh (hx : (serverMachine s ttlMs).Execution h w)
    (hfresh : ∀ e ∈ h, e.replaces ≠ some user) : Untouched user w := by
  revert hfresh
  apply Machine.Execution.invariant (P := fun h (w : Server I U K B) =>
    (∀ e ∈ h, e.replaces ≠ some user) → Untouched user w) ?_ ?_ hx
  · intro _
    exact ⟨rfl, fun t timer ht => nomatch ht⟩
  · intro h w e w' _ ih hstep hfresh
    have hold := ih fun d hd => hfresh d (List.mem_append_left _ hd)
    exact hold.step (server_step_inv hstep) (hfresh e (by simp))

/-- Nor does any timer run for it. -/
theorem fresh_not_fires (hx : (serverMachine s ttlMs).Execution h w)
    (hfresh : ∀ e ∈ h, e.replaces ≠ some user) : ∀ e ∈ h, e.fires ≠ some user := by
  intro e he
  obtain ⟨k, hk⟩ := List.getElem?_of_mem he
  obtain ⟨v, v', hv, hstep, _⟩ := hx.origin hk
  have hu := untouched_of_fresh hv fun d hd => hfresh d ((List.take_prefix k h).subset hd)
  exact hu.not_fires (server_step_inv hstep)

/-! The two together, from the arrival of the challenge on. -/

/-- The call `first` is on its way with nothing stored, or has given its challenge, of which the
new nonce is kept. -/
inductive Stage (s : MutualKeyChallengeStrategy Req I U K B S) (ttlMs : ℕ)
    (m : ClientChallenge I B) (r : UserKeyRecord U K) (key : K) (nonce : B) (first : ℕ)
    (es : List (ServerEvent Req I U K B S)) (w : Server I U K B) : Prop
  | asked {hd} (hcall : w.calls first = some (.suspended hd))
      (ht : OnTrack s m r key nonce hd) (hu : Untouched m.userId w)
      (hfires : ∀ e ∈ es, e.fires ≠ some m.userId) : Stage s ttlMs m r key nonce first es w
  | issued {n challenge} (hcall : w.calls first = some (.settled (.fail challenge 401)))
      (hreply : RepliesWith s r key nonce n challenge)
      (hk : Kept m.userId ⟨m.userId, n, m.requestDateTime⟩
        (m.requestDateTime + timerDelay ttlMs) es w) : Stage s ttlMs m r key nonce first es w

section Stages
variable {first : ℕ} {h₀ : List (ServerEvent Req I U K B S)}

theorem Stage.step (hg : Genuine s m r key nonce) (hx : (serverMachine s ttlMs).Execution h w)
    (hle : m.requestDateTime ≤ w.now) (hstage : Stage s ttlMs m r key nonce first es w)
    (hs : ServerStep s w e w') (hrep : e.replaces = some m.userId → e.callId = some first)
    (hserved : ∀ id now hd i call, e = .resume id now hd i call →
      s.verifier.serverKey i.returnedKey = key) :
    Stage s ttlMs m r key nonce first (es ++ [e]) w' := by
  by_cases hfirst : e.callId = some first
  · cases hs with
    | authenticate hfree hp =>
      obtain rfl := Option.some.inj hfirst
      cases hstage with
      | asked hcall | issued hcall =>
        rw [hfree] at hcall
        cases hcall
    | resume hcall' hp =>
      obtain rfl := Option.some.inj hfirst
      cases hstage with
      | issued hcall =>
        rw [hcall'] at hcall
        cases hcall
      | asked hcall ht hu hfires =>
        cases hcall'.symm.trans hcall
        rcases resume_onTrack hg (hserved _ _ _ _ _ rfl) ht with
          ⟨handler', hr, ht'⟩ | ⟨n, challenge, hreply, hr⟩
        · rw [hr] at hp
          cases hp
          refine .asked (Function.update_self ..) ht' ⟨hu.pending, hu.timers⟩ ?_
          intro d hd
          rcases List.mem_append.mp hd with hd | hd
          · exact hfires d hd
          · obtain rfl := List.mem_singleton.mp hd
            exact nofun
        · rw [hr] at hp
          cases hp
          refine .issued (Function.update_self ..) hreply ?_
          rw [← server_ttlMs hx]
          exact hu.store hfires nofun hle
    | timer | tick => cases hfirst
  · have hnorep : e.replaces ≠ some m.userId := fun hr => hfirst (hrep hr)
    cases hstage with
    | asked hcall ht hu hfires =>
      refine .asked ((other_call hs hfirst).trans hcall) ht (hu.step hs hnorep) ?_
      intro d hd
      rcases List.mem_append.mp hd with hd | hd
      · exact hfires d hd
      · obtain rfl := List.mem_singleton.mp hd
        exact hu.not_fires hs
    | issued hcall hreply hk =>
      exact .issued ((other_call hs hfirst).trans hcall) hreply (hk.step hs hnorep)

/-- A genuine challenge that arrives before anything was stored for its user, with no other stored
for it afterwards, is at one of its stages ever after. -/
theorem stage_run {w₀ w₁ : Server I U K B} {req : Req} {call : Call I U K B}
    (hg : Genuine s m r key nonce) (hx : (serverMachine s ttlMs).Execution h₀ w₀)
    (hfresh : ∀ e ∈ h₀, e.replaces ≠ some m.userId)
    (hextract : s.challengeOrResponseFunc req w₀.now = .ok (.clientChallenge m))
    (hm : m.requestDateTime = w₀.now) (huser : s.userFunc req m.userId = some r)
    (harrive : ServerStep s w₀ (.authenticate first w₀.now req call) w₁)
    (hr : (serverMachine s ttlMs).Run w₁ es w)
    (hrep : ∀ e ∈ es, e.replaces = some m.userId → e.callId = some first)
    (hserved : ∀ id now hd i call, .resume id now hd i call ∈ es →
      s.verifier.serverKey i.returnedKey = key) :
    Stage s ttlMs m r key nonce first es w := by
  have hx₁ := hx.snoc harrive.step
  have hinv : m.requestDateTime ≤ w.now ∧
      ((∀ e ∈ es, e.replaces = some m.userId → e.callId = some first) →
        (∀ id now hd i call, .resume id now hd i call ∈ es →
          s.verifier.serverKey i.returnedKey = key) →
        Stage s ttlMs m r key nonce first es w) := by
    apply Machine.Run.invariant (P := fun es (w : Server I U K B) => m.requestDateTime ≤ w.now ∧
      ((∀ e ∈ es, e.replaces = some m.userId → e.callId = some first) →
        (∀ id now hd i call, .resume id now hd i call ∈ es →
          s.verifier.serverKey i.returnedKey = key) →
        Stage s ttlMs m r key nonce first es w)) hx₁ ?_ ?_ hr
    · refine ⟨hm ▸ server_step_now harrive, fun _ _ => ?_⟩
      have hu := untouched_of_fresh hx hfresh
      cases harrive with
      | authenticate hfree hp =>
        rw [MutualKeyChallengeStrategy.authenticate_challenges ⟨hextract, huser⟩] at hp
        cases hp
        refine .asked (Function.update_self ..) ⟨rfl, rfl⟩ ⟨hu.pending, hu.timers⟩
          (by simp)
    · rintro es e v v' hxv ⟨hle, ih⟩ hstep
      have hs := server_step_inv hstep
      refine ⟨Nat.le_trans hle (server_step_now hs), ?_⟩
      intro hrep hserved
      have hstage := ih (fun d hd => hrep d (List.mem_append_left _ hd))
        (fun id now hd i call hmem => hserved id now hd i call (List.mem_append_left _ hmem))
      refine hstage.step hg hxv hle hs (hrep e (by simp)) ?_
      rintro id now hd i call rfl
      exact hserved id now hd i call (by simp)
  exact hinv.2 hrep hserved

end Stages

/-! The answer. -/

section Answer
variable {id now arrived : ℕ} {req : Req} {hd : Handler I U K B} {v : Verdict U K B}

/-- A call that reads the cache is over. -/
theorem spends_settled {call : Call I U K B} {m : ClientResponse I B}
    (hx : (serverMachine s ttlMs).Execution h w)
    (he : .resume id now (.responseVerified m r true) i call ∈ h) :
    ∃ v, w.calls id = some (.settled v) := by
  obtain ⟨k, hk⟩ := List.getElem?_of_mem he
  obtain ⟨v, v', _, hstep, _⟩ := hx.origin hk
  cases server_step_inv hstep with
  | resume hcall hp =>
    simp only [MutualKeyChallengeStrategy.resume, if_true, Action.perform, Prod.mk.injEq] at hp
    obtain ⟨rfl, _⟩ := hp
    exact ⟨_, settled_of_verdict hx (given_verdict he)⟩

/-- The call of a response gets its verdict when it is resumed, not when it arrives. -/
theorem response_resumed {m : ClientResponse I B} (hx : (serverMachine s ttlMs).Execution h w)
    (hs : ServerStep s w e w') (hreceived : Received (h ++ [e]) id arrived req)
    (hextract : s.challengeOrResponseFunc req arrived = .ok (.clientResponse m))
    (hv : e.verdictOf id = some v) : ∃ hd i, e = .resume id w.now hd i (.settled v) := by
  cases hs with
  | @authenticate id' req' call cache hfree hp =>
    have hcall : id' = id ∧ call = .settled v := by
      cases call with
      | settled v' => simpa [ServerEvent.verdictOf] using hv
      | suspended handler | rejected e => cases hv
    obtain ⟨rfl, rfl⟩ := hcall
    have hnow : Received (h ++ [.authenticate id' w.now req' (.settled v)]) id' w.now req' :=
      ⟨.settled v, by simp⟩
    have hx' := hx.snoc (ServerStep.authenticate hfree hp).step
    obtain ⟨rfl, rfl⟩ := received_unique hx' hreceived hnow
    simp only [MutualKeyChallengeStrategy.authenticate, hextract] at hp
    cases hp
  | @resume id' inputs handler call cache hcall hp =>
    cases call with
    | settled v' =>
      obtain ⟨rfl, rfl⟩ : id' = id ∧ v' = v := by simpa [ServerEvent.verdictOf] using hv
      exact ⟨_, _, rfl⟩
    | suspended handler | rejected e => cases hv
  | timer | tick => cases hv

/-- A success takes a pending challenge out of the cache. -/
theorem success_takes {found : U} {info : K}
    (hs : ServerStep s w (.resume id now hd i (.settled (.success found info))) w') :
    ∃ m r, w.calls id = some (.suspended (.responseVerified m r true)) ∧
      w.cache.challengeMap m.userId ≠ none ∧ w'.cache.Forgotten m.userId := by
  cases hs with
  | resume hcall hp =>
    obtain ⟨m, r, c, rfl, _, _, hget, _⟩ := perform_success hp
    have hpending : w.cache.challengeMap m.userId ≠ none := by
      rw [(LocalChallengeCache.get_eq_some_iff.mp hget).1]
      exact Option.some_ne_none c
    refine ⟨m, r, hcall, hpending, ?_⟩
    simp only [MutualKeyChallengeStrategy.resume, if_true, Action.perform, Prod.mk.injEq] at hp
    rw [← hp.2]
    exact LocalChallengeCache.get_forgotten hpending

/-- The response that repeats a kept nonce in time succeeds, and leaves nothing behind, exactly
when no timer has run for its user, as none does if `setTimeout` takes `ttlMs` as it is. -/
theorem answer_iff {m : ClientResponse I B} {date : ℕ} (hx : (serverMachine s ttlMs).Execution h w)
    (hreceived : Received h id arrived req) (hresponds : s.Responds req arrived m r)
    (hverify : s.verifier.verify r.publicKey m.clientResponsed = true)
    (hk : Kept m.userId ⟨m.userId, m.clientResponsed.message, date⟩ (date + timerDelay ttlMs) es w)
    (hspends : ∀ e ∈ es, e.spends ≠ some m.userId) (hle : date ≤ w.now)
    (hnow : w.now < date + ttlMs)
    (hs : ServerStep s w (.resume id now hd i (.settled v)) w') :
    (v = .success r.user r.publicKey ∧ w'.cache.Forgotten m.userId) ↔
      ttlMs ≤ maxDelay ∨ ∀ e ∈ es, e.fires ≠ some m.userId := by
  have htaken : v = .success r.user r.publicKey → w.cache.challengeMap m.userId ≠ none ∧
      w'.cache.Forgotten m.userId := by
    rintro rfl
    obtain ⟨m', r', hcall, hpending, hgone⟩ := success_takes hs
    obtain ⟨⟨hm', _⟩, _⟩ := concludes_of_received hx hreceived hcall
    cases hresponds.1.symm.trans hm'
    exact ⟨hpending, hgone⟩
  have hpositive : date < date + ttlMs := Nat.lt_of_le_of_lt hle hnow
  constructor
  · rintro ⟨hsuccess, _⟩
    by_contra hcond
    push Not at hcond
    exact (htaken hsuccess).1 (hk.gone hcond.2)
  · intro hcond
    have hnofire : ∀ e ∈ es, e.fires ≠ some m.userId := by
      rcases hcond with httl | hnofire
      · intro e he hfired
        have hdue := hk.fired e he hfired
        rw [timerDelay_of_le (by omega) httl] at hdue
        omega
      · exact hnofire
    have hpending := hk.pending fun e he => ⟨hnofire e he, hspends e he⟩
    have hsuccess := response_succeeds hx hreceived hresponds hverify hpending rfl
      (Nat.le_of_lt hnow) hs
    exact ⟨hsuccess, (htaken hsuccess).2⟩

end Answer

end MutualKeyChallenge
