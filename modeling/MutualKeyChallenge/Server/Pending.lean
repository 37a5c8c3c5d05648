import MutualKeyChallenge.Server.Runs
import MutualKeyChallenge.Server.CacheRuns

/-! How long the challenge of one user stays in the cache, and what its answer comes to. -/
namespace MutualKeyChallenge
open Transition
variable {Req I U K B S : Type} [DecidableEq I] [DecidableEq B]
  {s : MutualKeyChallengeStrategy Req I U K B S} {ttlMs id now : ℕ} {req : Req}
  {h es : List (ServerEvent Req I U K B S)} {e : ServerEvent Req I U K B S}
  {w w' : Server I U K B} {key : I} {c : CachedChallenge I B}

/-- The user whose timer runs. -/
def ServerEvent.fires : ServerEvent Req I U K B S → Option I
  | .timer _ running _ => some running.key
  | _ => none

/-- The user whose challenge a verified response takes out of the cache. -/
def ServerEvent.spends : ServerEvent Req I U K B S → Option I
  | .resume _ _ (.responseVerified m _ true) _ _ => some m.userId
  | _ => none

/-- The user for whom a challenge request that ends stores a challenge. -/
def ServerEvent.replaces : ServerEvent Req I U K B S → Option I
  | .resume _ _ (.challengeEncrypted m _ _ _ _) _ _ => some m.userId
  | _ => none

/-- The event runs one of these timers. -/
def ServerEvent.runs (timers : ℕ → Option (Timer I)) : ServerEvent Req I U K B S → Bool
  | .timer t running _ => timers t = some running
  | _ => false

/-- A pending challenge stays until it is spent or replaced or a timer of its key runs. -/
theorem pending_step (hs : ServerStep s w e w')
    (hc : w.cache.challengeMap key = some c) :
    w'.cache.challengeMap key = some c ∨ e.fires = some key ∨ e.spends = some key ∨
      e.replaces = some key := by
  cases hs with
  | authenticate hfree hp =>
    rw [← authenticate_cache hp] at hc
    exact Or.inl hc
  | resume hcall hp =>
    obtain rfl | ⟨m, user, ha, rfl, _⟩ | ⟨k, value, challenge, ha, rfl, _⟩ := perform_cases hp
    · exact Or.inl hc
    · obtain rfl := MutualKeyChallengeStrategy.resume_cacheGet ha
      by_cases hk : key = m.userId
      · exact Or.inr (Or.inr (Or.inl (congrArg some hk.symm)))
      · refine Or.inl ?_
        simp only [LocalChallengeCache.get_challengeMap_ne hk, hc]
    · obtain ⟨m, user, dm, nonce, nm, rfl, rfl, _⟩ := MutualKeyChallengeStrategy.resume_cacheSet ha
      by_cases hk : key = m.userId
      · exact Or.inr (Or.inr (Or.inr (congrArg some hk.symm)))
      · refine Or.inl ?_
        simp only [LocalChallengeCache.set_challengeMap_ne hk, hc]
  | @timer t timer cache ht hf =>
    obtain ⟨_, ht', _, _, hmap⟩ := LocalChallengeCache.fire_cases hf
    rw [ht] at ht'
    cases ht'
    by_cases hk : key = timer.key
    · exact Or.inr (Or.inl (congrArg some hk.symm))
    · refine Or.inl ?_
      simp only [hmap, Function.update_of_ne hk, hc]
  | tick => exact Or.inl hc

/-! The clock and the timers. -/

theorem server_step_now (hs : ServerStep s w e w') : w.now ≤ w'.now := by
  cases hs with
  | authenticate | resume | timer => exact Nat.le_refl _
  | tick => exact Nat.le_add_right _ _

theorem server_run_now (hr : (serverMachine s ttlMs).Run w es w') : w.now ≤ w'.now := by
  induction hr with
  | nil => exact Nat.le_refl _
  | snoc _ hstep ih => exact Nat.le_trans ih (server_step_now (server_step_inv hstep))

/-- The cache goes through a run that the cache alone could have had. -/
theorem server_cache (hx : (serverMachine s ttlMs).Execution h w) :
    ∃ calls, (cacheMachine I B ttlMs).Execution calls ⟨w.now, w.cache⟩ := by
  apply Machine.Execution.invariant (P := fun _ (w : Server I U K B) =>
    ∃ calls, (cacheMachine I B ttlMs).Execution calls ⟨w.now, w.cache⟩) ⟨[], .init⟩ ?_ hx
  intro h w e w' _ ⟨calls, hcalls⟩ hstep
  cases server_step_inv hstep with
  | authenticate hfree hp =>
    rw [authenticate_cache hp]
    exact ⟨calls, hcalls⟩
  | resume hcall hp =>
    obtain rfl | ⟨m, user, _, rfl, _⟩ | ⟨k, value, challenge, _, rfl, _⟩ := perform_cases hp
    · exact ⟨calls, hcalls⟩
    · exact ⟨_, hcalls.snoc CacheStep.get.step⟩
    · exact ⟨_, hcalls.snoc CacheStep.set.step⟩
  | timer ht hf => exact ⟨_, hcalls.snoc (CacheStep.timer ht hf).step⟩
  | tick => exact ⟨_, hcalls.snoc CacheStep.tick.step⟩

theorem server_ttlMs (hx : (serverMachine s ttlMs).Execution h w) : w.cache.ttlMs = ttlMs := by
  obtain ⟨calls, hcalls⟩ := server_cache hx
  exact cache_ttlMs hcalls

/-- Requests arrived before now. -/
theorem received_le (hx : (serverMachine s ttlMs).Execution h w) :
    ∀ arrived, Received h id arrived req → arrived ≤ w.now := by
  apply Machine.Execution.invariant (P := fun h (w : Server I U K B) =>
    ∀ arrived, Received h id arrived req → arrived ≤ w.now) ?_ ?_ hx
  · rintro arrived ⟨call, hc⟩
    cases hc
  · intro h w e w' _ ih hstep arrived hr
    have hs := server_step_inv hstep
    rcases received_concat.mp hr with hr | ⟨call, rfl⟩
    · exact Nat.le_trans (ih arrived hr) (server_step_now hs)
    · cases hs
      exact Nat.le_refl _

/-- A running timer ran before or has just been started, for its full time. -/
theorem timers_step (hs : ServerStep s w e w') {t : ℕ} {timer : Timer I}
    (ht : w'.cache.timers t = some timer) :
    w.cache.timers t = some timer ∨ timer.due = w.now + timerDelay w.cache.ttlMs := by
  cases hs with
  | authenticate hfree hp =>
    rw [authenticate_cache hp] at ht
    exact Or.inl ht
  | resume hcall hp =>
    obtain rfl | ⟨m, user, _, rfl, _⟩ | ⟨k, value, challenge, _, rfl, _⟩ := perform_cases hp
    · exact Or.inl ht
    · rw [LocalChallengeCache.get_timers] at ht
      exact Or.inl ht
    · exact LocalChallengeCache.set_timers ht
  | timer _ hf => exact Or.inl (LocalChallengeCache.fire_timers hf ht)
  | tick => exact Or.inl ht

/-! From the issue of a challenge to its answer. -/

/-- In `es` no verified response reads the challenge of `key`, no challenge request replaces it,
and none of the timers `old` of `key` runs. -/
def Quiet (key : I) (old : ℕ → Option (Timer I)) (es : List (ServerEvent Req I U K B S)) : Prop :=
  ∀ e ∈ es, e.spends ≠ some key ∧ e.replaces ≠ some key ∧
    ¬ (e.fires = some key ∧ e.runs old = true)

instance (key : I) (old : ℕ → Option (Timer I)) (es : List (ServerEvent Req I U K B S)) :
    Decidable (Quiet key old es) :=
  inferInstanceAs (Decidable (∀ e ∈ es, e.spends ≠ some key ∧ e.replaces ≠ some key ∧
    ¬ (e.fires = some key ∧ e.runs old = true)))

/-- The pending challenge of `key` stays until its own timer is due, if nothing else takes it. -/
theorem pending_window {old : ℕ → Option (Timer I)} {deadline : ℕ}
    (hx : (serverMachine s ttlMs).Execution h w) (hr : (serverMachine s ttlMs).Run w es w')
    (hc : w.cache.challengeMap key = some c)
    (htimers : ∀ t timer, w.cache.timers t = some timer →
      old t = some timer ∨ deadline ≤ timer.due)
    (hdeadline : deadline ≤ w.now + timerDelay ttlMs) (hquiet : Quiet key old es)
    (hnow : w'.now < deadline) : w'.cache.challengeMap key = some c := by
  have hwindow : w.now ≤ w'.now ∧
      (∀ t timer, w'.cache.timers t = some timer → old t = some timer ∨ deadline ≤ timer.due) ∧
      (Quiet key old es → w'.now < deadline → w'.cache.challengeMap key = some c) := by
    apply Machine.Run.invariant (P := fun es (w' : Server I U K B) => w.now ≤ w'.now ∧
      (∀ t timer, w'.cache.timers t = some timer → old t = some timer ∨ deadline ≤ timer.due) ∧
      (Quiet key old es → w'.now < deadline → w'.cache.challengeMap key = some c)) hx ?_ ?_ hr
    · exact ⟨Nat.le_refl _, htimers, fun _ _ => hc⟩
    · rintro es e v v' hxv ⟨hle, hold, hkept⟩ hstep
      have hs := server_step_inv hstep
      have hclock := server_step_now hs
      refine ⟨Nat.le_trans hle hclock, ?_, ?_⟩
      · intro t timer ht
        rcases timers_step hs ht with ht | hdue
        · exact hold t timer ht
        · rw [server_ttlMs hxv] at hdue
          exact Or.inr (by omega)
      · intro hq hbefore
        obtain ⟨hspends, hreplaces, hfires⟩ := hq e (by simp)
        have hpending := hkept (fun d hd => hq d (by simp [hd])) (by omega)
        rcases pending_step hs hpending with hstays | hfired | hspent | hreplaced
        · exact hstays
        · cases hs with
          | timer ht hf =>
            obtain ⟨_, ht', hdue, _⟩ := LocalChallengeCache.fire_cases hf
            rw [ht] at ht'
            cases ht'
            rcases hold _ _ ht with hstale | hlate
            · exact (hfires ⟨hfired, decide_eq_true hstale⟩).elim
            · omega
          | authenticate | resume | tick => cases hfired
        · exact (hspends hspent).elim
        · exact (hreplaces hreplaced).elim
  exact hwindow.2.2 hquiet hnow

/-- The call that gives a challenge leaves its nonce pending for the user who asked. -/
theorem issue_stored {arrived : ℕ} {hd : Handler I U K B} {i : Inputs K S}
    {challenge : ServerChallenge B} {status : ℕ} (hx : (serverMachine s ttlMs).Execution h w)
    (hreceived : Received h id arrived req)
    (hs : ServerStep s w (.resume id now hd i (.settled (.fail challenge status))) w') :
    ∃ m r nonce returned seed, s.Challenges req arrived m r ∧
      s.verifier.encryptAndSign (s.verifier.serverKey returned) seed r.publicKey nonce =
        .ok challenge.serverRequested ∧
      w'.cache.challengeMap m.userId = some ⟨m.userId, nonce, m.requestDateTime⟩ := by
  cases hs with
  | resume hcall hp =>
    obtain ⟨m, r, dm, nonce, nm, rfl, rfl, _, rfl⟩ := perform_fail hp
    obtain ⟨hchallenges, _, returned, seed, henc⟩ := concludes_of_received hx hreceived hcall
    exact ⟨m, r, nonce, returned, seed, hchallenges, henc,
      LocalChallengeCache.set_challengeMap_self⟩

/-- The nonce that a call issues stays pending for `ttlMs` from the arrival of its request, if
nothing else takes it; the timer that was started with it is due later. -/
theorem issued_nonce_kept {arrived : ℕ} {hd : Handler I U K B} {i : Inputs K S} {v : Server I U K B}
    {challenge : ServerChallenge B} {status : ℕ} {m : ClientChallenge I B}
    (hx : (serverMachine s ttlMs).Execution h w) (hreceived : Received h id arrived req)
    (hextract : s.challengeOrResponseFunc req arrived = .ok (.clientChallenge m))
    (hm : m.requestDateTime = arrived)
    (hs : ServerStep s w (.resume id w.now hd i (.settled (.fail challenge status))) v)
    (hr : (serverMachine s ttlMs).Run v es w') (hquiet : Quiet m.userId w.cache.timers es)
    (httl : ttlMs ≤ maxDelay) (hnow : w'.now < arrived + ttlMs) :
    ∃ r nonce returned seed, s.userFunc req m.userId = some r ∧
      s.verifier.encryptAndSign (s.verifier.serverKey returned) seed r.publicKey nonce =
        .ok challenge.serverRequested ∧
      w'.cache.challengeMap m.userId = some ⟨m.userId, nonce, arrived⟩ := by
  obtain ⟨m', r, nonce, returned, seed, ⟨hm', huser⟩, henc, hpending⟩ :=
    issue_stored hx hreceived hs
  cases hextract.symm.trans hm'
  rw [hm] at hpending
  have hissued : arrived ≤ w.now := received_le hx _ hreceived
  have hstep : w.now ≤ v.now := server_step_now hs
  have hlater : v.now ≤ w'.now := server_run_now hr
  have hdelay : timerDelay ttlMs = ttlMs := timerDelay_of_le (by omega) httl
  have htimers : ∀ t timer, v.cache.timers t = some timer →
      w.cache.timers t = some timer ∨ arrived + ttlMs ≤ timer.due := by
    intro t timer ht
    rcases timers_step hs ht with hold | hdue
    · exact Or.inl hold
    · rw [server_ttlMs hx, hdelay] at hdue
      exact Or.inr (by omega)
  have hslot := pending_window (hx.snoc hs.step) hr hpending htimers (by omega) hquiet hnow
  exact ⟨r, nonce, returned, seed, huser, henc, hslot⟩

/-- A verified response that repeats the pending nonce in time ends in success. -/
theorem response_succeeds {arrived : ℕ} {m : ClientResponse I B} {r : UserKeyRecord U K}
    {hd : Handler I U K B} {i : Inputs K S} {v : Verdict U K B}
    (hx : (serverMachine s ttlMs).Execution h w) (hreceived : Received h id arrived req)
    (hresponds : s.Responds req arrived m r)
    (hverify : s.verifier.verify r.publicKey m.clientResponsed = true)
    (hc : w.cache.challengeMap m.userId = some c)
    (hm : c.clientChallenged = m.clientResponsed.message)
    (hnow : w.now ≤ c.requestDateTime + ttlMs)
    (hs : ServerStep s w (.resume id now hd i (.settled v)) w') :
    v = .success r.user r.publicKey := by
  obtain ⟨hextract, huser⟩ := hresponds
  cases hs with
  | resume hcall hp =>
    have hfollows := concludes_of_received hx hreceived hcall
    cases hd with
    | responseUser m' user =>
      obtain ⟨hm', rfl⟩ := hfollows
      cases hextract.symm.trans hm'
      simp only [MutualKeyChallengeStrategy.getUserResult, huser] at hp
      cases hp
    | responseVerify m' user => cases hp
    | responseVerified m' user verified =>
      obtain ⟨⟨hm', huser'⟩, hverified⟩ := hfollows
      cases hextract.symm.trans hm'
      cases huser.symm.trans huser'
      have hget : (w.cache.get m.userId w.now).1 = some c :=
        LocalChallengeCache.get_eq_some_iff.mpr ⟨hc, server_ttlMs hx ▸ hnow⟩
      rw [hverify] at hverified
      subst hverified
      simp only [MutualKeyChallengeStrategy.resume, if_true, Action.perform, Prod.mk.injEq,
        Call.settled.injEq, hget, MutualKeyChallengeStrategy.afterGet, hm] at hp
      exact hp.1.symm
    | challengeUser m' user => cases hextract.symm.trans hfollows.1
    | challengeDecrypt m' user => cases hextract.symm.trans hfollows.1
    | challengeDecrypted m' user d | challengeSign m' user d | challengeSigned m' user dm =>
      cases hextract.symm.trans hfollows.1.1
    | challengeEncrypt m' user dm nonce | challengeEncrypted m' user dm nonce nm =>
      cases hextract.symm.trans hfollows.1.1

end MutualKeyChallenge
