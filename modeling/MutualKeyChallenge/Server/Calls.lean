import MutualKeyChallenge.Machine
import MutualKeyChallenge.Server.MutualKeyChallengeStrategy

/-! One strategy and its cache under any number of interleaved `authenticate` calls. -/
namespace MutualKeyChallenge
open Transition
variable {Req I U K B S : Type} [DecidableEq I] [DecidableEq B]

/-- An `authenticate` call: suspended at an `await`, finished with its one verdict, or its
promise rejected. -/
inductive Call (I U K B : Type)
  | suspended (handler : Handler I U K B)
  | settled (verdict : Verdict U K B)
  | rejected (thrown : Thrown)

structure Server (I U K B : Type) where
  now : ℕ
  cache : LocalChallengeCache I B
  calls : ℕ → Option (Call I U K B)

/-- `authenticate id req`: the request arrives. `resume id i`: the promise a call waits for has
resolved. `timer t`: the event loop runs a due timer. `tick ms`: time passes. -/
inductive ServerMove (Req K S : Type)
  | authenticate (id : ℕ) (req : Req)
  | resume (id : ℕ) (inputs : Inputs K S)
  | timer (t : ℕ)
  | tick (ms : ℕ)

inductive ServerEvent (Req I U K B S : Type)
  | authenticate (id now : ℕ) (req : Req) (after : Call I U K B)
  | resume (id now : ℕ) (before : Handler I U K B) (inputs : Inputs K S)
      (after : Call I U K B)
  | timer (t : ℕ) (timer : Timer I) (now : ℕ)
  | tick (ms : ℕ)

/-- Run the end of a segment against the local cache, which answers in the same segment. -/
def Action.perform (now : ℕ) (cache : LocalChallengeCache I B) :
    Action I U K B → Call I U K B × LocalChallengeCache I B
  | .suspend h => (.suspended h, cache)
  | .verdict v => (.settled v, cache)
  | .reject e => (.rejected e, cache)
  | .cacheGet message user =>
    let got := cache.get message.userId now
    (.settled (MutualKeyChallengeStrategy.afterGet message user got.1), got.2)
  | .cacheSet key value challenge =>
    (.settled (MutualKeyChallengeStrategy.afterSet challenge), cache.set key value now)

variable {now : ℕ} {cache cache' : LocalChallengeCache I B} {action : Action I U K B}
  {call : Call I U K B}

/-- A segment leaves the cache alone, reads one key of it or writes one key of it. -/
theorem perform_cases (h : action.perform now cache = (call, cache')) :
    cache' = cache ∨
      (∃ message user, action = .cacheGet message user ∧
        cache' = (cache.get message.userId now).2 ∧
        call = .settled (MutualKeyChallengeStrategy.afterGet message user
          (cache.get message.userId now).1)) ∨
      (∃ key value challenge, action = .cacheSet key value challenge ∧
        cache' = cache.set key value now ∧ call = .settled (.fail challenge 401)) := by
  cases action with
  | suspend handler | verdict v | reject e =>
    cases h
    exact Or.inl rfl
  | cacheGet message user =>
    cases h
    exact Or.inr (Or.inl ⟨message, user, rfl, rfl, rfl⟩)
  | cacheSet key value challenge =>
    cases h
    exact Or.inr (Or.inr ⟨key, value, challenge, rfl, rfl, rfl⟩)

/-- A call stays suspended exactly when its segment ended at an `await`. -/
theorem perform_suspended {handler : Handler I U K B}
    (h : action.perform now cache = (.suspended handler, cache')) :
    action = .suspend handler ∧ cache' = cache := by
  cases action <;> cases h
  exact ⟨rfl, rfl⟩

/-- The first segment of a call leaves the cache alone. -/
theorem authenticate_cache {s : MutualKeyChallengeStrategy Req I U K B S} {req : Req}
    (h : (s.authenticate req now).perform now cache = (call, cache')) : cache' = cache := by
  obtain ⟨handler, ha⟩ | ⟨error, ha⟩ | ⟨e, ha⟩ :=
    MutualKeyChallengeStrategy.authenticate_cases (s := s) req now <;>
    rw [ha] at h <;> cases h <;> rfl

section Segment
variable {s : MutualKeyChallengeStrategy Req I U K B S} {i : Inputs K S} {handler : Handler I U K B}

/-- A call gives a challenge only in the segment that stores its nonce. -/
theorem perform_fail {challenge : ServerChallenge B} {status : ℕ}
    (h : (s.resume i handler).perform now cache = (.settled (.fail challenge status), cache')) :
    ∃ m user dm nonce nm, handler = .challengeEncrypted m user dm nonce nm ∧
      challenge = ⟨dm, nm⟩ ∧ status = 401 ∧
      cache' = cache.set m.userId ⟨m.userId, nonce, m.requestDateTime⟩ now := by
  generalize ha : s.resume i handler = action at h
  cases action with
  | suspend handler' | reject e => cases h
  | verdict v =>
    cases h
    obtain ⟨error, he⟩ := MutualKeyChallengeStrategy.resume_verdict ha
    cases he
  | cacheGet m user =>
    simp only [Action.perform, Prod.mk.injEq, Call.settled.injEq,
      MutualKeyChallengeStrategy.afterGet] at h
    obtain ⟨hv, _⟩ := h
    split at hv
    · cases hv
    · split at hv <;> cases hv
  | cacheSet key value challenge' =>
    cases h
    obtain ⟨m, user, dm, nonce, nm, rfl, rfl, rfl, rfl⟩ :=
      MutualKeyChallengeStrategy.resume_cacheSet ha
    exact ⟨m, user, dm, nonce, nm, rfl, rfl, rfl, rfl⟩

/-- A call succeeds only in the segment that finds the nonce of a verified response pending. -/
theorem perform_success {user : U} {info : K}
    (h : (s.resume i handler).perform now cache = (.settled (.success user info), cache')) :
    ∃ m r c, handler = .responseVerified m r true ∧ user = r.user ∧ info = r.publicKey ∧
      (cache.get m.userId now).1 = some c ∧ c.clientChallenged = m.clientResponsed.message := by
  generalize ha : s.resume i handler = action at h
  cases action with
  | suspend handler' | reject e => cases h
  | verdict v =>
    cases h
    obtain ⟨error, he⟩ := MutualKeyChallengeStrategy.resume_verdict ha
    cases he
  | cacheGet m r =>
    obtain rfl := MutualKeyChallengeStrategy.resume_cacheGet ha
    simp only [Action.perform, Prod.mk.injEq, Call.settled.injEq,
      MutualKeyChallengeStrategy.afterGet] at h
    obtain ⟨hv, _⟩ := h
    split at hv
    · cases hv
    · rename_i c hget
      split at hv
      · rename_i heq
        cases hv
        exact ⟨m, r, c, rfl, rfl, rfl, hget, heq⟩
      · cases hv
  | cacheSet key value challenge => cases h

end Segment

namespace Server
variable (s : MutualKeyChallengeStrategy Req I U K B S)

def new (ttlMs : ℕ) : Server I U K B where
  now := 0
  cache := .new ttlMs
  calls := fun _ => none

def step (w : Server I U K B) :
    ServerMove Req K S → Option (Server I U K B × ServerEvent Req I U K B S)
  | .authenticate id req =>
    match w.calls id with
    | some _ => none
    | none =>
      let p := (s.authenticate req w.now).perform w.now w.cache
      some ({ w with cache := p.2, calls := Function.update w.calls id (some p.1) },
        .authenticate id w.now req p.1)
  | .resume id inputs =>
    match w.calls id with
    | some (.suspended handler) =>
      let p := (s.resume inputs handler).perform w.now w.cache
      some ({ w with cache := p.2, calls := Function.update w.calls id (some p.1) },
        .resume id w.now handler inputs p.1)
    | _ => none
  | .timer t =>
    match w.cache.timers t, w.cache.fire t w.now with
    | some timer, some cache => some ({ w with cache }, .timer t timer w.now)
    | _, _ => none
  | .tick ms => some ({ w with now := w.now + ms }, .tick ms)

end Server

/-- The strategy with a `LocalChallengeCache`, from an empty cache and no calls. -/
def serverMachine (s : MutualKeyChallengeStrategy Req I U K B S) (ttlMs : ℕ) :
    Machine (Server I U K B) (ServerMove Req K S) (ServerEvent Req I U K B S) where
  init := .new ttlMs
  step := Server.step s

end MutualKeyChallenge
