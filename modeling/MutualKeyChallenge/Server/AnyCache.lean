import MutualKeyChallenge.Server.Isolation

/-! The strategy over any `ChallengeCache`, whose methods answer at once or give a promise. -/
namespace MutualKeyChallenge.AnyCache
open Transition MutualKeyChallengeStrategy
variable {Req I U K B S : Type}

/-- What a method of the cache gives back: its result, or a promise of it. -/
inductive Answer (α : Type)
  | value (a : α)
  | promise

/-- An `authenticate` call, which may also wait for a promise of the cache. -/
inductive Call (I U K B : Type)
  | suspended (handler : Handler I U K B)
  | getting (message : ClientResponse I B) (user : UserKeyRecord U K)
  | setting (challenge : ServerChallenge B)
  | settled (verdict : Verdict U K B)
  | rejected (thrown : Thrown)

/-- What a call does to the outside. -/
inductive Observation (I U K B : Type)
  | getCalled (key : I)
  | setCalled (key : I) (value : CachedChallenge I B)
  | setDone
  | settled (verdict : Verdict U K B)
  | rejected (thrown : Thrown)

/-- What the cache holds is its own affair; it may answer anything at any time. -/
structure State (I U K B : Type) where
  now : ℕ
  calls : ℕ → Option (Call I U K B)

/-- The call waits for the application: for `userFunc`, or for its server key function. -/
def asksApplication : Handler I U K B → Bool
  | .responseUser _ _ | .responseVerify _ _ => true
  | .challengeUser _ _ | .challengeDecrypt _ _ => true
  | .challengeSign _ _ _ | .challengeEncrypt _ _ _ _ => true
  | _ => false

/-- `resume id i get set`: a segment of call `id` runs; should it ask the cache, `get` or `set` is
the answer. `threw id e`: the function of the application that the call waits for has thrown.
`gotten` and `stored`: the promise of the cache that the call waits for has resolved. -/
inductive Move (Req I K B S : Type)
  | authenticate (id : ℕ) (req : Req)
  | resume (id : ℕ) (inputs : Inputs K S) (get : Answer (Option (CachedChallenge I B)))
      (set : Answer Unit)
  | threw (id : ℕ) (thrown : Thrown)
  | gotten (id : ℕ) (challenge : Option (CachedChallenge I B))
  | stored (id : ℕ)
  | tick (ms : ℕ)

/-- `observed` is in the order in which it happened. -/
inductive Event (Req I U K B : Type)
  | authenticate (id now : ℕ) (req : Req) (observed : List (Observation I U K B))
  | segment (id : ℕ) (observed : List (Observation I U K B))
  | tick (ms : ℕ)

/-- What call `id` has done, in order. -/
def callLog (id : ℕ) (h : List (Event Req I U K B)) : List (Observation I U K B) :=
  h.flatMap fun e =>
    match e with
    | .authenticate id' _ _ observed => if id' = id then observed else []
    | .segment id' observed => if id' = id then observed else []
    | .tick _ => []

/-- The request `req` started call `id` when the clock read `now`. -/
def Received (h : List (Event Req I U K B)) (id now : ℕ) (req : Req) : Prop :=
  ∃ observed, Event.authenticate id now req observed ∈ h

variable {h : List (Event Req I U K B)} {e : Event Req I U K B}

theorem callLog_concat {id : ℕ} : callLog id (h ++ [e]) = callLog id h ++ callLog id [e] := by
  simp [callLog]

theorem received_concat {id now : ℕ} {req : Req} : Received (h ++ [e]) id now req ↔
    Received h id now req ∨ ∃ observed, e = .authenticate id now req observed := by
  simp only [Received, List.mem_append, List.mem_singleton, exists_or, eq_comm]

/-! What a challenge request computes. -/

section Challenge
variable {s : MutualKeyChallengeStrategy Req I U K B S}

/-- `M` is the nonce of the challenge that answers the request `m`: drawn by the server, encrypted
to the user's key and signed; the other half gives the client's own nonce back, signed. -/
def Issues (s : MutualKeyChallengeStrategy Req I U K B S) (req : Req) (now : ℕ)
    (m : ClientChallenge I B) (M : B) (challenge : ServerChallenge B) : Prop :=
  ∃ user random seed key key', s.Challenges req now m user ∧
    s.Proves m user challenge.clientRequested.message ∧
    challenge.clientRequested.signature = s.verifier.crypto.sign s.verifier.options.hashAlgorithm
      challenge.clientRequested.message (s.verifier.signOptions (s.verifier.serverKey key)) ∧
    M = s.verifier.getNonce random ∧
    s.verifier.crypto.publicEncrypt (s.verifier.encryptOptions user.publicKey) seed M =
      .ok challenge.serverRequested.message ∧
    challenge.serverRequested.signature = s.verifier.crypto.sign s.verifier.options.hashAlgorithm
      M (s.verifier.signOptions (s.verifier.serverKey key'))

/-- What the local variables of a handler hold besides what `Follows` says. -/
def Signs (s : MutualKeyChallengeStrategy Req I U K B S) : Handler I U K B → Prop
  | .challengeSigned _ _ dm => ∃ key, dm = s.verifier.sign (s.verifier.serverKey key) dm.message
  | .challengeEncrypt _ _ dm nonce =>
    (∃ key, dm = s.verifier.sign (s.verifier.serverKey key) dm.message) ∧
      ∃ random, nonce = s.verifier.getNonce random
  | .challengeEncrypted _ _ dm nonce _ =>
    (∃ key, dm = s.verifier.sign (s.verifier.serverKey key) dm.message) ∧
      ∃ random, nonce = s.verifier.getNonce random
  | _ => True

theorem resume_signs {inputs : Inputs K S} {handler handler' : Handler I U K B}
    (hs : Signs s handler) (h : s.resume inputs handler = .suspend handler') :
    Signs s handler' := by
  cases handler with
  | responseUser m user | challengeUser m user =>
    cases user <;> cases h
    trivial
  | responseVerify m user =>
    cases h
    trivial
  | responseVerified m user verified => cases verified <;> cases h
  | challengeDecrypt m user =>
    simp only [resume] at h
    split at h <;> cases h
    trivial
  | challengeDecrypted m user decrypted =>
    cases decrypted <;> cases h
    trivial
  | challengeSign m user decrypted =>
    cases h
    exact ⟨inputs.returnedKey, rfl⟩
  | challengeSigned m user dm =>
    cases h
    exact ⟨hs, inputs.random, rfl⟩
  | challengeEncrypt m user dm nonce =>
    simp only [resume] at h
    split at h <;> cases h
    exact hs
  | challengeEncrypted m user dm nonce nm => cases h

/-- The last segment of a challenge request stores the nonce of the challenge that it gives. -/
theorem resume_issues {inputs : Inputs K S} {handler : Handler I U K B} {req : Req} {now : ℕ}
    {key : I} {value : CachedChallenge I B} {challenge : ServerChallenge B}
    (hf : s.Follows req now handler) (hs : Signs s handler)
    (h : s.resume inputs handler = .cacheSet key value challenge) :
    ∃ m M, Issues s req now m M challenge ∧ key = m.userId ∧
      value = ⟨m.userId, M, m.requestDateTime⟩ := by
  obtain ⟨m, user, dm, nonce, nm, rfl, rfl, rfl, rfl⟩ := resume_cacheSet h
  obtain ⟨hchallenges, hproves, returned, seed, henc⟩ := hf
  obtain ⟨⟨signer, hdm⟩, random, hnonce⟩ := hs
  refine ⟨m, nonce, ⟨user, random, seed, signer, returned, hchallenges, hproves, ?_, hnonce,
    MessageVerifier.encryptAndSign_ok henc, MessageVerifier.encryptAndSign_signature henc⟩,
    rfl, rfl⟩
  exact congrArg SignedMessage.signature hdm

/-- The challenges that a call has asked the cache to store. -/
def stored (log : List (Observation I U K B)) : List (I × CachedChallenge I B) :=
  log.filterMap fun o =>
    match o with
    | .setCalled key value => some (key, value)
    | _ => none

/-- What a call stores is what it issues: at most one challenge, of a request whose nonce a known
user has proved; none if the call fails or its request is a response; and before it answers with
a challenge, the nonce in it has been stored. -/
structure StoresWhatItIssues (s : MutualKeyChallengeStrategy Req I U K B S) (req : Req) (now : ℕ)
    (log : List (Observation I U K B)) : Prop where
  once : (stored log).length ≤ 1
  earned : stored log ≠ [] → ∃ m user decrypted, s.Challenges req now m user ∧
    s.Proves m user decrypted
  failing : (∃ error, .settled (.error error) ∈ log) ∨ (∃ thrown, .rejected thrown ∈ log) →
    stored log = []
  issued : ∀ challenge status, .settled (.fail challenge status) ∈ log →
    status = 401 ∧ ∃ m M, Issues s req now m M challenge ∧
      log = [.setCalled m.userId ⟨m.userId, M, m.requestDateTime⟩, .setDone,
        .settled (.fail challenge 401)]
  response : ∀ m, s.challengeOrResponseFunc req now = .ok (.clientResponse m) → stored log = []

/-- A call that stores nothing and gives no challenge keeps the law. -/
theorem stores_nothing {req : Req} {now : ℕ} {log : List (Observation I U K B)}
    (hnone : stored log = [])
    (hfail : ∀ challenge status, .settled (.fail challenge status) ∉ log) :
    StoresWhatItIssues s req now log where
  once := by simp [hnone]
  earned := fun hsome => (hsome hnone).elim
  failing := fun _ => hnone
  issued := fun challenge status hgiven => (hfail challenge status hgiven).elim
  response := fun _ _ => hnone

theorem Issues.no_response {req : Req} {now : ℕ} {m : ClientChallenge I B} {M : B}
    {challenge : ServerChallenge B} {m' : ClientResponse I B} (hi : Issues s req now m M challenge) :
    s.challengeOrResponseFunc req now ≠ .ok (.clientResponse m') := by
  obtain ⟨_, _, _, _, _, ⟨hm, _⟩, _⟩ := hi
  simp [hm]

theorem Issues.earned {req : Req} {now : ℕ} {m : ClientChallenge I B} {M : B}
    {challenge : ServerChallenge B} (hi : Issues s req now m M challenge) :
    ∃ m user decrypted, s.Challenges req now m user ∧ s.Proves m user decrypted := by
  obtain ⟨user, _, _, _, _, hchallenges, hproves, _⟩ := hi
  exact ⟨m, user, _, hchallenges, hproves⟩

end Challenge

/-! Calls over the local cache, seen as such. -/

/-- The calls over the local cache never wait for it. -/
def ofCall : MutualKeyChallenge.Call I U K B → Call I U K B
  | .suspended handler => .suspended handler
  | .settled v => .settled v
  | .rejected e => .rejected e

def observedAfter : MutualKeyChallenge.Call I U K B → List (Observation I U K B)
  | .suspended _ => []
  | .settled v => [.settled v]
  | .rejected e => [.rejected e]

/-- What a segment over the local cache does, by where it began. -/
def observedIn (after : MutualKeyChallenge.Call I U K B) :
    Handler I U K B → List (Observation I U K B)
  | .responseVerified m _ true => .getCalled m.userId :: observedAfter after
  | .challengeEncrypted m _ _ nonce _ =>
    .setCalled m.userId ⟨m.userId, nonce, m.requestDateTime⟩ :: .setDone :: observedAfter after
  | _ => observedAfter after

theorem observedIn_plain {s : MutualKeyChallengeStrategy Req I U K B S} {inputs : Inputs K S} {handler : Handler I U K B}
    {call : MutualKeyChallenge.Call I U K B} (h : (s.resume inputs handler).key = none) :
    observedIn call handler = observedAfter call := by
  cases handler with
  | responseVerified m user verified =>
    cases verified with
    | true => cases h
    | false => rfl
  | challengeEncrypted m user dm nonce nm => cases h
  | _ => rfl

theorem update_map (calls : ℕ → Option (MutualKeyChallenge.Call I U K B)) (id : ℕ) :
    (fun id' => (Function.update calls id (some call) id').map ofCall) =
      Function.update (fun id' => (calls id').map ofCall) id (some (ofCall call)) := by
  funext id'
  by_cases hid : id' = id
  · subst hid
    simp
  · simp [hid]

/-! The machine. -/

def settle (v : Verdict U K B) : Call I U K B × List (Observation I U K B) :=
  (.settled v, [.settled v])

variable [DecidableEq B]

/-- Run the end of a segment against the cache. -/
def perform (get : Answer (Option (CachedChallenge I B))) (set : Answer Unit) :
    Action I U K B → Call I U K B × List (Observation I U K B)
  | .suspend handler => (.suspended handler, [])
  | .verdict v => settle v
  | .reject e => (.rejected e, [.rejected e])
  | .cacheGet message user =>
    match get with
    | .value challenge =>
      let end' := settle (afterGet message user challenge)
      (end'.1, .getCalled message.userId :: end'.2)
    | .promise => (.getting message user, [.getCalled message.userId])
  | .cacheSet key value challenge =>
    match set with
    | .value _ =>
      let end' := settle (afterSet challenge)
      (end'.1, .setCalled key value :: .setDone :: end'.2)
    | .promise => (.setting challenge, [.setCalled key value])

def step (s : MutualKeyChallengeStrategy Req I U K B S) (w : State I U K B) :
    Move Req I K B S → Option (State I U K B × Event Req I U K B)
  | .authenticate id req =>
    match w.calls id with
    | some _ => none
    | none =>
      let p := perform .promise .promise (s.authenticate req w.now)
      some ({ w with calls := Function.update w.calls id (some p.1) },
        .authenticate id w.now req p.2)
  | .resume id inputs get set =>
    match w.calls id with
    | some (.suspended handler) =>
      let p := perform get set (s.resume inputs handler)
      some ({ w with calls := Function.update w.calls id (some p.1) }, .segment id p.2)
    | _ => none
  | .threw id thrown =>
    match w.calls id with
    | some (.suspended handler) =>
      if asksApplication handler then
        some ({ w with calls := Function.update w.calls id (some (.rejected thrown)) },
          .segment id [.rejected thrown])
      else none
    | _ => none
  | .gotten id challenge =>
    match w.calls id with
    | some (.getting message user) =>
      let p := settle (afterGet message user challenge)
      some ({ w with calls := Function.update w.calls id (some p.1) }, .segment id p.2)
    | _ => none
  | .stored id =>
    match w.calls id with
    | some (.setting challenge) =>
      let p := settle (afterSet challenge)
      some ({ w with calls := Function.update w.calls id (some p.1) }, .segment id (.setDone :: p.2))
    | _ => none
  | .tick ms => some ({ w with now := w.now + ms }, .tick ms)

/-- Any number of interleaved `authenticate` calls, from none. -/
def machine (s : MutualKeyChallengeStrategy Req I U K B S) :
    Machine (State I U K B) (Move Req I K B S) (Event Req I U K B) where
  init := { now := 0, calls := fun _ => none }
  step := step s

/-! What one step can do. -/

variable {s : MutualKeyChallengeStrategy Req I U K B S} {w w' : State I U K B}

/-- A call takes one segment: from where it waits to its next stop, with what it does meanwhile. -/
inductive Segment (s : MutualKeyChallengeStrategy Req I U K B S) :
    Call I U K B → Call I U K B → List (Observation I U K B) → Prop
  | resume {handler inputs get set call observed}
      (hp : perform get set (s.resume inputs handler) = (call, observed)) :
      Segment s (.suspended handler) call observed
  | threw {handler thrown} (hasks : asksApplication handler = true) :
      Segment s (.suspended handler) (.rejected thrown) [.rejected thrown]
  | gotten {message user challenge} :
      Segment s (.getting message user) (.settled (afterGet message user challenge))
        [.settled (afterGet message user challenge)]
  | stored {challenge} :
      Segment s (.setting challenge) (.settled (afterSet challenge))
        [.setDone, .settled (afterSet challenge)]

/-- The steps by the event they record. -/
inductive Step (s : MutualKeyChallengeStrategy Req I U K B S) (w : State I U K B) :
    Event Req I U K B → State I U K B → Prop
  | authenticate {id req call observed} (hfree : w.calls id = none)
      (hp : perform .promise .promise (s.authenticate req w.now) = (call, observed)) :
      Step s w (.authenticate id w.now req observed)
        { w with calls := Function.update w.calls id (some call) }
  | segment {id before call observed} (hcall : w.calls id = some before)
      (hs : Segment s before call observed) :
      Step s w (.segment id observed) { w with calls := Function.update w.calls id (some call) }
  | tick {ms} : Step s w (.tick ms) { w with now := w.now + ms }

theorem step_inv (h : (machine s).Step w e w') : Step s w e w' := by
  obtain ⟨move, h⟩ := h
  simp only [machine] at h
  cases move with
  | authenticate id req =>
    simp only [step] at h
    split at h
    · cases h
    · rename_i hfree
      cases h
      exact .authenticate hfree rfl
  | resume id inputs get set =>
    simp only [step] at h
    split at h
    · rename_i handler hcall
      cases h
      exact .segment hcall (.resume rfl)
    · cases h
  | threw id thrown =>
    simp only [step] at h
    split at h
    · rename_i handler hcall
      split at h
      · rename_i hasks
        cases h
        exact .segment hcall (.threw hasks)
      · cases h
    · cases h
  | gotten id challenge =>
    simp only [step] at h
    split at h
    · rename_i message user hcall
      cases h
      exact .segment hcall .gotten
    · cases h
  | stored id =>
    simp only [step] at h
    split at h
    · rename_i challenge hcall
      cases h
      exact .segment hcall .stored
    · cases h
  | tick ms =>
    cases h
    exact .tick

/-! What a call's log says. -/

/-- How far a call has come, for the request that started it, and all that it has done. -/
inductive LogOk (s : MutualKeyChallengeStrategy Req I U K B S) (req : Req) (now : ℕ) :
    Call I U K B → List (Observation I U K B) → Prop
  | suspended {handler} (hf : s.Follows req now handler) (hs : Signs s handler) :
      LogOk s req now (.suspended handler) []
  | getting {m user} (hr : s.Responds req now m user) :
      LogOk s req now (.getting m user) [.getCalled m.userId]
  | setting {m M challenge} (hi : Issues s req now m M challenge) :
      LogOk s req now (.setting challenge)
        [.setCalled m.userId ⟨m.userId, M, m.requestDateTime⟩]
  | error {error} : LogOk s req now (.settled (.error error)) [.settled (.error error)]
  | answered {m user challenge} (hr : s.Responds req now m user) :
      LogOk s req now (.settled (afterGet m user challenge))
        [.getCalled m.userId, .settled (afterGet m user challenge)]
  | issued {m M challenge} (hi : Issues s req now m M challenge) :
      LogOk s req now (.settled (afterSet challenge))
        [.setCalled m.userId ⟨m.userId, M, m.requestDateTime⟩, .setDone,
          .settled (afterSet challenge)]
  | rejected {thrown} : LogOk s req now (.rejected thrown) [.rejected thrown]

theorem authenticate_log {req : Req} {now : ℕ} {call : Call I U K B}
    {observed : List (Observation I U K B)}
    (hp : perform .promise .promise (s.authenticate req now) = (call, observed)) :
    LogOk s req now call observed := by
  obtain ⟨handler, ha⟩ | ⟨error, ha⟩ | ⟨e, ha⟩ := authenticate_cases (s := s) req now
  · rw [ha] at hp
    cases hp
    have hsigns : Signs s handler := by
      unfold authenticate at ha
      split at ha <;> cases ha <;> trivial
    exact .suspended (authenticate_follows ha) hsigns
  · rw [ha] at hp
    cases hp
    exact .error
  · rw [ha] at hp
    cases hp
    exact .rejected

theorem segment_log {req : Req} {now : ℕ} {before call : Call I U K B}
    {log observed : List (Observation I U K B)} (hlog : LogOk s req now before log)
    (hs : Segment s before call observed) : LogOk s req now call (log ++ observed) := by
  cases hs with
  | @resume handler inputs get set call observed hp =>
    cases hlog with
    | suspended hf hsigns =>
      generalize ha : s.resume inputs handler = action at hp
      cases action with
      | suspend handler' =>
        cases hp
        exact .suspended (resume_follows hf ha) (resume_signs hsigns ha)
      | verdict v =>
        cases hp
        obtain ⟨error, rfl⟩ := resume_verdict ha
        exact .error
      | reject e =>
        cases hp
        exact .rejected
      | cacheGet m user =>
        obtain rfl := resume_cacheGet ha
        cases get with
        | value challenge =>
          cases hp
          exact .answered hf.1
        | promise =>
          cases hp
          exact .getting hf.1
      | cacheSet key value challenge =>
        obtain ⟨m, M, hi, rfl, rfl⟩ := resume_issues hf hsigns ha
        cases set with
        | value a =>
          cases hp
          exact .issued hi
        | promise =>
          cases hp
          exact .setting hi
  | threw hasks =>
    cases hlog with
    | suspended => exact .rejected
  | gotten =>
    cases hlog with
    | getting hr => exact .answered hr
  | stored =>
    cases hlog with
    | setting hi => exact .issued hi

/-- What the history says about call `id`, against where the call is. -/
inductive CallOk (s : MutualKeyChallengeStrategy Req I U K B S) (h : List (Event Req I U K B))
    (id : ℕ) : Option (Call I U K B) → Prop
  | unknown (hreq : ∀ now req, ¬ Received h id now req) (hlog : callLog id h = []) :
      CallOk s h id none
  | known {now req call} (hreq : ∀ now' req', Received h id now' req' ↔ now' = now ∧ req' = req)
      (hlog : LogOk s req now call (callLog id h)) : CallOk s h id (some call)

/-- An event of another call, or of none, changes nothing about this one. -/
theorem CallOk.other {id : ℕ} {call : Option (Call I U K B)} (hok : CallOk s h id call)
    (hlog : callLog id [e] = []) (hstart : ∀ now req observed, e ≠ .authenticate id now req observed) :
    CallOk s (h ++ [e]) id call := by
  have hsame : callLog id (h ++ [e]) = callLog id h := by
    rw [callLog_concat, hlog, List.append_nil]
  have hreceived : ∀ now req, Received (h ++ [e]) id now req ↔ Received h id now req := by
    intro now req
    rw [received_concat]
    refine or_iff_left ?_
    rintro ⟨observed, rfl⟩
    exact hstart now req observed rfl
  cases hok with
  | unknown hreq hnone =>
    exact .unknown (fun now req => mt (hreceived now req).mp (hreq now req)) (hsame.trans hnone)
  | known hreq hknown =>
    exact .known (fun now req => (hreceived now req).trans (hreq now req)) (hsame ▸ hknown)

theorem callOk_step (hs : Step s w e w') (hok : ∀ id, CallOk s h id (w.calls id)) :
    ∀ id, CallOk s (h ++ [e]) id (w'.calls id) := by
  intro id
  cases hs with
  | @authenticate id' req call observed hfree hp =>
    by_cases hid : id = id'
    · subst hid
      have hold := hok id
      rw [hfree] at hold
      cases hold with
      | unknown hreq hlog =>
        have hnew : callLog id (h ++ [.authenticate id w.now req observed]) = observed := by
          rw [callLog_concat, hlog]
          simp [callLog]
        simp only [Function.update_self]
        refine .known ?_ (hnew ▸ authenticate_log hp)
        intro now' req'
        rw [received_concat, or_iff_right (hreq now' req')]
        constructor
        · rintro ⟨observed', he⟩
          cases he
          exact ⟨rfl, rfl⟩
        · rintro ⟨rfl, rfl⟩
          exact ⟨observed, rfl⟩
    · simp only [Function.update_of_ne hid]
      refine (hok id).other (by simp [callLog, Ne.symm hid]) ?_
      intro now req' observed' he
      cases he
      exact hid rfl
  | @segment id' before call observed hcall hseg =>
    by_cases hid : id = id'
    · subst hid
      have hold := hok id
      rw [hcall] at hold
      cases hold with
      | known hreq hlog =>
        have hnew : callLog id (h ++ [.segment id observed]) = callLog id h ++ observed := by
          rw [callLog_concat]
          simp [callLog]
        simp only [Function.update_self]
        refine .known ?_ (hnew ▸ segment_log hlog hseg)
        intro now' req'
        rw [received_concat, ← hreq]
        refine or_iff_left ?_
        rintro ⟨observed', he⟩
        cases he
    · simp only [Function.update_of_ne hid]
      exact (hok id).other (by simp [callLog, Ne.symm hid]) (by simp)
  | tick => exact (hok id).other rfl (by simp)

theorem calls_ok (hx : (machine s).Execution h w) : ∀ id, CallOk s h id (w.calls id) := by
  apply Machine.Execution.invariant (P := fun h (w : State I U K B) =>
    ∀ id, CallOk s h id (w.calls id)) ?_ ?_ hx
  · intro id
    refine .unknown ?_ rfl
    rintro now req ⟨observed, ho⟩
    cases ho
  · intro h w e w' _ hok hstep
    exact callOk_step (step_inv hstep) hok

/-- Whatever the cache does and however the calls interleave, each stores what it issues. -/
theorem stores_what_it_issues {id now : ℕ} {req : Req} (hx : (machine s).Execution h w)
    (hreceived : Received h id now req) : StoresWhatItIssues s req now (callLog id h) := by
  have hok := calls_ok hx id
  generalize w.calls id = call at hok
  cases hok with
  | unknown hreq => exact (hreq now req hreceived).elim
  | known hreq hlog =>
    obtain ⟨rfl, rfl⟩ := (hreq now req).mp hreceived
    generalize callLog id h = log at hlog
    cases hlog with
    | suspended | getting | error | rejected => exact stores_nothing rfl (by simp)
    | @answered m user challenge hr =>
      refine stores_nothing rfl ?_
      intro challenge' status
      simp only [afterGet]
      split
      · simp
      · split <;> simp
    | setting hi =>
      exact
        { once := Nat.le_refl _
          earned := fun _ => hi.earned
          failing := by simp
          issued := by simp
          response := fun m' hm => (hi.no_response hm).elim }
    | @issued m M challenge hi =>
      exact
        { once := Nat.le_refl _
          earned := fun _ => hi.earned
          failing := by simp [afterSet]
          issued := by
            intro challenge' status hgiven
            simp only [afterSet, List.mem_cons, reduceCtorEq, Observation.settled.injEq,
              Verdict.fail.injEq, List.not_mem_nil, or_false, false_or] at hgiven
            obtain ⟨rfl, rfl⟩ := hgiven
            exact ⟨rfl, m, M, hi, rfl⟩
          response := fun m' hm => (hi.no_response hm).elim }

/-- A challenge whose `set` is a promise, which resolves after another call has begun. -/
def promisedSet : List (Move (Extracted ℕ ℕ) ℕ ℕ ℕ ℕ) :=
  [.authenticate 0 (.clientChallenge ⟨1, ⟨5, 6⟩, 0⟩)] ++
    List.replicate 7 (.resume 0 ⟨0, 71, 0⟩ .promise .promise) ++
    [.authenticate 1 (.clientResponse ⟨1, ⟨71, 72⟩⟩), .tick 2, .stored 0]

theorem stores_what_it_issues_promisedSet :
    StoresWhatItIssues openStrategy (.clientChallenge ⟨1, ⟨5, 6⟩, 0⟩) 0
      (callLog 0 ((machine openStrategy).history promisedSet)) :=
  stores_what_it_issues ((machine openStrategy).final_execution promisedSet)
    ⟨_, List.mem_cons_self⟩

/-! The local cache is one that answers at once. -/

section Local
variable [DecidableEq I] {now ttlMs : ℕ} {cache cache' : LocalChallengeCache I B}
  {call : MutualKeyChallenge.Call I U K B}

/-- With the answers of the local cache a segment ends where it ends over the local cache. -/
theorem perform_local {inputs : Inputs K S} {handler : Handler I U K B}
    (hp : (s.resume inputs handler).perform now cache = (call, cache')) :
    ∃ get set, perform get set (s.resume inputs handler) =
      (ofCall call, observedIn call handler) := by
  generalize ha : s.resume inputs handler = action at hp
  cases action with
  | suspend handler' | verdict v | reject e =>
    cases hp
    rw [observedIn_plain (congrArg Action.key ha)]
    exact ⟨.promise, .promise, rfl⟩
  | cacheGet m user =>
    obtain rfl := resume_cacheGet ha
    cases hp
    exact ⟨.value (cache.get m.userId now).1, .promise, rfl⟩
  | cacheSet key value challenge =>
    obtain ⟨m, user, dm, nonce, nm, rfl, rfl, rfl, _⟩ := resume_cacheSet ha
    cases hp
    exact ⟨.promise, .value (), rfl⟩

theorem authenticate_local {req : Req}
    (hp : (s.authenticate req now).perform now cache = (call, cache')) :
    perform .promise .promise (s.authenticate req now) = (ofCall call, observedAfter call) := by
  obtain ⟨handler, ha⟩ | ⟨error, ha⟩ | ⟨e, ha⟩ := authenticate_cases (s := s) req now <;>
    rw [ha] at hp ⊢ <;> cases hp <;> rfl

/-- The strategy with a `LocalChallengeCache` is the strategy with one of all possible caches. -/
def localView (s : MutualKeyChallengeStrategy Req I U K B S) (ttlMs : ℕ) :
    Projection (serverMachine s ttlMs) (machine s) where
  state := fun w => { now := w.now, calls := fun id => (w.calls id).map ofCall }
  event := fun e =>
    match e with
    | .authenticate id now req after => some (.authenticate id now req (observedAfter after))
    | .resume id _ before _ after => some (.segment id (observedIn after before))
    | .timer _ _ _ => none
    | .tick ms => some (.tick ms)
  init := rfl
  step := by
    intro w e w' hstep
    cases server_step_inv hstep with
    | @authenticate id req call cache hfree hp =>
      refine Or.inl ⟨_, rfl, .authenticate id req, ?_⟩
      simp [machine, step, hfree, authenticate_local hp, update_map]
    | @resume id inputs handler call cache hcall hp =>
      obtain ⟨get, set, hlocal⟩ := perform_local hp
      refine Or.inl ⟨_, rfl, .resume id inputs get set, ?_⟩
      simp [machine, step, hcall, ofCall, hlocal, update_map]
    | timer ht hf => exact Or.inr ⟨rfl, rfl⟩
    | @tick ms => exact Or.inl ⟨_, rfl, .tick ms, rfl⟩

end Local

end MutualKeyChallenge.AnyCache
