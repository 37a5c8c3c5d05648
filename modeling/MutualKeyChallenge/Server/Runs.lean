import MutualKeyChallenge.Server.Calls

/-! What one step of the server can do, and what holds of each call along every run. -/
namespace MutualKeyChallenge
open Transition
variable {Req I U K B S : Type}

/-- The request `req` started call `id` when the clock read `now`. -/
def Received (h : List (ServerEvent Req I U K B S)) (id now : ℕ) (req : Req) : Prop :=
  ∃ call, ServerEvent.authenticate id now req call ∈ h

def ServerEvent.verdictOf (id : ℕ) : ServerEvent Req I U K B S → Option (Verdict U K B)
  | .authenticate id' _ _ (.settled v) => if id' = id then some v else none
  | .resume id' _ _ _ (.settled v) => if id' = id then some v else none
  | _ => none

def ServerEvent.resumes (id : ℕ) : ServerEvent Req I U K B S → Bool
  | .resume id' _ _ _ _ => id' = id
  | _ => false

/-- The verdicts that call `id` has given. -/
def verdicts (id : ℕ) (h : List (ServerEvent Req I U K B S)) : List (Verdict U K B) :=
  h.filterMap (ServerEvent.verdictOf id)

/-- How often call `id` was resumed. -/
def resumptions (id : ℕ) (h : List (ServerEvent Req I U K B S)) : ℕ :=
  h.countP (ServerEvent.resumes id)

/-- The segments a suspended call still has to run if nothing stops it. -/
def Handler.remaining : Handler I U K B → ℕ
  | .responseUser _ _ => 3
  | .responseVerify _ _ => 2
  | .responseVerified _ _ _ => 1
  | .challengeUser _ _ => 7
  | .challengeDecrypt _ _ => 6
  | .challengeDecrypted _ _ _ => 5
  | .challengeSign _ _ _ => 4
  | .challengeSigned _ _ _ => 3
  | .challengeEncrypt _ _ _ _ => 2
  | .challengeEncrypted _ _ _ _ _ => 1

namespace MutualKeyChallengeStrategy
variable (s : MutualKeyChallengeStrategy Req I U K B S) {req : Req} {now : ℕ} {i : Inputs K S}
  {handler handler' : Handler I U K B}

/-- The request is a response by a known user. -/
def Responds (req : Req) (now : ℕ) (m : ClientResponse I B) (user : UserKeyRecord U K) : Prop :=
  s.challengeOrResponseFunc req now = .ok (.clientResponse m) ∧
    s.userFunc req m.userId = some user

/-- The request is a challenge by a known user. -/
def Challenges (req : Req) (now : ℕ) (m : ClientChallenge I B) (user : UserKeyRecord U K) : Prop :=
  s.challengeOrResponseFunc req now = .ok (.clientChallenge m) ∧
    s.userFunc req m.userId = some user

/-- The challenge decrypts under a server key, and the user's signature of the result verifies. -/
def Proves (m : ClientChallenge I B) (user : UserKeyRecord U K) (decrypted : B) : Prop :=
  ∃ returned, s.verifier.decryptAndVerify (s.verifier.serverKey returned) user.publicKey
    m.clientRequested = .ok (some decrypted)

/-- What the local variables of a handler are, for the request that started its call. -/
def Follows (req : Req) (now : ℕ) : Handler I U K B → Prop
  | .responseUser m user =>
    s.challengeOrResponseFunc req now = .ok (.clientResponse m) ∧
      user = s.getUserResult req m.userId
  | .responseVerify m user => s.Responds req now m user
  | .responseVerified m user verified =>
    s.Responds req now m user ∧ verified = s.verifier.verify user.publicKey m.clientResponsed
  | .challengeUser m user =>
    s.challengeOrResponseFunc req now = .ok (.clientChallenge m) ∧
      user = s.getUserResult req m.userId
  | .challengeDecrypt m user => s.Challenges req now m user
  | .challengeDecrypted m user decrypted =>
    s.Challenges req now m user ∧ ∀ d, decrypted = some d → s.Proves m user d
  | .challengeSign m user decrypted => s.Challenges req now m user ∧ s.Proves m user decrypted
  | .challengeSigned m user dm => s.Challenges req now m user ∧ s.Proves m user dm.message
  | .challengeEncrypt m user dm nonce =>
    s.Challenges req now m user ∧ s.Proves m user dm.message ∧
      ∃ random, nonce = s.verifier.getNonce random
  | .challengeEncrypted m user dm nonce nm =>
    s.Challenges req now m user ∧ s.Proves m user dm.message ∧
      ∃ returned seed, s.verifier.encryptAndSign (s.verifier.serverKey returned) seed
        user.publicKey nonce = .ok nm

/-- The request makes some call into the language or into node's crypto throw. -/
def Throws (req : Req) (now : ℕ) : Prop :=
  (∃ e, s.challengeOrResponseFunc req now = .error e) ∨
    ∃ m user, s.Challenges req now m user ∧
      ((∃ returned e, s.verifier.decryptAndVerify (s.verifier.serverKey returned) user.publicKey
          m.clientRequested = .error e) ∨
        (∃ decrypted, s.Proves m user decrypted) ∧
          ∃ returned random seed e, s.verifier.encryptAndSign (s.verifier.serverKey returned) seed
            user.publicKey (s.verifier.getNonce random) = .error e)

/-- The errors that the handlers themselves give. -/
def handlerErrors : List ChallengeError :=
  [noUserError, notVerifiedError, notInitiatedError, incorrectError]

/-- What a call may have come to, for the request that started it. -/
def Concludes (req : Req) (now : ℕ) : Call I U K B → Prop
  | .suspended handler => s.Follows req now handler
  | .settled (.error error) =>
    s.challengeOrResponseFunc req now = .ok (.challengeError error) ∨ error ∈ handlerErrors
  | .settled (.success user info) =>
    ∃ m r, s.Responds req now m r ∧ s.verifier.verify r.publicKey m.clientResponsed = true ∧
      user = r.user ∧ info = r.publicKey
  | .settled (.fail challenge status) =>
    status = 401 ∧ ∃ m r, s.Challenges req now m r ∧ s.Proves m r challenge.clientRequested.message
  | .rejected _ => s.Throws req now

variable {s}

theorem getUserResult_ok {userId : I} {user : UserKeyRecord U K}
    (h : s.getUserResult req userId = .ok user) : s.userFunc req userId = some user := by
  unfold getUserResult at h
  split at h
  · cases h
  · cases h
    assumption

theorem getUserResult_error {userId : I} {error : ChallengeError}
    (h : s.getUserResult req userId = .error error) : error = noUserError := by
  unfold getUserResult at h
  split at h
  · cases h
    rfl
  · cases h

/-- Every segment that suspends brings its call one step nearer to the end. -/
theorem resume_remaining (h : s.resume i handler = .suspend handler') :
    handler'.remaining + 1 = handler.remaining := by
  cases handler <;> simp only [resume] at h <;> (try split at h) <;> cases h <;> rfl

theorem authenticate_remaining (h : s.authenticate req now = .suspend handler) :
    handler.remaining ≤ 7 := by
  unfold authenticate at h
  split at h <;> cases h <;> simp [Handler.remaining]

/-- The first segment binds the local variables to the request's content. -/
theorem authenticate_follows (h : s.authenticate req now = .suspend handler) :
    s.Follows req now handler := by
  unfold authenticate at h
  split at h
  · cases h
  · cases h
  · rename_i hm
    cases h
    exact ⟨hm, rfl⟩
  · rename_i hm
    cases h
    exact ⟨hm, rfl⟩

theorem authenticate_challenges {m : ClientChallenge I B} {user : UserKeyRecord U K}
    (hc : s.Challenges req now m user) :
    s.authenticate req now = .suspend (.challengeUser m (.ok user)) := by
  simp only [authenticate, hc.1, getUserResult, hc.2]

/-- A segment keeps what its predecessors established. -/
theorem resume_follows (hf : s.Follows req now handler)
    (h : s.resume i handler = .suspend handler') : s.Follows req now handler' := by
  cases handler with
  | responseUser m user =>
    cases user with
    | error error => cases h
    | ok r =>
      cases h
      exact ⟨hf.1, getUserResult_ok hf.2.symm⟩
  | responseVerify m user =>
    cases h
    exact ⟨hf, rfl⟩
  | responseVerified m user verified => cases verified <;> cases h
  | challengeUser m user =>
    cases user with
    | error error => cases h
    | ok r =>
      cases h
      exact ⟨hf.1, getUserResult_ok hf.2.symm⟩
  | challengeDecrypt m user =>
    simp only [resume] at h
    split at h
    · cases h
    · rename_i decrypted hd
      cases h
      refine ⟨hf, ?_⟩
      rintro d rfl
      exact ⟨_, hd⟩
  | challengeDecrypted m user decrypted =>
    cases decrypted with
    | none => cases h
    | some d =>
      cases h
      exact ⟨hf.1, hf.2 d rfl⟩
  | challengeSign m user decrypted =>
    cases h
    exact hf
  | challengeSigned m user dm =>
    cases h
    exact ⟨hf.1, hf.2, _, rfl⟩
  | challengeEncrypt m user dm nonce =>
    simp only [resume] at h
    split at h
    · cases h
    · rename_i nm hnm
      cases h
      exact ⟨hf.1, hf.2.1, _, _, hnm⟩
  | challengeEncrypted m user dm nonce nm => cases h

/-- A segment that ends without the cache gives one of the handlers' own errors. -/
theorem resume_error {v : Verdict U K B} (hf : s.Follows req now handler)
    (h : s.resume i handler = .verdict v) : ∃ error, v = .error error ∧ error ∈ handlerErrors := by
  cases handler with
  | responseUser m user | challengeUser m user =>
    cases user with
    | error error =>
      cases h
      have he := getUserResult_error hf.2.symm
      exact ⟨error, rfl, by simp [he, handlerErrors]⟩
    | ok r => cases h
  | responseVerified m user verified =>
    cases verified with
    | false =>
      cases h
      exact ⟨notVerifiedError, rfl, by simp [handlerErrors]⟩
    | true => cases h
  | challengeDecrypted m user decrypted =>
    cases decrypted with
    | none =>
      cases h
      exact ⟨notVerifiedError, rfl, by simp [handlerErrors]⟩
    | some d => cases h
  | responseVerify m user | challengeSign m user d | challengeSigned m user dm => cases h
  | challengeEncrypted m user dm nonce nm => cases h
  | challengeDecrypt m user | challengeEncrypt m user dm nonce =>
    simp only [resume] at h
    split at h <;> cases h

/-- A segment throws only where the request makes it throw. -/
theorem resume_throws {e : Thrown} (hf : s.Follows req now handler)
    (h : s.resume i handler = .reject e) : s.Throws req now := by
  cases handler with
  | responseUser m user | challengeUser m user => cases user <;> cases h
  | responseVerify m user | challengeSign m user d | challengeSigned m user dm => cases h
  | responseVerified m user verified => cases verified <;> cases h
  | challengeDecrypted m user decrypted => cases decrypted <;> cases h
  | challengeEncrypted m user dm nonce nm => cases h
  | challengeDecrypt m user =>
    simp only [resume] at h
    split at h
    · rename_i e' he
      exact Or.inr ⟨m, user, hf, Or.inl ⟨_, e', he⟩⟩
    · cases h
  | challengeEncrypt m user dm nonce =>
    obtain ⟨hc, hp, random, rfl⟩ := hf
    simp only [resume] at h
    split at h
    · rename_i e' he
      exact Or.inr ⟨m, user, hc, Or.inr ⟨⟨_, hp⟩, _, random, _, e', he⟩⟩
    · cases h

variable [DecidableEq I] [DecidableEq B] {now' : ℕ} {cache cache' : LocalChallengeCache I B}
  {call : Call I U K B}

theorem authenticate_concludes
    (h : (s.authenticate req now).perform now' cache = (call, cache')) :
    s.Concludes req now call := by
  obtain ⟨handler, ha⟩ | ⟨error, ha⟩ | ⟨e, ha⟩ := authenticate_cases (s := s) req now
  · rw [ha] at h
    cases h
    exact authenticate_follows ha
  · rw [ha] at h
    cases h
    refine Or.inl ?_
    unfold authenticate at ha
    split at ha <;> cases ha
    assumption
  · rw [ha] at h
    cases h
    unfold authenticate at ha
    split at ha
    · rename_i e' he
      exact Or.inl ⟨e', he⟩
    all_goals cases ha

theorem resume_concludes (hf : s.Follows req now handler)
    (h : (s.resume i handler).perform now' cache = (call, cache')) : s.Concludes req now call := by
  generalize ha : s.resume i handler = action at h
  cases action with
  | suspend handler' =>
    cases h
    exact resume_follows hf ha
  | verdict v =>
    cases h
    obtain ⟨error, rfl, he⟩ := resume_error hf ha
    exact Or.inr he
  | reject e =>
    cases h
    exact resume_throws hf ha
  | cacheGet m user =>
    cases h
    obtain rfl := resume_cacheGet ha
    obtain ⟨hr, hv⟩ := hf
    unfold afterGet
    split
    · exact Or.inr (by simp [handlerErrors])
    · split
      · exact ⟨m, user, hr, hv.symm, rfl, rfl⟩
      · exact Or.inr (by simp [handlerErrors])
  | cacheSet key value challenge =>
    cases h
    obtain ⟨m, user, dm, nonce, nm, rfl, _, _, rfl⟩ := resume_cacheSet ha
    exact ⟨rfl, m, user, hf.1, hf.2.1⟩

end MutualKeyChallengeStrategy

variable {s : MutualKeyChallengeStrategy Req I U K B S} {h : List (ServerEvent Req I U K B S)}
  {e : ServerEvent Req I U K B S} {id now : ℕ} {req : Req} {call : Option (Call I U K B)}

/-! The calls of a history. -/

def ServerEvent.callId : ServerEvent Req I U K B S → Option ℕ
  | .authenticate id _ _ _ => some id
  | .resume id _ _ _ _ => some id
  | _ => none

def Call.verdicts : Call I U K B → List (Verdict U K B)
  | .settled v => [v]
  | _ => []

def Call.remaining : Call I U K B → ℕ
  | .suspended handler => handler.remaining
  | _ => 0

theorem verdicts_concat : verdicts id (h ++ [e]) = verdicts id h ++ (e.verdictOf id).toList := by
  simp only [verdicts, List.filterMap_append]
  cases hv : e.verdictOf id <;> simp [hv]

theorem given_verdict {now : ℕ} {handler : Handler I U K B} {i : Inputs K S} {v : Verdict U K B}
    (he : .resume id now handler i (.settled v) ∈ h) : v ∈ verdicts id h :=
  List.mem_filterMap.mpr ⟨_, he, if_pos rfl⟩

theorem resumptions_concat :
    resumptions id (h ++ [e]) = resumptions id h + if e.resumes id then 1 else 0 := by
  simp [resumptions, List.countP_append, List.countP_cons]

theorem received_concat : Received (h ++ [e]) id now req ↔
    Received h id now req ∨ ∃ call, e = .authenticate id now req call := by
  simp only [Received, List.mem_append, List.mem_singleton, exists_or]
  constructor
  · exact Or.imp_right fun ⟨call, hc⟩ => ⟨call, hc.symm⟩
  · exact Or.imp_right fun ⟨call, hc⟩ => ⟨call, hc.symm⟩

theorem Received.grow {h' : List (ServerEvent Req I U K B S)} (hr : Received h id now req)
    (hp : h <+: h') : Received h' id now req := by
  obtain ⟨call, hc⟩ := hr
  exact ⟨call, hp.subset hc⟩

/-- What the history says about call `id`, against what the server holds for it. -/
inductive CallOk (s : MutualKeyChallengeStrategy Req I U K B S)
    (h : List (ServerEvent Req I U K B S)) (id : ℕ) : Option (Call I U K B) → Prop
  | unknown (hreq : ∀ now req, ¬ Received h id now req) (hv : verdicts id h = [])
      (hr : resumptions id h = 0) : CallOk s h id none
  | known {now : ℕ} {req : Req} {call : Call I U K B}
      (hreq : ∀ now' req', Received h id now' req' ↔ now' = now ∧ req' = req)
      (hc : s.Concludes req now call) (hv : verdicts id h = call.verdicts)
      (hr : resumptions id h + call.remaining ≤ 7) : CallOk s h id (some call)

/-- An event of another call, or of none, changes nothing about this one. -/
theorem CallOk.other (hok : CallOk s h id call) (he : e.callId ≠ some id) :
    CallOk s (h ++ [e]) id call := by
  have hverdicts : verdicts id (h ++ [e]) = verdicts id h := by
    rw [verdicts_concat]
    cases e with
    | authenticate id' now req c | resume id' now hd i c =>
      have hid : id' ≠ id := fun hid => he (congrArg some hid)
      cases c <;> simp [ServerEvent.verdictOf, hid]
    | timer t timer now | tick ms => simp [ServerEvent.verdictOf]
  have hresumptions : resumptions id (h ++ [e]) = resumptions id h := by
    rw [resumptions_concat]
    cases e with
    | resume id' now hd i c =>
      have hid : id' ≠ id := fun hid => he (congrArg some hid)
      simp [ServerEvent.resumes, hid]
    | authenticate id' now req c | timer t timer now | tick ms => simp [ServerEvent.resumes]
  have hreceived : ∀ now req, Received (h ++ [e]) id now req ↔ Received h id now req := by
    intro now req
    rw [received_concat]
    refine or_iff_left ?_
    rintro ⟨c, rfl⟩
    exact he rfl
  cases hok with
  | unknown hreq hv hr =>
    exact .unknown (fun now req => mt (hreceived now req).mp (hreq now req))
      (hverdicts.trans hv) (hresumptions.trans hr)
  | known hreq hc hv hr =>
    exact .known (fun now req => (hreceived now req).trans (hreq now req)) hc
      (hverdicts.trans hv) (by rw [hresumptions]; exact hr)

/-! The steps. -/

variable [DecidableEq I] [DecidableEq B] {ttlMs : ℕ} {w w' : Server I U K B}

/-- The steps of the server by the event they record. -/
inductive ServerStep (s : MutualKeyChallengeStrategy Req I U K B S) (w : Server I U K B) :
    ServerEvent Req I U K B S → Server I U K B → Prop
  | authenticate {id req call cache} (hfree : w.calls id = none)
      (hp : (s.authenticate req w.now).perform w.now w.cache = (call, cache)) :
      ServerStep s w (.authenticate id w.now req call)
        { w with cache, calls := Function.update w.calls id (some call) }
  | resume {id inputs handler call cache} (hcall : w.calls id = some (.suspended handler))
      (hp : (s.resume inputs handler).perform w.now w.cache = (call, cache)) :
      ServerStep s w (.resume id w.now handler inputs call)
        { w with cache, calls := Function.update w.calls id (some call) }
  | timer {t timer cache} (ht : w.cache.timers t = some timer)
      (hf : w.cache.fire t w.now = some cache) :
      ServerStep s w (.timer t timer w.now) { w with cache }
  | tick {ms} : ServerStep s w (.tick ms) { w with now := w.now + ms }

theorem server_step_inv (h : (serverMachine s ttlMs).Step w e w') : ServerStep s w e w' := by
  obtain ⟨move, h⟩ := h
  simp only [serverMachine] at h
  cases move with
  | authenticate id req =>
    simp only [Server.step] at h
    split at h
    · cases h
    · rename_i hfree
      cases h
      exact .authenticate hfree rfl
  | resume id inputs =>
    simp only [Server.step] at h
    split at h
    · rename_i handler hcall
      cases h
      exact .resume hcall rfl
    · cases h
  | timer t =>
    simp only [Server.step] at h
    split at h
    · rename_i timer cache ht hf
      cases h
      exact .timer ht hf
    · cases h
  | tick ms =>
    cases h
    exact .tick

theorem ServerStep.step (hs : ServerStep s w e w') : (serverMachine s ttlMs).Step w e w' := by
  cases hs with
  | @authenticate id req call cache hfree hp =>
    exact ⟨.authenticate id req, by simp [serverMachine, Server.step, hfree, hp]⟩
  | @resume id inputs handler call cache hcall hp =>
    exact ⟨.resume id inputs, by simp [serverMachine, Server.step, hcall, hp]⟩
  | @timer t timer cache ht hf => exact ⟨.timer t, by simp [serverMachine, Server.step, ht, hf]⟩
  | @tick ms => exact ⟨.tick ms, rfl⟩

/-- An event of another call, or of none, leaves the call as it was. -/
theorem other_call (hs : ServerStep s w e w') (he : e.callId ≠ some id) :
    w'.calls id = w.calls id := by
  cases hs with
  | authenticate hfree hp | resume hcall hp =>
    have hne : id ≠ _ := fun heq => he (congrArg some heq.symm)
    simp only [Function.update_of_ne hne]
  | timer | tick => rfl

theorem callOk_step (hs : ServerStep s w e w') (hok : ∀ id, CallOk s h id (w.calls id)) :
    ∀ id, CallOk s (h ++ [e]) id (w'.calls id) := by
  intro id
  cases hs with
  | @authenticate id' req call cache hfree hp =>
    by_cases hid : id = id'
    · subst hid
      have hold := hok id
      rw [hfree] at hold
      cases hold with
      | unknown hreq hv hr =>
        simp only [Function.update_self]
        refine .known ?_ (MutualKeyChallengeStrategy.authenticate_concludes hp) ?_ ?_
        · intro now' req'
          rw [received_concat, or_iff_right (hreq now' req')]
          constructor
          · rintro ⟨c, hc⟩
            cases hc
            exact ⟨rfl, rfl⟩
          · rintro ⟨rfl, rfl⟩
            exact ⟨call, rfl⟩
        · rw [verdicts_concat, hv]
          cases call <;> simp [ServerEvent.verdictOf, Call.verdicts]
        · rw [resumptions_concat, hr]
          cases call with
          | suspended handler =>
            have hrem := MutualKeyChallengeStrategy.authenticate_remaining (perform_suspended hp).1
            simpa [ServerEvent.resumes, Call.remaining] using hrem
          | settled v | rejected e => simp [ServerEvent.resumes, Call.remaining]
    · simp only [Function.update_of_ne hid]
      exact (hok id).other (by simpa [ServerEvent.callId] using Ne.symm hid)
  | @resume id' inputs handler call cache hcall hp =>
    by_cases hid : id = id'
    · subst hid
      have hold := hok id
      rw [hcall] at hold
      cases hold with
      | known hreq hc hv hr =>
        simp only [Function.update_self]
        refine .known ?_ (MutualKeyChallengeStrategy.resume_concludes hc hp) ?_ ?_
        · intro now' req'
          rw [received_concat, ← hreq]
          refine or_iff_left ?_
          rintro ⟨c, hc⟩
          cases hc
        · rw [verdicts_concat, hv]
          cases call <;> simp [ServerEvent.verdictOf, Call.verdicts]
        · rw [resumptions_concat]
          simp only [Call.remaining] at hr
          cases call with
          | suspended handler' =>
            have hrem := MutualKeyChallengeStrategy.resume_remaining (perform_suspended hp).1
            simp only [ServerEvent.resumes, decide_true, if_true, Call.remaining]
            omega
          | settled v | rejected e =>
            have hpos : 0 < handler.remaining := by cases handler <;> simp [Handler.remaining]
            simp only [ServerEvent.resumes, decide_true, if_true, Call.remaining]
            omega
    · simp only [Function.update_of_ne hid]
      exact (hok id).other (by simpa [ServerEvent.callId] using Ne.symm hid)
  | timer ht hf => exact (hok id).other (by simp [ServerEvent.callId])
  | tick => exact (hok id).other (by simp [ServerEvent.callId])

theorem calls_ok (hx : (serverMachine s ttlMs).Execution h w) :
    ∀ id, CallOk s h id (w.calls id) := by
  apply Machine.Execution.invariant (P := fun h (w : Server I U K B) =>
    ∀ id, CallOk s h id (w.calls id)) ?_ ?_ hx
  · intro id
    exact .unknown (by rintro now req ⟨call, hc⟩; cases hc) rfl rfl
  · intro h w e w' _ hok hstep
    exact callOk_step (server_step_inv hstep) hok

/-- A call is started by one request. -/
theorem received_unique {now' : ℕ} {req' : Req} (hx : (serverMachine s ttlMs).Execution h w)
    (h1 : Received h id now req) (h2 : Received h id now' req') : now' = now ∧ req' = req := by
  have hok := calls_ok hx id
  generalize w.calls id = call at hok
  cases hok with
  | unknown hreq => exact (hreq now req h1).elim
  | known hreq =>
    obtain ⟨rfl, rfl⟩ := (hreq now req).mp h1
    exact (hreq now' req').mp h2

/-- A call has been received, and what has become of it is told by the request. -/
theorem call_concludes {call : Call I U K B} (hx : (serverMachine s ttlMs).Execution h w)
    (hcall : w.calls id = some call) :
    ∃ arrived req, Received h id arrived req ∧ s.Concludes req arrived call := by
  have hok := calls_ok hx id
  rw [hcall] at hok
  cases hok with
  | known hreq hc => exact ⟨_, _, (hreq _ _).mpr ⟨rfl, rfl⟩, hc⟩

theorem concludes_of_received {call : Call I U K B} (hx : (serverMachine s ttlMs).Execution h w)
    (hreceived : Received h id now req) (hcall : w.calls id = some call) :
    s.Concludes req now call := by
  obtain ⟨_, _, hreceived', hc⟩ := call_concludes hx hcall
  obtain ⟨rfl, rfl⟩ := received_unique hx hreceived hreceived'
  exact hc

/-- The handler that a call was resumed in is one of its own request. -/
theorem resumed_follows {now' : ℕ} {hd : Handler I U K B} {i : Inputs K S} {call : Call I U K B}
    (hx : (serverMachine s ttlMs).Execution h w) (he : .resume id now' hd i call ∈ h) :
    ∃ arrived req, Received h id arrived req ∧ s.Follows req arrived hd := by
  obtain ⟨k, hk⟩ := List.getElem?_of_mem he
  obtain ⟨v, v', hv, hstep, _⟩ := hx.origin hk
  cases server_step_inv hstep with
  | resume hcall hp =>
    obtain ⟨arrived, req, hreceived, hfollows⟩ := call_concludes hv hcall
    exact ⟨arrived, req, hreceived.grow (List.take_prefix k h), hfollows⟩

/-- A verdict that a call has given is still the call's state. -/
theorem settled_of_verdict {v : Verdict U K B} (hx : (serverMachine s ttlMs).Execution h w)
    (hv : v ∈ verdicts id h) : w.calls id = some (.settled v) := by
  have hok := calls_ok hx id
  generalize w.calls id = call at hok
  cases hok with
  | unknown _ hnone =>
    rw [hnone] at hv
    cases hv
  | @known _ _ call _ _ hone =>
    rw [hone] at hv
    cases call with
    | settled v' =>
      obtain rfl := List.mem_singleton.mp hv
      rfl
    | suspended handler | rejected e => cases hv

/-- A call that is over stays as it is. -/
theorem over_call {call : Call I U K B} (hs : ServerStep s w e w') (hcall : w.calls id = some call)
    (hover : ∀ handler, call ≠ .suspended handler) : w'.calls id = some call := by
  refine (other_call hs ?_).trans hcall
  intro hid
  cases hs with
  | authenticate hfree hp =>
    obtain rfl := Option.some.inj hid
    rw [hfree] at hcall
    cases hcall
  | resume hsuspended hp =>
    obtain rfl := Option.some.inj hid
    cases hsuspended.symm.trans hcall
    exact hover _ rfl
  | timer | tick => cases hid

theorem rejected_of_resume (hx : (serverMachine s ttlMs).Execution h w) :
    ∀ id now handler i e, .resume id now handler i (.rejected e) ∈ h →
      w.calls id = some (.rejected e) := by
  apply Machine.Execution.invariant (P := fun h (w : Server I U K B) =>
    ∀ id now handler i e, ServerEvent.resume id now handler i (.rejected e) ∈ h →
      w.calls id = some (.rejected e)) ?_ ?_ hx
  · intro id now handler i e hmem
    cases hmem
  · intro h w d w' _ ih hstep id now handler i e hmem
    have hs := server_step_inv hstep
    rcases List.mem_append.mp hmem with hmem | hmem
    · exact over_call hs (ih id now handler i e hmem) (by simp)
    · obtain rfl := List.mem_singleton.mp hmem
      cases hs with
      | resume hcall hp => exact Function.update_self ..

end MutualKeyChallenge
