import MutualKeyChallenge.Server.Runs

/-! The way of one challenge request, with what is done under the server's key on it. -/
namespace MutualKeyChallenge
open Transition
variable {Req I U K B S : Type}

/-- A call into `crypto` with the server's private key. -/
inductive KeyUse (K B : Type)
  | decrypt (key : K) (ciphertext : B)
  | sign (key : K) (data : B)
  deriving DecidableEq, Repr

/-- What a segment of call `id` does under the server's key. Each of the three asks `serverKey` for
it; `encryptAndSign` does not come to sign when the encryption throws. -/
def ServerEvent.keyUse (v : MessageVerifier K B S) (id : ℕ) :
    ServerEvent Req I U K B S → Option (KeyUse K B)
  | .resume id' _ (.challengeDecrypt m _) i _ =>
    if id' = id then some (.decrypt (v.serverKey i.returnedKey) m.clientRequested.message) else none
  | .resume id' _ (.challengeSign _ _ decrypted) i _ =>
    if id' = id then some (.sign (v.serverKey i.returnedKey) decrypted) else none
  | .resume _ _ (.challengeEncrypt _ _ _ _) _ (.rejected _) => none
  | .resume id' _ (.challengeEncrypt _ _ _ nonce) i _ =>
    if id' = id then some (.sign (v.serverKey i.returnedKey) nonce) else none
  | _ => none

/-- All that call `id` has done under the server's key, in order. -/
def keyUses (v : MessageVerifier K B S) (id : ℕ) (h : List (ServerEvent Req I U K B S)) :
    List (KeyUse K B) :=
  h.filterMap (ServerEvent.keyUse v id)

/-- How far the request `m` of the user `r` has come, and under which keys. -/
inductive Attempt (s : MutualKeyChallengeStrategy Req I U K B S) (m : ClientChallenge I B)
    (r : UserKeyRecord U K) : List (KeyUse K B) → Call I U K B → Prop
  | user : Attempt s m r [] (.suspended (.challengeUser m (.ok r)))
  | decrypt : Attempt s m r [] (.suspended (.challengeDecrypt m r))
  | undecryptable {key : K} {e : Thrown}
      (hd : s.verifier.decryptAndVerify key r.publicKey m.clientRequested = .error e) :
      Attempt s m r [.decrypt key m.clientRequested.message] (.rejected e)
  | decrypted {key : K} {d : Option B}
      (hd : s.verifier.decryptAndVerify key r.publicKey m.clientRequested = .ok d) :
      Attempt s m r [.decrypt key m.clientRequested.message]
        (.suspended (.challengeDecrypted m r d))
  | refused {key : K}
      (hd : s.verifier.decryptAndVerify key r.publicKey m.clientRequested = .ok none) :
      Attempt s m r [.decrypt key m.clientRequested.message] (.settled (.error notVerifiedError))
  | sign {key : K} {d : B}
      (hd : s.verifier.decryptAndVerify key r.publicKey m.clientRequested = .ok (some d)) :
      Attempt s m r [.decrypt key m.clientRequested.message] (.suspended (.challengeSign m r d))
  | signed {key key' : K} {d : B}
      (hd : s.verifier.decryptAndVerify key r.publicKey m.clientRequested = .ok (some d)) :
      Attempt s m r [.decrypt key m.clientRequested.message, .sign key' d]
        (.suspended (.challengeSigned m r (s.verifier.sign key' d)))
  | encrypt {key key' : K} {d nonce : B}
      (hd : s.verifier.decryptAndVerify key r.publicKey m.clientRequested = .ok (some d)) :
      Attempt s m r [.decrypt key m.clientRequested.message, .sign key' d]
        (.suspended (.challengeEncrypt m r (s.verifier.sign key' d) nonce))
  | unencryptable {key key' key'' : K} {d nonce : B} {seed : S} {e : Thrown}
      (hd : s.verifier.decryptAndVerify key r.publicKey m.clientRequested = .ok (some d))
      (he : s.verifier.encryptAndSign key'' seed r.publicKey nonce = .error e) :
      Attempt s m r [.decrypt key m.clientRequested.message, .sign key' d] (.rejected e)
  | encrypted {key key' key'' : K} {d nonce : B} {seed : S} {nm : SignedMessage B}
      (hd : s.verifier.decryptAndVerify key r.publicKey m.clientRequested = .ok (some d))
      (he : s.verifier.encryptAndSign key'' seed r.publicKey nonce = .ok nm) :
      Attempt s m r
        [.decrypt key m.clientRequested.message, .sign key' d, .sign key'' nonce]
        (.suspended (.challengeEncrypted m r (s.verifier.sign key' d) nonce nm))
  | replied {key key' key'' : K} {d nonce : B} {seed : S} {nm : SignedMessage B}
      (hd : s.verifier.decryptAndVerify key r.publicKey m.clientRequested = .ok (some d))
      (he : s.verifier.encryptAndSign key'' seed r.publicKey nonce = .ok nm) :
      Attempt s m r
        [.decrypt key m.clientRequested.message, .sign key' d, .sign key'' nonce]
        (.settled (.fail ⟨s.verifier.sign key' d, nm⟩ 401))

variable {s : MutualKeyChallengeStrategy Req I U K B S} {m : ClientChallenge I B}
  {r : UserKeyRecord U K} {h : List (ServerEvent Req I U K B S)} {e : ServerEvent Req I U K B S}
  {uses : List (KeyUse K B)} {handler : Handler I U K B} {i : Inputs K S} {call : Call I U K B}
  {cache cache' : LocalChallengeCache I B} {req : Req} {id now : ℕ}

theorem keyUses_concat {v : MessageVerifier K B S} :
    keyUses v id (h ++ [e]) = keyUses v id h ++ (e.keyUse v id).toList := by
  simp only [keyUses, List.filterMap_append]
  cases hu : e.keyUse v id <;> simp [hu]

theorem keyUse_other {v : MessageVerifier K B S} (he : e.callId ≠ some id) :
    e.keyUse v id = none := by
  cases e with
  | resume id' now before i after =>
    have hid : id' ≠ id := fun hid => he (congrArg some hid)
    cases before <;> cases after <;> simp [ServerEvent.keyUse, hid]
  | authenticate | timer | tick => rfl

variable [DecidableEq I] [DecidableEq B]

/-- One segment. -/
theorem Attempt.resume (ha : Attempt s m r uses (.suspended handler))
    (hp : (s.resume i handler).perform now cache = (call, cache')) :
    Attempt s m r
      (uses ++ ((ServerEvent.resume id now handler i call : ServerEvent Req I U K B S).keyUse
        s.verifier id).toList) call := by
  cases ha with
  | user =>
    cases hp
    exact .decrypt
  | decrypt =>
    simp only [MutualKeyChallengeStrategy.resume] at hp
    split at hp
    · rename_i e he
      cases hp
      simpa [ServerEvent.keyUse] using .undecryptable he
    · rename_i d hd
      cases hp
      simpa [ServerEvent.keyUse] using .decrypted hd
  | @decrypted key d hd =>
    cases d with
    | none =>
      cases hp
      exact .refused hd
    | some d =>
      cases hp
      exact .sign hd
  | sign hd =>
    cases hp
    simpa [ServerEvent.keyUse] using .signed hd
  | signed hd =>
    cases hp
    exact .encrypt hd
  | encrypt hd =>
    simp only [MutualKeyChallengeStrategy.resume] at hp
    split at hp
    · rename_i e he
      cases hp
      exact .unencryptable hd he
    · rename_i nm he
      cases hp
      simpa [ServerEvent.keyUse] using .encrypted hd he
  | encrypted hd he =>
    cases hp
    exact .replied hd he

variable {ttlMs : ℕ} {w : Server I U K B}

theorem not_received (hx : (serverMachine s ttlMs).Execution h w) (hfree : w.calls id = none) :
    ∀ now req, ¬ Received h id now req := by
  have hok := calls_ok hx id
  rw [hfree] at hok
  cases hok with
  | unknown hreq => exact hreq

theorem keyUses_of_not_received {v : MessageVerifier K B S}
    (hx : (serverMachine s ttlMs).Execution h w) (hnone : ∀ now req, ¬ Received h id now req) :
    keyUses v id h = [] := by
  refine List.filterMap_eq_nil_iff.mpr ?_
  intro e he
  cases e with
  | resume id' now before i after =>
    refine keyUse_other ?_
    intro hid
    obtain rfl := Option.some.inj hid
    obtain ⟨arrived, req, hr, _⟩ := resumed_follows hx he
    exact hnone arrived req hr
  | authenticate | timer | tick => rfl

/-- The call that a challenge of a known user started is at one of its stages ever after. -/
theorem attempt_run (hx : (serverMachine s ttlMs).Execution h w) (hr : Received h id now req)
    (hc : s.Challenges req now m r) :
    ∃ call, w.calls id = some call ∧ Attempt s m r (keyUses s.verifier id h) call := by
  revert hr
  apply Machine.Execution.invariant (P := fun h (w : Server I U K B) => Received h id now req →
    ∃ call, w.calls id = some call ∧ Attempt s m r (keyUses s.verifier id h) call) ?_ ?_ hx
  · rintro ⟨call, hmem⟩
    cases hmem
  · intro h w e w' hx ih hstep hr
    have hs := server_step_inv hstep
    rw [keyUses_concat]
    by_cases hid : e.callId = some id
    · cases hs with
      | @authenticate id' req' call cache hfree hp =>
        obtain rfl := Option.some.inj hid
        have hnone := not_received hx hfree
        obtain ⟨_, heq⟩ := (received_concat.mp hr).resolve_left (hnone now req)
        cases heq
        rw [MutualKeyChallengeStrategy.authenticate_challenges hc] at hp
        cases hp
        refine ⟨_, Function.update_self .., ?_⟩
        rw [keyUses_of_not_received hx hnone]
        exact .user
      | @resume id' inputs handler call cache hcall hp =>
        obtain rfl := Option.some.inj hid
        have hr' : Received h id' now req := by
          refine (received_concat.mp hr).resolve_right ?_
          rintro ⟨c, hc⟩
          cases hc
        obtain ⟨c, hc, ha⟩ := ih hr'
        cases hcall.symm.trans hc
        exact ⟨call, Function.update_self .., ha.resume hp⟩
      | timer | tick => cases hid
    · have hr' : Received h id now req := by
        refine (received_concat.mp hr).resolve_right ?_
        rintro ⟨c, rfl⟩
        exact hid rfl
      obtain ⟨call, hcall, ha⟩ := ih hr'
      rw [keyUse_other hid]
      exact ⟨call, (other_call hs hid).trans hcall, by simpa using ha⟩

/-- Crypto that puts the number of the key before what it encrypts or signs. -/
def numberingCrypto : NodeCrypto ℕ (List ℕ) ℕ where
  randomBytes _ random := [random]
  publicEncrypt o _ m := .ok (o.key :: m)
  privateDecrypt o c :=
    match c with
    | [] => .error .cryptoError
    | key :: m => if key = o.key then .ok m else .error .cryptoError
  sign _ m o := o.key :: m
  verify _ m o signature := decide (signature = o.key :: m)

theorem numberingCrypto_roundTrips : numberingCrypto.RoundTrips where
  decrypt_encrypt := by
    rintro o seed m c h
    cases h
    exact if_pos rfl
  verify_sign _ _ _ := decide_eq_true rfl

/-- Requests arrive extracted, and all users have the key 1. -/
def numberingStrategy (key : ServerKey ℕ) :
    MutualKeyChallengeStrategy (Extracted ℕ (List ℕ)) ℕ ℕ ℕ (List ℕ) ℕ where
  challengeOrResponseFunc req _ := .ok req
  userFunc _ userId := some ⟨userId, 1⟩
  verifier := ⟨numberingCrypto, key, ⟨4, 1, "sha256", 128⟩⟩

end MutualKeyChallenge
