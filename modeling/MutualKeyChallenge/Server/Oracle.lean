import MutualKeyChallenge.Server.Attempts

/-! What a requester can tell about a ciphertext from the way his request fails. -/
namespace MutualKeyChallenge
open Transition
variable {Req I U K B S : Type}

/-- What can be seen of `authenticate` from outside: the one of `success`, `fail` and `error` that
was called, with its arguments, and whether the promise resolved. -/
structure Observation (U K B : Type) where
  verdict : Option (Verdict U K B)
  resolved : Bool

def Call.observation : Call I U K B → Option (Observation U K B)
  | .suspended _ => none
  | .settled v => some ⟨some v, true⟩
  | .rejected _ => some ⟨none, false⟩

/-- The ciphertext of the request does not decrypt under `key`. -/
def Undecryptable (v : MessageVerifier K B S) (key : K) (m : ClientChallenge I B) : Prop :=
  ∃ e, v.crypto.privateDecrypt (v.encryptOptions key) m.clientRequested.message = .error e

/-- The ciphertext decrypts under `key`, but the signature is none by the user of the result. -/
def BadlySigned (v : MessageVerifier K B S) (key : K) (r : UserKeyRecord U K)
    (m : ClientChallenge I B) : Prop :=
  ∃ d, v.crypto.privateDecrypt (v.encryptOptions key) m.clientRequested.message = .ok d ∧
    v.crypto.verify v.options.hashAlgorithm d (v.verifyOptions r.publicKey)
      m.clientRequested.signature = false

/-- Call `id` handled the request `m` of the user `r` with the server key `key`, to no avail; `seen`
is what can be seen of it. -/
structure FailedAttempt (s : MutualKeyChallengeStrategy Req I U K B S)
    (h : List (ServerEvent Req I U K B S)) (w : Server I U K B) (id : ℕ) (m : ClientChallenge I B)
    (r : UserKeyRecord U K) (key : K) (seen : Observation U K B) : Prop where
  request : ∃ now req, Received h id now req ∧ s.Challenges req now m r
  decrypts : .decrypt key m.clientRequested.message ∈ keyUses s.verifier id h
  fails : Undecryptable s.verifier key m ∨ BadlySigned s.verifier key r m
  done : ∃ call, w.calls id = some call ∧ call.observation = some seen

/-- What decrypts and verifies does not fail. -/
theorem decryptAndVerify_not_fails {v : MessageVerifier K B S} {key : K} {r : UserKeyRecord U K}
    {m : ClientChallenge I B} {d : B}
    (hd : v.decryptAndVerify key r.publicKey m.clientRequested = .ok (some d)) :
    ¬ (Undecryptable v key m ∨ BadlySigned v key r m) := by
  rintro (⟨e, he⟩ | ⟨d', hd', hverify⟩)
  · rw [MessageVerifier.decryptAndVerify_error.mpr he] at hd
    cases hd
  · simp only [MessageVerifier.decryptAndVerify, hd', hverify, Bool.false_eq_true, if_false] at hd
    cases hd

/-- A call decrypts once. -/
theorem decrypt_key {key key' : K} {c c' : B} {uses : List (KeyUse K B)}
    (hmem : .decrypt key c ∈ .decrypt key' c' :: uses) (hsigns : ∀ u ∈ uses, ∃ k d, u = .sign k d) :
    key = key' := by
  rcases List.mem_cons.mp hmem with heq | hmem
  · exact (KeyUse.decrypt.inj heq).1
  · obtain ⟨k, d, hu⟩ := hsigns _ hmem
    cases hu

variable [DecidableEq I] [DecidableEq B] {ttlMs : ℕ}

/-- Whatever state the server is in, two failed attempts of one user look the same. -/
def NoDecryptionOracle (s : MutualKeyChallengeStrategy Req I U K B S) (ttlMs : ℕ) : Prop :=
  ∀ h₀ w₀, (serverMachine s ttlMs).Execution h₀ w₀ →
    ∀ es w id m r key seen es' w' id' m' r' key' seen',
      (serverMachine s ttlMs).Run w₀ es w → FailedAttempt s (h₀ ++ es) w id m r key seen →
      (serverMachine s ttlMs).Run w₀ es' w' → FailedAttempt s (h₀ ++ es') w' id' m' r' key' seen' →
        m.userId = m'.userId → seen = seen'

/-- A request for user 2 with this ciphertext and no signature, handled to its end. -/
def unsigned (ciphertext : List ℕ) (segments : ℕ) :
    List (ServerMove (Extracted ℕ (List ℕ)) ℕ ℕ) :=
  .authenticate 0 (.clientChallenge ⟨2, ⟨ciphertext, []⟩, 0⟩) ::
    List.replicate segments (.resume 0 ⟨0, 7, 0⟩)

/-- The server's key is 0. -/
def oracleStrategy : MutualKeyChallengeStrategy (Extracted ℕ (List ℕ)) ℕ ℕ ℕ (List ℕ) ℕ :=
  numberingStrategy (.keyObject 0)

theorem unsigned_undecryptable :
    FailedAttempt oracleStrategy ((serverMachine oracleStrategy 10).history (unsigned [9, 8] 2))
      ((serverMachine oracleStrategy 10).final (unsigned [9, 8] 2)) 0 ⟨2, ⟨[9, 8], []⟩, 0⟩ ⟨2, 1⟩ 0
      ⟨none, false⟩ where
  request := ⟨0, _, ⟨_, List.mem_cons_self⟩, rfl, rfl⟩
  decrypts := List.mem_cons_self
  fails := Or.inl ⟨.cryptoError, rfl⟩
  done := ⟨.rejected .cryptoError, rfl, rfl⟩

theorem unsigned_badlySigned :
    FailedAttempt oracleStrategy ((serverMachine oracleStrategy 10).history (unsigned [0, 8] 3))
      ((serverMachine oracleStrategy 10).final (unsigned [0, 8] 3)) 0 ⟨2, ⟨[0, 8], []⟩, 0⟩ ⟨2, 1⟩ 0
      ⟨some (.error notVerifiedError), true⟩ where
  request := ⟨0, _, ⟨_, List.mem_cons_self⟩, rfl, rfl⟩
  decrypts := List.mem_cons_self
  fails := Or.inr ⟨[8], rfl, rfl⟩
  done := ⟨.settled (.error notVerifiedError), rfl, rfl⟩

/-- The ciphertext `[9, 8]` makes the promise reject, `[0, 8]` gets an error. -/
theorem decryption_shows : ¬ NoDecryptionOracle oracleStrategy 10 := by
  intro hall
  let m := serverMachine oracleStrategy 10
  have hsame := hall [] m.init .init _ _ _ _ _ _ _ _ _ _ _ _ _ _
    (m.played_run m.init (unsigned [9, 8] 2)) unsigned_undecryptable
    (m.played_run m.init (unsigned [0, 8] 3)) unsigned_badlySigned rfl
  cases hsame

variable {s : MutualKeyChallengeStrategy Req I U K B S} {h h' : List (ServerEvent Req I U K B S)}
  {w w' : Server I U K B} {id id' : ℕ} {m m' : ClientChallenge I B} {r r' : UserKeyRecord U K}
  {key key' : K} {seen seen' : Observation U K B}

/-- The one difference: `privateDecrypt` throws, where a wrong signature is reported. -/
theorem FailedAttempt.seen_eq (hx : (serverMachine s ttlMs).Execution h w)
    (ha : FailedAttempt s h w id m r key seen) :
    (Undecryptable s.verifier key m ∧ seen = ⟨none, false⟩) ∨
      (¬ Undecryptable s.verifier key m ∧ seen = ⟨some (.error notVerifiedError), true⟩) := by
  obtain ⟨⟨now, req, hr, hc⟩, hkey, hfails, call, hcall, hseen⟩ := ha
  obtain ⟨call', hcall', hattempt⟩ := attempt_run hx hr hc
  cases hcall.symm.trans hcall'
  generalize keyUses s.verifier id h = uses at hkey hattempt
  cases hattempt with
  | user | decrypt => cases hkey
  | decrypted | sign | signed | encrypt | encrypted => cases hseen
  | undecryptable hd =>
    obtain rfl := decrypt_key hkey (by simp)
    cases hseen
    exact Or.inl ⟨⟨_, MessageVerifier.decryptAndVerify_error.mp hd⟩, rfl⟩
  | refused hd =>
    obtain rfl := decrypt_key hkey (by simp)
    cases hseen
    refine Or.inr ⟨?_, rfl⟩
    rintro ⟨e, he⟩
    rw [MessageVerifier.decryptAndVerify_error.mpr he] at hd
    cases hd
  | unencryptable hd he | replied hd he =>
    obtain rfl := decrypt_key hkey (by simp)
    exact (decryptAndVerify_not_fails hd hfails).elim

/-- Two failed attempts look the same exactly when both ciphertexts decrypt or neither does. -/
theorem same_observation_iff (hx : (serverMachine s ttlMs).Execution h w)
    (ha : FailedAttempt s h w id m r key seen) (hx' : (serverMachine s ttlMs).Execution h' w')
    (ha' : FailedAttempt s h' w' id' m' r' key' seen') :
    seen = seen' ↔ (Undecryptable s.verifier key m ↔ Undecryptable s.verifier key' m') := by
  rcases ha.seen_eq hx with ⟨hu, rfl⟩ | ⟨hu, rfl⟩
  · rcases ha'.seen_eq hx' with ⟨hu', rfl⟩ | ⟨hu', rfl⟩
    · exact iff_of_true rfl (iff_of_true hu hu')
    · exact iff_of_false (by simp) fun hiff => hu' (hiff.mp hu)
  · rcases ha'.seen_eq hx' with ⟨hu', rfl⟩ | ⟨hu', rfl⟩
    · exact iff_of_false (by simp) fun hiff => hu (hiff.mpr hu')
    · exact iff_of_true rfl (iff_of_false hu hu')

theorem same_observation_iff_unsigned :
    (⟨none, false⟩ : Observation ℕ ℕ (List ℕ)) = ⟨some (.error notVerifiedError), true⟩ ↔
      (Undecryptable oracleStrategy.verifier 0 (⟨2, ⟨[9, 8], []⟩, 0⟩ : ClientChallenge ℕ (List ℕ)) ↔
        Undecryptable oracleStrategy.verifier 0
          (⟨2, ⟨[0, 8], []⟩, 0⟩ : ClientChallenge ℕ (List ℕ))) :=
  same_observation_iff ((serverMachine oracleStrategy 10).final_execution (unsigned [9, 8] 2))
    unsigned_undecryptable ((serverMachine oracleStrategy 10).final_execution (unsigned [0, 8] 3))
    unsigned_badlySigned

end MutualKeyChallenge
