import MutualKeyChallenge.Server.Attempts

/-! A server key that may change while requests are being handled. -/
namespace MutualKeyChallenge
open Transition
variable {Req I U K B S : Type}

/-- The segments of a challenge request that begin when `serverKey` has resolved. -/
def Handler.awaitsKey : Handler I U K B → Bool
  | .challengeDecrypt _ _ => true
  | .challengeSign _ _ _ => true
  | .challengeEncrypt _ _ _ _ => true
  | _ => false

/-- The function returns one key whenever call `id` asks for it; what it returns to other calls,
and before and after, does not matter. -/
def KeyKept (id : ℕ) (h : List (ServerEvent Req I U K B S)) : Prop :=
  ∃ key, ∀ now handler i after, .resume id now handler i after ∈ h → handler.awaitsKey = true →
    i.returnedKey = key

/-- The request's ciphertext was decrypted and both parts of its reply were signed under `key`, and
nothing else; the user, who finds `nonce` in the reply, can verify both with it. -/
structure RepliedUnder (s : MutualKeyChallengeStrategy Req I U K B S)
    (h : List (ServerEvent Req I U K B S)) (id : ℕ) (challenge : ServerChallenge B)
    (m : ClientChallenge I B) (r : UserKeyRecord U K) (nonce : B) (key : K) : Prop where
  uses : keyUses s.verifier id h = [.decrypt key m.clientRequested.message,
    .sign key challenge.clientRequested.message, .sign key nonce]
  decrypted : s.verifier.crypto.privateDecrypt (s.verifier.encryptOptions key)
    m.clientRequested.message = .ok challenge.clientRequested.message
  opened : s.verifier.crypto.privateDecrypt (s.verifier.encryptOptions r.publicKey)
    challenge.serverRequested.message = .ok nonce
  clientRequested : s.verifier.crypto.verify s.verifier.options.hashAlgorithm
    challenge.clientRequested.message (s.verifier.verifyOptions key)
    challenge.clientRequested.signature = true
  serverRequested : s.verifier.crypto.verify s.verifier.options.hashAlgorithm nonce
    (s.verifier.verifyOptions key) challenge.serverRequested.signature = true

/-- The reply of call `id` was made under one key. -/
def OneServerKey (s : MutualKeyChallengeStrategy Req I U K B S)
    (h : List (ServerEvent Req I U K B S)) (id : ℕ) (challenge : ServerChallenge B) : Prop :=
  ∃ now req m r nonce key, Received h id now req ∧ s.Challenges req now m r ∧
    RepliedUnder s h id challenge m r nonce key

/-- Every reply is made under one key. -/
def AlwaysOneServerKey (s : MutualKeyChallengeStrategy Req I U K B S) [DecidableEq I]
    [DecidableEq B] (ttlMs : ℕ) : Prop :=
  ∀ h w id challenge status, (serverMachine s ttlMs).Execution h w →
    .fail challenge status ∈ verdicts id h → OneServerKey s h id challenge

/-- The key is 0 when the request is decrypted and 5 from then on. -/
def rotation : List (ServerMove (Extracted ℕ (List ℕ)) ℕ ℕ) :=
  [.authenticate 0 (.clientChallenge ⟨2, ⟨[0, 8], [1, 8]⟩, 0⟩)] ++
    List.replicate 2 (.resume 0 ⟨0, 7, 0⟩) ++ List.replicate 5 (.resume 0 ⟨5, 7, 0⟩)

/-- The client that used key 0 gets a reply that is signed with key 5. -/
theorem rotated_within_request :
    ¬ AlwaysOneServerKey (numberingStrategy .getServerKeyFunc) 10 := by
  intro hall
  let s := numberingStrategy .getServerKeyFunc
  let m := serverMachine s 10
  have hv : verdicts 0 (m.history rotation) = [.fail ⟨⟨[8], [5, 8]⟩, ⟨[1, 7], [5, 7]⟩⟩ 401] := rfl
  obtain ⟨now, req, c, r, nonce, key, _, _, hreply⟩ :=
    hall (m.history rotation) _ 0 _ _ (m.final_execution rotation)
      (by rw [hv]; exact List.mem_singleton.mpr rfl)
  have huses : keyUses s.verifier 0 (m.history rotation) =
    [.decrypt 0 [0, 8], .sign 5 [8], .sign 5 [7]] := rfl
  rw [hreply.uses] at huses
  simp only [List.cons.injEq, KeyUse.decrypt.injEq, KeyUse.sign.injEq] at huses
  obtain ⟨⟨rfl, _⟩, ⟨hrotated, _⟩, _⟩ := huses
  cases hrotated

/-! The keys that a call is given and those it uses. -/

/-- The key of a use. -/
def KeyUse.key : KeyUse K B → K
  | .decrypt key _ => key
  | .sign key _ => key

variable {s : MutualKeyChallengeStrategy Req I U K B S} {h : List (ServerEvent Req I U K B S)}
  {v : MessageVerifier K B S} {u : KeyUse K B} {id now : ℕ} {handler : Handler I U K B}
  {i : Inputs K S} {after : Call I U K B} {challenge : ServerChallenge B}

theorem mem_keyUses (hmem : u ∈ keyUses v id h) :
    ∃ now handler i after, .resume id now handler i after ∈ h ∧ handler.awaitsKey = true ∧
      u.key = v.serverKey i.returnedKey := by
  obtain ⟨e, he, hu⟩ := List.mem_filterMap.mp hmem
  clear hmem
  unfold ServerEvent.keyUse at hu
  split at hu
  case h_3 => cases hu
  case h_5 => cases hu
  all_goals
    split at hu
    · rename_i hid
      subst hid
      cases hu
      exact ⟨_, _, _, _, he, rfl, rfl⟩
    · cases hu

theorem keyUse_of_awaitsKey (he : .resume id now handler i after ∈ h)
    (ha : handler.awaitsKey = true) (hafter : ∀ e, after ≠ .rejected e) :
    ∃ u ∈ keyUses v id h, u.key = v.serverKey i.returnedKey := by
  suffices hu : ∃ u, (ServerEvent.resume id now handler i after : ServerEvent Req I U K B S).keyUse
      v id = some u ∧ u.key = v.serverKey i.returnedKey by
    obtain ⟨u, hu, hkey⟩ := hu
    exact ⟨u, List.mem_filterMap.mpr ⟨_, he, hu⟩, hkey⟩
  cases handler with
  | challengeDecrypt m r | challengeSign m r d => exact ⟨_, if_pos rfl, rfl⟩
  | challengeEncrypt m r dm nonce =>
    cases after with
    | rejected e => exact (hafter e rfl).elim
    | suspended _ | settled _ => exact ⟨_, if_pos rfl, rfl⟩
  | _ => cases ha

/-- When all uses have one key, the user can verify the reply with it. -/
theorem repliedUnder_of_attempt {m : ClientChallenge I B} {r : UserKeyRecord U K} {key : K}
    {status : ℕ}
    (hround : s.verifier.crypto.RoundTrips)
    (ha : Attempt s m r (keyUses s.verifier id h) (.settled (.fail challenge status)))
    (hkey : ∀ u ∈ keyUses s.verifier id h, u.key = key) :
    ∃ nonce, RepliedUnder s h id challenge m r nonce key := by
  generalize huses : keyUses s.verifier id h = uses at ha hkey
  cases ha with
  | @replied key₁ key₂ key₃ d nonce seed nm hd he =>
    obtain rfl : key₁ = key := hkey (.decrypt key₁ _) List.mem_cons_self
    obtain rfl : key₂ = key₁ := hkey (.sign key₂ d) (by simp)
    obtain rfl : key₃ = key₂ := hkey (.sign key₃ nonce) (by simp)
    refine ⟨nonce, huses, ?_, ?_, ?_, ?_⟩
    · exact MessageVerifier.decryptAndVerify_decrypts hd
    · exact hround.decrypt_encrypt _ _ _ _ (MessageVerifier.encryptAndSign_ok he)
    · exact hround.verify_sign _ _ _
    · rw [MessageVerifier.encryptAndSign_signature he]
      exact hround.verify_sign _ _ _

section Reply
variable [DecidableEq I] [DecidableEq B] {ttlMs status : ℕ} {w : Server I U K B}

/-- A call that has replied went through all its stages. -/
theorem reply_attempt (hx : (serverMachine s ttlMs).Execution h w)
    (hv : .fail challenge status ∈ verdicts id h) :
    ∃ now req m r, Received h id now req ∧ s.Challenges req now m r ∧
      Attempt s m r (keyUses s.verifier id h) (.settled (.fail challenge status)) := by
  have hcall := settled_of_verdict hx hv
  obtain ⟨now, req, hr, _, m, r, hc, _⟩ := call_concludes hx hcall
  obtain ⟨call, hcall', ha⟩ := attempt_run hx hr hc
  cases hcall.symm.trans hcall'
  exact ⟨now, req, m, r, hr, hc, ha⟩

/-- Whatever keys the function returns meanwhile, to other calls and before and after, a reply is
made under one key, and its user can verify it, exactly when the function returns one key to the
reply's own call. -/
theorem oneServerKey_iff (hround : s.verifier.crypto.RoundTrips)
    (hfunc : s.verifier.key = .getServerKeyFunc) (hx : (serverMachine s ttlMs).Execution h w)
    (hv : .fail challenge status ∈ verdicts id h) :
    OneServerKey s h id challenge ↔ KeyKept id h := by
  have hserverKey : ∀ returned, s.verifier.serverKey returned = returned := by
    intro returned
    simp only [MessageVerifier.serverKey, hfunc]
  constructor
  · rintro ⟨_, _, m, r, nonce, key, _, _, hreply⟩
    refine ⟨key, ?_⟩
    intro now handler i after he ha
    have hafter : ∀ e, after ≠ .rejected e := by
      rintro e rfl
      have hrejected := rejected_of_resume hx _ _ _ _ _ he
      rw [settled_of_verdict hx hv] at hrejected
      cases hrejected
    obtain ⟨u, hu, hkey⟩ := keyUse_of_awaitsKey (v := s.verifier) he ha hafter
    rw [hserverKey] at hkey
    rw [hreply.uses] at hu
    simp only [List.mem_cons, List.not_mem_nil, or_false] at hu
    rcases hu with rfl | rfl | rfl <;> exact hkey.symm
  · rintro ⟨key, hkept⟩
    obtain ⟨now, req, m, r, hr, hc, ha⟩ := reply_attempt hx hv
    have hkey : ∀ u ∈ keyUses s.verifier id h, u.key = key := by
      intro u hu
      obtain ⟨now, handler, i, after, he, hawaits, hu⟩ := mem_keyUses hu
      rw [hu, hserverKey]
      exact hkept now handler i after he hawaits
    obtain ⟨nonce, hreply⟩ := repliedUnder_of_attempt hround ha hkey
    exact ⟨now, req, m, r, nonce, key, hr, hc, hreply⟩

end Reply

/-- The key changes for a second request while the first is being handled. -/
def rotationBetween : List (ServerMove (Extracted ℕ (List ℕ)) ℕ ℕ) :=
  [.authenticate 0 (.clientChallenge ⟨2, ⟨[0, 8], [1, 8]⟩, 0⟩)] ++
    List.replicate 3 (.resume 0 ⟨0, 7, 0⟩) ++
    [.authenticate 1 (.clientChallenge ⟨3, ⟨[5, 9], [1, 9]⟩, 0⟩)] ++
    List.replicate 7 (.resume 1 ⟨5, 6, 0⟩) ++ List.replicate 4 (.resume 0 ⟨0, 7, 0⟩)

theorem oneServerKey_iff_rotationBetween :
    let s := numberingStrategy .getServerKeyFunc
    let h := (serverMachine s 10).history rotationBetween
    OneServerKey s h 0 ⟨⟨[8], [0, 8]⟩, ⟨[1, 7], [0, 7]⟩⟩ ↔ KeyKept 0 h := by
  intro s h
  have hv : verdicts 0 h = [.fail ⟨⟨[8], [0, 8]⟩, ⟨[1, 7], [0, 7]⟩⟩ 401] := rfl
  exact oneServerKey_iff numberingCrypto_roundTrips rfl
    ((serverMachine s 10).final_execution rotationBetween)
    (by rw [hv]; exact List.mem_singleton.mpr rfl)

end MutualKeyChallenge
