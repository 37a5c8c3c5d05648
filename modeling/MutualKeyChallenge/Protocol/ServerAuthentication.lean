import MutualKeyChallenge.Protocol.Agreement

/-! A client's nonce stays between the client and the server until the server answers it. -/
namespace MutualKeyChallenge
open Transition Symbolic
variable {C I U K : Type}

/-- A nonce that a run encrypted for the server is secret until the server has given it back to
that run's client; server nonces and nonces meant for other servers need no protection. -/
def confidential (cfg : Setting C I U K) : Knowledge C I U K where
  opened h n :=
    (∃ k id request user d, FailedAt h k id request user d (.nonce n)) ∨
      ∃ k run args, StartedAt h k run args ∧ args.nonce = .nonce n ∧
        (args.serverKey = cfg.serverKey →
          ∃ i id request user m, FailedAt h i id request user (.nonce n) m ∧
            user.publicKey = args.clientKey)
  sealedFor h key m :=
    key = cfg.serverKey ∧ ∃ k run args, StartedAt h k run args ∧ args.nonce = m

variable {cfg : Setting C I U K} {h : List (WorldEvent C I U K)} {w : World I U K}
  {id k j run s g : ℕ} {args : HandshakeRun I K (Term K)} {request : ClientChallenge I (Term K)}
  {user : UserKeyRecord U K} {d n m : Term K}

theorem confidential_grows : (confidential cfg).Grows where
  opened := by
    rintro h e n (⟨k, id, request, user, d, hf⟩ | ⟨k, run, args, hs, hn, hback⟩)
    · exact Or.inl ⟨k, id, request, user, d, hf.concat⟩
    · refine Or.inr ⟨k, run, args, hs.concat, hn, fun hkey => ?_⟩
      obtain ⟨i, id, request, user, m, hf, hu⟩ := hback hkey
      exact ⟨i, id, request, user, m, hf.concat, hu⟩
  sealedFor := by
    rintro h e key m ⟨hkey, k, run, args, hs, hn⟩
    exact ⟨hkey, k, run, args, hs.concat, hn⟩

variable [DecidableEq K]

/-- A request that opens to `d` is one the verifier decrypts to exactly `d`. -/
theorem decryptAndVerify_of_opens (ho : cfg.Opens request user d) :
    cfg.strategy.verifier.decryptAndVerify cfg.serverKey user.publicKey request.clientRequested =
      .ok (some d) := by
  obtain ⟨seed, ho⟩ := ho
  rw [ho]
  simp [Setting.strategy, MessageVerifier.decryptAndVerify, MessageVerifier.verifyOptions,
    MessageVerifier.encryptOptions, symbolicCrypto]

variable [DecidableEq I]

/-- The server signs a client's nonce, or the attacker learns it, only by giving it back. -/
theorem confidential_guards (hserver : cfg.attacker.owns cfg.serverKey = false)
    (hideal : cfg.attacker.digests = false) : Guards cfg (confidential cfg) where
  grows := confidential_grows
  started := by
    intro h e w run args seed hx hs
    by_cases hkey : args.serverKey = cfg.serverKey
    · exact Or.inr ⟨hkey ▸ hserver, hkey, h.length, run, args, hs, rfl⟩
    · have hn := (started_facts hx hs).1
      rw [hn]
      exact Or.inl (Or.inr ⟨h.length, run, args, hs, hn, fun hk => absurd hk hkey⟩)
  answered := by
    intro h e u w run args seed m _ _ hx ha _ hm _
    rcases hm with hm | ⟨_, hkey, _⟩
    · exact confidential_grows.mono hm
    · obtain ⟨⟨s, _, _, hs⟩, _⟩ := answered_facts hx ha
      exact absurd hkey (started_facts hx hs).2.2
  failed := by
    intro h e u w id request user seed d n hu hwire hx hf hm hsig
    obtain ⟨_, _, ⟨g, _, rfl, _⟩, _⟩ := failed_facts hx hf
    refine ⟨?_, Or.inl ⟨_, _, _, _, _, hf⟩⟩
    rcases hm with hm | ⟨_, _, k, run, args, hs, rfl⟩
    · exact confidential_grows.mono hm
    -- `d` is the nonce of an honest run: who can have signed it?
    have hn := (started_facts hu hs).1
    rcases signed_or_safe hsig hideal with hsigned | hknown
    · generalize hkey : user.publicKey = key at hsigned
      generalize hd : args.nonce = d at hsigned
      cases hsigned with
      | @started k' run' args' hs' =>
        have hn' := (started_facts hu hs').1
        rw [← hd, hn] at hn'
        cases hn'
        obtain ⟨rfl, rfl⟩ := hs.unique hs'
        rw [hn] at hf ⊢
        exact Or.inr ⟨k, run, args, hs.concat, hn, fun _ => ⟨_, _, _, _, _, hf, hkey⟩⟩
      | answered ha => exact confidential_grows.mono (hwire _ (answered_mem_wire hu ha))
      | returned hf' => exact confidential_grows.mono (hwire _ (returned_mem_wire hu hf'))
      | challenged hf' => exact absurd hd (failed_not_started hu hf' hs)
      | issued hsucc hb =>
        rw [hn] at hd
        cases hd
    · exact confidential_grows.mono hknown

/-- A request can carry a run's nonce only after that run drew it. -/
theorem drawn_before (hserver : cfg.attacker.owns cfg.serverKey = false)
    (hideal : cfg.attacker.digests = false) (hx : cfg.world.Execution h w)
    (hs : StartedAt h s run args) {u : World I U K} (hu : cfg.world.Execution (h.take k) u)
    {key : K} {seed : ℕ}
    (hd : Derivable cfg.attacker u.wire (.aenc key seed args.nonce)) : s < k := by
  have hn := (started_facts hx hs).1
  have earlier : ∀ j run' args', StartedAt (h.take k) j run' args' →
      args'.nonce = args.nonce → s < k := by
    intro j run' args' hs' heq
    have hj := (started_facts hx hs'.of_take.2).1
    rw [heq, hn] at hj
    cases hj
    exact hs'.of_take.1
  have hallow := (confidential_guards hserver hideal).derivable_allowed hu hd
  rcases hallow with hopen | ⟨_, _, j, run', args', hs', heq⟩
  · rw [hn] at hopen
    obtain ⟨j, id, request, user, d, hf⟩ | ⟨j, run', args', hs', heq, _⟩ := hopen
    · exact absurd hn (failed_not_started hx hf.of_take.2 hs)
    · exact earlier j run' args' hs' (heq.trans hn.symm)
  · exact earlier j run' args' hs' heq

/-- A challenge that gives back a run's nonce was requested, and its own nonce drawn, only after
that run began. -/
theorem given_back_after (hserver : cfg.attacker.owns cfg.serverKey = false)
    (hideal : cfg.attacker.digests = false) (hx : cfg.world.Execution h w)
    (hs : StartedAt h s run args) (hf : FailedAt h k id request user args.nonce n) :
    ∃ g, s < g ∧ g < k ∧ DrewAt h g id request user n := by
  obtain ⟨_, ⟨seed, ho⟩, ⟨g, hgk, _, hdrew⟩, _⟩ := failed_facts hx hf
  obtain ⟨_, u, hu, hder⟩ := drew_facts hx hdrew
  have hmessage := hder.1
  rw [ho] at hmessage
  exact ⟨g, drawn_before hserver hideal hx hs hu hmessage, hgk, hdrew⟩

/-- Before a run for the server's key answers, the server has drawn and sent a challenge for the
run's client that gives back the run's nonce. -/
theorem challenge_given_back (hserver : cfg.attacker.owns cfg.serverKey = false)
    (hideal : cfg.attacker.digests = false) (hx : cfg.world.Execution h w)
    (ha : AnsweredAt h j run args m) (hkey : args.serverKey = cfg.serverKey) :
    ∃ s g i id request user n, s < g ∧ g < i ∧ i < j ∧ StartedAt h s run args ∧
      DrewAt h g id request user n ∧ FailedAt h i id request user args.nonce n ∧
      user.publicKey = args.clientKey := by
  obtain ⟨⟨s, _, hn, hs⟩, u, hu, hsig, _⟩ := answered_facts hx ha
  have back : ∀ i id request user d n, FailedAt (h.take j) i id request user d n →
      args.nonce = d → ∃ i id request user n, FailedAt (h.take j) i id request user args.nonce n ∧
        user.publicKey = args.clientKey := by
    rintro i id request user d n hf rfl
    have hopen := (confidential_guards hserver hideal).wire_allowed hu _
      (returned_mem_wire hu hf)
    rw [hn] at hopen
    obtain ⟨i', id', request', user', d', hf'⟩ | ⟨s', run', args', hs', hn', hback⟩ := hopen
    · exact absurd hn (failed_not_started hx hf'.of_take.2 hs)
    · have hs'' := (started_facts hx hs'.of_take.2).1
      rw [hn'] at hs''
      cases hs''
      obtain ⟨rfl, rfl⟩ := hs'.of_take.2.unique hs
      obtain ⟨i', id', request', user', n', hf', hu'⟩ := hback hkey
      rw [← hn] at hf'
      exact ⟨i', id', request', user', n', hf', hu'⟩
  rw [hkey] at hsig
  obtain ⟨i, id, request, user, d, n, hf, hd | hd⟩ | ⟨_, _, _, _, _, bytes, _, _, hb⟩ :=
    server_signed hu hserver hsig
  · obtain ⟨i, id, request, user, n, hf, huser⟩ := back i id request user d n hf hd
    obtain ⟨g, hsg, hgi, hdrew⟩ := given_back_after hserver hideal hx hs hf.of_take.2
    exact ⟨s, g, i, id, request, user, n, hsg, hgi, hf.of_take.1, hs, hdrew, hf.of_take.2, huser⟩
  · exact absurd hd (failed_not_started hx hf.of_take.2 hs)
  · rw [hn] at hb
    cases hb

/-- The server is authenticated to the client. With ideal signatures, a run for the server's key
that gets as far as its response request was preceded, after it drew its nonce, by a
`this.fail(challenge, 401)` for a request that decrypts to exactly that nonce and whose signature
verified under this client's own key; the nonce of that challenge was drawn after the run began
as well. -/
theorem client_authenticates_server (hserver : cfg.attacker.owns cfg.serverKey = false)
    (hideal : cfg.attacker.digests = false) (hx : cfg.world.Execution h w)
    (ha : AnsweredAt h j run args m) (hkey : args.serverKey = cfg.serverKey) :
    ∃ s g i id request user n, s < g ∧ g < i ∧ i < j ∧ StartedAt h s run args ∧
      DrewAt h g id request user n ∧ FailedAt h i id request user args.nonce n ∧
      cfg.strategy.verifier.decryptAndVerify cfg.serverKey args.clientKey
        request.clientRequested = .ok (some args.nonce) ∧
      user.publicKey = args.clientKey := by
  obtain ⟨s, g, i, id, request, user, n, hsg, hgi, hij, hs, hdrew, hf, huser⟩ :=
    challenge_given_back hserver hideal hx ha hkey
  refine ⟨s, g, i, id, request, user, n, hsg, hgi, hij, hs, hdrew, hf, ?_, huser⟩
  rw [← huser]
  exact decryptAndVerify_of_opens (failed_facts hx hf).2.1

/-- In the undisturbed handshake, run 0 answers at index 9 what the server sent at index 8. -/
theorem client_authenticates_server_handshake :
    let h := twoUsers.world.history handshakeMoves
    AnsweredAt h 9 0 ⟨1, 1, 0, .nonce 0⟩ (.nonce 6) ∧
      ∃ s g i id request user n, s < g ∧ g < i ∧ i < 9 ∧ StartedAt h s 0 ⟨1, 1, 0, .nonce 0⟩ ∧
        DrewAt h g id request user n ∧ FailedAt h i id request user (.nonce 0) n ∧
        twoUsers.strategy.verifier.decryptAndVerify 0 1 request.clientRequested =
          .ok (some (.nonce 0)) ∧
        user.publicKey = 1 := by
  obtain ⟨w, hx⟩ := twoUsers.world.history_execution handshakeMoves
  have ha : AnsweredAt (twoUsers.world.history handshakeMoves) 9 0 ⟨1, 1, 0, .nonce 0⟩
      (.nonce 6) := ⟨_, rfl⟩
  exact ⟨ha, client_authenticates_server (by decide) rfl hx ha rfl⟩

end MutualKeyChallenge
