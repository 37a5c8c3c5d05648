import MutualKeyChallenge.Protocol.Consistency

/-! Where each recorded event and each byte string on the wire came from. -/
namespace MutualKeyChallenge
open Transition Symbolic
variable {C I U K : Type} [DecidableEq I] [DecidableEq K] {cfg : Setting C I U K}
  {h : List (WorldEvent C I U K)} {w w' : World I U K} {e : WorldEvent C I U K}
  {id id' k k' j now run : ℕ} {args : HandshakeRun I K (Term K)}
  {request request' : ClientChallenge I (Term K)} {response : ClientResponse I (Term K)}
  {user user' : UserKeyRecord U K} {d d' n m t : Term K}

/-- What an event puts on the wire. -/
def WorldEvent.published (cfg : Setting C I U K) : WorldEvent C I U K → List (Term K)
  | .server e => cfg.published e
  | .started _ _ sent => [sent.data.message, sent.data.signature]
  | .replied _ _ _ (.awaitingResult args m) => [m, .sig args.clientKey m]
  | .replied _ _ _ _ => []

theorem wire_step (hs : WorldStep cfg w e w') : w'.wire = w.wire ++ e.published cfg := by
  cases hs with
  | authenticate | resume | timer | tick | started => rfl
  | threw => simp [WorldEvent.published]
  | answered hrun hder hsent =>
    obtain ⟨_, _, _, _, rfl⟩ := client_responseMessage hsent
    rfl

/-- The wire is what the recorded events put on it. -/
theorem wire_eq (hx : cfg.world.Execution h w) : w.wire = h.flatMap (·.published cfg) := by
  apply Machine.Execution.invariant (P := fun h (w : World I U K) =>
    w.wire = h.flatMap (·.published cfg)) rfl ?_ hx
  intro h w e w' _ ih hstep
  rw [wire_step (world_step_inv hstep), ih]
  simp

theorem answered_mem_wire (hx : cfg.world.Execution h w) (ha : AnsweredAt h k run args m) :
    m ∈ w.wire := by
  obtain ⟨reply, hk⟩ := ha
  rw [wire_eq hx, List.mem_flatMap]
  exact ⟨_, List.mem_of_getElem? hk, by simp [WorldEvent.published]⟩

theorem returned_mem_wire (hx : cfg.world.Execution h w)
    (hf : FailedAt h k id request user d n) : d ∈ w.wire := by
  obtain ⟨now, i, dm, nm, hk, rfl⟩ := hf
  rw [wire_eq hx, List.mem_flatMap]
  exact ⟨_, List.mem_of_getElem? hk, by simp [WorldEvent.published, Setting.published]⟩

/-- A run's nonce carries the index of the step that drew it. -/
theorem started_facts (hx : cfg.world.Execution h w) (hs : StartedAt h k run args) :
    args.nonce = .nonce k ∧ cfg.Honest args.clientKey := by
  obtain ⟨sent, hk⟩ := hs
  obtain ⟨u, v, hu, hc, hstep⟩ := event_origin hx hk
  cases hstep with
  | started hfree hhonest hnonce hsent =>
    rw [hc.fresh, length_take_of_some hk] at hnonce
    exact ⟨hnonce, hhonest⟩

/-- The client answers only what both of its checks let through. -/
theorem answered_step {reply : ServerChallenge (Term K)} (hc : Consistent cfg h w)
    (hs : WorldStep cfg w (.replied run args reply (.awaitingResult args m)) w') :
    (∃ s, args.nonce = .nonce s ∧ StartedAt h s run args) ∧
      w'.wire = w.wire ++ [m, .sig args.clientKey m] ∧
      Derivable cfg.attacker w.wire (.sig args.serverKey args.nonce) ∧
      (∃ seed, Derivable cfg.attacker w.wire (.aenc args.clientKey seed m)) ∧
      Derivable cfg.attacker w.wire (.sig args.serverKey m) := by
  generalize he : WorldEvent.replied run args reply (.awaitingResult args m) = e at hs
  cases hs <;> cases he
  rename_i sent hrun hder hsent
  obtain ⟨hcr, seed, m', hsr, rfl⟩ := client_responseMessage hsent
  rw [hcr, hsr] at hder
  exact ⟨hc.runs _ _ hrun, rfl, hder.1.2, ⟨seed, hder.2.1⟩, hder.2.2⟩

theorem answered_facts (hx : cfg.world.Execution h w) (ha : AnsweredAt h k run args m) :
    (∃ s, s < k ∧ args.nonce = .nonce s ∧ StartedAt h s run args) ∧
      ∃ u, cfg.world.Execution (h.take k) u ∧
        Derivable cfg.attacker u.wire (.sig args.serverKey args.nonce) ∧
        (∃ seed, Derivable cfg.attacker u.wire (.aenc args.clientKey seed m)) ∧
        Derivable cfg.attacker u.wire (.sig args.serverKey m) := by
  obtain ⟨reply, hk⟩ := ha
  obtain ⟨u, v, hu, hc, hstep⟩ := event_origin hx hk
  obtain ⟨⟨s, hn, hs⟩, _, hder⟩ := answered_step hc hstep
  exact ⟨⟨s, hs.of_take.1, hn, hs.of_take.2⟩, u, hu, hder⟩

/-- A run answers once. -/
theorem answered_unique {args' : HandshakeRun I K (Term K)} (hx : cfg.world.Execution h w)
    (h1 : AnsweredAt h k run args m) (h2 : AnsweredAt h k' run args' n) : k = k' := by
  have once : ∀ {k k'} {args args' : HandshakeRun I K (Term K)} {m n},
      AnsweredAt h k run args m → AnsweredAt h k' run args' n → ¬ k < k' := by
    rintro k k' args args' m n ⟨reply, hk⟩ ⟨reply', hk'⟩ hlt
    obtain ⟨u, v, hu, hc, hstep⟩ := event_origin hx hk'
    have hold := hc.answered k run args m
      ⟨reply, by rw [List.getElem?_take_of_lt hlt]; exact hk⟩
    generalize he : WorldEvent.replied _ _ _ _ = e at hstep
    cases hstep <;> cases he
    rename_i hrun _ _
    rw [hold] at hrun
    cases hrun
  rcases Nat.lt_trichotomy k k' with hlt | heq | hgt
  · exact (once h1 h2 hlt).elim
  · exact heq
  · exact (once h2 h1 hgt).elim

/-- A challenge is issued only for a request that opened and verified, with a nonce of its own. -/
theorem failed_step {i : Inputs K ℕ} {dm nm : SignedMessage (Term K)}
    (hc : Consistent cfg h w)
    (hs : WorldStep cfg w (.server (.resume id now (.challengeEncrypted request user dm n nm) i
      (.settled (.fail ⟨dm, nm⟩ 401)))) w') :
    w.server.calls id = some (.suspended (.challengeEncrypted request user dm n nm)) ∧
      request.clientRequested.Derivable cfg.attacker w.wire ∧
      cfg.Registered request.userId user ∧ cfg.Opens request user dm.message ∧
      (∃ g, n = .nonce g ∧ DrewAt h g id request user n) ∧
      dm.signature = .sig cfg.serverKey dm.message ∧
      ∃ seed, nm = ⟨.aenc user.publicKey seed n, .sig cfg.serverKey n⟩ := by
  generalize he : WorldEvent.server _ = e at hs
  cases hs <;> cases he
  rename_i seed cache hcall hp
  obtain ⟨hder, hreg, ho, hsig, hg, hnm⟩ := hc.handlers _ _ hcall
  exact ⟨hcall, hder, hreg, ho, hg, hsig, hnm⟩

theorem failed_facts (hx : cfg.world.Execution h w) (hf : FailedAt h k id request user d n) :
    cfg.Registered request.userId user ∧ cfg.Opens request user d ∧
      (∃ g, g < k ∧ n = .nonce g ∧ DrewAt h g id request user n) ∧
      ∃ u, cfg.world.Execution (h.take k) u ∧
        (∃ hd, u.server.calls id = some (.suspended hd)) ∧
        request.clientRequested.Derivable cfg.attacker u.wire := by
  obtain ⟨now, i, dm, nm, hk, rfl⟩ := hf
  obtain ⟨u, v, hu, hc, hstep⟩ := event_origin hx hk
  obtain ⟨hcall, hder, hreg, ho, ⟨g, hg, hdrew⟩, _⟩ := failed_step hc hstep
  exact ⟨hreg, ho, ⟨g, hdrew.of_take.1, hg, hdrew.of_take.2⟩, u, hu, ⟨_, hcall⟩, hder⟩

/-- `getNonce` gives the next fresh value. -/
theorem drew_facts (hx : cfg.world.Execution h w) (hd : DrewAt h k id request user n) :
    n = .nonce k ∧ ∃ u, cfg.world.Execution (h.take k) u ∧
      request.clientRequested.Derivable cfg.attacker u.wire := by
  obtain ⟨now, i, dm, hk⟩ := hd
  obtain ⟨u, v, hu, hc, hstep⟩ := event_origin hx hk
  have hfresh : u.fresh = k := hc.fresh.trans (length_take_of_some hk)
  generalize he : WorldEvent.server _ = e at hstep
  cases hstep <;> cases he
  rename_i seed cache hcall hp
  obtain ⟨ha, _⟩ := perform_suspended hp
  cases ha
  exact ⟨congrArg Term.nonce hfresh, u, hu, (hc.handlers _ _ hcall).1⟩

/-- `this.success` follows a verified response that matches the cached, unexpired challenge. -/
theorem succeeded_facts (hx : cfg.world.Execution h w)
    (hs : SucceededAt h k id now response user) :
    cfg.Registered response.userId user ∧
      response.clientResponsed.signature = .sig user.publicKey response.clientResponsed.message ∧
      ∃ u, cfg.world.Execution (h.take k) u ∧
        response.clientResponsed.Derivable cfg.attacker u.wire ∧
        ∃ c, u.server.cache.challengeMap response.userId = some c ∧
          c.clientChallenged = response.clientResponsed.message ∧
          now ≤ c.requestDateTime + cfg.ttlMs := by
  obtain ⟨i, hk⟩ := hs
  obtain ⟨u, v, hu, hc, hstep⟩ := event_origin hx hk
  generalize he : WorldEvent.server _ = e at hstep
  cases hstep <;> cases he
  rename_i seed cache hcall hp
  obtain ⟨hder, hreg, hsig⟩ := hc.handlers _ _ hcall
  refine ⟨hreg, hsig rfl, u, hu, hder, ?_⟩
  obtain ⟨_, _, c, hhd, _, _, hget, heq⟩ := perform_success hp
  cases hhd
  obtain ⟨hmap, hexp⟩ := LocalChallengeCache.get_eq_some_iff.mp hget
  rw [server_ttlMs (world_server hu)] at hexp
  exact ⟨c, hmap, heq, hexp⟩

/-- No nonce is challenged with twice. -/
theorem failed_unique (hx : cfg.world.Execution h w) (h1 : FailedAt h k id request user d n)
    (h2 : FailedAt h k' id' request' user' d' n) : k = k' := by
  have once : ∀ {k k' id id' request request'} {user user' : UserKeyRecord U K} {d d'},
      FailedAt h k id request user d n → FailedAt h k' id' request' user' d' n → ¬ k < k' := by
    intro k k' id id' request request' user user' d d' h1 h2 hlt
    obtain ⟨_, _, ⟨g, _, hn, hdrew⟩, _⟩ := failed_facts hx h1
    obtain ⟨_, _, ⟨g', _, hn', hdrew'⟩, u, hu, ⟨hd, hcall⟩, _⟩ := failed_facts hx h2
    rw [hn] at hn'
    cases hn'
    have hid := hdrew.unique hdrew'
    subst hid
    obtain ⟨now, i, dm, nm, hk, _⟩ := h1
    have hfailed := List.mem_of_getElem? ((List.getElem?_take_of_lt hlt).trans hk)
    have hsettled := settled_of_verdict (world_server hu) (given_verdict (mem_serverEvents hfailed))
    rw [hcall] at hsettled
    cases hsettled
  rcases Nat.lt_trichotomy k k' with hlt | heq | hgt
  · exact (once h1 h2 hlt).elim
  · exact heq
  · exact (once h2 h1 hgt).elim

/-- The server's nonces are not the clients'. -/
theorem failed_not_started (hx : cfg.world.Execution h w)
    (h1 : FailedAt h k id request user d n) (h2 : StartedAt h j run args) : args.nonce ≠ n := by
  intro heq
  obtain ⟨_, _, ⟨g, _, hn, hdrew⟩, _⟩ := failed_facts hx h1
  have hj := (started_facts hx h2).1
  rw [heq, hn] at hj
  cases hj
  exact hdrew.not_started h2

end MutualKeyChallenge
