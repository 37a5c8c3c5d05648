import MutualKeyChallenge.Protocol.Agreement

/-! What a handshake binds together: the key and the nonce, but neither the user id nor the
server it was meant for. -/
namespace MutualKeyChallenge
open Transition Symbolic
variable {C I U K : Type}

/-- The arguments of the client runs a history records. -/
def requested (h : List (WorldEvent C I U K)) : List (HandshakeRun I K (Term K)) :=
  h.filterMap fun e =>
    match e with
    | .started _ args _ => some args
    | _ => none

theorem mem_requested {h : List (WorldEvent C I U K)} {k run : ℕ}
    {args : HandshakeRun I K (Term K)} (hs : StartedAt h k run args) : args ∈ requested h := by
  obtain ⟨sent, hk⟩ := hs
  exact List.mem_filterMap.mpr ⟨_, List.mem_of_getElem? hk, rfl⟩

variable [DecidableEq I] [DecidableEq K]

/-! The user id. -/

/-- A success for an honest client's key is for the user id that client passed to `request` in
the run that answered the nonce. -/
def AgreesOnUserId (cfg : Setting C I U K) : Prop :=
  ∀ h w, cfg.world.Execution h w → ∀ k id now response user,
    SucceededAt h k id now response user → cfg.Honest user.publicKey →
    ∃ j run args, j < k ∧ AnsweredAt h j run args response.clientResponsed.message ∧
      args.clientKey = user.publicKey ∧ args.userId = response.userId

/-- As in the demo's `getUser`, every id has the same public key; the attacker owns no key. -/
def sharedKey : Setting Unit ℕ ℕ ℕ :=
  { twoUsers with
    userFunc := fun _ userId => some ⟨userId, 1⟩
    attacker := { owns := fun _ => false, digests := false } }

/-- The handshake of user 1 with the id rewritten to 2 in both requests. -/
def rewrittenIdMoves : List (WorldMove Unit ℕ ℕ) :=
  .start 0 1 1 0 0 :: challengeMoves 0 () 2 (seenAt 0) ++
    .reply 0 ⟨seenAt 2, seenAt 4⟩ :: responseMoves 1 () 2 (seenAt 6)

/-- The client is logged in under an id it never passed to `request`. -/
theorem rewritten_id_accepted : ¬ AgreesOnUserId sharedKey := by
  intro hall
  obtain ⟨w, hx⟩ := sharedKey.world.history_execution rewrittenIdMoves
  have hs : SucceededAt (sharedKey.world.history rewrittenIdMoves) 13 1 0
      ⟨2, ⟨.nonce 6, .sig 1 (.nonce 6)⟩⟩ ⟨2, 1⟩ := ⟨_, rfl⟩
  obtain ⟨j, run, args, _, ha, _, huid⟩ := hall _ w hx 13 1 0 _ _ hs (by decide)
  obtain ⟨⟨s, _, _, hst⟩, _⟩ := answered_facts hx ha
  have hruns : requested (sharedKey.world.history rewrittenIdMoves) = [⟨1, 1, 0, .nonce 0⟩] := rfl
  have hmem := mem_requested hst
  rw [hruns, List.mem_singleton] at hmem
  subst hmem
  cases huid

variable {cfg : Setting C I U K} {h : List (WorldEvent C I U K)} {w : World I U K}
  {k id now : ℕ} {response : ClientResponse I (Term K)} {user : UserKeyRecord U K}

/-- A success for an honest client's key is for an id with that key, and the client did execute
`request` in the handshake whose nonce was answered; it passed the same id if the id it passed is
the only one with its key. -/
theorem user_id_agreement (hx : cfg.world.Execution h w)
    (hs : SucceededAt h k id now response user) (hhonest : cfg.Honest user.publicKey) :
    cfg.Registered response.userId user ∧
      ∃ j run args, j < k ∧ AnsweredAt h j run args response.clientResponsed.message ∧
        args.clientKey = user.publicKey ∧
        ((∀ u r, cfg.Registered u r → r.publicKey = args.clientKey → u = args.userId) →
          args.userId = response.userId) := by
  have hreg := (succeeded_facts hx hs).1
  obtain ⟨_, j, _, _, _, _, run, args, _, hjk, _, _, _, ha, hkey⟩ :=
    succeeded_answered hx hs hhonest
  refine ⟨hreg, j, run, args, hjk, ha, hkey, ?_⟩
  intro honly
  exact (honly _ _ hreg hkey.symm).symm

/-- In the undisturbed handshake user 1 is logged in as 1. -/
theorem user_id_agreement_handshake :
    let h := twoUsers.world.history handshakeMoves
    SucceededAt h 13 1 0 ⟨1, ⟨.nonce 6, .sig 1 (.nonce 6)⟩⟩ ⟨1, 1⟩ ∧
      twoUsers.Registered 1 ⟨1, 1⟩ ∧
      ∃ j run args, j < 13 ∧ AnsweredAt h j run args (.nonce 6) ∧ args.clientKey = 1 ∧
        ((∀ u r, twoUsers.Registered u r → r.publicKey = args.clientKey → u = args.userId) →
          args.userId = 1) := by
  obtain ⟨w, hx⟩ := twoUsers.world.history_execution handshakeMoves
  have hs : SucceededAt (twoUsers.world.history handshakeMoves) 13 1 0
      ⟨1, ⟨.nonce 6, .sig 1 (.nonce 6)⟩⟩ ⟨1, 1⟩ := ⟨_, rfl⟩
  exact ⟨hs, user_id_agreement hx hs (by decide)⟩

/-! The server. -/

/-- A success for an honest client's key was answered by a run of that client for the key of this
server. -/
def AgreesOnServer (cfg : Setting C I U K) : Prop :=
  ∀ h w, cfg.world.Execution h w → ∀ k id now response user,
    SucceededAt h k id now response user → cfg.Honest user.publicKey →
    ∃ j run args, j < k ∧ AnsweredAt h j run args response.clientResponsed.message ∧
      args.clientKey = user.publicKey ∧ args.serverKey = cfg.serverKey

/-- User 1 also trusts a server with key 2, which the attacker runs; signatures give the digest of
the data away and can be made from it. -/
def twoServers : Setting Unit ℕ ℕ ℕ :=
  { twoUsers with
    userFunc := fun _ userId => if userId = 1 then some ⟨1, 1⟩ else none
    attacker := { owns := fun k => k = 2, digests := true } }

/-- Run 0 is for key 2. Its nonce is encrypted again for key 0, and the digest of the nonce that
comes back is taken from one signature and signed with key 2. -/
def manInTheMiddleMoves : List (WorldMove Unit ℕ ℕ) :=
  .start 0 1 1 2 0 :: challengeMoves 0 () 1 ⟨.encrypt 0 0 (.decrypt 2 (.seen 0)), .seen 1⟩ ++
    .reply 0 ⟨⟨.seen 2, .sign 2 (.seen 2)⟩, ⟨.seen 4, .signDigest 2 (.recover (.seen 5))⟩⟩ ::
    responseMoves 1 () 1 (seenAt 6)

/-- A handshake meant for another server becomes a login at this one. -/
theorem other_server_accepted : ¬ AgreesOnServer twoServers := by
  intro hall
  obtain ⟨w, hx⟩ := twoServers.world.history_execution manInTheMiddleMoves
  have hs : SucceededAt (twoServers.world.history manInTheMiddleMoves) 13 1 0
      ⟨1, ⟨.nonce 6, .sig 1 (.nonce 6)⟩⟩ ⟨1, 1⟩ := ⟨_, rfl⟩
  obtain ⟨j, run, args, _, ha, _, hserver⟩ := hall _ w hx 13 1 0 _ _ hs (by decide)
  obtain ⟨⟨s, _, _, hst⟩, _⟩ := answered_facts hx ha
  have hruns : requested (twoServers.world.history manInTheMiddleMoves) =
      [⟨1, 1, 2, .nonce 0⟩] := rfl
  have hmem := mem_requested hst
  rw [hruns, List.mem_singleton] at hmem
  subst hmem
  cases hserver

/-- With either kind of signature, a success for an honest client's key was answered by a run of
that client, and whoever answered its nonce did so for this server's key, for a key of the
attacker, or for the key of a client that had answered the same nonce before. -/
theorem server_agreement (hx : cfg.world.Execution h w)
    (hs : SucceededAt h k id now response user) (hhonest : cfg.Honest user.publicKey) :
    (∃ j run args, j < k ∧ AnsweredAt h j run args response.clientResponsed.message ∧
      args.clientKey = user.publicKey) ∧
    ∀ j run args, AnsweredAt h j run args response.clientResponsed.message →
      args.serverKey = cfg.serverKey ∨ cfg.attacker.owns args.serverKey = true ∨
        ∃ j' run' args', j' < j ∧
          AnsweredAt h j' run' args' response.clientResponsed.message ∧
          args'.clientKey = args.serverKey := by
  obtain ⟨_, j, _, _, _, _, run, args, _, hjk, hf, _, _, ha, hkey⟩ :=
    succeeded_answered hx hs hhonest
  refine ⟨⟨j, run, args, hjk, ha, hkey⟩, ?_⟩
  intro j run args ha
  by_cases hserver : args.serverKey = cfg.serverKey
  · exact Or.inl hserver
  refine Or.inr ?_
  by_cases howns : cfg.attacker.owns args.serverKey = true
  · exact Or.inl howns
  refine Or.inr ?_
  -- a client's key: the signature the run checked was made in one of that client's runs
  obtain ⟨_, u, hu, _, _, hsig⟩ := answered_facts hx ha
  have hclient : cfg.Honest args.serverKey := ⟨by simpa using howns, hserver⟩
  obtain ⟨i, run', args', hst, _, hn⟩ | ⟨i, run', args', ha', hkey'⟩ :=
    client_signed hu hclient hsig
  · exact absurd hn (failed_not_started hx hf hst.of_take.2)
  · exact ⟨i, run', args', ha'.of_take.1, ha'.of_take.2, hkey'⟩

/-- In the man-in-the-middle run, too, the answer came from a run of the client. -/
theorem server_agreement_manInTheMiddle :
    let h := twoServers.world.history manInTheMiddleMoves
    SucceededAt h 13 1 0 ⟨1, ⟨.nonce 6, .sig 1 (.nonce 6)⟩⟩ ⟨1, 1⟩ ∧
      (∃ j run args, j < 13 ∧ AnsweredAt h j run args (.nonce 6) ∧ args.clientKey = 1) ∧
      ∀ j run args, AnsweredAt h j run args (.nonce 6) →
        args.serverKey = 0 ∨ twoServers.attacker.owns args.serverKey = true ∨
          ∃ j' run' args', j' < j ∧ AnsweredAt h j' run' args' (.nonce 6) ∧
            args'.clientKey = args.serverKey := by
  obtain ⟨w, hx⟩ := twoServers.world.history_execution manInTheMiddleMoves
  have hs : SucceededAt (twoServers.world.history manInTheMiddleMoves) 13 1 0
      ⟨1, ⟨.nonce 6, .sig 1 (.nonce 6)⟩⟩ ⟨1, 1⟩ := ⟨_, rfl⟩
  exact ⟨hs, server_agreement hx hs (by decide)⟩

end MutualKeyChallenge
