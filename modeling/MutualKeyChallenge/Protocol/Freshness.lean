import MutualKeyChallenge.Protocol.ServerAuthentication

/-! What a client may be made to sign in its response step. -/
namespace MutualKeyChallenge
open Transition Symbolic
variable {C I U K : Type} [DecidableEq I] [DecidableEq K]

/-- Every byte string a run for the server's key signs in its response step was drawn by the
strategy's `getNonce`, for this client's key, after the run began. -/
def AnswersOwnFreshNonce (cfg : Setting C I U K) : Prop :=
  ∀ h w, cfg.world.Execution h w → ∀ j run args m, AnsweredAt h j run args m →
    args.serverKey = cfg.serverKey →
    ∃ s g id request user, StartedAt h s run args ∧ s < g ∧ g < j ∧
      DrewAt h g id request user m ∧ user.publicKey = args.clientKey

/-- User 2 lets the server sign bytes of its choice in a challenge of its own, and puts them in
place of the server's nonce in the reply to user 1's run 0. -/
def chosenBytesMoves : List (WorldMove Unit ℕ ℕ) :=
  .start 0 1 1 0 0 :: challengeMoves 0 () 1 (seenAt 0) ++
    challengeMoves 1 () 2 ⟨.encrypt 0 0 (.data [7]), .sign 2 (.data [7])⟩ ++
    [.reply 0 ⟨seenAt 2, ⟨.encrypt 1 0 (.data [7]), .seen 7⟩⟩]

/-- A registered user makes another user's client sign bytes it chose. -/
theorem chosen_bytes_signed : ¬ AnswersOwnFreshNonce twoUsers := by
  intro hall
  obtain ⟨w, hx⟩ := twoUsers.world.history_execution chosenBytesMoves
  have ha : AnsweredAt (twoUsers.world.history chosenBytesMoves) 17 0 ⟨1, 1, 0, .nonce 0⟩
      (.data [7]) := ⟨_, rfl⟩
  obtain ⟨s, g, id, request, user, _, _, _, hdrew, _⟩ := hall _ w hx 17 0 _ _ ha rfl
  have hn := (drew_facts hx hdrew).1
  cases hn

variable {cfg : Setting C I U K} {h : List (WorldEvent C I U K)} {w : World I U K} {j run : ℕ}
  {args : HandshakeRun I K (Term K)} {m : Term K}

/-- What a run for the server's key signs in its response step is something the server's key has
signed before: a nonce of some challenge, a plaintext that some challenge gave back, or data of
the application. And after the run began, the strategy did draw a nonce for this client's key, in
the challenge that gave back the run's own nonce. -/
theorem answered_signed_before (hserver : cfg.attacker.owns cfg.serverKey = false)
    (hideal : cfg.attacker.digests = false) (hx : cfg.world.Execution h w)
    (ha : AnsweredAt h j run args m) (hkey : args.serverKey = cfg.serverKey) :
    ((∃ i id request user d n, i < j ∧ FailedAt h i id request user d n ∧ (m = d ∨ m = n)) ∨
      ∃ i id now response user bytes, i < j ∧ SucceededAt h i id now response user ∧
        bytes ∈ cfg.onSuccess user.user now ∧ m = .data bytes) ∧
    ∃ s g i id request user n, StartedAt h s run args ∧ s < g ∧ g < i ∧ i < j ∧
      DrewAt h g id request user n ∧ FailedAt h i id request user args.nonce n ∧
      user.publicKey = args.clientKey := by
  constructor
  · obtain ⟨_, u, hu, _, _, hsig⟩ := answered_facts hx ha
    rw [hkey] at hsig
    obtain ⟨i, id, request, user, d, n, hf, hm⟩ | ⟨i, id, now, response, user, bytes, hs, hb, hm⟩ :=
      server_signed hu hserver hsig
    · exact Or.inl ⟨i, id, request, user, d, n, hf.of_take.1, hf.of_take.2, hm⟩
    · exact Or.inr ⟨i, id, now, response, user, bytes, hs.of_take.1, hs.of_take.2, hb, hm⟩
  · obtain ⟨s, g, i, id, request, user, n, hsg, hgi, hij, hs, hdrew, hf, huser⟩ :=
      challenge_given_back hserver hideal hx ha hkey
    exact ⟨s, g, i, id, request, user, n, hs, hsg, hgi, hij, hdrew, hf, huser⟩

/-- In the undisturbed handshake the answer is the nonce of the client's own challenge. -/
theorem answered_signed_before_handshake :
    let h := twoUsers.world.history handshakeMoves
    AnsweredAt h 9 0 ⟨1, 1, 0, .nonce 0⟩ (.nonce 6) ∧
      ((∃ i id request user d n, i < 9 ∧ FailedAt h i id request user d n ∧
          ((.nonce 6 : Term ℕ) = d ∨ .nonce 6 = n)) ∨
        ∃ i id now response user bytes, i < 9 ∧ SucceededAt h i id now response user ∧
          bytes ∈ twoUsers.onSuccess user.user now ∧ (.nonce 6 : Term ℕ) = .data bytes) ∧
      ∃ s g i id request user n, StartedAt h s 0 ⟨1, 1, 0, .nonce 0⟩ ∧ s < g ∧ g < i ∧ i < 9 ∧
        DrewAt h g id request user n ∧ FailedAt h i id request user (.nonce 0) n ∧
        user.publicKey = 1 := by
  obtain ⟨w, hx⟩ := twoUsers.world.history_execution handshakeMoves
  have ha : AnsweredAt (twoUsers.world.history handshakeMoves) 9 0 ⟨1, 1, 0, .nonce 0⟩
      (.nonce 6) := ⟨_, rfl⟩
  exact ⟨ha, answered_signed_before (by decide) rfl hx ha rfl⟩

end MutualKeyChallenge
