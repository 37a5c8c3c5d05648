import MutualKeyChallenge.Session.Legs

/-! What a settled `request` promise says about the strategy's verdicts. -/
namespace MutualKeyChallenge.Session
open Transition
variable {K S : Type} {cfg : Deployment K S} {w : State K} {h : List (Event K S)} {run : ℕ}

/-- The strategy accepted the run's response `sent` for `args.userId`. -/
def Accepted (cfg : Deployment K S) (h : List (Event K S)) (run : ℕ)
    (args : HandshakeRun (List Char) K Bytes) (sent : ClientSignedMessage (List Char) Bytes) :
    Prop :=
  ∃ a ∈ arrivals run h, ∃ call r, ArrivedAs .response sent call a ∧
    cfg.userFunc (jsonRequest "response" sent call) (.string args.userId) = some r ∧
    verdicts call (serverEvents h) = [.success r.user r.publicKey]

/-- The request `sent` of the run on this leg has got one verdict, this error. -/
def AnsweredWithError (h : List (Event K S)) (run : ℕ) (leg : Leg)
    (sent : ClientSignedMessage (List Char) Bytes) (error : ChallengeError) : Prop :=
  ∃ a ∈ arrivals run h, ∃ call, ArrivedAs leg sent call a ∧
    verdicts call (serverEvents h) = [.error error]

/-- A resolved promise means that the strategy accepted the run's response, and an error at
either request rejects the promise as soon as the reply is in. -/
def CompletionImpliesAcceptance (cfg : Deployment K S) : Prop :=
  ∀ h w, cfg.session.Execution h w → ∀ run,
    (∀ args sent response, w.requests run = some (.resolved args sent response) →
      Accepted cfg h run args sent) ∧
    ∀ leg sent error, AnsweredWithError h run leg sent error → ∀ st, w.requests run = some st →
      (∃ leg args sent call, st = .awaiting leg args sent call) ∨ ∃ args e, st = .rejected args e

/-- A run whose response comes after the challenge expired completes all the same. -/
theorem expired_challenge_completes : ¬ CompletionImpliesAcceptance demo := by
  intro hall
  let moves := challengeLeg 0 0 ++ .server (.tick 120001) :: responseLeg 0 1
  have hx := demo.session.final_execution moves
  obtain ⟨a, ha, call, r, ⟨now, after, rfl⟩, _, hv⟩ := (hall _ _ hx 0).1 _ _ _ rfl
  have harr : arrivals 0 (demo.session.history moves) = [_, _] := rfl
  rw [harr] at ha
  rcases List.mem_pair.mp ha with heq | heq
  · cases heq
  · cases heq
    cases hv

/-- A resolved promise means that both of the client's checks passed and that the strategy gave
the run's response exactly one verdict, of which the promise brings the router's reply: a token for
the user it was for, or the text of an error. After an error at the first request it never
resolves. -/
theorem resolved_with_verdict (hx : cfg.session.Execution h w) :
    (∀ args sent response, w.requests run = some (.resolved args sent response) →
      (∃ a ∈ arrivals run h, Answered cfg h args sent a) ∧
      ((Accepted cfg h run args sent ∧
          ∃ t, response = ⟨200, .json (.object [("token", .string t)])⟩) ∨
        ∃ error ∈ MutualKeyChallengeStrategy.handlerErrors,
          AnsweredWithError h run .response sent error ∧ response = ⟨401, .text error.message⟩)) ∧
    ∀ first error, AnsweredWithError h run .challenge first error →
      ∀ args sent response, w.requests run ≠ some (.resolved args sent response) := by
  constructor
  · intro args sent response hrun
    have hok := requests_ok hx run
    rw [hrun] at hok
    obtain ⟨a, b, call, v, hab, hans, harr, hv, hr⟩ := hok
    have ha : a ∈ arrivals run h := hab ▸ by simp
    have hb : b ∈ arrivals run h := hab ▸ by simp
    refine ⟨⟨a, ha, hans⟩, ?_⟩
    obtain ⟨hid, hnamed⟩ := hans.named hx ha
    obtain ⟨hone, now, hc⟩ := settled_call hx hb harr (settled_of_verdict (session_server hx) hv)
    rcases response_verdict (hid ▸ hnamed) hc with ⟨r, rfl, hu⟩ | ⟨error, rfl, he⟩
    · refine Or.inl ⟨⟨b, hb, call, r, harr, hid ▸ hu, hone⟩, ?_⟩
      obtain ⟨t, _, rfl⟩ := Option.map_eq_some_iff.mp hr
      exact ⟨t, rfl⟩
    · cases hr
      exact Or.inr ⟨error, he, ⟨b, hb, call, harr, hone⟩, rfl⟩
  · intro first error herr args sent response hrun
    have hok := requests_ok hx run
    rw [hrun] at hok
    obtain ⟨a, b, _, _, hab, ⟨seed, message, call, challenge, status, _, harr, hfail, _⟩,
      ⟨now, after, hb⟩, _⟩ := hok
    obtain ⟨a', ha', call', harr', he⟩ := herr
    rw [hab] at ha'
    rcases List.mem_pair.mp ha' with rfl | rfl
    · obtain ⟨_, _, rfl⟩ := harr
      obtain ⟨_, _, heq⟩ := harr'
      obtain ⟨rfl, _⟩ := ServerEvent.authenticate.inj (Prod.mk.inj heq).2
      rw [he] at hfail
      cases List.mem_singleton.mp hfail
    · obtain ⟨_, _, rfl⟩ := harr'
      cases hb

/-- Run 0 of the undisturbed handshake resolves with its token. -/
theorem resolved_with_verdict_handshake :
    let moves := challengeLeg 0 0 ++ responseLeg 0 1
    let h := demo.session.history moves
    let w := demo.session.final moves
    (∃ args sent t,
      w.requests 0 = some (.resolved args sent ⟨200, .json (.object [("token", .string t)])⟩)) ∧
    (∀ args sent response, w.requests 0 = some (.resolved args sent response) →
      (∃ a ∈ arrivals 0 h, Answered demo h args sent a) ∧
      ((Accepted demo h 0 args sent ∧
          ∃ t, response = ⟨200, .json (.object [("token", .string t)])⟩) ∨
        ∃ error ∈ MutualKeyChallengeStrategy.handlerErrors,
          AnsweredWithError h 0 .response sent error ∧ response = ⟨401, .text error.message⟩)) ∧
    ∀ first error, AnsweredWithError h 0 .challenge first error →
      ∀ args sent response, w.requests 0 ≠ some (.resolved args sent response) := by
  have hx := demo.session.final_execution (challengeLeg 0 0 ++ responseLeg 0 1)
  exact ⟨⟨_, _, _, rfl⟩, resolved_with_verdict hx⟩

end MutualKeyChallenge.Session
