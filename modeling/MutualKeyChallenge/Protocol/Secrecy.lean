import MutualKeyChallenge.Protocol.Origin

/-! How a policy is shown to bound all that the attacker ever sees. -/
namespace MutualKeyChallenge
open Transition Symbolic
variable {C I U K : Type}

/-- Two history-dependent parts of a policy; the signatures are always the recorded ones. -/
structure Knowledge (C I U K : Type) where
  opened : List (WorldEvent C I U K) → ℕ → Prop
  sealedFor : List (WorldEvent C I U K) → K → Term K → Prop

def Knowledge.policy (p : Knowledge C I U K) (cfg : Setting C I U K)
    (h : List (WorldEvent C I U K)) : Policy K where
  opened := p.opened h
  sealedFor := p.sealedFor h
  signed := Signed cfg h

/-- The attacker may know `t` after `h`. -/
def Knowledge.Allows (p : Knowledge C I U K) (cfg : Setting C I U K)
    (h : List (WorldEvent C I U K)) (t : Term K) : Prop :=
  Safe cfg.attacker (p.policy cfg h) t

variable {cfg : Setting C I U K} {p : Knowledge C I U K} {h : List (WorldEvent C I U K)}
  {w w' : World I U K} {e : WorldEvent C I U K} {t : Term K}

theorem allows_signed {k : K} (hs : Signed cfg h k t) : p.Allows cfg h (.sig k t) := Or.inl hs

/-- A policy that never takes anything back. -/
structure Knowledge.Grows (p : Knowledge C I U K) : Prop where
  opened : ∀ h e n, p.opened h n → p.opened (h ++ [e]) n
  sealedFor : ∀ h e k m, p.sealedFor h k m → p.sealedFor (h ++ [e]) k m

theorem Knowledge.Grows.mono (hp : p.Grows) (ht : p.Allows cfg h t) :
    p.Allows cfg (h ++ [e]) t :=
  Safe.mono ⟨hp.opened h e, hp.sealedFor h e, fun _ _ => Signed.concat⟩ ht

variable [DecidableEq I] [DecidableEq K]

/-- What has to be shown of a growing policy: each of the three kinds of honest message stays in
it, if all that came before did. -/
structure Guards (cfg : Setting C I U K) (p : Knowledge C I U K) : Prop where
  grows : p.Grows
  started : ∀ {h e w run args seed}, cfg.world.Execution (h ++ [e]) w →
    StartedAt (h ++ [e]) h.length run args →
    p.Allows cfg (h ++ [e]) (.aenc args.serverKey seed args.nonce)
  answered : ∀ {h e u w run args seed m}, cfg.world.Execution h u →
    (∀ t ∈ u.wire, p.Allows cfg h t) → cfg.world.Execution (h ++ [e]) w →
    AnsweredAt (h ++ [e]) h.length run args m →
    p.Allows cfg h (.sig args.serverKey args.nonce) →
    p.Allows cfg h (.aenc args.clientKey seed m) → p.Allows cfg h (.sig args.serverKey m) →
    p.Allows cfg (h ++ [e]) m
  failed : ∀ {h e u w id request user seed d n}, cfg.world.Execution h u →
    (∀ t ∈ u.wire, p.Allows cfg h t) → cfg.world.Execution (h ++ [e]) w →
    FailedAt (h ++ [e]) h.length id request user d n →
    p.Allows cfg h (.aenc cfg.serverKey seed d) → p.Allows cfg h (.sig user.publicKey d) →
    p.Allows cfg (h ++ [e]) d ∧ p.Allows cfg (h ++ [e]) n

/-- The four byte strings of a challenge. -/
theorem Guards.failed_published (hg : Guards cfg p) (hx : cfg.world.Execution h w)
    (hsafe : ∀ t ∈ w.wire, p.Allows cfg h t) {id now : ℕ} {i : Inputs K ℕ}
    {request : ClientChallenge I (Term K)} {user : UserKeyRecord U K}
    {dm nm : SignedMessage (Term K)} {n : Term K}
    (he : e = .server (.resume id now (.challengeEncrypted request user dm n nm) i
      (.settled (.fail ⟨dm, nm⟩ 401))))
    (hs : WorldStep cfg w e w') (hx' : cfg.world.Execution (h ++ [e]) w') :
    ∀ t ∈ [dm.message, dm.signature, nm.message, nm.signature], p.Allows cfg (h ++ [e]) t := by
  have hf : FailedAt (h ++ [e]) h.length id request user dm.message n :=
    ⟨now, i, dm, nm, by simp [he], rfl⟩
  subst he
  obtain ⟨_, hder, _, ⟨seed, ho⟩, _, hdm, seed', hnm⟩ := failed_step (consistent hx) hs
  have hm := hder.1.safe hsafe
  have hsig := hder.2.safe hsafe
  rw [ho] at hm hsig
  obtain ⟨hd, hn⟩ := hg.failed hx hsafe hx' hf hm hsig
  intro t ht
  simp only [List.mem_cons, List.not_mem_nil, or_false] at ht
  rcases ht with rfl | rfl | rfl | rfl
  · exact hd
  · rw [hdm]
    exact allows_signed (.returned hf)
  · rw [congrArg SignedMessage.message hnm]
    exact Or.inl hn
  · rw [congrArg SignedMessage.signature hnm]
    exact allows_signed (.challenged hf)

/-- Only a challenge and a successful login put anything on the wire. -/
theorem mem_published {id now : ℕ} {i : Inputs K ℕ} {hd : Handler I U K (Term K)}
    {call : Call I U K (Term K)} {cache cache' : LocalChallengeCache I (Term K)}
    (hp : (cfg.strategy.resume i hd).perform now cache = (call, cache'))
    (ht : t ∈ cfg.published (.resume id now hd i call)) :
    (∃ request user dm n nm, hd = .challengeEncrypted request user dm n nm ∧
        call = .settled (.fail ⟨dm, nm⟩ 401)) ∨
      ∃ response user, hd = .responseVerified response user true ∧
        call = .settled (.success user.user user.publicKey) := by
  cases call with
  | suspended hd' | rejected e => simp [Setting.published] at ht
  | settled v =>
    cases v with
    | error error => simp [Setting.published] at ht
    | fail challenge status =>
      obtain ⟨request, user, dm, n, nm, hhd, rfl, rfl, _⟩ := perform_fail hp
      exact Or.inl ⟨request, user, dm, n, nm, hhd, rfl⟩
    | success user info =>
      obtain ⟨response, r, _, hhd, rfl, rfl, _⟩ := perform_success hp
      exact Or.inr ⟨response, r, hhd, rfl⟩

/-- What a segment of a call puts on the wire. -/
theorem Guards.resume_published (hg : Guards cfg p) (hx : cfg.world.Execution h w)
    (hsafe : ∀ t ∈ w.wire, p.Allows cfg h t) {id now : ℕ} {i : Inputs K ℕ}
    {hd : Handler I U K (Term K)} {call : Call I U K (Term K)}
    {cache cache' : LocalChallengeCache I (Term K)}
    (hp : (cfg.strategy.resume i hd).perform now cache = (call, cache'))
    (he : e = .server (.resume id now hd i call))
    (hs : WorldStep cfg w e w') (hx' : cfg.world.Execution (h ++ [e]) w') :
    ∀ t ∈ cfg.published (.resume id now hd i call), p.Allows cfg (h ++ [e]) t := by
  intro t ht
  obtain ⟨request, user, dm, n, nm, rfl, rfl⟩ | ⟨response, user, rfl, rfl⟩ := mem_published hp ht
  · exact hg.failed_published hx hsafe he hs hx' t ht
  · have hsucc : SucceededAt (h ++ [e]) h.length id now response user := ⟨i, by simp [he]⟩
    simp only [Setting.published, List.mem_flatMap, List.mem_cons, List.not_mem_nil,
      or_false] at ht
    obtain ⟨bytes, hb, rfl | rfl⟩ := ht
    · trivial
    · exact allows_signed (.issued hsucc hb)

/-- Under a policy that guards the three honest messages, all the attacker sees is allowed. -/
theorem Guards.wire_allowed (hg : Guards cfg p) (hx : cfg.world.Execution h w) :
    ∀ t ∈ w.wire, p.Allows cfg h t := by
  apply Machine.Execution.invariant (P := fun h (w : World I U K) =>
    ∀ t ∈ w.wire, p.Allows cfg h t) ?_ ?_ hx
  · intro t ht
    cases ht
  · intro h w e w' hx hsafe hstep
    have hx' := hx.snoc hstep
    have hs := world_step_inv hstep
    have hold : ∀ t ∈ w.wire, p.Allows cfg (h ++ [e]) t := fun t ht => hg.grows.mono (hsafe t ht)
    have hs' := hs
    cases hs with
    | authenticate hfree hder hp =>
      simpa [Setting.served, Setting.published] using hold
    | resume hcall hp =>
      intro t ht
      rcases List.mem_append.mp ht with ht | ht
      · exact hold t ht
      · exact hg.resume_published hx hsafe hp rfl hs' hx' t ht
    | timer ht hf => simpa [Setting.served, Setting.published] using hold
    | tick => simpa [Setting.served, Setting.published] using hold
    | @started run args sent seed hfree hhonest hnonce hsent =>
      have hst : StartedAt (h ++ [.started run args sent]) h.length run args :=
        ⟨sent, by simp⟩
      obtain rfl := client_challengeMessage hsent
      intro t ht
      simp only [List.mem_append, List.mem_cons, List.not_mem_nil, or_false] at ht
      rcases ht with ht | rfl | rfl
      · exact hold t ht
      · exact hg.started hx' hst
      · exact allows_signed (.started hst)
    | threw hrun => exact hold
    | @answered run args reply sent hrun hder hsent =>
      have hans : AnsweredAt
          (h ++ [.replied run args reply (.awaitingResult args sent.data.message)])
          h.length run args sent.data.message := ⟨reply, by simp⟩
      obtain ⟨_, hwire, hn, ⟨seed, hm⟩, hsig⟩ := answered_step (consistent hx) hs'
      have hallow := hg.answered hx hsafe hx' hans (hn.safe hsafe) (hm.safe hsafe) (hsig.safe hsafe)
      intro t ht
      rw [hwire] at ht
      simp only [List.mem_append, List.mem_cons, List.not_mem_nil, or_false] at ht
      rcases ht with ht | rfl | rfl
      · exact hold t ht
      · exact hallow
      · exact allows_signed (.answered hans)

/-- So is all the attacker can compute. -/
theorem Guards.derivable_allowed (hg : Guards cfg p) (hx : cfg.world.Execution h w)
    (ht : Derivable cfg.attacker w.wire t) : p.Allows cfg h t :=
  ht.safe (hg.wire_allowed hx)

end MutualKeyChallenge
