import MutualKeyChallenge.Protocol.ServerAuthentication

/-! Both nonces of a handshake are secret until the party they are meant for gives them back. -/
namespace MutualKeyChallenge
open Transition Symbolic
variable {C I U K : Type} {cfg : Setting C I U K} {h more : List (WorldEvent C I U K)}
  {w : World I U K} {id g k j run s : ℕ} {args : HandshakeRun I K (Term K)}
  {request : ClientChallenge I (Term K)} {user : UserKeyRecord U K} {d n m t : Term K}

/-- What was allowed stays allowed. -/
theorem Knowledge.Grows.append {p : Knowledge C I U K} (hp : p.Grows) (ht : p.Allows cfg h t) :
    p.Allows cfg (h ++ more) t := by
  induction more generalizing h with
  | nil => rwa [List.append_nil]
  | cons e more ih =>
    have hrest := ih (hp.mono ht (e := e))
    rwa [List.append_assoc] at hrest

theorem Knowledge.Grows.of_take {p : Knowledge C I U K} (hp : p.Grows)
    (ht : p.Allows cfg (h.take k) t) : p.Allows cfg h t := by
  rw [← List.take_append_drop k h]
  exact hp.append ht

/-- The byte strings on the wire, by who put them there. -/
inductive OnWire (cfg : Setting C I U K) (h : List (WorldEvent C I U K)) : Term K → Prop
  | asked {k run : ℕ} {args : HandshakeRun I K (Term K)} {seed : ℕ} (hs : StartedAt h k run args) :
      OnWire cfg h (.aenc args.serverKey seed args.nonce)
  | signed {key : K} {m : Term K} (hs : Signed cfg h key m) : OnWire cfg h (.sig key m)
  | answered {k run : ℕ} {args : HandshakeRun I K (Term K)} {m : Term K}
      (ha : AnsweredAt h k run args m) : OnWire cfg h m
  | returned {k id : ℕ} {request : ClientChallenge I (Term K)} {user : UserKeyRecord U K}
      {d n : Term K} (hf : FailedAt h k id request user d n) : OnWire cfg h d
  | challenged {k id : ℕ} {request : ClientChallenge I (Term K)} {user : UserKeyRecord U K}
      {d n : Term K} {seed : ℕ} (hf : FailedAt h k id request user d n) :
      OnWire cfg h (.aenc user.publicKey seed n)
  | data {bytes : List UInt8} : OnWire cfg h (.data bytes)

/-- A server's nonce for an honest key is secret until a run with that key has answered it; the
clients' nonces need no protection here. -/
def undisclosed (cfg : Setting C I U K) : Knowledge C I U K where
  opened h n :=
    (∃ k run args, StartedAt h k run args ∧ args.nonce = .nonce n) ∨
      ∃ k id request user d, FailedAt h k id request user d (.nonce n) ∧
        (cfg.Honest user.publicKey →
          ∃ j run args, AnsweredAt h j run args (.nonce n) ∧ args.clientKey = user.publicKey)
  sealedFor h key m :=
    cfg.Honest key ∧ ∃ k id request user d, FailedAt h k id request user d m ∧
      user.publicKey = key

theorem undisclosed_grows : (undisclosed cfg).Grows where
  opened := by
    rintro h e n (⟨k, run, args, hs, hn⟩ | ⟨k, id, request, user, d, hf, hanswer⟩)
    · exact Or.inl ⟨k, run, args, hs.concat, hn⟩
    · refine Or.inr ⟨k, id, request, user, d, hf.concat, fun hkey => ?_⟩
      obtain ⟨j, run, args, ha, hclient⟩ := hanswer hkey
      exact ⟨j, run, args, ha.concat, hclient⟩
  sealedFor := by
    rintro h e key m ⟨hkey, k, id, request, user, d, hf, hu⟩
    exact ⟨hkey, k, id, request, user, d, hf.concat, hu⟩

/-- One index, one draw. -/
theorem DrewAt.same {id' : ℕ} {request' : ClientChallenge I (Term K)} {user' : UserKeyRecord U K}
    {n' : Term K} (h1 : DrewAt h k id request user n) (h2 : DrewAt h k id' request' user' n') :
    id' = id ∧ request' = request ∧ user' = user := by
  obtain ⟨_, _, _, hk⟩ := h1
  obtain ⟨_, _, _, hk'⟩ := h2
  rw [hk] at hk'
  cases hk'
  exact ⟨rfl, rfl, rfl⟩

variable [DecidableEq I] [DecidableEq K]

/-- What a call's segment puts on the wire. -/
theorem on_wire_resume {u v : World I U K} {now : ℕ} {i : Inputs K ℕ}
    {hd : Handler I U K (Term K)} {call : Call I U K (Term K)}
    (hc : Consistent cfg (h.take k) u)
    (hk : h[k]? = some (.server (.resume id now hd i call)))
    (hs : WorldStep cfg u (.server (.resume id now hd i call)) v)
    (ht : t ∈ cfg.published (.resume id now hd i call)) : OnWire cfg h t := by
  have hs' := hs
  generalize he : WorldEvent.server _ = e at hs
  cases hs <;> cases he
  rename_i seed cache hcall hp
  obtain ⟨request, user, dm, n, nm, rfl, rfl⟩ | ⟨response, user, rfl, rfl⟩ := mem_published hp ht
  · have hf : FailedAt h k id request user dm.message n := ⟨_, _, dm, nm, hk, rfl⟩
    obtain ⟨_, _, _, _, _, hsig, seed', hnm⟩ := failed_step hc hs'
    simp only [Setting.published, hnm, hsig, List.mem_cons, List.not_mem_nil, or_false] at ht
    rcases ht with rfl | rfl | rfl | rfl
    · exact .returned hf
    · exact .signed (.returned hf)
    · exact .challenged hf
    · exact .signed (.challenged hf)
  · have hsucc : SucceededAt h k id _ response user := ⟨_, hk⟩
    simp only [Setting.published, List.mem_flatMap, List.mem_cons, List.not_mem_nil,
      or_false] at ht
    obtain ⟨bytes, hb, rfl | rfl⟩ := ht
    · exact .data
    · exact .signed (.issued hsucc hb)

theorem on_wire (hx : cfg.world.Execution h w) (ht : t ∈ w.wire) : OnWire cfg h t := by
  rw [wire_eq hx, List.mem_flatMap] at ht
  obtain ⟨e, he, ht⟩ := ht
  obtain ⟨k, hk⟩ := List.getElem?_of_mem he
  obtain ⟨u, v, _, hc, hs⟩ := event_origin hx hk
  cases e with
  | server se =>
    cases se with
    | resume id now hd i call => exact on_wire_resume hc hk hs ht
    | authenticate | timer | tick => simp [WorldEvent.published, Setting.published] at ht
  | started run args sent =>
    have hst : StartedAt h k run args := ⟨sent, hk⟩
    cases hs with
    | started _ _ _ hsent =>
      obtain rfl := client_challengeMessage hsent
      simp only [WorldEvent.published, List.mem_cons, List.not_mem_nil, or_false] at ht
      rcases ht with rfl | rfl
      · exact .asked hst
      · exact .signed (.started hst)
  | replied run args reply after =>
    cases hs with
    | threw => simp [WorldEvent.published] at ht
    | @answered _ _ _ sent _ _ _ =>
      have ha : AnsweredAt h k run args sent.data.message := ⟨reply, hk⟩
      simp only [WorldEvent.published, List.mem_cons, List.not_mem_nil, or_false] at ht
      rcases ht with rfl | rfl
      · exact .answered ha
      · exact .signed (.answered ha)

/-- All that the attacker sees keeps to it, since what an honest party gives away came to it in a
message that did. -/
theorem undisclosed_wire (hx : cfg.world.Execution h w) :
    ∀ t ∈ w.wire, (undisclosed cfg).Allows cfg h t := by
  induction hlen : h.length using Nat.strongRecOn generalizing h w with
  | ind len ih =>
    have earlier : ∀ {k e u t}, h[k]? = some e → cfg.world.Execution (h.take k) u →
        Derivable cfg.attacker u.wire t → (undisclosed cfg).Allows cfg h t := by
      intro k e u t hk hu hd
      have hlt : k < h.length := (List.getElem?_eq_some_iff.mp hk).1
      have hshort : (h.take k).length < len := by
        rw [List.length_take]
        omega
      exact undisclosed_grows.of_take (hd.safe (ih _ hshort hu rfl))
    intro t ht
    cases on_wire hx ht with
    | @asked k run args seed hs =>
      have hn := (started_facts hx hs).1
      rw [hn]
      exact Or.inl (Or.inl ⟨k, run, args, hs, hn⟩)
    | signed hs => exact allows_signed hs
    | @answered k run args m ha =>
      obtain ⟨_, u, hu, _, ⟨seed, hm⟩, _⟩ := answered_facts hx ha
      obtain ⟨e, hk⟩ : ∃ e, h[k]? = some e := by
        obtain ⟨_, hk⟩ := ha
        exact ⟨_, hk⟩
      rcases earlier hk hu hm with hknown | ⟨_, _, k', id, request, user, d, hf, hclient⟩
      · exact hknown
      · obtain ⟨_, _, ⟨g, _, hn, _⟩, _⟩ := failed_facts hx hf
        subst hn
        exact Or.inr ⟨k', id, request, user, d, hf, fun _ => ⟨k, run, args, ha, hclient.symm⟩⟩
    | @returned k call request user d n hf =>
      obtain ⟨_, ⟨seed, ho⟩, _, u, hu, _, hder⟩ := failed_facts hx hf
      obtain ⟨e, hk⟩ : ∃ e, h[k]? = some e := by
        obtain ⟨_, _, _, _, hk, _⟩ := hf
        exact ⟨_, hk⟩
      have hm := hder.1
      rw [ho] at hm
      rcases earlier hk hu hm with hknown | ⟨_, hserver, _⟩
      · exact hknown
      · exact absurd rfl hserver.2
    | @challenged k id request user d n seed hf =>
      by_cases hkey : cfg.Honest user.publicKey
      · exact Or.inr ⟨hkey.1, hkey, k, id, request, user, d, hf, rfl⟩
      · obtain ⟨_, _, ⟨g, _, hn, _⟩, _⟩ := failed_facts hx hf
        subst hn
        exact Or.inl (Or.inr ⟨k, id, request, user, d, hf, fun honest => absurd honest hkey⟩)
    | data => trivial

/-- The server's nonce, from the moment it is drawn. -/
theorem drawn_nonce_secret (hx : cfg.world.Execution h w) (hdrew : DrewAt h g id request user n)
    (hkey : cfg.Honest user.publicKey) (hd : Derivable cfg.attacker w.wire n) :
    ∃ k j d run args, g < k ∧ k < j ∧ FailedAt h k id request user d n ∧
      AnsweredAt h j run args n ∧ args.clientKey = user.publicKey := by
  obtain ⟨rfl, _⟩ := drew_facts hx hdrew
  have hopen := hd.safe (undisclosed_wire hx)
  obtain ⟨k, run, args, hs, hn⟩ | ⟨k, id', request', user', d, hf, hanswer⟩ := hopen
  · have hk := (started_facts hx hs).1
    rw [hn] at hk
    cases hk
    exact absurd hs hdrew.not_started
  · obtain ⟨_, _, ⟨g', hlt, hg, hdrew'⟩, _⟩ := failed_facts hx hf
    cases hg
    obtain ⟨rfl, rfl, rfl⟩ := hdrew.same hdrew'
    obtain ⟨j, run, args, ha, hclient⟩ := hanswer hkey
    exact ⟨k, j, d, run, args, hlt, answered_after_failed hx hf ha, hf, ha, hclient⟩

/-- The client's nonce. -/
theorem sent_nonce_secret (hserver : cfg.attacker.owns cfg.serverKey = false)
    (hideal : cfg.attacker.digests = false) (hx : cfg.world.Execution h w)
    (hs : StartedAt h s run args) (hkey : args.serverKey = cfg.serverKey)
    (hd : Derivable cfg.attacker w.wire args.nonce) :
    ∃ g k id request user m, s < g ∧ g < k ∧ DrewAt h g id request user m ∧
      FailedAt h k id request user args.nonce m ∧ user.publicKey = args.clientKey := by
  have hn := (started_facts hx hs).1
  have hopen := (confidential_guards hserver hideal).derivable_allowed hx hd
  rw [hn] at hopen
  obtain ⟨k, id, request, user, d, hf⟩ | ⟨s', run', args', hs', hn', hback⟩ := hopen
  · exact absurd hn (failed_not_started hx hf hs)
  · have hs'' := (started_facts hx hs').1
    rw [hn'] at hs''
    cases hs''
    obtain ⟨rfl, rfl⟩ := hs'.unique hs
    obtain ⟨k, id, request, user, m, hf, huser⟩ := hback hkey
    rw [← hn] at hf
    obtain ⟨g, hsg, hgk, hdrew⟩ := given_back_after hserver hideal hx hs hf
    exact ⟨g, k, id, request, user, m, hsg, hgk, hdrew, hf, huser⟩

/-- The attacker computes a nonce only after the party it was encrypted for has given it back: the
server's after a run of that very user has answered it, and, where signatures are ideal, a client's
after the server has returned it to that very client. -/
structure SecretUntilAnswered (cfg : Setting C I U K) (h : List (WorldEvent C I U K))
    (w : World I U K) : Prop where
  server : ∀ g id request user n, DrewAt h g id request user n → cfg.Honest user.publicKey →
    Derivable cfg.attacker w.wire n →
      ∃ k j d run args, g < k ∧ k < j ∧ FailedAt h k id request user d n ∧
        AnsweredAt h j run args n ∧ args.clientKey = user.publicKey
  client : cfg.attacker.owns cfg.serverKey = false → cfg.attacker.digests = false →
    ∀ s run args, StartedAt h s run args → args.serverKey = cfg.serverKey →
      Derivable cfg.attacker w.wire args.nonce →
        ∃ g k id request user m, s < g ∧ g < k ∧ DrewAt h g id request user m ∧
          FailedAt h k id request user args.nonce m ∧ user.publicKey = args.clientKey

theorem nonces_secret_until_answered (hx : cfg.world.Execution h w) :
    SecretUntilAnswered cfg h w where
  server _ _ _ _ _ hdrew hkey hd := drawn_nonce_secret hx hdrew hkey hd
  client hserver hideal _ _ _ hs hkey hd := sent_nonce_secret hserver hideal hx hs hkey hd

/-- In the undisturbed handshake both nonces are known in the end. -/
theorem nonces_secret_until_answered_handshake :
    let h := twoUsers.world.history handshakeMoves
    let w := twoUsers.world.final handshakeMoves
    Derivable twoUsers.attacker w.wire (.nonce 0) ∧ Derivable twoUsers.attacker w.wire (.nonce 6) ∧
      SecretUntilAnswered twoUsers h w := by
  intro h w
  exact ⟨⟨.seen 2, rfl⟩, ⟨.seen 6, rfl⟩,
    nonces_secret_until_answered (twoUsers.world.final_execution handshakeMoves)⟩

end MutualKeyChallenge
