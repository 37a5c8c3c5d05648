import MutualKeyChallenge.Server.Verdicts
import MutualKeyChallenge.Server.Isolation

/-! What the JSON body extractor makes of a body that anyone may have sent. -/
namespace MutualKeyChallenge
open Transition

/-- Both parts of what a client sent are strings. -/
def StringParts (sent : Json) : Prop :=
  ∃ message signature, sent.property "message" = some (.string message) ∧
    sent.property "signature" = some (.string signature)

/-- `data` is what the string parts of `sent` decode to. -/
def DecodedFrom (sent : Json) (data : SignedMessage Bytes) : Prop :=
  ∃ message signature, sent.property "message" = some (.string message) ∧
    sent.property "signature" = some (.string signature) ∧
    data = ⟨Base64.decode message, Base64.decode signature⟩

/-- An error, or a record of the body's user id, a non-empty string, and of the parts of its
challenge or, without a challenge, of its response. -/
def SoundRecord (userIdProperty challengeProperty responseProperty : String) (body : Json) :
    Extracted UserId Bytes → Prop
  | .challengeError _ => True
  | .clientChallenge m =>
    ∃ userId sent, body.property userIdProperty = some (.string userId) ∧ userId ≠ [] ∧
      m.userId = .string userId ∧ body.property challengeProperty = some sent ∧
      DecodedFrom sent m.clientRequested
  | .clientResponse m =>
    ∃ userId sent, body.property userIdProperty = some (.string userId) ∧ userId ≠ [] ∧
      m.userId = .string userId ∧ (body.property challengeProperty).filter Json.truthy = none ∧
      body.property responseProperty = some sent ∧ DecodedFrom sent m.clientResponsed

/-- The extractor does not throw, and what it returns is sound. -/
def ExtractsSoundly (node : NodeBuffer) (u c r : String) (req : HttpRequest) : Prop :=
  ∀ now, ∃ x, challengeByBase64Body node u c r req now = .ok x ∧
    ∀ body, req.body = some body → SoundRecord u c r body x

/-- Every user id that a call of this request asks `userFunc` or the cache about is a string. -/
def StringIdsOnly {U K S : Type} (s : MutualKeyChallengeStrategy HttpRequest UserId U K Bytes S)
    (req : HttpRequest) : Prop :=
  ∀ ttlMs h w id now, (serverMachine s ttlMs).Execution h w → Received h id now req →
    ∀ e ∈ h, e.callId = some id → ∀ key, e.user s = some key → ∃ userId, key = .string userId

/-- The fields that the extractor comes to read are strings. -/
def StringFields (u c r : String) (req : HttpRequest) : Prop :=
  ∃ body, req.body = some body ∧ body ≠ .null ∧
    ((body.property u).filter Json.truthy = none ∨
      (body.property c).filter Json.truthy = none ∧ (body.property r).filter Json.truthy = none ∨
      (∃ userId, body.property u = some (.string userId)) ∧
        ((∃ sent, (body.property c).filter Json.truthy = some sent ∧ StringParts sent) ∨
          (body.property c).filter Json.truthy = none ∧
            ∃ sent, (body.property r).filter Json.truthy = some sent ∧ StringParts sent))

variable {node : NodeBuffer} {req : HttpRequest} {now : ℕ} {u c r : String} {body sent : Json}
  {data : SignedMessage Bytes}

theorem ofJson_strings (node : NodeBuffer) (h : StringParts sent) :
    ∃ data, SignedMessage.ofJson node sent = .ok data ∧ DecodedFrom sent data := by
  obtain ⟨message, signature, hm, hs⟩ := h
  refine ⟨⟨Base64.decode message, Base64.decode signature⟩, ?_, message, signature, hm, hs, rfl⟩
  simp [SignedMessage.ofJson, hm, hs, NodeBuffer.fromBase64]

theorem DecodedFrom.strings (h : DecodedFrom sent data) : StringParts sent := by
  obtain ⟨message, signature, hm, hs, _⟩ := h
  exact ⟨message, signature, hm, hs⟩

section Branches
variable {v : Json} {x : Extracted UserId Bytes}

theorem challengeByBase64Body_nothing (hb : req.body = some body) (hn : body ≠ .null)
    (hid : (body.property u).filter Json.truthy = some v)
    (hc : (body.property c).filter Json.truthy = none)
    (hr : (body.property r).filter Json.truthy = none) :
    ∃ error, challengeByBase64Body node u c r req now = .ok (.challengeError error) := by
  unfold challengeByBase64Body
  rw [hb]
  cases body with
  | null => exact absurd rfl hn
  | _ =>
    simp only [hid, hc, hr]
    exact ⟨_, rfl⟩

theorem challenge_inv (hb : req.body = some body) (hn : body ≠ .null)
    (hid : (body.property u).filter Json.truthy = some v)
    (hc : (body.property c).filter Json.truthy = some sent)
    (hx : challengeByBase64Body node u c r req now = .ok x) :
    ∃ data, x = .clientChallenge ⟨.ofJson req.reference v, data, now⟩ := by
  unfold challengeByBase64Body at hx
  rw [hb] at hx
  cases body with
  | null => exact absurd rfl hn
  | _ =>
    simp only [hid, hc] at hx
    split at hx <;> cases hx
    exact ⟨_, rfl⟩

theorem response_inv (hb : req.body = some body) (hn : body ≠ .null)
    (hid : (body.property u).filter Json.truthy = some v)
    (hc : (body.property c).filter Json.truthy = none)
    (hr : (body.property r).filter Json.truthy = some sent)
    (hx : challengeByBase64Body node u c r req now = .ok x) :
    ∃ data, x = .clientResponse ⟨.ofJson req.reference v, data⟩ := by
  unfold challengeByBase64Body at hx
  rw [hb] at hx
  cases body with
  | null => exact absurd rfl hn
  | _ =>
    simp only [hid, hc, hr] at hx
    split at hx <;> cases hx
    exact ⟨_, rfl⟩

end Branches

/-- What was extracted soundly came from string fields. -/
theorem stringFields_of_sound (h : ExtractsSoundly node u c r req) : StringFields u c r req := by
  obtain ⟨x, hx, hsound⟩ := h 0
  obtain ⟨body, hb, hn, _⟩ := challengeByBase64Body_ok.mp ⟨x, hx⟩
  have hsound := hsound body hb
  refine ⟨body, hb, hn, ?_⟩
  cases hid : (body.property u).filter Json.truthy with
  | none => exact Or.inl rfl
  | some v =>
    refine Or.inr ?_
    cases hc : (body.property c).filter Json.truthy with
    | some sent =>
      obtain ⟨data, rfl⟩ := challenge_inv hb hn hid hc hx
      obtain ⟨userId, sent', huser, _, _, hsent, hdecoded⟩ := hsound
      cases (filter_truthy.mp hc).1.symm.trans hsent
      exact Or.inr ⟨⟨userId, huser⟩, Or.inl ⟨sent, rfl, hdecoded.strings⟩⟩
    | none =>
      cases hr : (body.property r).filter Json.truthy with
      | none => exact Or.inl ⟨rfl, rfl⟩
      | some sent =>
        obtain ⟨data, rfl⟩ := response_inv hb hn hid hc hr hx
        obtain ⟨userId, sent', huser, _, _, _, hsent, hdecoded⟩ := hsound
        cases (filter_truthy.mp hr).1.symm.trans hsent
        exact Or.inr ⟨⟨userId, huser⟩, Or.inr ⟨rfl, sent, rfl, hdecoded.strings⟩⟩

/-- From string fields the extractor makes a sound record. -/
theorem sound_of_stringFields (node : NodeBuffer) (h : StringFields u c r req) :
    ExtractsSoundly node u c r req := by
  obtain ⟨body, hb, hn, hfields⟩ := h
  intro now
  suffices hbody : ∃ x, challengeByBase64Body node u c r req now = .ok x ∧
      SoundRecord u c r body x by
    obtain ⟨x, hx, hsound⟩ := hbody
    refine ⟨x, hx, ?_⟩
    intro body' hb'
    cases hb.symm.trans hb'
    exact hsound
  cases hid : (body.property u).filter Json.truthy with
  | none => exact ⟨_, challengeByBase64Body_noUser hb hn hid, trivial⟩
  | some v =>
    obtain ⟨huser, htruthy⟩ := filter_truthy.mp hid
    rcases hfields with hnone | ⟨hc, hr⟩ | ⟨⟨userId, hstring⟩, hsent⟩
    · rw [hid] at hnone
      cases hnone
    · obtain ⟨error, he⟩ := challengeByBase64Body_nothing hb hn hid hc hr
      exact ⟨_, he, trivial⟩
    · cases huser.symm.trans hstring
      have hne : userId ≠ [] := by simpa [Json.truthy] using htruthy
      rcases hsent with ⟨sent, hc, hparts⟩ | ⟨hc, sent, hr, hparts⟩
      · obtain ⟨data, hdata, hdecoded⟩ := ofJson_strings node hparts
        exact ⟨_, challengeByBase64Body_challenge hb hn hid hc hdata, userId, sent, huser, hne, rfl,
          (filter_truthy.mp hc).1, hdecoded⟩
      · obtain ⟨data, hdata, hdecoded⟩ := ofJson_strings node hparts
        exact ⟨_, challengeByBase64Body_response hb hn hid hc hr hdata, userId, sent, huser, hne,
          rfl, hc, (filter_truthy.mp hr).1, hdecoded⟩

/-! The ids that the strategy goes on with. -/

section Ids
variable {U K S : Type} {userFunc : HttpRequest → UserId → Option (UserKeyRecord U K)}
  {verifier : MessageVerifier K Bytes S}

/-- A sound request makes its call ask about string ids only. -/
theorem stringIds_of_sound (h : ExtractsSoundly node u c r req) :
    StringIdsOnly (shippedStrategy node (.body u c r) userFunc verifier) req := by
  intro ttlMs hist w id now hx hreceived e he hcall key hkey
  obtain ⟨now', req', hreceived', huser⟩ := call_user hx e he id hcall
  obtain ⟨rfl, rfl⟩ := received_unique hx hreceived hreceived'
  obtain ⟨x, hx, hsound⟩ := h now'
  have hfunc : (shippedStrategy node (.body u c r) userFunc verifier).challengeOrResponseFunc req'
      now' = .ok x := hx
  rw [hkey, MutualKeyChallengeStrategy.carriedId, hfunc] at huser
  obtain ⟨body, hb, _⟩ := challengeByBase64Body_ok.mp ⟨x, hx⟩
  have hrecord := hsound body hb
  cases x with
  | challengeError error => cases huser
  | clientChallenge m | clientResponse m =>
    obtain ⟨userId, _, _, _, hm, _⟩ := hrecord
    exact ⟨userId, (Option.some.inj huser).trans hm⟩

/-- The extractor is sound, and lets no id but a string through to `userFunc` and the cache,
exactly for the requests whose fields are strings where it reads them. -/
theorem body_sound_iff :
    ExtractsSoundly node u c r req ∧
        StringIdsOnly (shippedStrategy node (.body u c r) userFunc verifier) req ↔
      StringFields u c r req := by
  constructor
  · rintro ⟨h, _⟩
    exact stringFields_of_sound h
  · intro h
    have hsound := sound_of_stringFields node h
    exact ⟨hsound, stringIds_of_sound hsound⟩

/-- A number is truthy, so it passes for a user id. -/
def numberId : HttpRequest :=
  { body := some (.object [("userId", .number 0x3FF0000000000000),
      ("challenge", .object [("message", .string "YQ==".toList),
        ("signature", .string "YQ==".toList)])]) }

theorem number_id_extracted :
    ¬ ExtractsSoundly ⟨fun _ => .error .typeError⟩ "userId" "challenge" "response" numberId := by
  intro h
  obtain ⟨x, hx, hsound⟩ := h 0
  cases hx
  obtain ⟨userId, _, huser, _⟩ := hsound _ rfl
  cases huser

end Ids

end MutualKeyChallenge
