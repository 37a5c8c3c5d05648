import MutualKeyChallenge.Server.RequestFuncs
import MutualKeyChallenge.Server.Runs

/-! When a request gets its one verdict, whatever it holds. -/
namespace MutualKeyChallenge
open Transition Regex

/-! The extractors. -/

/-- The shipped extractors, with the names of their fields. -/
inductive Extractor
  | body (userIdProperty challengeProperty responseProperty : String)
  | header (keyFieldName challengeFieldName responseFieldName : String)

def Extractor.func (node : NodeBuffer) :
    Extractor → HttpRequest → ℕ → Except Thrown (Extracted UserId Bytes)
  | .body u c r => challengeByBase64Body node u c r
  | .header k c r => challengeByBase64Header node k c r

/-- `Buffer.from` takes both parts of what a client sent. -/
def Readable (node : NodeBuffer) (sent : Json) : Prop :=
  (∃ message, node.fromBase64 (sent.property "message") = .ok message) ∧
    ∃ signature, node.fromBase64 (sent.property "signature") = .ok signature

/-- There is a body, and if it has a user id then `Buffer.from` takes the parts of its challenge
or, without a challenge, of its response. -/
def BodyReadable (node : NodeBuffer) (userIdProperty challengeProperty responseProperty : String)
    (req : HttpRequest) : Prop :=
  ∃ body, req.body = some body ∧ body ≠ .null ∧
    ∀ userId, body.property userIdProperty = some userId → userId.truthy = true →
      (∀ sent, body.property challengeProperty = some sent → sent.truthy = true →
        Readable node sent) ∧
      ((body.property challengeProperty).filter Json.truthy = none →
        ∀ sent, body.property responseProperty = some sent → sent.truthy = true →
          Readable node sent)

/-- In a header with a key field, the first match of the challenge expression is not the bare
name of the challenge field. -/
def HeaderReadable (keyFieldName challengeFieldName responseFieldName : String)
    (req : HttpRequest) : Prop :=
  ∀ authorization, req.authorization = some authorization →
    "Mutual".toList.isPrefixOf (trim authorization) = true →
    (keyRegex keyFieldName).exec (trim authorization) ≠ none →
    ∀ g, (challengeRegex challengeFieldName responseFieldName).exec (trim authorization) = some g →
      g 1 = none

def Extractor.Readable (node : NodeBuffer) : Extractor → HttpRequest → Prop
  | .body u c r => BodyReadable node u c r
  | .header k c r => HeaderReadable k c r

variable {node : NodeBuffer} {req : HttpRequest} {now : ℕ} {u c r k : String} {g : Captures}

theorem readable_iff {sent : Json} :
    Readable node sent ↔ ∃ m, SignedMessage.ofJson node sent = .ok m := by
  unfold SignedMessage.ofJson Readable
  split
  · rename_i e he
    simp [he]
  · rename_i message hm
    split
    · rename_i e he
      simp [he]
    · rename_i signature hs
      simp [hm, hs]

theorem filter_truthy {v : Option Json} {sent : Json} :
    v.filter Json.truthy = some sent ↔ v = some sent ∧ sent.truthy = true := by
  simp [Option.filter_eq_some_iff]

/-- Both kinds of message are extracted exactly when they are readable. -/
theorem extracts_iff {sent : Json} {f : SignedMessage Bytes → Extracted UserId Bytes} :
    (∃ x, (match SignedMessage.ofJson node sent with
      | .error e => .error e
      | .ok m => .ok (f m) : Except Thrown (Extracted UserId Bytes)) = .ok x) ↔
      Readable node sent := by
  rw [readable_iff]
  cases SignedMessage.ofJson node sent with
  | error e => simp
  | ok m => simp

theorem not_truthy {v : Option Json} (hn : v.filter Json.truthy = none) {sent : Json}
    (hv : v = some sent) : sent.truthy ≠ true := by
  intro ht
  rw [filter_truthy.mpr ⟨hv, ht⟩] at hn
  cases hn

theorem challengeByBase64Body_ok :
    (∃ x, challengeByBase64Body node u c r req now = .ok x) ↔ BodyReadable node u c r req := by
  unfold challengeByBase64Body BodyReadable
  split
  · rename_i hnone
    simp [hnone]
  · rename_i hnull
    simp [hnull]
  · rename_i body hnotnull hbody
    have hne : body ≠ .null := by
      rintro rfl
      exact hnotnull rfl
    simp only [hbody, Option.some.injEq, exists_eq_left', ne_eq, hne, not_false_eq_true, true_and]
    split
    · rename_i hid
      refine iff_of_true ⟨_, rfl⟩ ?_
      intro userId huser htruthy
      exact (not_truthy hid huser htruthy).elim
    · rename_i userId hid
      obtain ⟨huser, htruthy⟩ := filter_truthy.mp hid
      simp only [huser, Option.some.injEq, forall_eq', htruthy, forall_const]
      split
      · rename_i sent hsent
        obtain ⟨hprop, ht⟩ := filter_truthy.mp hsent
        simp only [hprop, Option.some.injEq, forall_eq', ht, forall_const]
        refine extracts_iff.trans (iff_self_and.mpr fun _ habs => ?_)
        simp [ht] at habs
      · rename_i hnone
        have hchallenge : ∀ sent, body.property c = some sent → sent.truthy = true →
            Readable node sent := fun sent hs ht => (not_truthy hnone hs ht).elim
        split
        · rename_i sent hsent
          obtain ⟨hprop, ht⟩ := filter_truthy.mp hsent
          simp only [hprop, Option.some.injEq, forall_eq', ht, forall_const, hnone]
          exact extracts_iff.trans (and_iff_right hchallenge).symm
        · rename_i hnone'
          refine iff_of_true ⟨_, rfl⟩ ⟨hchallenge, ?_⟩
          intro _ sent hs ht
          exact (not_truthy hnone' hs ht).elim

/-- The challenge alternative captures the first group only, the other one never that group. -/
theorem challengeRegex_captures {text : List Char}
    (he : (challengeRegex c r).exec text = some g) :
    (∃ name, g 1 = some name ∧ g 3 = none) ∨
      g 1 = none ∧ ∃ message signature, g 3 = some message ∧ g 4 = some signature := by
  obtain ⟨t, rest, hgroup⟩ := exec_mem he
  obtain ⟨g0, halt, whole, rfl⟩ := mem_run_group hgroup
  rcases mem_run_alt.mp halt with hm | hm
  · obtain ⟨g1, hname, name, rfl⟩ := mem_run_group hm
    have hlit : 3 ∉ (literal c.toList).groups := by simp [literal_groups]
    have h3 := run_frame hlit hname
    exact Or.inl ⟨name, by simp, by simpa using h3⟩
  · have h1 : g0 1 = none :=
      run_frame (by simp [Pattern.groups, literal_groups]) hm
    obtain ⟨_, _, _, htail⟩ := mem_run_seq.mp hm
    obtain ⟨_, _, _, hparts⟩ := mem_run_seq.mp htail
    obtain ⟨g3, s3, hthird, hrest⟩ := mem_run_seq.mp hparts
    obtain ⟨g4, s4, hcomma, hfourth⟩ := mem_run_seq.mp hrest
    obtain ⟨g3', _, message, rfl⟩ := mem_run_group hthird
    obtain ⟨g5, hplus, signature, rfl⟩ := mem_run_group hfourth
    have h43 : g4 3 = some message := by
      have hframe : 3 ∉ (Pattern.chars (· = ',')).groups := by simp [Pattern.groups]
      simpa using run_frame hframe hcomma
    have h53 : g5 3 = some message := by
      have hframe : 3 ∉ (Pattern.plus base64Class).groups := by simp [Pattern.groups]
      exact (run_frame hframe hplus).trans h43
    exact Or.inr ⟨by simpa using h1, message, signature, by simpa using h53, by simp⟩

theorem challengeByBase64Header_ok :
    (∃ x, challengeByBase64Header node k c r req now = .ok x) ↔ HeaderReadable k c r req := by
  unfold challengeByBase64Header HeaderReadable
  split
  · rename_i hnone
    refine iff_of_true ⟨_, rfl⟩ ?_
    intro authorization ha hp
    simp only [ha, Option.map_some, Option.filter_some, hp, if_true, reduceCtorEq] at hnone
  · rename_i authHeader hsome
    simp only [Option.filter_eq_some_iff, Option.map_eq_some_iff] at hsome
    obtain ⟨⟨authorization, ha, rfl⟩, hp⟩ := hsome
    simp only [ha, Option.some.injEq, forall_eq', hp, forall_const]
    split
    · rename_i hkey
      exact iff_of_true ⟨_, rfl⟩ fun hne => (hne hkey).elim
    · rename_i keyResult hkey
      simp only [hkey, ne_eq, reduceCtorEq, not_false_eq_true, forall_const]
      split
      · rename_i hch
        refine iff_of_true ⟨_, rfl⟩ ?_
        intro g hg
        rw [hch] at hg
        cases hg
      · rename_i challengeResult hch
        simp only [hch, Option.some.injEq, forall_eq']
        unfold SignedMessage.ofCaptures
        rcases challengeRegex_captures hch with ⟨name, h1, h3⟩ | ⟨h1, message, signature, h3, h4⟩
        · refine iff_of_false ?_ (by simp [h1])
          simp [h3, NodeBuffer.fromBase64]
        · refine iff_of_true ?_ h1
          simp [h1, h3, h4, NodeBuffer.fromBase64]

/-! The calls. -/

section Calls
variable {Req I U K B S : Type} {s : MutualKeyChallengeStrategy Req I U K B S} {req : Req}
  {now ttlMs id : ℕ} {handler : Handler I U K B}

namespace MutualKeyChallengeStrategy
variable (s) (keys : K → Prop)

/-- Where `serverKey` is a function, it returns one of these keys. -/
def Returns (returned : K) : Prop := s.verifier.key = .getServerKeyFunc → keys returned

/-- As `Proves`, under a key that the call may get. -/
def ProvesUnder (m : ClientChallenge I B) (user : UserKeyRecord U K) (decrypted : B) : Prop :=
  ∃ returned, s.Returns keys returned ∧
    s.verifier.decryptAndVerify (s.verifier.serverKey returned) user.publicKey m.clientRequested =
      .ok (some decrypted)

/-- As `Throws`, under the keys that the call may get. -/
def ThrowsUnder (req : Req) (now : ℕ) : Prop :=
  (∃ e, s.challengeOrResponseFunc req now = .error e) ∨
    ∃ m user, s.Challenges req now m user ∧
      ((∃ returned e, s.Returns keys returned ∧
          s.verifier.decryptAndVerify (s.verifier.serverKey returned) user.publicKey
            m.clientRequested = .error e) ∨
        (∃ decrypted, s.ProvesUnder keys m user decrypted) ∧
          ∃ random seed e, s.verifier.crypto.publicEncrypt
            (s.verifier.encryptOptions user.publicKey) seed (s.verifier.getNonce random) = .error e)

/-- Node's crypto takes what a challenge request, its user's key and the server's give it. -/
structure CryptoAccepts (req : Req) : Prop where
  decrypts : ∀ now m user returned, s.Challenges req now m user → s.Returns keys returned →
    ∃ decrypted, s.verifier.crypto.privateDecrypt
      (s.verifier.encryptOptions (s.verifier.serverKey returned)) m.clientRequested.message =
        .ok decrypted
  encrypts : ∀ now m user decrypted, s.Challenges req now m user →
    s.ProvesUnder keys m user decrypted →
    ∀ random seed, ∃ message, s.verifier.crypto.publicEncrypt
      (s.verifier.encryptOptions user.publicKey) seed (s.verifier.getNonce random) = .ok message

/-- Several segments of one handler in a row. -/
def segments : List (Inputs K S) → Handler I U K B → Action I U K B
  | [], handler => .suspend handler
  | i :: is, handler =>
    match s.resume i handler with
    | .suspend handler' => segments is handler'
    | action => action

variable {s keys}

theorem not_throws_iff : (∀ now, ¬ s.ThrowsUnder keys req now) ↔
    (∀ now, ∃ x, s.challengeOrResponseFunc req now = .ok x) ∧ s.CryptoAccepts keys req := by
  constructor
  · intro hno
    refine ⟨?_, ?_, ?_⟩
    · intro now
      cases hx : s.challengeOrResponseFunc req now with
      | ok x => exact ⟨x, rfl⟩
      | error e => exact (hno now (Or.inl ⟨e, hx⟩)).elim
    · intro now m user returned hc hr
      cases hd : s.verifier.crypto.privateDecrypt
          (s.verifier.encryptOptions (s.verifier.serverKey returned))
          m.clientRequested.message with
      | ok d => exact ⟨d, rfl⟩
      | error e =>
        refine (hno now (Or.inr ⟨m, user, hc, Or.inl ⟨returned, e, hr, ?_⟩⟩)).elim
        exact MessageVerifier.decryptAndVerify_error.mpr hd
    · intro now m user d hc hp random seed
      cases he : s.verifier.crypto.publicEncrypt (s.verifier.encryptOptions user.publicKey) seed
          (s.verifier.getNonce random) with
      | ok message => exact ⟨message, rfl⟩
      | error e =>
        exact (hno now (Or.inr ⟨m, user, hc, Or.inr ⟨⟨d, hp⟩, random, seed, e, he⟩⟩)).elim
  · rintro ⟨hextract, hcrypto⟩ now
      (⟨e, he⟩ | ⟨m, user, hc, ⟨returned, e, hr, he⟩ | ⟨⟨d, hp⟩, random, seed, e, he⟩⟩)
    · obtain ⟨x, hx⟩ := hextract now
      rw [he] at hx
      cases hx
    · obtain ⟨d, hd⟩ := hcrypto.decrypts now m user returned hc hr
      rw [MessageVerifier.decryptAndVerify_error.mp he] at hd
      cases hd
    · obtain ⟨message, hm⟩ := hcrypto.encrypts now m user d hc hp random seed
      rw [he] at hm
      cases hm

/-! A call that gets no other keys. -/

/-- What a handler has decrypted was decrypted under one of the keys. -/
def Opened (s : MutualKeyChallengeStrategy Req I U K B S) (keys : K → Prop) :
    Handler I U K B → Prop
  | .challengeDecrypted m user decrypted =>
    ∀ d, decrypted = some d → s.ProvesUnder keys m user d
  | .challengeSign m user decrypted => s.ProvesUnder keys m user decrypted
  | .challengeSigned m user dm => s.ProvesUnder keys m user dm.message
  | .challengeEncrypt m user dm _ => s.ProvesUnder keys m user dm.message
  | .challengeEncrypted m user dm _ _ => s.ProvesUnder keys m user dm.message
  | _ => True

theorem authenticate_opened (h : s.authenticate req now = .suspend handler) :
    s.Opened keys handler := by
  unfold authenticate at h
  split at h <;> cases h <;> trivial

theorem resume_opened {i : Inputs K S} {handler' : Handler I U K B} (ho : s.Opened keys handler)
    (hr : s.Returns keys i.returnedKey) (h : s.resume i handler = .suspend handler') :
    s.Opened keys handler' := by
  cases handler with
  | responseUser m user | challengeUser m user =>
    cases user <;> cases h
    trivial
  | responseVerify m user =>
    cases h
    trivial
  | responseVerified m user verified => cases verified <;> cases h
  | challengeDecrypt m user =>
    simp only [resume] at h
    split at h
    · cases h
    · rename_i decrypted hd
      cases h
      rintro d rfl
      exact ⟨_, hr, hd⟩
  | challengeDecrypted m user decrypted =>
    cases decrypted with
    | none => cases h
    | some d =>
      cases h
      exact ho d rfl
  | challengeSign m user decrypted | challengeSigned m user dm =>
    cases h
    exact ho
  | challengeEncrypt m user dm nonce =>
    simp only [resume] at h
    split at h <;> cases h
    exact ho
  | challengeEncrypted m user dm nonce nm => cases h

/-- A segment throws only where one of the keys makes it throw. -/
theorem resume_throws_under {i : Inputs K S} {e : Thrown} (hf : s.Follows req now handler)
    (ho : s.Opened keys handler) (hr : s.Returns keys i.returnedKey)
    (h : s.resume i handler = .reject e) : s.ThrowsUnder keys req now := by
  cases handler with
  | responseUser m user | challengeUser m user => cases user <;> cases h
  | responseVerify m user | challengeSign m user d | challengeSigned m user dm => cases h
  | responseVerified m user verified => cases verified <;> cases h
  | challengeDecrypted m user decrypted => cases decrypted <;> cases h
  | challengeEncrypted m user dm nonce nm => cases h
  | challengeDecrypt m user =>
    simp only [resume] at h
    split at h
    · rename_i e' he
      exact Or.inr ⟨m, user, hf, Or.inl ⟨_, e', hr, he⟩⟩
    · cases h
  | challengeEncrypt m user dm nonce =>
    obtain ⟨hc, _, random, rfl⟩ := hf
    simp only [resume] at h
    split at h
    · rename_i e' he
      refine Or.inr ⟨m, user, hc, Or.inr ⟨⟨_, ho⟩, random, i.seed, e', ?_⟩⟩
      exact MessageVerifier.encryptAndSign_error.mp he
    · cases h

end MutualKeyChallengeStrategy

variable [DecidableEq I] [DecidableEq B] {h : List (ServerEvent Req I U K B S)}
  {w : Server I U K B}

/-- A verdict other than an error is one that the request earned: a challenge opened and
verified, a response verified and repeated the challenge that was pending when it was handled. -/
def Deserves (s : MutualKeyChallengeStrategy Req I U K B S) (ttlMs : ℕ) (keys : K → Prop)
    (h : List (ServerEvent Req I U K B S)) (req : Req) (now : ℕ) : Verdict U K B → Prop
  | .error _ => True
  | .fail challenge status =>
    status = 401 ∧ ∃ m user, s.Challenges req now m user ∧
      s.ProvesUnder keys m user challenge.clientRequested.message
  | .success user info =>
    ∃ m r, s.Responds req now m r ∧ s.verifier.verify r.publicKey m.clientResponsed = true ∧
      user = r.user ∧ info = r.publicKey ∧
      ∃ h' w' c, h' <+: h ∧ (serverMachine s ttlMs).Execution h' w' ∧
        (w'.cache.get m.userId w'.now).1 = some c ∧
        c.clientChallenged = m.clientResponsed.message

/-- Where `serverKey` is a function, it has returned only these keys to call `id`. -/
def Within (s : MutualKeyChallengeStrategy Req I U K B S) (keys : K → Prop) (id : ℕ)
    (h : List (ServerEvent Req I U K B S)) : Prop :=
  ∀ now handler i call, .resume id now handler i call ∈ h → s.Returns keys i.returnedKey

/-- However the calls interleave, the call that the request started, getting none but these keys
from a function `serverKey`, never rejects, gives at most one verdict, can be resumed until it has
given it, at most seven times, and gives an error unless the request earned better. -/
def OneVerdict (s : MutualKeyChallengeStrategy Req I U K B S) (ttlMs : ℕ) (keys : K → Prop)
    (req : Req) : Prop :=
  ∀ h w id now, (serverMachine s ttlMs).Execution h w → Received h id now req →
    Within s keys id h →
    (∀ e, w.calls id ≠ some (.rejected e)) ∧
    (verdicts id h).length ≤ 1 ∧
    (verdicts id h = [] → ∀ i, ∃ t, (serverMachine s ttlMs).step w (.resume id i) = some t) ∧
    resumptions id h ≤ 7 ∧
    ∀ v ∈ verdicts id h, Deserves s ttlMs keys h req now v

/-- A success was given in a segment that found the response's nonce in the cache. -/
theorem success_pending (hx : (serverMachine s ttlMs).Execution h w) :
    ∀ id user info, Verdict.success user info ∈ verdicts id h →
      ∃ h' w' m r c, h' <+: h ∧ (serverMachine s ttlMs).Execution h' w' ∧
        w'.calls id = some (.suspended (.responseVerified m r true)) ∧ user = r.user ∧
        info = r.publicKey ∧ (w'.cache.get m.userId w'.now).1 = some c ∧
        c.clientChallenged = m.clientResponsed.message := by
  apply Machine.Execution.invariant (P := fun h (_ : Server I U K B) =>
    ∀ id user info, Verdict.success user info ∈ verdicts id h →
      ∃ h' w' m r c, h' <+: h ∧ (serverMachine s ttlMs).Execution h' w' ∧
        w'.calls id = some (.suspended (.responseVerified m r true)) ∧ user = r.user ∧
        info = r.publicKey ∧ (w'.cache.get m.userId w'.now).1 = some c ∧
        c.clientChallenged = m.clientResponsed.message) ?_ ?_ hx
  · intro id user info hv
    cases hv
  · intro h w e w' hx ih hstep id user info hv
    rw [verdicts_concat, List.mem_append] at hv
    rcases hv with hv | hv
    · obtain ⟨h', v, m, r, c, hp, rest⟩ := ih id user info hv
      exact ⟨h', v, m, r, c, hp.trans (List.prefix_append h [e]), rest⟩
    · refine ⟨h, w, ?_⟩
      simp only [Option.mem_toList] at hv
      cases server_step_inv hstep with
      | @authenticate id' req call cache hfree hp =>
        cases call with
        | settled v =>
          obtain ⟨handler, ha⟩ | ⟨error, ha⟩ | ⟨e, ha⟩ :=
            MutualKeyChallengeStrategy.authenticate_cases (s := s) req w.now <;>
            rw [ha] at hp <;> cases hp
          simp [ServerEvent.verdictOf] at hv
        | suspended handler | rejected e => cases hv
      | @resume id' inputs handler call cache hcall hp =>
        have hid : id' = id ∧ call = .settled (.success user info) := by
          cases call with
          | settled v => simpa [ServerEvent.verdictOf] using hv
          | suspended handler | rejected e => cases hv
        obtain ⟨rfl, rfl⟩ := hid
        obtain ⟨m, r, c, rfl, hu, hi, hget, hm⟩ := perform_success hp
        exact ⟨m, r, c, List.prefix_append h _, hx, hcall, hu, hi, hget, hm⟩
      | timer ht hf => cases hv
      | tick => cases hv

variable {keys : K → Prop}

omit [DecidableEq I] [DecidableEq B] in
theorem Within.of_concat {e : ServerEvent Req I U K B S} (hw : Within s keys id (h ++ [e])) :
    Within s keys id h :=
  fun now handler i call hmem => hw now handler i call (List.mem_append_left _ hmem)

omit [DecidableEq I] [DecidableEq B] in
theorem Within.concat {e : ServerEvent Req I U K B S} (hw : Within s keys id h)
    (he : ∀ now handler i call, e = .resume id now handler i call →
      s.Returns keys i.returnedKey) : Within s keys id (h ++ [e]) := by
  intro now handler i call hmem
  rcases List.mem_append.mp hmem with hmem | hmem
  · exact hw now handler i call hmem
  · exact he now handler i call (List.mem_singleton.mp hmem).symm

/-- What the keys have to do with where call `id` is. -/
def CallOpened (s : MutualKeyChallengeStrategy Req I U K B S) (keys : K → Prop)
    (h : List (ServerEvent Req I U K B S)) (id : ℕ) : Call I U K B → Prop
  | .suspended handler => s.Opened keys handler
  | .rejected _ => ∃ now req, Received h id now req ∧ s.ThrowsUnder keys req now
  | .settled (.fail challenge status) =>
    status = 401 ∧ ∃ now req m user, Received h id now req ∧ s.Challenges req now m user ∧
      s.ProvesUnder keys m user challenge.clientRequested.message
  | .settled _ => True

omit [DecidableEq I] [DecidableEq B] in
theorem CallOpened.grow {e : ServerEvent Req I U K B S} {call : Call I U K B}
    (hopened : CallOpened s keys h id call) : CallOpened s keys (h ++ [e]) id call := by
  match call, hopened with
  | .suspended handler, hopened => exact hopened
  | .rejected _, ⟨now, req, hreceived, ht⟩ =>
    exact ⟨now, req, hreceived.grow (List.prefix_append h _), ht⟩
  | .settled (.fail challenge status), ⟨hstatus, now, req, m, user, hreceived, hrest⟩ =>
    exact ⟨hstatus, now, req, m, user, hreceived.grow (List.prefix_append h _), hrest⟩
  | .settled (.success _ _), _ => trivial
  | .settled (.error _), _ => trivial

/-- A call that has got none but these keys has decrypted and thrown under these. -/
theorem calls_opened (hx : (serverMachine s ttlMs).Execution h w) :
    Within s keys id h → ∀ call, w.calls id = some call → CallOpened s keys h id call := by
  apply Machine.Execution.invariant (P := fun h (w : Server I U K B) =>
    Within s keys id h → ∀ call, w.calls id = some call → CallOpened s keys h id call) ?_ ?_ hx
  · intro _ call hcall
    cases hcall
  · intro h w e w' hx ih hstep hwithin call hcall
    have hs := server_step_inv hstep
    by_cases hid : e.callId = some id
    · cases hs with
      | @authenticate id' req after cache hfree hp =>
        obtain rfl := Option.some.inj hid
        simp only [Function.update_self, Option.some.injEq] at hcall
        subst hcall
        obtain ⟨handler, ha⟩ | ⟨error, ha⟩ | ⟨e, ha⟩ :=
          MutualKeyChallengeStrategy.authenticate_cases (s := s) req w.now
        · rw [ha] at hp
          cases hp
          exact MutualKeyChallengeStrategy.authenticate_opened ha
        · rw [ha] at hp
          cases hp
          trivial
        · rw [ha] at hp
          cases hp
          refine ⟨w.now, req, received_concat.mpr (Or.inr ⟨_, rfl⟩), ?_⟩
          unfold MutualKeyChallengeStrategy.authenticate at ha
          split at ha
          · rename_i e' he
            exact Or.inl ⟨e', he⟩
          all_goals cases ha
      | @resume id' i handler after cache hsuspended hp =>
        obtain rfl := Option.some.inj hid
        simp only [Function.update_self, Option.some.injEq] at hcall
        subst hcall
        have hreturns : s.Returns keys i.returnedKey :=
          hwithin _ _ _ _ (List.mem_append_right _ (List.mem_singleton_self _))
        have hopened : s.Opened keys handler := ih hwithin.of_concat _ hsuspended
        obtain ⟨arrived, req, hreceived, hfollows⟩ := call_concludes hx hsuspended
        generalize ha : s.resume i handler = action at hp
        cases action with
        | suspend handler' =>
          cases hp
          exact MutualKeyChallengeStrategy.resume_opened hopened hreturns ha
        | reject e =>
          cases hp
          refine ⟨arrived, req, hreceived.grow (List.prefix_append h _), ?_⟩
          exact MutualKeyChallengeStrategy.resume_throws_under hfollows hopened hreturns ha
        | verdict v =>
          cases hp
          obtain ⟨error, rfl⟩ := MutualKeyChallengeStrategy.resume_verdict ha
          trivial
        | cacheGet m user =>
          cases hp
          unfold MutualKeyChallengeStrategy.afterGet
          split
          · trivial
          · split <;> trivial
        | cacheSet key value challenge =>
          cases hp
          obtain ⟨m, user, dm, nonce, nm, rfl, _, _, rfl⟩ :=
            MutualKeyChallengeStrategy.resume_cacheSet ha
          exact ⟨rfl, arrived, req, m, user, hreceived.grow (List.prefix_append h _), hfollows.1,
            hopened⟩
      | timer | tick => cases hid
    · rw [other_call hs hid] at hcall
      exact (ih hwithin.of_concat call hcall).grow

theorem verdict_deserved (hx : (serverMachine s ttlMs).Execution h w)
    (hr : Received h id now req) (hwithin : Within s keys id h) {v : Verdict U K B}
    (hv : v ∈ verdicts id h) : Deserves s ttlMs keys h req now v := by
  cases v with
  | error error => trivial
  | fail challenge status =>
    obtain ⟨hstatus, arrived, req', m, user, hr', hrest⟩ :=
      calls_opened hx hwithin _ (settled_of_verdict hx hv)
    obtain ⟨rfl, rfl⟩ := received_unique hx hr hr'
    exact ⟨hstatus, m, user, hrest⟩
  | success user info =>
    obtain ⟨h', w', m, r, c, hp, hx', hcall, hu, hi, hget, hm⟩ :=
      success_pending hx id user info hv
    obtain ⟨arrived, req', hr', hresponds, hverified⟩ := call_concludes hx' hcall
    obtain ⟨rfl, rfl⟩ := received_unique hx hr (hr'.grow hp)
    exact ⟨m, r, hresponds, hverified.symm, hu, hi, h', w', c, hp, hx', hget, hm⟩

/-- A handler that throws when nothing else runs does throw in some run. -/
theorem segments_rejected {is : List (Inputs K S)} {e : Thrown}
    (hx : (serverMachine s ttlMs).Execution h w) (hcall : w.calls id = some (.suspended handler))
    (hwithin : Within s keys id h) (his : ∀ i ∈ is, s.Returns keys i.returnedKey)
    (hs : s.segments is handler = .reject e) :
    ∃ h' w', (serverMachine s ttlMs).Execution h' w' ∧ h <+: h' ∧ Within s keys id h' ∧
      w'.calls id = some (.rejected e) := by
  induction is generalizing h w handler with
  | nil => cases hs
  | cons i is ih =>
    have hstep : (serverMachine s ttlMs).Step w
        (.resume id w.now handler i ((s.resume i handler).perform w.now w.cache).1)
        { w with
          cache := ((s.resume i handler).perform w.now w.cache).2
          calls := Function.update w.calls id
            (some ((s.resume i handler).perform w.now w.cache).1) } := by
      refine ⟨.resume id i, ?_⟩
      simp [serverMachine, Server.step, hcall]
    have hx' := hx.snoc hstep
    have hwithin' := hwithin.concat
      (e := .resume id w.now handler i ((s.resume i handler).perform w.now w.cache).1) (by
        rintro now hd j call ⟨⟩
        exact his _ List.mem_cons_self)
    simp only [MutualKeyChallengeStrategy.segments] at hs
    split at hs
    · rename_i handler' hr
      obtain ⟨h', w', hx'', hp, hw', hrej⟩ := ih hx' (by simp [hr, Action.perform]) hwithin'
        (fun j hj => his j (List.mem_cons_of_mem i hj)) hs
      exact ⟨h', w', hx'', (List.prefix_append h _).trans hp, hw', hrej⟩
    · exact ⟨_, _, hx', List.prefix_append h _, hwithin', by simp [hs, Action.perform]⟩

/-- A request may be the first to arrive, at any time. -/
theorem arrives (s : MutualKeyChallengeStrategy Req I U K B S) (ttlMs : ℕ) (req : Req) (now : ℕ) :
    ∃ h w, (serverMachine s ttlMs).Execution h w ∧ Received h 0 now req ∧
      (∀ keys, Within s keys 0 h) ∧
      w.calls 0 = some ((s.authenticate req now).perform now (.new ttlMs)).1 := by
  have hclock : (serverMachine s ttlMs).Step (.new ttlMs) (.tick now)
      ⟨now, .new ttlMs, fun _ => none⟩ :=
    ⟨.tick now, by simp [serverMachine, Server.step, Server.new]⟩
  have harrive : (serverMachine s ttlMs).Step ⟨now, .new ttlMs, fun _ => none⟩
      (.authenticate 0 now req ((s.authenticate req now).perform now (.new ttlMs)).1)
      ⟨now, ((s.authenticate req now).perform now (.new ttlMs)).2, Function.update (fun _ => none) 0
        (some ((s.authenticate req now).perform now (.new ttlMs)).1)⟩ :=
    ⟨.authenticate 0 req, rfl⟩
  refine ⟨_, _, (Machine.Execution.init.snoc hclock).snoc harrive, ⟨_, by simp; rfl⟩, ?_, by simp⟩
  intro keys now' handler i call hmem
  simp at hmem

/-- Where a request makes something throw, some run of its call rejects. -/
theorem throws_rejected [Inhabited S] (ht : s.ThrowsUnder keys req now) :
    ∃ h w id e, (serverMachine s ttlMs).Execution h w ∧ Received h id now req ∧
      Within s keys id h ∧ w.calls id = some (.rejected e) := by
  obtain ⟨h, w, hx, hr, hwithin, hcall⟩ := arrives s ttlMs req now
  have reject : ∀ is e m user, s.challengeOrResponseFunc req now = .ok (.clientChallenge m) →
      s.userFunc req m.userId = some user → (∀ i ∈ is, s.Returns keys i.returnedKey) →
      s.segments is (.challengeUser m (.ok user)) = .reject e →
      ∃ h w id e, (serverMachine s ttlMs).Execution h w ∧ Received h id now req ∧
        Within s keys id h ∧ w.calls id = some (.rejected e) := by
    intro is e m user hm hu his hs
    have hsuspended : w.calls 0 = some (.suspended (.challengeUser m (.ok user))) := by
      rw [hcall, MutualKeyChallengeStrategy.authenticate_challenges ⟨hm, hu⟩]
      rfl
    obtain ⟨h', w', hx', hp, hw', hrej⟩ :=
      segments_rejected hx hsuspended (hwithin keys) his hs
    exact ⟨h', w', 0, e, hx', hr.grow hp, hw', hrej⟩
  obtain ⟨e, he⟩ | ⟨m, user, ⟨hm, hu⟩, ⟨returned, e, hreturns, he⟩ |
    ⟨⟨d, key, hreturns, hd⟩, random, seed, e, he⟩⟩ := ht
  · refine ⟨h, w, 0, e, hx, hr, hwithin keys, ?_⟩
    simp [hcall, MutualKeyChallengeStrategy.authenticate, he, Action.perform]
  · let i : Inputs K S := ⟨returned, default, default⟩
    refine reject [i, i] e m user hm hu (by simp [i, hreturns]) ?_
    simp [MutualKeyChallengeStrategy.segments, MutualKeyChallengeStrategy.resume, i, he]
  · let i : Inputs K S := ⟨key, random, seed⟩
    have hen : s.verifier.encryptAndSign (s.verifier.serverKey key) seed user.publicKey
        (s.verifier.getNonce random) = .error e := MessageVerifier.encryptAndSign_error.mpr he
    refine reject [i, i, i, i, i, i] e m user hm hu (by simp [i, hreturns]) ?_
    simp [MutualKeyChallengeStrategy.segments, MutualKeyChallengeStrategy.resume, i, hd, hen]

/-- A request gets its one verdict in every run exactly when nothing it does throws. -/
theorem oneVerdict_iff [Inhabited S] :
    OneVerdict s ttlMs keys req ↔ ∀ now, ¬ s.ThrowsUnder keys req now := by
  constructor
  · intro hone now ht
    obtain ⟨h, w, id, e, hx, hr, hwithin, hrej⟩ := throws_rejected ht
    exact (hone h w id now hx hr hwithin).1 e hrej
  · intro hno h w id now hx hr hwithin
    have hrejects : ∀ e, w.calls id ≠ some (.rejected e) := by
      intro e hcall
      obtain ⟨now', req', hr', ht⟩ := calls_opened hx hwithin _ hcall
      obtain ⟨rfl, rfl⟩ := received_unique hx hr hr'
      exact hno _ ht
    have hok := calls_ok hx id
    refine ⟨hrejects, ?_, ?_, ?_, fun v hv => verdict_deserved hx hr hwithin hv⟩
    all_goals
      generalize hcall : w.calls id = call at hok hrejects
      cases hok with
      | unknown hreq => exact (hreq now req hr).elim
      | @known _ _ call hreq hc hv hrem => ?_
    · rw [hv]
      cases call <;> simp [Call.verdicts]
    · intro hnone i
      cases call with
      | suspended handler => exact ⟨_, by simp only [serverMachine, Server.step, hcall]; rfl⟩
      | settled v =>
        rw [hv] at hnone
        cases hnone
      | rejected e => exact (hrejects e rfl).elim
    · omega

end Calls

/-! The shipped extractors. -/

section Shipped
variable {U K S : Type} (node : NodeBuffer) (extractor : Extractor)
  (userFunc : HttpRequest → UserId → Option (UserKeyRecord U K))
  (verifier : MessageVerifier K Bytes S) (ttlMs : ℕ) (keys : K → Prop) (req : HttpRequest)

def shippedStrategy : MutualKeyChallengeStrategy HttpRequest UserId U K Bytes S where
  challengeOrResponseFunc := extractor.func node
  userFunc
  verifier

variable {extractor} {req} in
theorem extractor_ok : (∀ now, ∃ x, extractor.func node req now = .ok x) ↔
    extractor.Readable node req := by
  cases extractor with
  | body u c r =>
    simp only [Extractor.func, challengeByBase64Body_ok, forall_const, Extractor.Readable]
  | header k c r =>
    simp only [Extractor.func, challengeByBase64Header_ok, forall_const, Extractor.Readable]

/-- With either extractor, exactly the requests it can read and node's crypto takes, under every
key that the call may get, get one verdict whatever happens; on all others some call rejects. -/
theorem oneVerdict_iff_readable [Inhabited S] :
    OneVerdict (shippedStrategy node extractor userFunc verifier) ttlMs keys req ↔
      extractor.Readable node req ∧
        (shippedStrategy node extractor userFunc verifier).CryptoAccepts keys req := by
  rw [oneVerdict_iff, MutualKeyChallengeStrategy.not_throws_iff]
  exact and_congr_left fun _ => extractor_ok node

/-- Node's crypto with one key and no padding at all. -/
def plainCrypto : NodeCrypto Unit Bytes Unit where
  randomBytes size _ := List.replicate size 0
  publicEncrypt _ _ m := .ok m
  privateDecrypt _ c := .ok c
  sign _ m _ := m
  verify _ m _ signature := decide (signature = m)

/-- The default strategy with one user, who may call himself anything. -/
def plainStrategy : MutualKeyChallengeStrategy HttpRequest UserId Unit Unit Bytes Unit :=
  shippedStrategy ⟨fun _ => .error .typeError⟩ (.header "uid" "cha" "res")
    (fun _ _ => some ⟨(), ()⟩)
    ⟨plainCrypto, .keyObject (), ⟨4, 1, "sha256", 128⟩⟩

/-- A challenge in the header form that the extractor's own error message documents. -/
def challengeHeader : HttpRequest :=
  { authorization := some "Mutual uid=YQ==,cha=YQ==,YQ==".toList }

/-- No challenge request can be made through the default extractor: it throws. -/
theorem challenge_header_rejected :
    ¬ OneVerdict plainStrategy 120000 (fun _ => True) challengeHeader := by
  rw [oneVerdict_iff]
  intro hno
  exact hno 0 (Or.inl ⟨.typeError, rfl⟩)

end Shipped

end MutualKeyChallenge
