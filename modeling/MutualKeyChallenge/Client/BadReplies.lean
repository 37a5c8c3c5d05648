import MutualKeyChallenge.Client.RequestPromise

/-! Which replies to its challenge the client turns into a response or a rejection. -/
namespace MutualKeyChallenge
open Transition

/-! What the default extraction can read. -/

section Extraction
variable {node : NodeBuffer} {json : JsonParser} {bodyObj : Json} {name : String} {body : Bytes}

/-- `bodyObj[name]` is neither `undefined` nor `null`, and `Buffer.from` takes its two parts. -/
def MessageReadable (node : NodeBuffer) (bodyObj : Json) (name : String) : Prop :=
  ∃ sent message signature, bodyObj.property name = some sent ∧ sent ≠ .null ∧
    node.fromBase64 (sent.property "message") = .ok message ∧
    node.fromBase64 (sent.property "signature") = .ok signature

/-- The body is JSON other than `null`, with both messages. -/
def ReplyReadable (node : NodeBuffer) (json : JsonParser) (body : Bytes) : Prop :=
  ∃ bodyObj, json.parse (Utf8.decode body) = .ok bodyObj ∧ bodyObj ≠ .null ∧
    MessageReadable node bodyObj "clientRequested" ∧ MessageReadable node bodyObj "serverRequested"

theorem member_eq {value : Json} (hv : value ≠ .null) :
    Json.member (some value) name = .ok (value.property name) := by
  cases value with
  | null => exact (hv rfl).elim
  | _ => rfl

theorem ofMember_ok_iff (hb : bodyObj ≠ .null) :
    (∃ m, SignedMessage.ofMember node bodyObj name = .ok m) ↔
      MessageReadable node bodyObj name := by
  simp only [SignedMessage.ofMember, member_eq hb, bind, Except.bind, pure, Except.pure]
  constructor
  · rintro ⟨m, hm⟩
    cases hsent : bodyObj.property name with
    | none =>
      rw [hsent] at hm
      cases hm
    | some sent =>
      rw [hsent] at hm
      have hn : sent ≠ .null := by
        rintro rfl
        cases hm
      simp only [member_eq hn] at hm
      split at hm
      · cases hm
      · rename_i message hmessage
        split at hm
        · cases hm
        · rename_i signature hsignature
          exact ⟨sent, message, signature, hsent, hn, hmessage, hsignature⟩
  · rintro ⟨sent, message, signature, hsent, hn, hmessage, hsignature⟩
    simp [hsent, member_eq hn, hmessage, hsignature]

theorem extractBuffer_ok_iff :
    (∃ serverChallenge, extractBuffer node json body = .ok serverChallenge) ↔
      ReplyReadable node json body := by
  simp only [extractBuffer, extractByBase64Json, JsonParser.parseBody, String.toList_ofList, bind,
    Except.bind, pure, Except.pure, ReplyReadable]
  cases json.parse (Utf8.decode body) with
  | error e => simp
  | ok bodyObj =>
    simp only [Except.ok.injEq, exists_eq_left']
    by_cases hb : bodyObj = .null
    · have hthrows : ∀ name, SignedMessage.ofMember node .null name = .error .typeError :=
        fun _ => rfl
      simp [hb, hthrows]
    · rw [← ofMember_ok_iff hb, ← ofMember_ok_iff hb]
      cases SignedMessage.ofMember node bodyObj "clientRequested" with
      | error e => simp
      | ok clientRequested =>
        cases SignedMessage.ofMember node bodyObj "serverRequested" with
        | error e => simp
        | ok serverRequested => simp [hb]

end Extraction

/-! What has become of a reply. -/

variable {I K S : Type}

/-- The challenge passes the nonce comparison and both signature checks, and asks for `message`. -/
structure ChallengePasses (c : HandshakeClient K Bytes S) (args : HandshakeRun I K Bytes)
    (serverChallenge : ServerChallenge Bytes) (message : Bytes) : Prop where
  nonce : serverChallenge.clientRequested.message = args.nonce
  clientRequested : c.crypto.verify c.cryptOpt.hashAlgorithm serverChallenge.clientRequested.message
    (c.signVerifyOpts args.serverKey) serverChallenge.clientRequested.signature = true
  decrypted : c.crypto.privateDecrypt (c.messageOpts args.clientKey)
    serverChallenge.serverRequested.message = .ok message
  serverRequested : c.crypto.verify c.cryptOpt.hashAlgorithm message
    (c.signVerifyOpts args.serverKey) serverChallenge.serverRequested.signature = true

/-- A call of `resolve` or `reject`. -/
def Callback.settles {A : Type} : Callback A → Bool
  | .resolved _ => true
  | .rejected _ => true
  | _ => false

def callbacks (h : List (ExchangeEvent I)) : List (Callback (ServerChallenge Bytes ⊕ Bytes)) :=
  h.filterMap fun e =>
    match e with
    | .http _ callback => some callback
    | .await _ => none

/-- The bytes of the reply, however they were split. -/
def replyBody (h : List (ExchangeEvent I)) : Bytes :=
  (h.filterMap fun e =>
    match e with
    | .http (.data chunk) _ => some chunk
    | _ => none).flatten

/-- There was no reply, or only part of one. -/
def RequestFailed (h : List (ExchangeEvent I)) : Prop :=
  ∃ e callback, .http (.error e) callback ∈ h

/-- The listeners have settled the promise, once, and none has thrown. -/
structure SettledOnce (h : List (ExchangeEvent I)) (w : Exchange I) : Prop where
  once : (callbacks h).countP Callback.settles = 1
  settled : w.listeners.promise ≠ .pending
  quiet : ∀ e, .threw e ∉ callbacks h

/-- The promise was settled once, and `request` has sent its response, to a challenge that passes,
or has rejected. -/
structure ReplyHandled (c : HandshakeClient K Bytes S) (args : HandshakeRun I K Bytes)
    (extract : Bytes → Except Thrown (ServerChallenge Bytes)) (h : List (ExchangeEvent I))
    (w : Exchange I) : Prop where
  listeners : SettledOnce h w
  request : (∃ message serverChallenge, w.request = .sends message ∧
    extract (replyBody h) = .ok serverChallenge ∧
    ChallengePasses c args serverChallenge message.data.message) ∨ ∃ e, w.request = .rejects e

/-- Whatever the server replies, in any parts, nothing else can happen. -/
def EveryReplyHandled (c : HandshakeClient K Bytes S) (args : HandshakeRun I K Bytes)
    (node : NodeBuffer) (json : JsonParser) : Prop :=
  ∀ h w, (exchange c args fun _ => extractBuffer node json).Execution h w →
    (exchange c args fun _ => extractBuffer node json).Halted w →
    ReplyHandled c args (extractBuffer node json) h w

/-- All that can be left to do is to continue after the `await`; a request whose events are not over
can still fail. -/
theorem halted_iff {c : HandshakeClient K Bytes S} {args : HandshakeRun I K Bytes}
    {extractFunc : ℕ → Bytes → Except Thrown (ServerChallenge Bytes)} {w : Exchange I} :
    (exchange c args extractFunc).Halted w ↔ w.listeners.finished = true ∧
      (w.request = .waiting → w.listeners.promise.awaited = none) := by
  constructor
  · intro hhalted
    constructor
    · cases hfinished : w.listeners.finished with
      | true => rfl
      | false =>
        have hmove := hhalted (.http (.error .typeError))
        simp [exchange, Listeners.emit, hfinished] at hmove
    · intro hrequest
      have hmove := hhalted .await
      cases hp : w.listeners.promise.awaited with
      | none => rfl
      | some result => simp [exchange, hrequest, hp] at hmove
  · rintro ⟨hfinished, hawaited⟩ move
    cases move with
    | http event => cases event <;> simp [exchange, Listeners.emit, hfinished]
    | await =>
      cases hrequest : w.request with
      | waiting => simp [exchange, hrequest, hawaited hrequest]
      | sends | rejects => simp [exchange, hrequest]

/-- Crypto that takes nothing. -/
def refusingCrypto : NodeCrypto Unit Bytes Unit where
  randomBytes _ _ := []
  publicEncrypt _ _ _ := .error .cryptoError
  privateDecrypt _ _ := .error .cryptoError
  sign _ _ _ := []
  verify _ _ _ _ := false

def refusingClient : HandshakeClient Unit Bytes Unit := ⟨refusingCrypto, ⟨4, 1, "sha256", 128⟩⟩

/-- The bytes of a text without a character from 128 on. -/
def asciiBytes (text : String) : Bytes := text.toList.map fun c => .ofNat c.toNat

/-- A reply that arrives in these chunks. -/
def delivered (status : ℕ) (chunks : List String) : List ExchangeMove :=
  [.http (.response status)] ++ chunks.map (fun chunk => .http (.data (asciiBytes chunk))) ++
    [.http .ended]

def emptyMessage : Json := .object [("message", .string []), ("signature", .string [])]

/-- Knows one JSON text, in which all four strings are empty. -/
def oneText : JsonParser where
  parse text :=
    if text.head? = some '{' then
      .ok (.object [("clientRequested", emptyMessage), ("serverRequested", emptyMessage)])
    else .error .syntaxError
  parse_capital := by
    intro c text _ hc
    refine if_neg ?_
    rintro heq
    cases heq
    revert hc
    decide

def refusedArgs : HandshakeRun (List Char) Unit Bytes := ⟨"u".toList, (), (), []⟩

def refusedExchange : Machine (Exchange (List Char)) ExchangeMove (ExchangeEvent (List Char)) :=
  exchange refusingClient refusedArgs fun _ => extractBuffer ⟨fun _ => .error .typeError⟩ oneText

/-- The demo server's answer to a challenge of an unknown user, in two chunks. -/
def textReply : List ExchangeMove := delivered 401 ["No user could ", "be found"]

/-- The listener of `end` throws on it, and the promise stays pending. -/
theorem text_reply_hangs :
    ¬ EveryReplyHandled refusingClient refusedArgs ⟨fun _ => .error .typeError⟩ oneText := by
  intro hall
  have hfinished : (refusedExchange.final textReply).listeners.finished = true := rfl
  have hpending : (refusedExchange.final textReply).listeners.promise = .pending := rfl
  have hhalted : refusedExchange.Halted (refusedExchange.final textReply) :=
    halted_iff.mpr ⟨hfinished, fun _ => congrArg Promise.awaited hpending⟩
  exact (hall _ _ (refusedExchange.final_execution textReply) hhalted).listeners.settled hpending

/-- How far a reply has come. -/
inductive Progress (c : HandshakeClient K Bytes S) (args : HandshakeRun I K Bytes)
    (extract : Bytes → Except Thrown (ServerChallenge Bytes)) (h : List (ExchangeEvent I))
    (w : Exchange I) : Prop
  | receiving (hfinished : w.listeners.finished = false) (hp : w.listeners.promise = .pending)
      (hdata : w.listeners.data.flatten = replyBody h)
      (hreturned : ∀ callback ∈ callbacks h, callback = .returned) (hfailed : ¬ RequestFailed h)
      (hrequest : w.request = .waiting) : Progress c args extract h w
  | settled {result : Except Thrown (ServerChallenge Bytes ⊕ Bytes)}
      (hfinished : w.listeners.finished = true) (hp : w.listeners.promise.awaited = some result)
      (honce : (callbacks h).countP Callback.settles = 1) (hquiet : ∀ e, .threw e ∉ callbacks h)
      (hcause : (∃ serverChallenge, extract (replyBody h) = .ok serverChallenge ∧
        result = .ok (.inl serverChallenge)) ∨ RequestFailed h ∧ ∃ e, result = .error e)
      (hrequest : w.request = .waiting ∨ w.request = c.afterAwait args result) :
      Progress c args extract h w
  | hanging {e : Thrown} (hfinished : w.listeners.finished = true)
      (hp : w.listeners.promise = .pending)
      (hnone : (callbacks h).countP Callback.settles = 0)
      (hextract : extract (replyBody h) = .error e) (hfailed : ¬ RequestFailed h)
      (hrequest : w.request = .waiting) : Progress c args extract h w

variable {c : HandshakeClient K Bytes S} {args : HandshakeRun I K Bytes}
  {extract : Bytes → Except Thrown (ServerChallenge Bytes)} {w w' : Exchange I}
  {e : ExchangeEvent I} {h : List (ExchangeEvent I)} {event : HttpEvent}
  {callback : Callback (ServerChallenge Bytes ⊕ Bytes)} {after : RequestStage I Bytes}

theorem callbacks_http : callbacks (h ++ [.http event callback]) = callbacks h ++ [callback] := by
  simp [callbacks]

theorem callbacks_await : callbacks (h ++ [.await after]) = callbacks h := by simp [callbacks]

theorem replyBody_data {chunk : Bytes} :
    replyBody (h ++ [.http (.data chunk) callback]) = replyBody h ++ chunk := by
  simp [replyBody]

theorem replyBody_other (he : ∀ chunk callback, e ≠ .http (.data chunk) callback) :
    replyBody (h ++ [e]) = replyBody h := by
  cases e with
  | await after => simp [replyBody]
  | http event callback =>
    cases event with
    | data chunk => exact (he chunk callback rfl).elim
    | response | ended | error => simp [replyBody]

theorem requestFailed_concat (he : ∀ thrown callback, e ≠ .http (.error thrown) callback) :
    RequestFailed (h ++ [e]) ↔ RequestFailed h := by
  constructor
  · rintro ⟨thrown, callback, hmem⟩
    rcases List.mem_append.mp hmem with hmem | hmem
    · exact ⟨thrown, callback, hmem⟩
    · exact (he thrown callback (List.mem_singleton.mp hmem).symm).elim
  · rintro ⟨thrown, callback, hmem⟩
    exact ⟨thrown, callback, List.mem_append_left _ hmem⟩

/-- While the reply is being received no callback does more than return. -/
theorem Progress.of_open (hp : Progress c args extract h w)
    (hfinished : w.listeners.finished = false) :
    w.listeners.promise = .pending ∧ w.listeners.data.flatten = replyBody h ∧
      (∀ callback ∈ callbacks h, callback = .returned) ∧ ¬ RequestFailed h ∧
      w.request = .waiting := by
  cases hp with
  | receiving _ hp hdata hreturned hfailed hrequest =>
    exact ⟨hp, hdata, hreturned, hfailed, hrequest⟩
  | settled hfinished' | hanging hfinished' =>
    rw [hfinished] at hfinished'
    cases hfinished'

theorem countP_returned (hreturned : ∀ callback ∈ callbacks h, callback = .returned) :
    (callbacks h).countP Callback.settles = 0 := by
  refine List.countP_eq_zero.mpr ?_
  intro callback hmem
  simp [hreturned callback hmem, Callback.settles]

/-- The last callback settles the promise or throws. -/
theorem countP_last (hreturned : ∀ callback ∈ callbacks h, callback = .returned) :
    (callbacks (h ++ [.http event callback])).countP Callback.settles =
      if callback.settles then 1 else 0 := by
  rw [callbacks_http, List.countP_append, countP_returned hreturned, List.countP_singleton,
    Nat.zero_add]

theorem quiet_last (hreturned : ∀ callback ∈ callbacks h, callback = .returned)
    (hcallback : callback.settles = true) :
    ∀ e, .threw e ∉ callbacks (h ++ [.http event callback]) := by
  intro e hmem
  rw [callbacks_http] at hmem
  rcases List.mem_append.mp hmem with hmem | hmem
  · cases hreturned _ hmem
  · obtain rfl := List.mem_singleton.mp hmem
    cases hcallback

theorem progress_step (hs : ExchangeStep c args (fun _ => extract) w e w')
    (hp : Progress c args extract h w) : Progress c args extract (h ++ [e]) w' := by
  cases hs with
  | response hfinished hnone =>
    obtain ⟨hpending, hdata, hreturned, hfailed, hrequest⟩ := hp.of_open hfinished
    refine .receiving hfinished hpending ?_ ?_ ?_ hrequest
    · rw [replyBody_other (by simp)]
      exact hdata
    · simpa [callbacks_http, or_imp, forall_and] using hreturned
    · rwa [requestFailed_concat (by simp)]
  | data hfinished hsome =>
    obtain ⟨hpending, hdata, hreturned, hfailed, hrequest⟩ := hp.of_open hfinished
    refine .receiving hfinished hpending ?_ ?_ ?_ hrequest
    · rw [replyBody_data, ← hdata]
      simp
    · simpa [callbacks_http, or_imp, forall_and] using hreturned
    · rwa [requestFailed_concat (by simp)]
  | @threw status thrown hfinished hsome he =>
    obtain ⟨hpending, hdata, hreturned, hfailed, hrequest⟩ := hp.of_open hfinished
    have hbody : replyBody (h ++ [.http .ended (.threw thrown)]) = replyBody h :=
      replyBody_other (by simp)
    rw [hdata, ← hbody] at he
    refine .hanging rfl hpending (countP_last hreturned) he ?_ hrequest
    rwa [requestFailed_concat (by simp)]
  | @resolved status serverChallenge hfinished hsome he =>
    obtain ⟨hpending, hdata, hreturned, hfailed, hrequest⟩ := hp.of_open hfinished
    have hbody : replyBody (h ++ [.http .ended (.resolved (.inl serverChallenge))]) =
        replyBody h := replyBody_other (by simp)
    rw [hdata, ← hbody] at he
    have hresolved : (w.listeners.promise.resolve (.inl serverChallenge)).awaited =
        some (.ok (.inl serverChallenge)) := by rw [hpending]; rfl
    exact .settled rfl hresolved (countP_last hreturned) (quiet_last hreturned rfl)
      (Or.inl ⟨serverChallenge, he, rfl⟩) (Or.inl hrequest)
  | @error thrown hfinished =>
    obtain ⟨hpending, hdata, hreturned, hfailed, hrequest⟩ := hp.of_open hfinished
    have hrejected : (w.listeners.promise.reject thrown).awaited = some (.error thrown) := by
      rw [hpending]; rfl
    have hfails : RequestFailed (h ++ [.http (.error thrown) (.rejected thrown)]) :=
      ⟨thrown, _, List.mem_append_right _ List.mem_cons_self⟩
    exact .settled rfl hrejected (countP_last hreturned) (quiet_last hreturned rfl)
      (Or.inr ⟨hfails, thrown, rfl⟩) (Or.inl hrequest)
  | await hw hr =>
    cases hp with
    | receiving hfinished hpending | hanging hfinished hpending =>
      rw [hpending] at hr
      cases hr
    | settled hfinished hp honce hquiet hcause hrequest =>
      cases hp.symm.trans hr
      refine .settled hfinished hp ?_ ?_ ?_ (Or.inr rfl)
      · rwa [callbacks_await]
      · rwa [callbacks_await]
      · rwa [replyBody_other (by simp), requestFailed_concat (by simp)]

theorem progress_run (hx : (exchange c args fun _ => extract).Execution h w) :
    Progress c args extract h w := by
  apply Machine.Execution.invariant (P := fun h w => Progress c args extract h w) ?_ ?_ hx
  · refine .receiving rfl rfl rfl (by simp [callbacks]) ?_ rfl
    rintro ⟨e, callback, hmem⟩
    cases hmem
  · intro h w e w' _ hp hstep
    exact progress_step (exchange_step_inv hstep) hp

/-! When nothing more can happen. -/

/-- The response answers a challenge that passes. -/
theorem responseMessage_passes {serverChallenge : ServerChallenge Bytes}
    {message : ClientSignedMessage I Bytes}
    (hm : c.responseMessage args serverChallenge = .ok message) :
    ChallengePasses c args serverChallenge message.data.message := by
  simp only [HandshakeClient.responseMessage] at hm
  split at hm
  · cases hm
  · rename_i hfirst
    simp only [ne_eq, not_or, not_not] at hfirst
    split at hm
    · cases hm
    · rename_i nonce hdecrypted
      split at hm
      · cases hm
      · rename_i hsecond
        cases hm
        exact ⟨hfirst.1, hfirst.2, hdecrypted, not_not.mp hsecond⟩

theorem afterAwait_challenge (serverChallenge : ServerChallenge Bytes) :
    (∃ message, c.afterAwait args (.ok (.inl serverChallenge)) = .sends message ∧
      ChallengePasses c args serverChallenge message.data.message) ∨
      ∃ e, c.afterAwait args (.ok (.inl serverChallenge)) = .rejects e := by
  simp only [HandshakeClient.afterAwait]
  split
  · rename_i e he
    exact Or.inr ⟨e, rfl⟩
  · rename_i message hm
    exact Or.inl ⟨message, rfl, responseMessage_passes hm⟩

/-- How an exchange has ended. -/
inductive Outcome (c : HandshakeClient K Bytes S) (args : HandshakeRun I K Bytes)
    (extract : Bytes → Except Thrown (ServerChallenge Bytes)) (h : List (ExchangeEvent I))
    (w : Exchange I) : Prop
  | extracted {serverChallenge : ServerChallenge Bytes} (honce : SettledOnce h w)
      (hextract : extract (replyBody h) = .ok serverChallenge)
      (hrequest : w.request = c.afterAwait args (.ok (.inl serverChallenge))) :
      Outcome c args extract h w
  | failed {e : Thrown} (honce : SettledOnce h w) (hfailed : RequestFailed h)
      (hrequest : w.request = .rejects e) : Outcome c args extract h w
  | hanging {e : Thrown} (hp : w.listeners.promise = .pending)
      (hextract : extract (replyBody h) = .error e) (hfailed : ¬ RequestFailed h)
      (hrequest : w.request = .waiting) : Outcome c args extract h w

theorem halted_outcome (hx : (exchange c args fun _ => extract).Execution h w)
    (hhalted : (exchange c args fun _ => extract).Halted w) : Outcome c args extract h w := by
  obtain ⟨hfinished, hawaited⟩ := halted_iff.mp hhalted
  cases progress_run hx with
  | receiving hfinished' =>
    rw [hfinished] at hfinished'
    cases hfinished'
  | @settled result _ hp honce hquiet hcause hrequest =>
    have hsettled : w.listeners.promise ≠ .pending := by
      intro hpending
      rw [hpending] at hp
      cases hp
    have hafter : w.request = c.afterAwait args result := by
      refine hrequest.resolve_left fun hwaiting => ?_
      rw [hawaited hwaiting] at hp
      cases hp
    rcases hcause with ⟨serverChallenge, hextract, rfl⟩ | ⟨hfailed, e, rfl⟩
    · exact .extracted ⟨honce, hsettled, hquiet⟩ hextract hafter
    · exact .failed ⟨honce, hsettled, hquiet⟩ hfailed hafter
  | hanging _ hp _ hextract hfailed hrequest => exact .hanging hp hextract hfailed hrequest

variable {node : NodeBuffer} {json : JsonParser}

/-- A reply is handled as it should be exactly when the request fails or the reply can be read; on
any other reply the listener of `end` throws, and the promise stays pending for ever. -/
theorem reply_handled_iff
    (hx : (exchange c args fun _ => extractBuffer node json).Execution h w)
    (hhalted : (exchange c args fun _ => extractBuffer node json).Halted w) :
    ReplyHandled c args (extractBuffer node json) h w ↔
      RequestFailed h ∨ ReplyReadable node json (replyBody h) := by
  rw [← extractBuffer_ok_iff]
  cases halted_outcome hx hhalted with
  | @extracted serverChallenge honce hextract hrequest =>
    refine iff_of_true ⟨honce, ?_⟩ (Or.inr ⟨serverChallenge, hextract⟩)
    rw [hrequest]
    rcases afterAwait_challenge serverChallenge with ⟨message, hsends, hpasses⟩ | hrejects
    · exact Or.inl ⟨message, serverChallenge, hsends, hextract, hpasses⟩
    · exact Or.inr hrejects
  | @failed e honce hfailed hrequest =>
    exact iff_of_true ⟨honce, Or.inr ⟨e, hrequest⟩⟩ (Or.inl hfailed)
  | hanging hp hextract hfailed hrequest =>
    refine iff_of_false (fun hhandled => hhandled.listeners.settled hp) ?_
    rintro (hfails | ⟨serverChallenge, hok⟩)
    · exact hfailed hfails
    · rw [hextract] at hok
      cases hok

/-- A reply that can be read, in three chunks; the client refuses it. -/
def readableReply : List ExchangeMove :=
  delivered 200 ["\x7b\"clientRequested\":\x7b\"message\":\"\",\"signature\":\"\"\x7d,",
    "\"serverRequested\":\x7b\"message\":\"\",", "\"signature\":\"\"\x7d\x7d"] ++ [.await]

theorem reply_handled_iff_refused :
    ReplyHandled refusingClient refusedArgs (extractBuffer ⟨fun _ => .error .typeError⟩ oneText)
        (refusedExchange.history readableReply) (refusedExchange.final readableReply) ↔
      RequestFailed (refusedExchange.history readableReply) ∨
        ReplyReadable ⟨fun _ => .error .typeError⟩ oneText
          (replyBody (refusedExchange.history readableReply)) := by
  have hfinished : (refusedExchange.final readableReply).listeners.finished = true := rfl
  have hrejects : (refusedExchange.final readableReply).request =
      .rejects (.error "Failed to verify client challenge") := rfl
  refine reply_handled_iff (refusedExchange.final_execution readableReply)
    (halted_iff.mpr ⟨hfinished, ?_⟩)
  rw [hrejects]
  exact fun hwaiting => by cases hwaiting

end MutualKeyChallenge
