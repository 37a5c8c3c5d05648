import MutualKeyChallenge.OneShot
import MutualKeyChallenge.Server.AnyCache
import MutualKeyChallenge.Server.CacheRuns
import Mathlib.Data.List.Forall2
import Mathlib.Data.Set.Operations

/-! A cache that gives out each challenge once, shared by any number of server processes. -/
namespace MutualKeyChallenge
open Transition OneShot MutualKeyChallengeStrategy

/-! The local cache is such a cache. -/

section Local
variable {I B : Type} [DecidableEq I] {ttlMs : ℕ} {w : CacheState I B} {h : List (CacheEvent I B)}

/-- What an event does to the challenges that are kept. -/
def CacheEvent.effect : CacheEvent I B → Option (Effect I (CachedChallenge I B))
  | .get key _ returned => some (.take key returned)
  | .set key value _ => some (.put key value)
  | .timer _ running => some (.lose running.key)
  | .tick _ => none

theorem LocalChallengeCache.get_challengeMap {c : LocalChallengeCache I B} {key : I} {now : ℕ} :
    (c.get key now).2.challengeMap = Function.update c.challengeMap key none := by
  funext k
  by_cases hk : k = key
  · subst hk
    simp [LocalChallengeCache.get_challengeMap_self]
  · simp [LocalChallengeCache.get_challengeMap_ne hk, hk]

theorem LocalChallengeCache.set_challengeMap {c : LocalChallengeCache I B} {key : I}
    {value : CachedChallenge I B} {now : ℕ} :
    (c.set key value now).challengeMap = Function.update c.challengeMap key (some value) := by
  funext k
  by_cases hk : k = key
  · subst hk
    simp
  · simp [LocalChallengeCache.set_challengeMap_ne hk, hk]

theorem cache_one_shot (hx : (cacheMachine I B ttlMs).Execution h w) :
    Explains CacheEvent.effect h w.cache.challengeMap := by
  apply Machine.Execution.invariant (P := fun h (w : CacheState I B) =>
    Explains CacheEvent.effect h w.cache.challengeMap) .empty ?_ hx
  intro h w e w' _ ih hstep
  cases cache_step_inv hstep with
  | @get key reading =>
    have hpossible : (Effect.take key (w.cache.get key reading).1).Possible
        w.cache.challengeMap := by
      cases hget : (w.cache.get key reading).1 with
      | none => trivial
      | some v => exact (LocalChallengeCache.get_eq_some_iff.mp hget).1
    rw [LocalChallengeCache.get_challengeMap]
    exact ih.effect rfl hpossible
  | @set key value =>
    rw [LocalChallengeCache.set_challengeMap]
    exact ih.effect (f := .put key value) rfl trivial
  | @timer t running cache ht hf =>
    obtain ⟨_, ht', _, _, hmap⟩ := LocalChallengeCache.fire_cases hf
    cases ht.symm.trans ht'
    rw [hmap]
    exact ih.effect (f := .lose running.key) rfl trivial
  | tick => exact ih.silent rfl

end Local

namespace SharedCache
variable {Req I U K B S : Type}

/-- An `authenticate` call of some process. The cache takes note of a `get` or `set` at some moment
before its promise resolves. -/
inductive Call (I U K B : Type)
  | suspended (handler : Handler I U K B)
  | getting (message : ClientResponse I B) (user : UserKeyRecord U K)
  | got (message : ClientResponse I B) (user : UserKeyRecord U K)
      (challenge : Option (CachedChallenge I B))
  | setting (key : I) (value : CachedChallenge I B) (challenge : ServerChallenge B)
  | stored (challenge : ServerChallenge B)
  | settled (verdict : Verdict U K B)
  | rejected (thrown : Thrown)

/-- The processes have the same options and one clock; what they share is the `store`. -/
structure State (I U K B : Type) where
  now : ℕ
  store : I → Option (CachedChallenge I B)
  calls : ℕ → Option (Call I U K B)

/-- `resume id i atOnce miss`: a segment of call `id` runs; should it ask the cache, that answers at
once or gives a promise. `serve id miss`: the cache takes note of what call `id` has asked. A `get`
may always `miss`. `lose`: a challenge expires or is evicted. -/
inductive Move (Req I K S : Type)
  | authenticate (id : ℕ) (req : Req)
  | resume (id : ℕ) (inputs : Inputs K S) (atOnce miss : Bool)
  | threw (id : ℕ) (thrown : Thrown)
  | serve (id : ℕ) (miss : Bool)
  | resolve (id : ℕ)
  | lose (key : I)
  | tick (ms : ℕ)

/-- `segment`: a call has gone on from `before` to `after`, with this effect on the cache. -/
inductive Event (Req I U K B : Type)
  | authenticate (id now : ℕ) (req : Req)
  | segment (id : ℕ) (before after : Call I U K B)
      (effect : Option (Effect I (CachedChallenge I B)))
  | lose (key : I)
  | tick (ms : ℕ)

def Event.effect : Event Req I U K B → Option (Effect I (CachedChallenge I B))
  | .segment _ _ _ effect => effect
  | .lose key => some (.lose key)
  | _ => none

/-- What call `id` has done to the cache, in order. -/
def effectsOf (id : ℕ) (h : List (Event Req I U K B)) : List (Effect I (CachedChallenge I B)) :=
  h.filterMap fun e =>
    match e with
    | .segment id' _ _ effect => if id' = id then effect else none
    | _ => none

/-- The request `req` started call `id` when the clock read `now`. -/
def Received (h : List (Event Req I U K B)) (id now : ℕ) (req : Req) : Prop :=
  .authenticate id now req ∈ h

/-- What `get` finds. -/
def look (store : I → Option (CachedChallenge I B)) (key : I) (miss : Bool) :
    Option (CachedChallenge I B) :=
  if miss then none else store key

theorem look_possible {store : I → Option (CachedChallenge I B)} {key : I} {miss : Bool} :
    (Effect.take key (look store key miss)).Possible store := by
  unfold look
  split
  · trivial
  · cases hv : store key with
    | none => trivial
    | some v => exact hv

variable [DecidableEq I] [DecidableEq B]

/-- Run the end of a segment against the cache. -/
def perform (store : I → Option (CachedChallenge I B)) (atOnce miss : Bool) :
    Action I U K B → Call I U K B × Option (Effect I (CachedChallenge I B))
  | .suspend handler => (.suspended handler, none)
  | .verdict v => (.settled v, none)
  | .reject e => (.rejected e, none)
  | .cacheGet message user =>
    if atOnce then
      let challenge := look store message.userId miss
      (.settled (afterGet message user challenge), some (.take message.userId challenge))
    else (.getting message user, none)
  | .cacheSet key value challenge =>
    if atOnce then (.settled (afterSet challenge), some (.put key value))
    else (.setting key value challenge, none)

/-- A call has taken a segment, with this effect on the cache. -/
def State.after (w : State I U K B) (id : ℕ)
    (p : Call I U K B × Option (Effect I (CachedChallenge I B))) : State I U K B :=
  { w with
    store := p.2.elim w.store (Effect.apply w.store)
    calls := Function.update w.calls id (some p.1) }

/-- What comes of a segment. -/
def State.gone (w : State I U K B) (id : ℕ) (before : Call I U K B)
    (p : Call I U K B × Option (Effect I (CachedChallenge I B))) :
    State I U K B × Event Req I U K B := (w.after id p, .segment id before p.1 p.2)

def step (s : MutualKeyChallengeStrategy Req I U K B S) (w : State I U K B) :
    Move Req I K S → Option (State I U K B × Event Req I U K B)
  | .authenticate id req =>
    match w.calls id with
    | some _ => none
    | none =>
      -- the first segment does not ask the cache
      let p := perform w.store false false (s.authenticate req w.now)
      some ({ w with calls := Function.update w.calls id (some p.1) }, .authenticate id w.now req)
  | .resume id inputs atOnce miss =>
    match w.calls id with
    | some (.suspended handler) =>
      some (w.gone id (.suspended handler)
        (perform w.store atOnce miss (s.resume inputs handler)))
    | _ => none
  | .threw id thrown =>
    match w.calls id with
    | some (.suspended handler) =>
      if AnyCache.asksApplication handler then
        some (w.gone id (.suspended handler) (.rejected thrown, none))
      else none
    | _ => none
  | .serve id miss =>
    match w.calls id with
    | some (.getting message user) =>
      let challenge := look w.store message.userId miss
      some (w.gone id (.getting message user)
        (.got message user challenge, some (.take message.userId challenge)))
    | some (.setting key value challenge) =>
      some (w.gone id (.setting key value challenge) (.stored challenge, some (.put key value)))
    | _ => none
  | .resolve id =>
    match w.calls id with
    | some (.got message user challenge) =>
      some (w.gone id (.got message user challenge)
        (.settled (afterGet message user challenge), none))
    | some (.stored challenge) =>
      some (w.gone id (.stored challenge) (.settled (afterSet challenge), none))
    | _ => none
  | .lose key => some ({ w with store := Function.update w.store key none }, .lose key)
  | .tick ms => some ({ w with now := w.now + ms }, .tick ms)

/-- Any number of interleaved calls, of any processes, from none. -/
def machine (s : MutualKeyChallengeStrategy Req I U K B S) :
    Machine (State I U K B) (Move Req I K S) (Event Req I U K B) where
  init := { now := 0, store := fun _ => none, calls := fun _ => none }
  step := step s

/-! What one step can do. -/

variable {s : MutualKeyChallengeStrategy Req I U K B S} {w w' : State I U K B}
  {e : Event Req I U K B} {h : List (Event Req I U K B)} {store : I → Option (CachedChallenge I B)}

/-- A call goes from where it waits to its next stop, with this effect on the cache. -/
inductive Segment (s : MutualKeyChallengeStrategy Req I U K B S)
    (store : I → Option (CachedChallenge I B)) :
    Call I U K B → Call I U K B × Option (Effect I (CachedChallenge I B)) → Prop
  | resume {handler inputs atOnce miss} :
      Segment s store (.suspended handler) (perform store atOnce miss (s.resume inputs handler))
  | threw {handler thrown} : Segment s store (.suspended handler) (.rejected thrown, none)
  | get {message user miss} :
      Segment s store (.getting message user)
        (.got message user (look store message.userId miss),
          some (.take message.userId (look store message.userId miss)))
  | set {key value challenge} :
      Segment s store (.setting key value challenge) (.stored challenge, some (.put key value))
  | got {message user challenge} :
      Segment s store (.got message user challenge)
        (.settled (afterGet message user challenge), none)
  | stored {challenge} :
      Segment s store (.stored challenge) (.settled (afterSet challenge), none)

/-- The steps by the event they record. -/
inductive Step (s : MutualKeyChallengeStrategy Req I U K B S) (w : State I U K B) :
    Event Req I U K B → State I U K B → Prop
  | authenticate {id req} (hfree : w.calls id = none) :
      Step s w (.authenticate id w.now req)
        { w with
          calls := Function.update w.calls id
            (some (perform w.store false false (s.authenticate req w.now)).1) }
  | segment {id before p} (hcall : w.calls id = some before) (hs : Segment s w.store before p) :
      Step s w (.segment id before p.1 p.2) (w.after id p)
  | lose {key} : Step s w (.lose key) { w with store := Function.update w.store key none }
  | tick {ms} : Step s w (.tick ms) { w with now := w.now + ms }

theorem step_inv (h : (machine s).Step w e w') : Step s w e w' := by
  obtain ⟨move, h⟩ := h
  simp only [machine] at h
  cases move with
  | authenticate id req =>
    simp only [step] at h
    split at h
    · cases h
    · rename_i hfree
      cases h
      exact .authenticate hfree
  | resume id inputs atOnce miss =>
    simp only [step] at h
    split at h
    · rename_i handler hcall
      cases h
      exact .segment hcall .resume
    · cases h
  | threw id thrown =>
    simp only [step] at h
    split at h
    · rename_i handler hcall
      split at h
      · cases h
        exact .segment hcall .threw
      · cases h
    · cases h
  | serve id miss =>
    simp only [step] at h
    split at h
    · rename_i message user hcall
      cases h
      exact .segment hcall .get
    · rename_i key value challenge hcall
      cases h
      exact .segment hcall .set
    · cases h
  | resolve id =>
    simp only [step] at h
    split at h
    · rename_i message user challenge hcall
      cases h
      exact .segment hcall .got
    · rename_i challenge hcall
      cases h
      exact .segment hcall .stored
    · cases h
  | lose key =>
    cases h
    exact .lose
  | tick ms =>
    cases h
    exact .tick

/-! The cache gives out each challenge once. -/

omit [DecidableEq I] in
theorem perform_possible {atOnce miss : Bool} {action : Action I U K B}
    {f : Effect I (CachedChallenge I B)} (hf : (perform store atOnce miss action).2 = some f) :
    f.Possible store := by
  cases action with
  | suspend | verdict | reject => cases hf
  | cacheGet message user =>
    simp only [perform] at hf
    split at hf
    · cases hf
      exact look_possible
    · cases hf
  | cacheSet key value challenge =>
    simp only [perform] at hf
    split at hf
    · cases hf
      trivial
    · cases hf

omit [DecidableEq I] in
theorem segment_possible {before : Call I U K B}
    {p : Call I U K B × Option (Effect I (CachedChallenge I B))}
    {f : Effect I (CachedChallenge I B)}
    (hs : Segment s store before p) (hf : p.2 = some f) : f.Possible store := by
  cases hs with
  | resume => exact perform_possible hf
  | get =>
    cases hf
    exact look_possible
  | set =>
    cases hf
    trivial
  | threw | got | stored => cases hf

theorem store_explained (hx : (machine s).Execution h w) :
    Explains Event.effect h w.store := by
  apply Machine.Execution.invariant (P := fun h (w : State I U K B) =>
    Explains Event.effect h w.store) .empty ?_ hx
  intro h w e w' _ ih hstep
  cases step_inv hstep with
  | authenticate | tick => exact ih.silent rfl
  | lose => exact ih.effect (f := .lose _) rfl trivial
  | @segment id before p hcall hs =>
    obtain ⟨call, effect⟩ := p
    cases effect with
    | none => exact ih.silent rfl
    | some f => exact ih.effect (f := f) rfl (segment_possible hs rfl)

/-! What each call has done to the cache. -/

/-- The call of a request, after these effects. -/
inductive Stage (s : MutualKeyChallengeStrategy Req I U K B S) (req : Req) (now : ℕ) :
    Call I U K B → List (Effect I (CachedChallenge I B)) → Prop
  | suspended {handler} (hf : s.Follows req now handler) (hs : AnyCache.Signs s handler) :
      Stage s req now (.suspended handler) []
  | getting {m r} (hr : s.Responds req now m r)
      (hv : s.verifier.verify r.publicKey m.clientResponsed = true) :
      Stage s req now (.getting m r) []
  | got {m r c} (hr : s.Responds req now m r)
      (hv : s.verifier.verify r.publicKey m.clientResponsed = true) :
      Stage s req now (.got m r c) [.take m.userId c]
  | setting {m M challenge} (hi : AnyCache.Issues s req now m M challenge) :
      Stage s req now (.setting m.userId ⟨m.userId, M, m.requestDateTime⟩ challenge) []
  | stored {m M challenge} (hi : AnyCache.Issues s req now m M challenge) :
      Stage s req now (.stored challenge) [.put m.userId ⟨m.userId, M, m.requestDateTime⟩]
  | error {error} : Stage s req now (.settled (.error error)) []
  | answered {m r c} (hr : s.Responds req now m r)
      (hv : s.verifier.verify r.publicKey m.clientResponsed = true) :
      Stage s req now (.settled (afterGet m r c)) [.take m.userId c]
  | issued {m M challenge} (hi : AnyCache.Issues s req now m M challenge) :
      Stage s req now (.settled (afterSet challenge))
        [.put m.userId ⟨m.userId, M, m.requestDateTime⟩]
  | rejected {thrown} : Stage s req now (.rejected thrown) []

omit [DecidableEq I] [DecidableEq B] in
theorem authenticate_signs {req : Req} {now : ℕ} {handler : Handler I U K B}
    (ha : s.authenticate req now = .suspend handler) : AnyCache.Signs s handler := by
  unfold authenticate at ha
  split at ha <;> cases ha <;> trivial

omit [DecidableEq I] in
theorem authenticate_stage {req : Req} {now : ℕ} :
    Stage s req now (perform store false false (s.authenticate req now)).1 [] := by
  obtain ⟨handler, ha⟩ | ⟨error, ha⟩ | ⟨e, ha⟩ := authenticate_cases (s := s) req now
  · rw [ha]
    exact .suspended (authenticate_follows ha) (authenticate_signs ha)
  · rw [ha]
    exact .error
  · rw [ha]
    exact .rejected

omit [DecidableEq I] in
theorem segment_stage {req : Req} {now : ℕ} {before : Call I U K B}
    {p : Call I U K B × Option (Effect I (CachedChallenge I B))}
    {done : List (Effect I (CachedChallenge I B))} (hstage : Stage s req now before done)
    (hs : Segment s store before p) : Stage s req now p.1 (done ++ p.2.toList) := by
  cases hs with
  | @resume handler inputs atOnce miss =>
    cases hstage with
    | suspended hf hsigns =>
      generalize ha : s.resume inputs handler = action
      cases action with
      | suspend handler' =>
        exact .suspended (resume_follows hf ha) (AnyCache.resume_signs hsigns ha)
      | verdict v =>
        obtain ⟨error, rfl⟩ := resume_verdict ha
        exact .error
      | reject e => exact .rejected
      | cacheGet m r =>
        obtain rfl := resume_cacheGet ha
        cases atOnce with
        | true => exact .answered hf.1 hf.2.symm
        | false => exact .getting hf.1 hf.2.symm
      | cacheSet key value challenge =>
        obtain ⟨m, M, hi, rfl, rfl⟩ := AnyCache.resume_issues hf hsigns ha
        cases atOnce with
        | true => exact .issued hi
        | false => exact .setting hi
  | threw =>
    cases hstage with
    | suspended => exact .rejected
  | get =>
    cases hstage with
    | getting hr hv => exact .got hr hv
  | set =>
    cases hstage with
    | setting hi => exact .stored hi
  | got =>
    cases hstage with
    | got hr hv => exact .answered hr hv
  | stored =>
    cases hstage with
    | stored hi => exact .issued hi

/-- What the history says about call `id`, against where the call is. -/
inductive CallOk (s : MutualKeyChallengeStrategy Req I U K B S) (h : List (Event Req I U K B))
    (id : ℕ) : Option (Call I U K B) → Prop
  | unknown (hreq : ∀ now req, ¬ Received h id now req) (hdone : effectsOf id h = []) :
      CallOk s h id none
  | known {now req call} (hreq : ∀ now' req', Received h id now' req' ↔ now' = now ∧ req' = req)
      (hstage : Stage s req now call (effectsOf id h)) : CallOk s h id (some call)

omit [DecidableEq I] [DecidableEq B] in
theorem effectsOf_concat {id : ℕ} : effectsOf id (h ++ [e]) = effectsOf id h ++ effectsOf id [e] :=
  List.filterMap_append

omit [DecidableEq I] [DecidableEq B] in
theorem received_concat {id now : ℕ} {req : Req} : Received (h ++ [e]) id now req ↔
    Received h id now req ∨ e = .authenticate id now req := by
  simp only [Received, List.mem_append, List.mem_singleton, eq_comm]

omit [DecidableEq I] in
/-- An event of another call, or of none, changes nothing about this one. -/
theorem CallOk.other {id : ℕ} {call : Option (Call I U K B)} (hok : CallOk s h id call)
    (hdone : effectsOf id [e] = []) (hstart : ∀ now req, e ≠ .authenticate id now req) :
    CallOk s (h ++ [e]) id call := by
  have hsame : effectsOf id (h ++ [e]) = effectsOf id h := by
    rw [effectsOf_concat, hdone, List.append_nil]
  have hreceived : ∀ now req, Received (h ++ [e]) id now req ↔ Received h id now req := by
    intro now req
    rw [received_concat]
    exact or_iff_left (hstart now req)
  cases hok with
  | unknown hreq hnone =>
    exact .unknown (fun now req => mt (hreceived now req).mp (hreq now req)) (hsame.trans hnone)
  | known hreq hstage =>
    exact .known (fun now req => (hreceived now req).trans (hreq now req)) (hsame ▸ hstage)

theorem callOk_step (hs : Step s w e w') (hok : ∀ id, CallOk s h id (w.calls id)) :
    ∀ id, CallOk s (h ++ [e]) id (w'.calls id) := by
  intro id
  cases hs with
  | @authenticate id' req hfree =>
    by_cases hid : id = id'
    · subst hid
      have hold := hok id
      rw [hfree] at hold
      cases hold with
      | unknown hreq hdone =>
        have hnew : ∀ now' req', Received (h ++ [.authenticate id w.now req]) id now' req' ↔
            now' = w.now ∧ req' = req := by
          intro now' req'
          rw [received_concat, or_iff_right (hreq now' req')]
          simp [eq_comm]
        simp only [Function.update_self]
        refine .known hnew ?_
        rw [effectsOf_concat, hdone]
        exact authenticate_stage
    · simp only [Function.update_of_ne hid]
      refine (hok id).other rfl ?_
      intro now req' he
      cases he
      exact hid rfl
  | @segment id' before p hcall hseg =>
    by_cases hid : id = id'
    · subst hid
      have hold := hok id
      rw [hcall] at hold
      cases hold with
      | known hreq hstage =>
        have hsame : ∀ now' req', Received (h ++ [.segment id before p.1 p.2]) id now' req' ↔
            Received h id now' req' := by
          intro now' req'
          rw [received_concat]
          exact or_iff_left (by simp)
        have hdone : effectsOf id [(.segment id before p.1 p.2 : Event Req I U K B)] =
            p.2.toList := by
          cases hp : p.2 <;> simp [effectsOf]
        simp only [State.after, Function.update_self]
        refine .known (fun now' req' => (hsame now' req').trans (hreq now' req')) ?_
        rw [effectsOf_concat, hdone]
        exact segment_stage hstage hseg
    · simp only [State.after, Function.update_of_ne hid]
      exact (hok id).other (by simp [effectsOf, Ne.symm hid]) (by simp)
  | lose | tick => exact (hok id).other rfl (by simp)

theorem calls_ok (hx : (machine s).Execution h w) : ∀ id, CallOk s h id (w.calls id) := by
  apply Machine.Execution.invariant (P := fun h (w : State I U K B) =>
    ∀ id, CallOk s h id (w.calls id)) ?_ ?_ hx
  · intro id
    exact .unknown (fun _ _ hr => by cases hr) rfl
  · intro h w e w' _ hok hstep
    exact callOk_step (step_inv hstep) hok

/-! Logins and challenges. -/

/-- In event `i`, call `id` had this effect on the cache. -/
def ActedAt (h : List (Event Req I U K B)) (i id : ℕ)
    (f : Effect I (CachedChallenge I B)) : Prop :=
  ∃ before after, h[i]? = some (.segment id before after (some f))

/-- In event `d`, `getNonce` gave this nonce to call `id`. -/
def DrewAt (h : List (Event Req I U K B)) (d id : ℕ) (nonce : B) : Prop :=
  ∃ m user dm, h[d]? = some (.segment id (.suspended (.challengeSigned m user dm))
    (.suspended (.challengeEncrypt m user dm nonce)) none)

/-- The nonce that a call has drawn and not yet stored. -/
def Call.drawn : Call I U K B → Option B
  | .suspended (.challengeEncrypt _ _ _ nonce) => some nonce
  | .suspended (.challengeEncrypted _ _ _ nonce _) => some nonce
  | .setting _ value _ => some value.clientChallenged
  | _ => none

section Facts
omit [DecidableEq I] [DecidableEq B]

/-- The only effect of a call stands in one place. -/
theorem effect_unique {id i j : ℕ} {f g g' : Effect I (CachedChallenge I B)}
    (hone : effectsOf id h = [f]) (hi : ActedAt h i id g) (hj : ActedAt h j id g') : i = j := by
  obtain ⟨_, _, hi⟩ := hi
  obtain ⟨_, _, hj⟩ := hj
  exact filterMap_index_unique hone hi hj (by simp) (by simp)

theorem mem_effectsOf {id i : ℕ} {f : Effect I (CachedChallenge I B)} (hi : ActedAt h i id f) :
    f ∈ effectsOf id h := by
  obtain ⟨_, _, hi⟩ := hi
  exact List.mem_filterMap.mpr ⟨_, List.mem_of_getElem? hi, by simp⟩

theorem actedAt_of_mem {id : ℕ} {f : Effect I (CachedChallenge I B)}
    (hmem : f ∈ effectsOf id h) : ∃ i, ActedAt h i id f := by
  obtain ⟨e, he, hf⟩ := List.mem_filterMap.mp hmem
  obtain ⟨i, hi⟩ := List.mem_iff_getElem?.mp he
  cases e with
  | segment id' before after effect =>
    simp only at hf
    split at hf
    · rename_i hid
      rw [hid, hf] at hi
      exact ⟨i, before, after, hi⟩
    · cases hf
  | authenticate | lose | tick => cases hf

theorem DrewAt.concat {id d : ℕ} {nonce : B} (hd : DrewAt h d id nonce) :
    DrewAt (h ++ [e]) d id nonce := by
  obtain ⟨m, user, dm, hd⟩ := hd
  exact ⟨m, user, dm, getElem?_concat_of_some hd⟩

end Facts

omit [DecidableEq I] in
/-- A call that holds a nonce has held it before or draws it now. -/
theorem segment_drawn {before : Call I U K B}
    {p : Call I U K B × Option (Effect I (CachedChallenge I B))} {nonce : B}
    (hs : Segment s store before p) (hp : p.1.drawn = some nonce) :
    before.drawn = some nonce ∨ ∃ m user dm, before = .suspended (.challengeSigned m user dm) ∧
      p = (.suspended (.challengeEncrypt m user dm nonce), none) := by
  cases hs with
  | @resume handler inputs atOnce miss =>
    generalize ha : s.resume inputs handler = action at hp ⊢
    cases action with
    | suspend handler' =>
      cases handler with
      | challengeSigned m user dm =>
        cases ha
        cases hp
        exact Or.inr ⟨m, user, dm, rfl, rfl⟩
      | challengeEncrypt m user dm nonce' =>
        simp only [resume] at ha
        split at ha <;> cases ha
        exact Or.inl hp
      | responseUser m user | challengeUser m user =>
        cases user <;> cases ha
        cases hp
      | responseVerify m user | challengeSign m user decrypted =>
        cases ha
        cases hp
      | responseVerified m user verified => cases verified <;> cases ha
      | challengeDecrypt m user =>
        simp only [resume] at ha
        split at ha <;> cases ha
        cases hp
      | challengeDecrypted m user decrypted =>
        cases decrypted <;> cases ha
        cases hp
      | challengeEncrypted m user dm nonce' nm => cases ha
    | verdict v | reject e => cases hp
    | cacheGet m user =>
      cases atOnce <;> cases hp
    | cacheSet key value challenge =>
      obtain ⟨m, user, dm, nonce', nm, rfl, rfl, rfl, rfl⟩ := resume_cacheSet ha
      cases atOnce with
      | true => cases hp
      | false =>
        cases hp
        exact Or.inl rfl
  | threw | get | set | got | stored => cases hp

omit [DecidableEq I] in
/-- What a call puts into the cache is the nonce that it holds. -/
theorem segment_put {before : Call I U K B}
    {p : Call I U K B × Option (Effect I (CachedChallenge I B))} {key : I}
    {value : CachedChallenge I B} (hs : Segment s store before p)
    (hp : p.2 = some (.put key value)) : before.drawn = some value.clientChallenged := by
  cases hs with
  | @resume handler inputs atOnce miss =>
    generalize ha : s.resume inputs handler = action at hp
    cases action with
    | suspend handler' | verdict v | reject e => cases hp
    | cacheGet m user => cases atOnce <;> cases hp
    | cacheSet key' value' challenge =>
      obtain ⟨m, user, dm, nonce, nm, rfl, rfl, rfl, rfl⟩ := resume_cacheSet ha
      cases atOnce <;> cases hp
      rfl
  | set =>
    cases hp
    rfl
  | threw | get | got | stored => cases hp

/-- The nonce that a call holds it has drawn itself. -/
theorem drawn_ok (hx : (machine s).Execution h w) : ∀ id call nonce,
    w.calls id = some call → call.drawn = some nonce → ∃ d, DrewAt h d id nonce := by
  apply Machine.Execution.invariant (P := fun h (w : State I U K B) => ∀ id call nonce,
    w.calls id = some call → call.drawn = some nonce → ∃ d, DrewAt h d id nonce) ?_ ?_ hx
  · intro id call nonce hcall
    cases hcall
  · intro h w e w' _ ih hstep id call nonce hcall hdrawn
    have hold : ∀ call, w.calls id = some call → call.drawn = some nonce →
        ∃ d, DrewAt (h ++ [e]) d id nonce := by
      intro call hcall hdrawn
      obtain ⟨d, hd⟩ := ih id call nonce hcall hdrawn
      exact ⟨d, hd.concat⟩
    cases step_inv hstep with
    | @authenticate id' req hfree =>
      by_cases hid : id = id'
      · subst hid
        simp only [Function.update_self, Option.some.injEq] at hcall
        subst hcall
        obtain ⟨handler, ha⟩ | ⟨error, ha⟩ | ⟨e, ha⟩ := authenticate_cases (s := s) req w.now
        · rw [ha] at hdrawn
          unfold authenticate at ha
          split at ha <;> cases ha <;> cases hdrawn
        · rw [ha] at hdrawn
          cases hdrawn
        · rw [ha] at hdrawn
          cases hdrawn
      · simp only [Function.update_of_ne hid] at hcall
        exact hold call hcall hdrawn
    | @segment id' before p hbefore hs =>
      by_cases hid : id = id'
      · subst hid
        simp only [State.after, Function.update_self, Option.some.injEq] at hcall
        subst hcall
        rcases segment_drawn hs hdrawn with hheld | ⟨m, user, dm, rfl, rfl⟩
        · exact hold before hbefore hheld
        · exact ⟨h.length, m, user, dm, List.getElem?_concat_length⟩
      · simp only [State.after, Function.update_of_ne hid] at hcall
        exact hold call hcall hdrawn
    | lose | tick => exact hold call hcall hdrawn

/-- A call draws what it puts into the cache, and before. -/
theorem put_drawn {issuer j : ℕ} {key : I} {value : CachedChallenge I B}
    (hx : (machine s).Execution h w) (hj : ActedAt h j issuer (.put key value)) :
    ∃ d < j, DrewAt h d issuer value.clientChallenged := by
  obtain ⟨before, after, hj⟩ := hj
  obtain ⟨u, v, hu, hstep, _⟩ := hx.origin hj
  generalize he : Event.segment issuer before after (some (.put key value)) = e at hstep
  cases step_inv hstep with
  | @segment id before' p hcall hs =>
    simp only [Event.segment.injEq] at he
    obtain ⟨rfl, rfl, -, hput⟩ := he
    obtain ⟨d, m, user, dm, hd⟩ := drawn_ok hu issuer before _ hcall (segment_put hs hput.symm)
    obtain ⟨hlt, hd⟩ := getElem?_take_of_some hd
    exact ⟨d, hlt, m, user, dm, hd⟩
  | authenticate | lose | tick => cases he

/-- What a call has put into the cache it issues, and it puts nothing else. -/
theorem put_issues {issuer j : ℕ} {key : I} {value : CachedChallenge I B}
    (hx : (machine s).Execution h w) (hj : ActedAt h j issuer (.put key value)) :
    effectsOf issuer h = [.put key value] ∧ ∃ now req m challenge, Received h issuer now req ∧
      AnyCache.Issues s req now m value.clientChallenged challenge ∧ key = m.userId ∧
      (w.calls issuer = some (.stored challenge) ∨
        w.calls issuer = some (.settled (.fail challenge 401))) := by
  have hmem := mem_effectsOf hj
  have hok := calls_ok hx issuer
  generalize w.calls issuer = call at hok
  cases hok with
  | unknown hreq hdone =>
    rw [hdone] at hmem
    cases hmem
  | @known now req call hreq hstage =>
    have hr : Received h issuer now req := (hreq now req).mpr ⟨rfl, rfl⟩
    generalize effectsOf issuer h = done at hstage hmem ⊢
    cases hstage with
    | suspended | getting | setting | error | rejected => cases hmem
    | got | answered => cases List.mem_singleton.mp hmem
    | stored hi =>
      cases List.mem_singleton.mp hmem
      exact ⟨rfl, now, req, _, _, hr, hi, rfl, Or.inl rfl⟩
    | issued hi =>
      cases List.mem_singleton.mp hmem
      exact ⟨rfl, now, req, _, _, hr, hi, rfl, Or.inr rfl⟩

/-- A call that succeeds has taken its user's challenge, and found the response's nonce in it. -/
theorem success_takes {id : ℕ} {user : U} {info : K} (hx : (machine s).Execution h w)
    (hsuccess : w.calls id = some (.settled (.success user info))) :
    ∃ now req m r, ∃ c : CachedChallenge I B, ∃ i : ℕ, Received h id now req ∧
      s.Responds req now m r ∧
      s.verifier.verify r.publicKey m.clientResponsed = true ∧ user = r.user ∧
      info = r.publicKey ∧ c.clientChallenged = m.clientResponsed.message ∧
      ActedAt h i id (.take m.userId (some c)) := by
  have hok := calls_ok hx id
  rw [hsuccess] at hok
  cases hok with
  | @known now req _ hreq hstage =>
    have hr : Received h id now req := (hreq now req).mpr ⟨rfl, rfl⟩
    generalize hdone : effectsOf id h = done at hstage
    generalize hv : Verdict.success user info = v at hstage
    cases hstage with
    | error | issued => cases hv
    | @answered m r c hresponds hverify =>
      unfold afterGet at hv
      split at hv
      · cases hv
      · rename_i c
        split at hv
        · rename_i hmessage
          cases hv
          have hmem : Effect.take m.userId (some c) ∈ effectsOf id h := by
            rw [hdone]
            exact List.mem_singleton.mpr rfl
          obtain ⟨i, hi⟩ := actedAt_of_mem hmem
          exact ⟨now, req, m, r, c, i, hr, hresponds, hverify, rfl, rfl, hmessage, hi⟩
        · cases hv

/-- In the events `d`, `j` and `i`, call `issuer` drew the nonce of this value and put it into the
cache, and call `id` took it out; nothing happened to the key's entry between `j` and `i`. -/
structure Uses (h : List (Event Req I U K B)) (id issuer : ℕ) (key : I)
    (value : CachedChallenge I B) (d j i : ℕ) : Prop where
  drew : DrewAt h d issuer value.clientChallenged
  order : d < j
  put : ActedAt h j issuer (.put key value)
  supplies : Supplies Event.effect h key value j i
  takes : ActedAt h i id (.take key (some value))

/-- No two calls use what one call has put. -/
theorem uses_injective {id id' issuer d j i d' j' i' : ℕ} {key key' : I}
    {value value' : CachedChallenge I B} (hx : (machine s).Execution h w)
    (hu : Uses h id issuer key value d j i) (hu' : Uses h id' issuer key' value' d' j' i') :
    id = id' := by
  obtain rfl := effect_unique (put_issues hx hu.put).1 hu.put hu'.put
  obtain ⟨_, _, hi⟩ := hu.takes
  obtain ⟨_, _, hi'⟩ := hu'.takes
  obtain rfl := hu.supplies.unique hu'.supplies hi rfl hi' rfl
  cases hi.symm.trans hi'
  rfl

/-- Call `id` has logged the user in by the challenge of call `issuer`. That was asked by a request
for the same user, which proved the user's key; it drew the nonce and stored it, and its answer
holds the nonce, encrypted and signed. Call `id` took it out of the cache, where its verified
response repeats it. -/
inductive LogsIn (s : MutualKeyChallengeStrategy Req I U K B S) (h : List (Event Req I U K B))
    (w : State I U K B) (id issuer : ℕ) : U → K → Prop
  | mk {now req m r now' req' m' challenge} {c : CachedChallenge I B} {d j i : ℕ}
      (hreceived : Received h id now req) (hresponds : s.Responds req now m r)
      (hverify : s.verifier.verify r.publicKey m.clientResponsed = true)
      (hrepeats : c.clientChallenged = m.clientResponsed.message)
      (huses : Uses h id issuer m.userId c d j i) (hasked : Received h issuer now' req')
      (huser : m'.userId = m.userId)
      (hissues : AnyCache.Issues s req' now' m' c.clientChallenged challenge)
      (hanswer : w.calls issuer = some (.stored challenge) ∨
        w.calls issuer = some (.settled (.fail challenge 401))) :
      LogsIn s h w id issuer r.user r.publicKey

/-- Each call that succeeds has a challenge of its own. -/
def OneLoginPerChallenge (s : MutualKeyChallengeStrategy Req I U K B S)
    (h : List (Event Req I U K B)) (w : State I U K B) : Prop :=
  ∃ issuer : ℕ → ℕ,
    Set.InjOn issuer {id | ∃ user info, w.calls id = some (.settled (.success user info))} ∧
    ∀ id user info, w.calls id = some (.settled (.success user info)) →
      LogsIn s h w id (issuer id) user info

theorem success_uses {id : ℕ} {user : U} {info : K} (hx : (machine s).Execution h w)
    (hsuccess : w.calls id = some (.settled (.success user info))) :
    ∃ issuer, (∃ key value d j i, Uses h id issuer key value d j i) ∧
      LogsIn s h w id issuer user info := by
  obtain ⟨now, req, m, r, c, i, hr, hresponds, hverify, rfl, rfl, hc, hi⟩ :=
    success_takes hx hsuccess
  have htakes := hi
  obtain ⟨_, _, hevent⟩ := htakes
  obtain ⟨j, hs⟩ := (store_explained hx).supplied i _ hevent rfl
  obtain ⟨e, hj, he⟩ := hs.put
  cases e with
  | segment issuer before after effect =>
    obtain rfl : effect = some (.put m.userId c) := he
    have hput : ActedAt h j issuer (.put m.userId c) := ⟨before, after, hj⟩
    obtain ⟨d, hlt, hd⟩ := put_drawn hx hput
    obtain ⟨_, now', req', m', challenge, hr', hissues, hkey, hanswer⟩ := put_issues hx hput
    have huses : Uses h _ issuer m.userId c d j i := ⟨hd, hlt, hput, hs, hi⟩
    exact ⟨issuer, ⟨m.userId, c, d, j, i, huses⟩,
      .mk hr hresponds hverify hc huses hr' hkey.symm hissues hanswer⟩
  | authenticate | lose | tick => cases he

/-- Whatever the processes do at the same time and whatever the cache loses. -/
theorem shared_one_login (hx : (machine s).Execution h w) : OneLoginPerChallenge s h w := by
  have huses : ∀ id, ∃ issuer, ∀ user info,
      w.calls id = some (.settled (.success user info)) →
      (∃ key value d j i, Uses h id issuer key value d j i) ∧ LogsIn s h w id issuer user info := by
    intro id
    by_cases hsuccess : ∃ user info, w.calls id = some (.settled (.success user info))
    · obtain ⟨user, info, hsuccess⟩ := hsuccess
      obtain ⟨issuer, hissuer⟩ := success_uses hx hsuccess
      refine ⟨issuer, ?_⟩
      intro user' info' hsuccess'
      cases hsuccess.symm.trans hsuccess'
      exact hissuer
    · exact ⟨0, fun user info hcall => (hsuccess ⟨user, info, hcall⟩).elim⟩
  choose issuer hissuer using huses
  refine ⟨issuer, ?_, fun id user info hsuccess => (hissuer id user info hsuccess).2⟩
  rintro id ⟨user, info, hsuccess⟩ id' ⟨user', info', hsuccess'⟩ heq
  obtain ⟨⟨key, value, d, j, i, hu⟩, _⟩ := hissuer id user info hsuccess
  obtain ⟨⟨key', value', d', j', i', hu'⟩, _⟩ := hissuer id' user' info' hsuccess'
  rw [← heq] at hu'
  exact uses_injective hx hu hu'

/-! One process with the local cache. -/

def ofCall : MutualKeyChallenge.Call I U K B → Call I U K B
  | .suspended handler => .suspended handler
  | .settled v => .settled v
  | .rejected e => .rejected e

def ofServer (w : Server I U K B) : State I U K B where
  now := w.now
  store := w.cache.challengeMap
  calls := Option.map ofCall ∘ w.calls

variable {now ttlMs : ℕ} {cache cache' : LocalChallengeCache I B}
  {call : MutualKeyChallenge.Call I U K B}

/-- The local cache answers at once, and misses what has expired. -/
theorem perform_local {action : Action I U K B} (hp : action.perform now cache = (call, cache')) :
    ∃ miss f, perform cache.challengeMap true miss action = (ofCall call, f) ∧
      f.elim cache.challengeMap (Effect.apply cache.challengeMap) = cache'.challengeMap := by
  cases action with
  | suspend | verdict | reject =>
    cases hp
    exact ⟨false, none, rfl, rfl⟩
  | cacheGet m user =>
    cases hp
    cases hget : (cache.get m.userId now).1 with
    | none =>
      refine ⟨true, some (.take m.userId none), ?_, ?_⟩
      · simp [perform, look, ofCall]
      · exact LocalChallengeCache.get_challengeMap.symm
    | some c =>
      refine ⟨false, some (.take m.userId (some c)), ?_, ?_⟩
      · simp [perform, look, ofCall, (LocalChallengeCache.get_eq_some_iff.mp hget).1]
      · exact LocalChallengeCache.get_challengeMap.symm
  | cacheSet key value challenge =>
    cases hp
    exact ⟨false, some (.put key value), rfl, LocalChallengeCache.set_challengeMap.symm⟩

/-- An event of one process with the local cache, as one of several with a shared cache. -/
inductive Shows : ServerEvent Req I U K B S → Event Req I U K B → Prop
  | authenticate {id now req call} :
      Shows (.authenticate id now req call) (.authenticate id now req)
  | resume {id now handler inputs call effect} :
      Shows (.resume id now handler inputs call)
        (.segment id (.suspended handler) (ofCall call) effect)
  | timer {t running now} : Shows (.timer t running now) (.lose running.key)
  | tick {ms} : Shows (.tick ms) (.tick ms)

/-- A strategy with a `LocalChallengeCache` does nothing that several with a shared cache could
not do. -/
theorem server_shared {h : List (ServerEvent Req I U K B S)} {w : Server I U K B}
    (hx : (serverMachine s ttlMs).Execution h w) :
    ∃ h', List.Forall₂ Shows h h' ∧ (machine s).Execution h' (ofServer w) := by
  apply Machine.Execution.invariant (P := fun h (w : Server I U K B) =>
    ∃ h', List.Forall₂ Shows h h' ∧ (machine s).Execution h' (ofServer w)) ⟨[], .nil, .init⟩ ?_ hx
  rintro h w e w' - ⟨h', hshows, hx'⟩ hstep
  have snoc : ∀ e', Shows e e' → (machine s).Step (ofServer w) e' (ofServer w') →
      ∃ h', List.Forall₂ Shows (h ++ [e]) h' ∧ (machine s).Execution h' (ofServer w') := by
    intro e' he hstep'
    exact ⟨h' ++ [e'], List.rel_append hshows (.cons he .nil), hx'.snoc hstep'⟩
  cases server_step_inv hstep with
  | @authenticate id req call cache hfree hp =>
    refine snoc (.authenticate id w.now req) .authenticate ⟨.authenticate id req, ?_⟩
    obtain ⟨handler, ha⟩ | ⟨error, ha⟩ | ⟨e, ha⟩ := authenticate_cases (s := s) req w.now <;>
      rw [ha] at hp <;> cases hp <;>
      simp [machine, step, ofServer, hfree, ha, perform, ofCall, Function.comp_update]
  | @resume id inputs handler call cache hcall hp =>
    obtain ⟨miss, f, hperform, hstore⟩ := perform_local hp
    refine snoc (.segment id (.suspended handler) (ofCall call) f) .resume
      ⟨.resume id inputs true miss, ?_⟩
    simp [machine, step, ofServer, hcall, ofCall, hperform, State.gone, State.after, hstore,
      Function.comp_update]
  | @timer t running cache ht hf =>
    obtain ⟨_, ht', _, _, hmap⟩ := LocalChallengeCache.fire_cases hf
    cases ht.symm.trans ht'
    refine snoc (.lose running.key) .timer ⟨.lose running.key, ?_⟩
    simp [machine, step, ofServer, hmap]
  | @tick ms => exact snoc (.tick ms) .tick ⟨.tick ms, rfl⟩

/-- No challenge is good for two logins: not with a cache that any number of processes share, and
not with the local one. -/
theorem one_login_per_challenge (s : MutualKeyChallengeStrategy Req I U K B S) :
    (∀ h w, (machine s).Execution h w → OneLoginPerChallenge s h w) ∧
    ∀ ttlMs h w, (serverMachine s ttlMs).Execution h w → ∃ h', List.Forall₂ Shows h h' ∧
      (machine s).Execution h' (ofServer w) ∧ OneLoginPerChallenge s h' (ofServer w) := by
  refine ⟨fun h w => shared_one_login, ?_⟩
  intro ttlMs h w hx
  obtain ⟨h', hshows, hx'⟩ := server_shared hx
  exact ⟨h', hshows, hx', shared_one_login hx'⟩

/-- User 1 gets a challenge, and his response reaches two processes at the same time. -/
def race : List (Move (Extracted ℕ ℕ) ℕ ℕ ℕ) :=
  [.authenticate 0 (.clientChallenge ⟨1, ⟨5, 6⟩, 0⟩)] ++
    List.replicate 7 (.resume 0 ⟨0, 71, 0⟩ false false) ++ [.serve 0 false, .resolve 0] ++
    [.authenticate 1 (.clientResponse ⟨1, ⟨71, 72⟩⟩),
      .authenticate 2 (.clientResponse ⟨1, ⟨71, 72⟩⟩)] ++
    (List.replicate 3 [.resume 1 ⟨0, 0, 0⟩ false false, .resume 2 ⟨0, 0, 0⟩ false false]).flatten ++
    [.serve 2 false, .serve 1 false, .resolve 1, .resolve 2]

theorem one_login_per_challenge_race :
    ((machine openStrategy).final race).calls 2 = some (.settled (.success 1 1)) ∧
      ((machine openStrategy).final race).calls 1 = some (.settled (.error notInitiatedError)) ∧
      OneLoginPerChallenge openStrategy ((machine openStrategy).history race)
        ((machine openStrategy).final race) :=
  ⟨rfl, rfl, (one_login_per_challenge openStrategy).1 _ _
    ((machine openStrategy).final_execution race)⟩

end SharedCache
end MutualKeyChallenge
