import MutualKeyChallenge.Server.Pending

/-! The requests and timers of other users, and a run without them. -/
namespace MutualKeyChallenge
open Transition
variable {Req I U K B S : Type}

def Extracted.userId : Extracted I B → Option I
  | .clientChallenge m => some m.userId
  | .clientResponse m => some m.userId
  | .challengeError _ => none

def Handler.userId : Handler I U K B → I
  | .responseUser m _ => m.userId
  | .responseVerify m _ => m.userId
  | .responseVerified m _ _ => m.userId
  | .challengeUser m _ => m.userId
  | .challengeDecrypt m _ => m.userId
  | .challengeDecrypted m _ _ => m.userId
  | .challengeSign m _ _ => m.userId
  | .challengeSigned m _ _ => m.userId
  | .challengeEncrypt m _ _ _ => m.userId
  | .challengeEncrypted m _ _ _ _ => m.userId

namespace MutualKeyChallengeStrategy
variable (s : MutualKeyChallengeStrategy Req I U K B S) {req : Req} {now : ℕ}
  {handler : Handler I U K B} {i : Inputs K S}

/-- The user id that a request carries, if it can be extracted. -/
def carriedId (req : Req) (now : ℕ) : Option I :=
  match s.challengeOrResponseFunc req now with
  | .error _ => none
  | .ok x => x.userId

variable {s}

theorem carriedId_challenge {m : ClientChallenge I B}
    (h : s.challengeOrResponseFunc req now = .ok (.clientChallenge m)) :
    s.carriedId req now = some m.userId := by
  simp only [carriedId, h, Extracted.userId]

theorem carriedId_response {m : ClientResponse I B}
    (h : s.challengeOrResponseFunc req now = .ok (.clientResponse m)) :
    s.carriedId req now = some m.userId := by
  simp only [carriedId, h, Extracted.userId]

/-- A call works for the user whose id its request carries. -/
theorem follows_carriedId (hf : s.Follows req now handler) :
    s.carriedId req now = some handler.userId := by
  cases handler with
  | responseUser m user | responseVerify m user => exact carriedId_response hf.1
  | responseVerified m user verified => exact carriedId_response hf.1.1
  | challengeUser m user | challengeDecrypt m user => exact carriedId_challenge hf.1
  | challengeDecrypted m user d | challengeSign m user d | challengeSigned m user d =>
    exact carriedId_challenge hf.1.1
  | challengeEncrypt m user dm nonce | challengeEncrypted m user dm nonce nm =>
    exact carriedId_challenge hf.1.1

end MutualKeyChallengeStrategy

/-- The key under which the end of a segment reads or writes the cache. -/
def Action.key : Action I U K B → Option I
  | .cacheGet message _ => some message.userId
  | .cacheSet key _ _ => some key
  | _ => none

/-- The key under which the end of a segment stores a challenge. -/
def Action.stores : Action I U K B → Option I
  | .cacheSet key _ _ => some key
  | _ => none

/-- Whose event it is. Ticks and requests without a user id are nobody's. -/
def ServerEvent.user (s : MutualKeyChallengeStrategy Req I U K B S) :
    ServerEvent Req I U K B S → Option I
  | .authenticate _ now req _ => s.carriedId req now
  | .resume _ _ before _ _ => some before.userId
  | .timer _ running _ => some running.key
  | .tick _ => none

/-- A handler reads and writes the cache under its own user id only. -/
theorem resume_key {s : MutualKeyChallengeStrategy Req I U K B S} {i : Inputs K S}
    {handler : Handler I U K B} {key : I} (h : (s.resume i handler).key = some key) :
    key = handler.userId := by
  generalize ha : s.resume i handler = action at h
  cases action with
  | cacheGet m user =>
    obtain rfl := MutualKeyChallengeStrategy.resume_cacheGet ha
    exact (Option.some.inj h).symm
  | cacheSet k value challenge =>
    obtain ⟨m, user, dm, nonce, nm, rfl, rfl, _⟩ := MutualKeyChallengeStrategy.resume_cacheSet ha
    exact (Option.some.inj h).symm
  | suspend handler' | verdict v | reject e => cases h

/-- The segments that store a challenge are the last ones of challenge requests. -/
theorem resume_stores {s : MutualKeyChallengeStrategy Req I U K B S} {i : Inputs K S}
    {handler : Handler I U K B} {id now : ℕ} {call : Call I U K B} :
    (s.resume i handler).stores =
      (ServerEvent.resume id now handler i call : ServerEvent Req I U K B S).replaces := by
  cases handler with
  | challengeEncrypted m user dm nonce nm => rfl
  | responseVerify m user | challengeSign m user d | challengeSigned m user dm => rfl
  | responseUser m user | challengeUser m user => cases user <;> rfl
  | responseVerified m user verified => cases verified <;> rfl
  | challengeDecrypted m user decrypted => cases decrypted <;> rfl
  | challengeDecrypt m user | challengeEncrypt m user dm nonce =>
    simp only [MutualKeyChallengeStrategy.resume]
    split <;> rfl

/-! A history without the other users. -/

variable {s : MutualKeyChallengeStrategy Req I U K B S} {u : I}
  {h : List (ServerEvent Req I U K B S)} {e : ServerEvent Req I U K B S}

/-- The users whose challenges were stored, in this order; each `set` started one timer. -/
def storedIds (h : List (ServerEvent Req I U K B S)) : List I := h.filterMap ServerEvent.replaces

theorem storedIds_concat : storedIds (h ++ [e]) = storedIds h ++ e.replaces.toList := by
  simp only [storedIds, List.filterMap_append]
  cases he : e.replaces <;> simp [he]

/-- The request that started call `id` carries another user id than `u`. -/
def ForeignCall (s : MutualKeyChallengeStrategy Req I U K B S) (u : I)
    (h : List (ServerEvent Req I U K B S)) (id : ℕ) : Prop :=
  ∃ now req k, Received h id now req ∧ s.carriedId req now = some k ∧ k ≠ u

/-- Only the start of a call makes it one of another user. -/
theorem foreignCall_concat {id : ℕ} (he : ∀ now req call, e ≠ .authenticate id now req call) :
    ForeignCall s u (h ++ [e]) id ↔ ForeignCall s u h id := by
  have hreceived : ∀ now req, Received (h ++ [e]) id now req ↔ Received h id now req := by
    intro now req
    rw [received_concat]
    refine or_iff_left ?_
    rintro ⟨call, rfl⟩
    exact he now req call rfl
  simp only [ForeignCall, hreceived]

theorem foreignCall_started {id now : ℕ} {req : Req} {call : Call I U K B}
    (hfresh : ∀ now req, ¬ Received h id now req) :
    ForeignCall s u (h ++ [.authenticate id now req call]) id ↔
      ∃ k, s.carriedId req now = some k ∧ k ≠ u := by
  constructor
  · rintro ⟨now', req', k, hreceived, hk⟩
    rcases received_concat.mp hreceived with hold | ⟨call', he⟩
    · exact (hfresh now' req' hold).elim
    · cases he
      exact ⟨k, hk⟩
  · rintro ⟨k, hk⟩
    exact ⟨now, req, k, received_concat.mpr (Or.inr ⟨call, rfl⟩), hk⟩

variable [DecidableEq I]

/-- The event belongs to another user than `u`. -/
def ServerEvent.foreign (s : MutualKeyChallengeStrategy Req I U K B S) (u : I)
    (e : ServerEvent Req I U K B S) : Bool := (e.user s).any (· ≠ u)

theorem foreign_iff : e.foreign s u = true ↔ ∃ k, e.user s = some k ∧ k ≠ u := by
  simp [ServerEvent.foreign, Option.any_eq_true]

/-- The number that timer `t` has among the timers of `u`. -/
def timerRank (u : I) (stored : List I) (t : ℕ) : ℕ := (stored.take t).count u

/-- A timer is known by its number, so the timers of `u` are counted again. -/
def ServerEvent.renumber (u : I) (stored : List I) :
    ServerEvent Req I U K B S → ServerEvent Req I U K B S
  | .timer t running now => .timer (timerRank u stored t) running now
  | e => e

/-- The history without the requests and timers of other users than `u`. -/
def onlyUser (s : MutualKeyChallengeStrategy Req I U K B S) (u : I)
    (h : List (ServerEvent Req I U K B S)) : List (ServerEvent Req I U K B S) :=
  (h.filter fun e => !e.foreign s u).map (ServerEvent.renumber u (storedIds h))

section Rank
variable {l m : List I} {t t' : ℕ}

theorem timerRank_append (ht : t ≤ l.length) : timerRank u (l ++ m) t = timerRank u l t := by
  simp only [timerRank, List.take_append_of_le_length ht]

theorem timerRank_length : timerRank u l l.length = l.count u := by simp [timerRank]

/-- The timers of `u` keep their order. -/
theorem timerRank_lt (hu : l[t]? = some u) (hlt : t < t') : timerRank u l t < timerRank u l t' := by
  have hnext : timerRank u l (t + 1) = timerRank u l t + 1 := by
    rw [timerRank, List.take_add_one, hu, List.count_append]
    simp [timerRank]
  have hmono : timerRank u l (t + 1) ≤ timerRank u l t' := by
    exact (List.take_sublist_take_left hlt).count_le u
  omega

/-- Different timers of `u` have different numbers. -/
theorem timerRank_ne (ht : l[t]? = some u) (ht' : l[t']? = some u) (hne : t ≠ t') :
    timerRank u l t ≠ timerRank u l t' := by
  rcases Nat.lt_or_gt_of_ne hne with hlt | hlt
  · exact Nat.ne_of_lt (timerRank_lt ht hlt)
  · exact Nat.ne_of_gt (timerRank_lt ht' hlt)

end Rank

/-- One more event, unless it is another user's. -/
theorem onlyUser_concat
    (hnum : ∀ t running now, .timer t running now ∈ h → t < (storedIds h).length) :
    onlyUser s u (h ++ [e]) = onlyUser s u h ++
      if e.foreign s u then [] else [e.renumber u (storedIds h)] := by
  have hold : ∀ d ∈ h, d.renumber u (storedIds (h ++ [e])) = d.renumber u (storedIds h) := by
    intro d hd
    cases d with
    | timer t running now =>
      have hlt := hnum t running now hd
      simp only [ServerEvent.renumber, storedIds_concat, timerRank_append (Nat.le_of_lt hlt)]
    | authenticate | resume | tick => rfl
  have hnew : e.renumber u (storedIds (h ++ [e])) = e.renumber u (storedIds h) := by
    cases e with
    | timer t running now => simp [storedIds_concat, ServerEvent.replaces]
    | authenticate | resume | tick => rfl
  simp only [onlyUser, List.filter_append, List.map_append]
  congr 1
  · exact List.map_congr_left fun d hd => hold d (List.mem_of_mem_filter hd)
  · cases hf : e.foreign s u <;> simp [hf, hnew]

/-! The two caches. -/

/-- The cache `c'` is `c` without the challenges and timers of other users than `u`; `stored` says
for whom the timers of `c` were started. -/
structure SameCache (u : I) (stored : List I) (c c' : LocalChallengeCache I B) : Prop where
  ttlMs : c'.ttlMs = c.ttlMs
  entry : c'.challengeMap u = c.challengeMap u
  started : c.nextTimer = stored.length
  started' : c'.nextTimer = stored.count u
  keys : ∀ t running, c.timers t = some running → stored[t]? = some running.key
  timers : ∀ t running, c.timers t = some running → running.key = u →
    c'.timers (timerRank u stored t) = some running

namespace SameCache
variable {stored : List I} {c c' d d' : LocalChallengeCache I B} {key : I}
  {value : CachedChallenge I B} {now t : ℕ} {running : Timer I}

theorem get_own (h : SameCache u stored c c') :
    SameCache u stored (c.get u now).2 (c'.get u now).2 where
  ttlMs := by simp [h.ttlMs]
  entry := by simp [LocalChallengeCache.get_challengeMap_self]
  started := by simp [h.started]
  started' := by simp [h.started']
  keys := by simpa using h.keys
  timers := by simpa using h.timers

theorem get_other (h : SameCache u stored c c') (hk : u ≠ key) :
    SameCache u stored (c.get key now).2 c' where
  ttlMs := by simp [h.ttlMs]
  entry := by rw [h.entry, LocalChallengeCache.get_challengeMap_ne hk]
  started := by simp [h.started]
  started' := h.started'
  keys := by simpa using h.keys
  timers := by simpa using h.timers

/-- The timer that a `set` starts comes after all others. -/
theorem set_keys (h : SameCache u stored c c') :
    ∀ t running, (c.set key value now).timers t = some running →
      (stored ++ [key])[t]? = some running.key := by
  intro t running ht
  by_cases hid : t = c.nextTimer
  · subst hid
    rw [LocalChallengeCache.set_timers_self] at ht
    cases ht
    simp [h.started]
  · rw [LocalChallengeCache.set_timers_ne hid] at ht
    exact getElem?_concat_of_some (h.keys t running ht)

theorem set_own (h : SameCache u stored c c') :
    SameCache u (stored ++ [u]) (c.set u value now) (c'.set u value now) where
  ttlMs := h.ttlMs
  entry := by simp
  started := by simp [LocalChallengeCache.set_nextTimer, h.started]
  started' := by simp [LocalChallengeCache.set_nextTimer, h.started']
  keys := h.set_keys
  timers := by
    intro t running ht hu
    by_cases hid : t = c.nextTimer
    · subst hid
      have hrank : timerRank u (stored ++ [u]) c.nextTimer = c'.nextTimer := by
        rw [h.started, timerRank_append (Nat.le_refl _), timerRank_length, h.started']
      rw [LocalChallengeCache.set_timers_self] at ht
      rw [hrank, LocalChallengeCache.set_timers_self, h.ttlMs, ht]
    · rw [LocalChallengeCache.set_timers_ne hid] at ht
      have hkey := h.keys t running ht
      have hlt := (List.getElem?_eq_some_iff.mp hkey).1
      have hrank := timerRank_lt (hu ▸ hkey) hlt
      rw [timerRank_length, ← h.started'] at hrank
      rw [timerRank_append (Nat.le_of_lt hlt),
        LocalChallengeCache.set_timers_ne (Nat.ne_of_lt hrank)]
      exact h.timers t running ht hu

theorem set_other (h : SameCache u stored c c') (hk : u ≠ key) :
    SameCache u (stored ++ [key]) (c.set key value now) c' where
  ttlMs := h.ttlMs
  entry := by rw [h.entry, LocalChallengeCache.set_challengeMap_ne hk]
  started := by simp [LocalChallengeCache.set_nextTimer, h.started]
  started' := by simp [h.started', Ne.symm hk]
  keys := h.set_keys
  timers := by
    intro t running ht hu
    by_cases hid : t = c.nextTimer
    · subst hid
      rw [LocalChallengeCache.set_timers_self] at ht
      cases ht
      exact (hk hu.symm).elim
    · rw [LocalChallengeCache.set_timers_ne hid] at ht
      have hlt := (List.getElem?_eq_some_iff.mp (h.keys t running ht)).1
      rw [timerRank_append (Nat.le_of_lt hlt)]
      exact h.timers t running ht hu

theorem fire_own (h : SameCache u stored c c') (ht : c.timers t = some running)
    (hu : running.key = u) (hf : c.fire t now = some d)
    (hf' : c'.fire (timerRank u stored t) now = some d') : SameCache u stored d d' := by
  obtain ⟨_, hr, _, httl, hmap⟩ := LocalChallengeCache.fire_cases hf
  obtain ⟨_, hr', _, httl', hmap'⟩ := LocalChallengeCache.fire_cases hf'
  cases ht.symm.trans hr
  cases (h.timers t running ht hu).symm.trans hr'
  have hother : ∀ t' running', d.timers t' = some running' →
      t' ≠ t ∧ c.timers t' = some running' := by
    intro t' running' ht'
    refine ⟨?_, LocalChallengeCache.fire_timers hf ht'⟩
    rintro rfl
    rw [LocalChallengeCache.fire_timers_eq hf, Function.update_self] at ht'
    cases ht'
  exact
    { ttlMs := by rw [httl', httl, h.ttlMs]
      entry := by simp [hmap, hmap', hu]
      started := (LocalChallengeCache.fire_nextTimer hf).trans h.started
      started' := (LocalChallengeCache.fire_nextTimer hf').trans h.started'
      keys := fun t' running' ht' => h.keys t' running' (hother t' running' ht').2
      timers := by
        intro t' running' ht' hu'
        obtain ⟨hne, ht'⟩ := hother t' running' ht'
        have hrank : timerRank u stored t' ≠ timerRank u stored t :=
          timerRank_ne (hu' ▸ h.keys t' running' ht') (hu ▸ h.keys t running ht) hne
        rw [LocalChallengeCache.fire_timers_eq hf', Function.update_of_ne hrank]
        exact h.timers t' running' ht' hu' }

theorem fire_other (h : SameCache u stored c c') (ht : c.timers t = some running)
    (hu : running.key ≠ u) (hf : c.fire t now = some d) : SameCache u stored d c' := by
  obtain ⟨_, hr, _, httl, hmap⟩ := LocalChallengeCache.fire_cases hf
  cases ht.symm.trans hr
  exact
    { ttlMs := by rw [httl, h.ttlMs]
      entry := by rw [hmap, Function.update_of_ne (Ne.symm hu), h.entry]
      started := (LocalChallengeCache.fire_nextTimer hf).trans h.started
      started' := h.started'
      keys := fun t' running' ht' => h.keys t' running' (LocalChallengeCache.fire_timers hf ht')
      timers := fun t' running' ht' =>
        h.timers t' running' (LocalChallengeCache.fire_timers hf ht') }

/-- What is numbered stays numbered, and a timer that runs has its number. -/
theorem numbered (hsame : SameCache u (storedIds h) c c')
    (hnum : ∀ t running now, .timer t running now ∈ h → t < (storedIds h).length)
    (he : ∀ t running now, e = .timer t running now → c.timers t = some running) :
    ∀ t running now, .timer t running now ∈ h ++ [e] → t < (storedIds (h ++ [e])).length := by
  intro t running now ht
  rw [storedIds_concat, List.length_append]
  rcases List.mem_append.mp ht with ht | ht
  · exact Nat.lt_add_right _ (hnum t running now ht)
  · have hrunning := he t running now (List.mem_singleton.mp ht).symm
    exact Nat.lt_add_right _ (List.getElem?_eq_some_iff.mp (hsame.keys t running hrunning)).1

variable [DecidableEq B]

/-- A segment of a call of `u` ends alike on both caches. -/
theorem perform_own (h : SameCache u stored c c') (action : Action I U K B) (now : ℕ)
    (hkey : ∀ k, action.key = some k → k = u) :
    (action.perform now c').1 = (action.perform now c).1 ∧
      SameCache u (stored ++ action.stores.toList) (action.perform now c).2
        (action.perform now c').2 := by
  cases action with
  | suspend handler | verdict v | reject e =>
    refine ⟨rfl, ?_⟩
    simpa [Action.perform, Action.stores] using h
  | cacheGet m user =>
    obtain rfl := hkey m.userId rfl
    have hgot : (c'.get m.userId now).1 = (c.get m.userId now).1 :=
      LocalChallengeCache.get_congr h.entry h.ttlMs
    simp only [Action.perform, Action.stores, Option.toList_none, List.append_nil, hgot]
    exact ⟨trivial, h.get_own⟩
  | cacheSet key value challenge =>
    obtain rfl := hkey key rfl
    exact ⟨rfl, h.set_own⟩

/-- A segment of another user's call does nothing to what `u` has in the cache. -/
theorem perform_other (h : SameCache u stored c c') (action : Action I U K B) (now : ℕ)
    (hkey : ∀ k, action.key = some k → k ≠ u) :
    SameCache u (stored ++ action.stores.toList) (action.perform now c).2 c' := by
  cases action with
  | suspend handler | verdict v | reject e =>
    simpa [Action.perform, Action.stores] using h
  | cacheGet m user =>
    simp only [Action.perform, Action.stores, Option.toList_none, List.append_nil]
    exact h.get_other (Ne.symm (hkey m.userId rfl))
  | cacheSet key value challenge => exact h.set_other (Ne.symm (hkey key rfl))

end SameCache

/-! The two runs. -/

/-- `w'` is `w` without what other users than `u` have done. -/
structure SameFor (s : MutualKeyChallengeStrategy Req I U K B S) (u : I)
    (h : List (ServerEvent Req I U K B S)) (w w' : Server I U K B) : Prop where
  now : w'.now = w.now
  cache : SameCache u (storedIds h) w.cache w'.cache
  calls : ∀ id, ¬ ForeignCall s u h id → w'.calls id = w.calls id
  others : ∀ id, ForeignCall s u h id → w'.calls id = none
  numbered : ∀ t running now, .timer t running now ∈ h → t < (storedIds h).length

variable {ttlMs : ℕ} {w w' v v' : Server I U K B}

/-- Steps that start no call are of another user exactly for the calls that were before. -/
theorem SameFor.calls_of (hsame : SameFor s u h w w')
    (he : ∀ id now req call, e ≠ .authenticate id now req call) :
    (∀ id, ¬ ForeignCall s u (h ++ [e]) id → w'.calls id = w.calls id) ∧
      ∀ id, ForeignCall s u (h ++ [e]) id → w'.calls id = none := by
  constructor
  · intro id hown
    exact hsame.calls id (mt (foreignCall_concat (he id)).mpr hown)
  · intro id hforeign
    exact hsame.others id ((foreignCall_concat (he id)).mp hforeign)

variable [DecidableEq B]

/-- The first segment of a call does not look at the cache. -/
theorem authenticate_call {req : Req} {now : ℕ} (c c' : LocalChallengeCache I B) :
    (s.authenticate req now).perform now c' = (((s.authenticate req now).perform now c).1, c') := by
  obtain ⟨handler, ha⟩ | ⟨error, ha⟩ | ⟨e, ha⟩ :=
    MutualKeyChallengeStrategy.authenticate_cases (s := s) req now <;> rw [ha] <;> rfl

theorem sameFor_authenticate {id : ℕ} {req : Req} {call : Call I U K B}
    {cache : LocalChallengeCache I B} (hsame : SameFor s u h w w')
    (hfresh : ∀ now req, ¬ Received h id now req) (hfree : w.calls id = none)
    (hp : (s.authenticate req w.now).perform w.now w.cache = (call, cache)) :
    let e : ServerEvent Req I U K B S := .authenticate id w.now req call
    let v : Server I U K B := { w with cache, calls := Function.update w.calls id (some call) }
    e.foreign s u = true ∧ SameFor s u (h ++ [e]) v w' ∨
      e.foreign s u = false ∧ ∃ v', ServerStep s w' e v' ∧ SameFor s u (h ++ [e]) v v' := by
  intro e v
  have hstored : storedIds (h ++ [e]) = storedIds h := by
    simp [storedIds_concat, e, ServerEvent.replaces]
  have hnum := hsame.cache.numbered hsame.numbered (e := e) (by simp [e])
  have hother : ∀ id', id' ≠ id → ∀ now req call', e ≠ .authenticate id' now req call' := by
    intro id' hid now req call' he
    simp only [e, ServerEvent.authenticate.injEq] at he
    exact hid he.1.symm
  obtain rfl : cache = w.cache := authenticate_cache hp
  cases hf : e.foreign s u with
  | true =>
    refine Or.inl ⟨rfl, hsame.now, hstored ▸ hsame.cache, ?_, ?_, hnum⟩
    · intro id' hown
      by_cases hid : id' = id
      · subst hid
        exact (hown ((foreignCall_started hfresh).mpr (foreign_iff.mp hf))).elim
      · simp only [v, Function.update_of_ne hid]
        exact hsame.calls id' (mt (foreignCall_concat (hother id' hid)).mpr hown)
    · intro id' hforeign
      by_cases hid : id' = id
      · subst hid
        refine (hsame.calls id' ?_).trans hfree
        rintro ⟨now, req', k, hreceived, _⟩
        exact hfresh now req' hreceived
      · exact hsame.others id' ((foreignCall_concat (hother id' hid)).mp hforeign)
  | false =>
    have hfree' : w'.calls id = none := by
      refine (hsame.calls id ?_).trans hfree
      rintro ⟨now, req', k, hreceived, _⟩
      exact hfresh now req' hreceived
    have hp' : (s.authenticate req w'.now).perform w'.now w'.cache = (call, w'.cache) := by
      rw [hsame.now, authenticate_call w.cache, hp]
    have hstep : ServerStep s w' e
        { w' with calls := Function.update w'.calls id (some call) } := by
      simpa only [hsame.now] using ServerStep.authenticate hfree' hp'
    refine Or.inr ⟨rfl, _, hstep, hsame.now, hstored ▸ hsame.cache, ?_, ?_, hnum⟩
    · intro id' hown
      by_cases hid : id' = id
      · subst hid
        simp [v]
      · simp only [v, Function.update_of_ne hid]
        exact hsame.calls id' (mt (foreignCall_concat (hother id' hid)).mpr hown)
    · intro id' hforeign
      by_cases hid : id' = id
      · subst hid
        have hcarried : e.foreign s u = true :=
          foreign_iff.mpr ((foreignCall_started hfresh).mp hforeign)
        rw [hf] at hcarried
        cases hcarried
      · simp only [Function.update_of_ne hid]
        exact hsame.others id' ((foreignCall_concat (hother id' hid)).mp hforeign)

theorem sameFor_resume {id : ℕ} {inputs : Inputs K S} {handler : Handler I U K B}
    {call : Call I U K B} {cache : LocalChallengeCache I B} (hsame : SameFor s u h w w')
    (hok : CallOk s h id (w.calls id)) (hcall : w.calls id = some (.suspended handler))
    (hp : (s.resume inputs handler).perform w.now w.cache = (call, cache)) :
    let e : ServerEvent Req I U K B S := .resume id w.now handler inputs call
    let v : Server I U K B := { w with cache, calls := Function.update w.calls id (some call) }
    e.foreign s u = true ∧ SameFor s u (h ++ [e]) v w' ∨
      e.foreign s u = false ∧ ∃ v', ServerStep s w' e v' ∧ SameFor s u (h ++ [e]) v v' := by
  intro e v
  have hstored : storedIds (h ++ [e]) =
      storedIds h ++ (s.resume inputs handler).stores.toList := by
    rw [storedIds_concat, resume_stores]
  have hnum := hsame.cache.numbered hsame.numbered (e := e) (by simp [e])
  obtain ⟨hcalls, hothers⟩ := hsame.calls_of (e := e) (by simp [e])
  have hforeign : ForeignCall s u (h ++ [e]) id ↔ handler.userId ≠ u := by
    rw [foreignCall_concat (by simp [e])]
    rw [hcall] at hok
    cases hok with
    | known hreq hfollows =>
      have hcarried := MutualKeyChallengeStrategy.follows_carriedId hfollows
      constructor
      · rintro ⟨now', req', k, hreceived, hk, hne⟩
        obtain ⟨rfl, rfl⟩ := (hreq now' req').mp hreceived
        cases hcarried.symm.trans hk
        exact hne
      · intro hne
        exact ⟨_, _, _, (hreq _ _).mpr ⟨rfl, rfl⟩, hcarried, hne⟩
  by_cases hu : handler.userId = u
  · have hcall' : w'.calls id = some (.suspended handler) := by
      rw [hcalls id (by simp [hforeign, hu]), hcall]
    obtain ⟨hsegment, hcache⟩ := hsame.cache.perform_own (s.resume inputs handler) w.now
      (fun k hk => (resume_key hk).trans hu)
    rw [hp, ← hstored] at hcache
    rw [hp] at hsegment
    have hstep : ServerStep s w' e
        { w' with
          cache := ((s.resume inputs handler).perform w.now w'.cache).2
          calls := Function.update w'.calls id (some call) } := by
      have hp' : (s.resume inputs handler).perform w'.now w'.cache =
          (call, ((s.resume inputs handler).perform w.now w'.cache).2) := by
        rw [hsame.now]
        exact Prod.ext hsegment rfl
      simpa only [hsame.now] using ServerStep.resume hcall' hp'
    refine Or.inr ⟨by simp [ServerEvent.foreign, e, ServerEvent.user, hu], _, hstep, hsame.now,
      hcache, ?_, ?_, hnum⟩
    · intro id' hown
      by_cases hid : id' = id
      · subst hid
        simp [v]
      · simp only [v, Function.update_of_ne hid]
        exact hcalls id' hown
    · intro id' hother
      by_cases hid : id' = id
      · subst hid
        exact (hforeign.mp hother hu).elim
      · simp only [Function.update_of_ne hid]
        exact hothers id' hother
  · have hcache := hsame.cache.perform_other (s.resume inputs handler) w.now
      (fun k hk => fun hk' => hu ((resume_key hk).symm.trans hk'))
    rw [hp, ← hstored] at hcache
    refine Or.inl ⟨by simp [ServerEvent.foreign, e, ServerEvent.user, hu], hsame.now, hcache, ?_,
      hothers, hnum⟩
    intro id' hown
    have hid : id' ≠ id := by
      rintro rfl
      exact hown (hforeign.mpr hu)
    simp only [v, Function.update_of_ne hid]
    exact hcalls id' hown

theorem sameFor_timer {t : ℕ} {running : Timer I} {cache : LocalChallengeCache I B}
    (hsame : SameFor s u h w w') (ht : w.cache.timers t = some running)
    (hf : w.cache.fire t w.now = some cache) :
    let e : ServerEvent Req I U K B S := .timer t running w.now
    let v : Server I U K B := { w with cache }
    e.foreign s u = true ∧ SameFor s u (h ++ [e]) v w' ∨
      e.foreign s u = false ∧ ∃ v', ServerStep s w' (e.renumber u (storedIds h)) v' ∧
        SameFor s u (h ++ [e]) v v' := by
  intro e v
  have hstored : storedIds (h ++ [e]) = storedIds h := by
    simp [storedIds_concat, e, ServerEvent.replaces]
  have hnum := hsame.cache.numbered hsame.numbered (e := e) (by
    intro t' running' now he
    simp only [e, ServerEvent.timer.injEq] at he
    obtain ⟨rfl, rfl, _⟩ := he
    exact ht)
  obtain ⟨hcalls, hothers⟩ := hsame.calls_of (e := e) (by simp [e])
  by_cases hu : running.key = u
  · have ht' := hsame.cache.timers t running ht hu
    obtain ⟨_, hr, hdue, _⟩ := LocalChallengeCache.fire_cases hf
    cases ht.symm.trans hr
    obtain ⟨cache', hf'⟩ := LocalChallengeCache.fire_due ht' (hsame.now ▸ hdue)
    have hcache := hsame.cache.fire_own ht hu hf (hsame.now ▸ hf')
    have hstep : ServerStep s w' (e.renumber u (storedIds h)) { w' with cache := cache' } := by
      simpa only [hsame.now, e, ServerEvent.renumber] using ServerStep.timer ht' hf'
    exact Or.inr ⟨by simp [ServerEvent.foreign, e, ServerEvent.user, hu], _, hstep, hsame.now,
      hstored ▸ hcache, hcalls, hothers, hnum⟩
  · have hcache := hsame.cache.fire_other ht hu hf
    exact Or.inl ⟨by simp [ServerEvent.foreign, e, ServerEvent.user, hu], hsame.now,
      hstored ▸ hcache, hcalls, hothers, hnum⟩

/-- A step is either invisible to `u`, or the smaller run can take it too. -/
theorem sameFor_step (hx : (serverMachine s ttlMs).Execution h w) (hsame : SameFor s u h w w')
    (hs : ServerStep s w e v) :
    e.foreign s u = true ∧ SameFor s u (h ++ [e]) v w' ∨
      e.foreign s u = false ∧ ∃ v', ServerStep s w' (e.renumber u (storedIds h)) v' ∧
        SameFor s u (h ++ [e]) v v' := by
  have hok := calls_ok hx
  cases hs with
  | @authenticate id req call cache hfree hp =>
    have hid := hok id
    rw [hfree] at hid
    cases hid with
    | unknown hfresh => exact sameFor_authenticate hsame hfresh hfree hp
  | @resume id inputs handler call cache hcall hp => exact sameFor_resume hsame (hok id) hcall hp
  | @timer t running cache ht hf => exact sameFor_timer hsame ht hf
  | @tick ms =>
    have hstored : storedIds (h ++ [.tick ms]) = storedIds h := by
      simp [storedIds_concat, ServerEvent.replaces]
    obtain ⟨hcalls, hothers⟩ := hsame.calls_of (e := .tick ms) (by simp)
    have hnum := hsame.cache.numbered hsame.numbered (e := .tick ms) (by simp)
    exact Or.inr ⟨rfl, _, .tick, congrArg (· + ms) hsame.now, hstored ▸ hsame.cache, hcalls,
      hothers, hnum⟩

theorem sameFor_run (hx : (serverMachine s ttlMs).Execution h w) (u : I) :
    ∃ w', (serverMachine s ttlMs).Execution (onlyUser s u h) w' ∧ SameFor s u h w w' := by
  apply Machine.Execution.invariant (P := fun h (w : Server I U K B) =>
    ∃ w', (serverMachine s ttlMs).Execution (onlyUser s u h) w' ∧ SameFor s u h w w') ?_ ?_ hx
  · have hcache : SameCache u (storedIds ([] : List (ServerEvent Req I U K B S)))
        (.new ttlMs : LocalChallengeCache I B) (.new ttlMs) :=
      { ttlMs := rfl
        entry := rfl
        started := rfl
        started' := rfl
        keys := by intro t running ht; cases ht
        timers := by intro t running ht; cases ht }
    refine ⟨_, .init, rfl, hcache, fun _ _ => rfl, fun _ _ => rfl, ?_⟩
    intro t running now ht
    cases ht
  · rintro h w e v hx ⟨w', hx', hsame⟩ hstep
    rw [onlyUser_concat hsame.numbered]
    rcases sameFor_step hx hsame (server_step_inv hstep) with ⟨hf, hsame⟩ | ⟨hf, v', hs, hsame⟩
    · exact ⟨w', by simpa [hf] using hx', hsame⟩
    · exact ⟨v', by simpa [hf] using hx'.snoc hs.step, hsame⟩

/-- The recorded events determine the state. -/
theorem server_deterministic (hx : (serverMachine s ttlMs).Execution h w)
    (hx' : (serverMachine s ttlMs).Execution h w') : w' = w := by
  refine hx.unique ?_ hx'
  intro v e t t' hstep hstep'
  have hs' := server_step_inv hstep'
  cases server_step_inv hstep with
  | authenticate hfree hp =>
    cases hs' with
    | authenticate _ hp' =>
      cases hp.symm.trans hp'
      rfl
  | resume hcall hp =>
    cases hs' with
    | resume _ hp' =>
      cases hp.symm.trans hp'
      rfl
  | timer ht hf =>
    cases hs' with
    | timer _ hf' =>
      cases hf.symm.trans hf'
      rfl
  | tick =>
    cases hs'
    rfl

theorem onlyUser_take (hx : (serverMachine s ttlMs).Execution h w) (n : ℕ) :
    onlyUser s u (h.take n) <+: onlyUser s u h := by
  apply Machine.Execution.invariant (P := fun h (_ : Server I U K B) =>
    onlyUser s u (h.take n) <+: onlyUser s u h) (by simp) ?_ hx
  intro h w e v hx ih _
  obtain ⟨w', _, hsame⟩ := sameFor_run hx u
  by_cases hn : n ≤ h.length
  · rw [List.take_append_of_le_length hn, onlyUser_concat hsame.numbered]
    exact ih.trans (List.prefix_append _ _)
  · have hall : (h ++ [e]).length ≤ n := by
      simp only [List.length_append, List.length_singleton]
      omega
    have htake := congrArg (onlyUser s u) (List.take_of_length_le hall)
    exact htake ▸ List.prefix_rfl

/-- Every event of a call is of the user whose id its request carries. -/
theorem call_user (hx : (serverMachine s ttlMs).Execution h w) :
    ∀ e ∈ h, ∀ id, e.callId = some id →
      ∃ now req, Received h id now req ∧ e.user s = s.carriedId req now := by
  intro e he id hid
  cases e with
  | authenticate id' now req call =>
    cases hid
    exact ⟨now, req, ⟨call, he⟩, rfl⟩
  | resume id' now handler inputs call =>
    cases hid
    obtain ⟨arrived, req, hreceived, hfollows⟩ := resumed_follows hx he
    exact ⟨arrived, req, hreceived,
      (MutualKeyChallengeStrategy.follows_carriedId hfollows).symm⟩
  | timer | tick => cases hid

/-- The run without the requests and timers of other users than `u` gives the requests of `u` the
same verdicts, and after each step the cache holds the same challenge of `u`. -/
def NoInterference (s : MutualKeyChallengeStrategy Req I U K B S) (ttlMs : ℕ)
    (h : List (ServerEvent Req I U K B S)) (w : Server I U K B) (u : I) : Prop :=
  ∃ w', (serverMachine s ttlMs).Execution (onlyUser s u h) w' ∧
    (∀ id now req, Received h id now req → s.carriedId req now = some u →
      w'.calls id = w.calls id ∧ verdicts id (onlyUser s u h) = verdicts id h) ∧
    ∀ n, onlyUser s u (h.take n) <+: onlyUser s u h ∧
      ∀ v v', (serverMachine s ttlMs).Execution (h.take n) v →
        (serverMachine s ttlMs).Execution (onlyUser s u (h.take n)) v' →
        v'.cache.challengeMap u = v.cache.challengeMap u

theorem users_do_not_interfere (hx : (serverMachine s ttlMs).Execution h w) (u : I) :
    NoInterference s ttlMs h w u := by
  obtain ⟨w', hx', hsame⟩ := sameFor_run hx u
  refine ⟨w', hx', ?_, ?_⟩
  · intro id now req hreceived hcarried
    have hown : ¬ ForeignCall s u h id := by
      rintro ⟨now', req', k, hreceived', hk, hne⟩
      obtain ⟨rfl, rfl⟩ := received_unique hx hreceived hreceived'
      cases hcarried.symm.trans hk
      exact hne rfl
    have hcalls := hsame.calls id hown
    refine ⟨hcalls, ?_⟩
    have hok := calls_ok hx id
    have hok' := calls_ok hx' id
    rw [hcalls] at hok'
    generalize w.calls id = call at hok hok'
    cases hok with
    | unknown hreq => exact (hreq now req hreceived).elim
    | known _ _ hv =>
      cases hok' with
      | known _ _ hv' => exact hv'.trans hv.symm
  · intro n
    refine ⟨onlyUser_take hx n, ?_⟩
    intro v v' hv hv'
    obtain ⟨v'', hv'', hsame'⟩ := sameFor_run hv u
    obtain rfl := server_deterministic hv'' hv'
    exact hsame'.cache.entry

/-- Crypto without secrets, which signs by adding the key. -/
def openCrypto : NodeCrypto ℕ ℕ ℕ where
  randomBytes _ random := random
  publicEncrypt _ _ m := .ok m
  privateDecrypt _ c := .ok c
  sign _ m o := m + o.key
  verify _ m o signature := decide (signature = m + o.key)

/-- Requests arrive extracted, every user exists, and his key is his id; the server's is 0. -/
def openStrategy : MutualKeyChallengeStrategy (Extracted ℕ ℕ) ℕ ℕ ℕ ℕ ℕ where
  challengeOrResponseFunc req _ := .ok req
  userFunc _ userId := some ⟨userId, userId⟩
  verifier := ⟨openCrypto, .keyObject 0, ⟨4, 1, "sha256", 128⟩⟩

/-- Users 1 and 2 get challenges 71 and 72; user 2's expires, and user 1 answers his. -/
def twoHandshakes : List (ServerMove (Extracted ℕ ℕ) ℕ ℕ) :=
  [.authenticate 0 (.clientChallenge ⟨2, ⟨5, 7⟩, 0⟩)] ++
    List.replicate 7 (.resume 0 ⟨0, 72, 0⟩) ++
    [.tick 3, .authenticate 1 (.clientChallenge ⟨1, ⟨5, 6⟩, 3⟩)] ++
    List.replicate 7 (.resume 1 ⟨0, 71, 0⟩) ++
    [.tick 7, .timer 0, .authenticate 2 (.clientResponse ⟨1, ⟨71, 72⟩⟩)] ++
    List.replicate 3 (.resume 2 ⟨0, 0, 0⟩)

theorem users_do_not_interfere_handshakes :
    NoInterference openStrategy 10 ((serverMachine openStrategy 10).history twoHandshakes)
        ((serverMachine openStrategy 10).final twoHandshakes) 1 ∧
      verdicts 2 ((serverMachine openStrategy 10).history twoHandshakes) = [.success 1 1] :=
  ⟨users_do_not_interfere ((serverMachine openStrategy 10).final_execution twoHandshakes) 1, rfl⟩

end MutualKeyChallenge
