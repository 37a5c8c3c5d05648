import MutualKeyChallenge.Server.Attempts
import MutualKeyChallenge.Server.CacheBookkeeping
import MutualKeyChallenge.Server.Pending
import Mathlib.Data.Finset.Card
import Mathlib.Data.List.Induction

/-! How much the cache of a server can hold, whatever is sent to it. -/
namespace MutualKeyChallenge
open Transition
variable {Req I U K B S : Type}

/-- A challenge that was given out: by which call, when, and for whom. -/
structure Issue (I : Type) where
  call : ℕ
  now : ℕ
  key : I
  deriving DecidableEq, Repr

def ServerEvent.issue : ServerEvent Req I U K B S → Option (Issue I)
  | .resume id now (.challengeEncrypted m _ _ _ _) _ (.settled (.fail _ _)) =>
    some ⟨id, now, m.userId⟩
  | _ => none

/-- All challenges, in the order in which they were given out. -/
def issued (h : List (ServerEvent Req I U K B S)) : List (Issue I) :=
  h.filterMap ServerEvent.issue

/-- The challenges of the last `delay` milliseconds. -/
def recent (delay now : ℕ) (h : List (ServerEvent Req I U K B S)) : List (Issue I) :=
  (issued h).filter fun i => now ≤ i.now + delay

/-- As many indices as the list has elements of the kind. -/
theorem card_le_filter {α : Type} {p : α → Bool} (l : List α) (ids : Finset ℕ)
    (hids : ∀ t ∈ ids, ∃ a, l[t]? = some a ∧ p a = true) : ids.card ≤ (l.filter p).length := by
  induction l using List.reverseRecOn generalizing ids with
  | nil =>
    have hempty : ids = ∅ := by
      refine Finset.eq_empty_of_forall_notMem ?_
      intro t ht
      obtain ⟨a, ha, _⟩ := hids t ht
      cases ha
    simp [hempty]
  | append_singleton l b ih =>
    have hlower := ih (ids.erase l.length) (by
      intro t ht
      obtain ⟨hne, ht⟩ := Finset.mem_erase.mp ht
      obtain ⟨a, ha, hp⟩ := hids t ht
      rcases getElem?_concat_cases ha with ha | ⟨heq, _⟩
      · exact ⟨a, ha, hp⟩
      · exact (hne heq).elim)
    rw [List.filter_append, List.length_append]
    by_cases hlast : l.length ∈ ids
    · obtain ⟨a, ha, hp⟩ := hids _ hlast
      rw [List.getElem?_concat_length] at ha
      cases ha
      have hcard := Finset.card_erase_add_one hlast
      simp only [List.filter_cons, hp, List.filter_nil, if_true, List.length_singleton]
      omega
    · rw [Finset.erase_eq_of_notMem hlast] at hlower
      omega

variable {s : MutualKeyChallengeStrategy Req I U K B S} {h : List (ServerEvent Req I U K B S)}
  {e : ServerEvent Req I U K B S} {ttlMs : ℕ} {i : Issue I}

theorem issued_concat : issued (h ++ [e]) = issued h ++ e.issue.toList := by
  simp only [issued, List.filterMap_append]
  cases hi : e.issue <;> simp [hi]

theorem issue_some (hi : e.issue = some i) :
    ∃ m user dm nonce nm inputs challenge status, e = .resume i.call i.now
      (.challengeEncrypted m user dm nonce nm) inputs (.settled (.fail challenge status)) ∧
        i.key = m.userId := by
  unfold ServerEvent.issue at hi
  split at hi
  · cases hi
    exact ⟨_, _, _, _, _, _, _, _, rfl, rfl⟩
  · cases hi

variable [DecidableEq I] [DecidableEq B] {w w' : Server I U K B}

/-- What a step does to the timers: it issues a challenge and starts one, or it starts none. -/
inductive TimerStep (w : Server I U K B) (e : ServerEvent Req I U K B S) (w' : Server I U K B) :
    Prop
  | starts {id key value} (hi : e.issue = some ⟨id, w.now, key⟩)
      (hcache : w'.cache = w.cache.set key value w.now) : TimerStep w e w'
  | keeps (hi : e.issue = none) (hnext : w'.cache.nextTimer = w.cache.nextTimer)
      (htimers : ∀ t timer, w'.cache.timers t = some timer → w.cache.timers t = some timer) :
      TimerStep w e w'

theorem timer_step (hs : ServerStep s w e w') : TimerStep w e w' := by
  cases hs with
  | authenticate hfree hp =>
    obtain rfl := authenticate_cache hp
    exact .keeps rfl rfl fun _ _ ht => ht
  | @resume id inputs handler call cache hcall hp =>
    by_cases hfail : ∃ challenge status, call = .settled (.fail challenge status)
    · obtain ⟨challenge, status, rfl⟩ := hfail
      obtain ⟨m, user, dm, nonce, nm, rfl, rfl, rfl, rfl⟩ := perform_fail hp
      exact .starts rfl rfl
    · have hi : (ServerEvent.resume id w.now handler inputs call :
          ServerEvent Req I U K B S).issue = none := by
        cases hissue : (ServerEvent.resume id w.now handler inputs call :
          ServerEvent Req I U K B S).issue with
        | none => rfl
        | some i =>
          obtain ⟨c, n, k⟩ := i
          obtain ⟨m, user, dm, nonce, nm, _, challenge, status, heq, _⟩ := issue_some hissue
          cases heq
          exact (hfail ⟨challenge, status, rfl⟩).elim
      obtain rfl | ⟨m, user, _, rfl, _⟩ | ⟨key, value, challenge, _, _, rfl⟩ := perform_cases hp
      · exact .keeps hi rfl fun _ _ ht => ht
      · refine .keeps hi LocalChallengeCache.get_nextTimer ?_
        intro t timer ht
        rwa [LocalChallengeCache.get_timers] at ht
      · exact (hfail ⟨challenge, 401, rfl⟩).elim
  | timer ht hf =>
    exact .keeps rfl (LocalChallengeCache.fire_nextTimer hf)
      fun _ _ ht => LocalChallengeCache.fire_timers hf ht
  | tick => exact .keeps rfl rfl fun _ _ ht => ht

/-- Timers are numbered as the challenges are. -/
structure Numbered (ttlMs : ℕ) (h : List (ServerEvent Req I U K B S)) (w : Server I U K B) :
    Prop where
  next : w.cache.nextTimer = (issued h).length
  timer : ∀ t timer, w.cache.timers t = some timer →
    ∃ i, (issued h)[t]? = some i ∧ timer = ⟨i.key, i.now + timerDelay ttlMs⟩

theorem numbered_step (hn : Numbered ttlMs h w) (httl : w.cache.ttlMs = ttlMs)
    (hs : ServerStep s w e w') : Numbered ttlMs (h ++ [e]) w' := by
  cases timer_step hs with
  | @starts id key value hi hcache =>
    constructor
    · rw [hcache, LocalChallengeCache.set_nextTimer, hn.next, issued_concat, hi]
      simp
    · intro t timer ht
      rw [issued_concat, hi]
      rw [hcache] at ht
      by_cases hnew : t = w.cache.nextTimer
      · subst hnew
        rw [LocalChallengeCache.set_timers_self, httl] at ht
        cases ht
        rw [hn.next]
        exact ⟨_, List.getElem?_concat_length, rfl⟩
      · rw [LocalChallengeCache.set_timers_ne hnew] at ht
        obtain ⟨i, hi, htimer⟩ := hn.timer t timer ht
        exact ⟨i, getElem?_concat_of_some hi, htimer⟩
  | keeps hi hnext htimers =>
    have hissued : issued (h ++ [e]) = issued h := by simp [issued_concat, hi]
    constructor
    · rw [hissued, hnext, hn.next]
    · intro t timer ht
      rw [hissued]
      exact hn.timer t timer (htimers t timer ht)

theorem numbered_run (hx : (serverMachine s ttlMs).Execution h w) : Numbered ttlMs h w := by
  apply Machine.Execution.invariant (P := fun h (w : Server I U K B) => Numbered ttlMs h w) ?_ ?_ hx
  · refine ⟨rfl, ?_⟩
    intro t timer ht
    cases ht
  · intro h w e w' hx hn hstep
    exact numbered_step hn (server_ttlMs hx) (server_step_inv hstep)

/-! Who has challenges given out. -/

theorem issued_settled (hx : (serverMachine s ttlMs).Execution h w) (hi : i ∈ issued h) :
    ∃ challenge status, w.calls i.call = some (.settled (.fail challenge status)) := by
  obtain ⟨e, he, hissue⟩ := List.mem_filterMap.mp hi
  obtain ⟨m, user, dm, nonce, nm, inputs, challenge, status, rfl, _⟩ := issue_some hissue
  exact ⟨challenge, status, settled_of_verdict hx (given_verdict he)⟩

/-- A call is given one challenge. -/
theorem issued_nodup (hx : (serverMachine s ttlMs).Execution h w) :
    ((issued h).map Issue.call).Nodup := by
  apply Machine.Execution.invariant (P := fun h (_ : Server I U K B) =>
    ((issued h).map Issue.call).Nodup) List.nodup_nil ?_ hx
  intro h w e w' hx ih hstep
  rw [issued_concat, List.map_append]
  cases hissue : e.issue with
  | none => simpa using ih
  | some i =>
    obtain ⟨id, now, key⟩ := i
    obtain ⟨m, user, dm, nonce, nm, inputs, challenge, status, rfl, _⟩ := issue_some hissue
    refine List.nodup_append.mpr ⟨ih, List.nodup_singleton _, ?_⟩
    intro call hcall call' hcall'
    obtain ⟨i, hi, rfl⟩ := List.mem_map.mp hcall
    cases List.mem_singleton.mp hcall'
    rintro rfl
    -- the call that is given a challenge now had not been given any verdict
    obtain ⟨_, _, hsettled⟩ := issued_settled hx hi
    cases server_step_inv hstep with
    | resume hsuspended hp =>
      rw [hsuspended] at hsettled
      cases hsettled

/-- The call's request proved the key of the user that it named. -/
def Deserved (s : MutualKeyChallengeStrategy Req I U K B S) (h : List (ServerEvent Req I U K B S))
    (i : Issue I) : Prop :=
  ∃ arrived req m user decrypted, Received h i.call arrived req ∧ s.Challenges req arrived m user ∧
    m.userId = i.key ∧ s.Proves m user decrypted

theorem issued_deserved (hx : (serverMachine s ttlMs).Execution h w) (hi : i ∈ issued h) :
    Deserved s h i := by
  obtain ⟨e, he, hissue⟩ := List.mem_filterMap.mp hi
  obtain ⟨m, user, dm, nonce, nm, inputs, challenge, status, rfl, hkey⟩ := issue_some hissue
  obtain ⟨arrived, req, hreceived, hchallenges, hproves, _⟩ := resumed_follows hx he
  exact ⟨arrived, req, m, user, dm.message, hreceived, hchallenges, hkey.symm, hproves⟩

/-! What is held. -/

/-- A key with an entry in one of the maps has a timer of its own. -/
theorem entry_timer {key : I} (hx : (serverMachine s ttlMs).Execution h w)
    (hentry : ¬ w.cache.Forgotten key) :
    ∃ t due, w.cache.clearTimeouts key = some t ∧ w.cache.timers t = some ⟨key, due⟩ := by
  obtain ⟨calls, hcalls⟩ := server_cache hx
  cases cache_booked hcalls key with
  | forgotten hf => exact (hentry hf).elim
  | held newest entry handle live => exact ⟨_, _, handle, live⟩

theorem card_timers_le (hx : (serverMachine s ttlMs).Execution h w)
    (hpunctual : Punctual ⟨w.now, w.cache⟩) (ids : Finset ℕ)
    (hids : ∀ t ∈ ids, w.cache.timers t ≠ none) :
    ids.card ≤ (recent (timerDelay ttlMs) w.now h).length := by
  refine card_le_filter (issued h) ids ?_
  intro t ht
  obtain ⟨timer, htimer⟩ := Option.ne_none_iff_exists'.mp (hids t ht)
  obtain ⟨i, hi, rfl⟩ := (numbered_run hx).timer t timer htimer
  exact ⟨i, hi, decide_eq_true (hpunctual t _ htimer)⟩

theorem card_entries_eq (hx : (serverMachine s ttlMs).Execution h w) (keys : Finset I)
    (hkeys : ∀ key ∈ keys, ¬ w.cache.Forgotten key) :
    ∃ ids : Finset ℕ, (∀ t ∈ ids, w.cache.timers t ≠ none) ∧ ids.card = keys.card := by
  refine ⟨keys.image fun key => (w.cache.clearTimeouts key).getD 0, ?_, ?_⟩
  · intro t ht
    obtain ⟨key, hkey, rfl⟩ := Finset.mem_image.mp ht
    obtain ⟨t, due, hhandle, htimer⟩ := entry_timer hx (hkeys key hkey)
    simp [hhandle, htimer]
  · refine Finset.card_image_of_injOn ?_
    intro key hkey key' hkey' heq
    obtain ⟨t, due, hhandle, htimer⟩ := entry_timer hx (hkeys key hkey)
    obtain ⟨t', due', hhandle', htimer'⟩ := entry_timer hx (hkeys key' hkey')
    simp only [hhandle, hhandle', Option.getD_some] at heq
    subst heq
    cases htimer.symm.trans htimer'
    rfl

/-- Where timers run when they are due, there are no more of them, and no more entries, than
challenges given out within the last `ttlMs`, each to a call of its own that proved the key of the
user whose entry this is. -/
structure Footprint (s : MutualKeyChallengeStrategy Req I U K B S) (ttlMs : ℕ)
    (h : List (ServerEvent Req I U K B S)) (w : Server I U K B) : Prop where
  timers : Punctual ⟨w.now, w.cache⟩ → ∀ ids : Finset ℕ, (∀ t ∈ ids, w.cache.timers t ≠ none) →
    ids.card ≤ (recent (timerDelay ttlMs) w.now h).length
  entries : Punctual ⟨w.now, w.cache⟩ → ∀ keys : Finset I,
    (∀ key ∈ keys, ¬ w.cache.Forgotten key) →
      keys.card ≤ (recent (timerDelay ttlMs) w.now h).length
  distinct : ((issued h).map Issue.call).Nodup
  deserved : ∀ i ∈ issued h, Deserved s h i

theorem cache_footprint (hx : (serverMachine s ttlMs).Execution h w) : Footprint s ttlMs h w where
  timers := card_timers_le hx
  entries := by
    intro hpunctual keys hkeys
    obtain ⟨ids, hids, hcard⟩ := card_entries_eq hx keys hkeys
    rw [← hcard]
    exact card_timers_le hx hpunctual ids hids
  distinct := issued_nodup hx
  deserved _ hi := issued_deserved hx hi

/-- The first segments of a challenge request, signed with the given key. -/
def asked (id userId signer segments : ℕ) : List (ServerMove (Extracted ℕ (List ℕ)) ℕ ℕ) :=
  .authenticate id (.clientChallenge ⟨userId, ⟨[0, 7], [signer, 7]⟩, 0⟩) ::
    List.replicate segments (.resume id ⟨0, 5, 6⟩)

/-- Three users ask; the last one's signature does not verify. -/
def askThree : List (ServerMove (Extracted ℕ (List ℕ)) ℕ ℕ) :=
  asked 0 3 1 7 ++ .tick 4 :: asked 1 4 1 7 ++ asked 2 5 2 3

theorem cache_footprint_askThree :
    let m := serverMachine (numberingStrategy (.keyObject 0)) 10
    let w := m.final askThree
    (recent (timerDelay 10) w.now (m.history askThree)).length = 2 ∧
      (w.cache.timers 0).isSome ∧ (w.cache.timers 1).isSome ∧
      (w.cache.challengeMap 5).isNone ∧
      Footprint (numberingStrategy (.keyObject 0)) 10 (m.history askThree) w := by
  intro m w
  exact ⟨by decide +kernel, by decide +kernel, by decide +kernel, by decide +kernel,
    cache_footprint (m.final_execution askThree)⟩

end MutualKeyChallenge
