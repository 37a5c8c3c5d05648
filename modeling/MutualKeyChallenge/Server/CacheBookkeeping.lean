import MutualKeyChallenge.Server.CacheRuns

/-! What the two maps of the cache and its running timers say about each other. -/
namespace MutualKeyChallenge
open Transition
variable {I B : Type}

/-- The milliseconds that have passed. -/
def clock : List (CacheEvent I B) → ℕ
  | [] => 0
  | .tick ms :: h => ms + clock h
  | _ :: h => clock h

theorem clock_append (h since : List (CacheEvent I B)) :
    clock (h ++ since) = clock h + clock since := by
  induction h with
  | nil => simp [clock]
  | cons e h ih =>
    cases e with
    | tick ms => simp only [List.cons_append, clock, ih, Nat.add_assoc]
    | get | set | timer => simpa only [List.cons_append, clock] using ih

/-- Event `m` is the last `set` of `key`. -/
def NewestSet (h : List (CacheEvent I B)) (key : I) (value : CachedChallenge I B) (timeout m : ℕ) :
    Prop :=
  h[m]? = some (.set key value timeout) ∧ ∀ i e, m < i → h[i]? = some e → e.sets ≠ some key

variable {w w' : CacheState I B} {e : CacheEvent I B} {h : List (CacheEvent I B)} {key : I}
  {value : CachedChallenge I B} {ttlMs timeout m : ℕ}

theorem NewestSet.lt (hn : NewestSet h key value timeout m) : m < h.length :=
  (List.getElem?_eq_some_iff.mp hn.1).1

theorem NewestSet.unique {v : CachedChallenge I B} {t n : ℕ}
    (hm : NewestSet h key value timeout m) (hn : NewestSet h key v t n) : m = n := by
  rcases Nat.lt_trichotomy m n with hlt | heq | hgt
  · exact (hm.2 n _ hlt hn.1 rfl).elim
  · exact heq
  · exact (hn.2 m _ hgt hm.1 rfl).elim

/-- An event that sets something else. -/
theorem NewestSet.concat (hn : NewestSet h key value timeout m) (he : e.sets ≠ some key) :
    NewestSet (h ++ [e]) key value timeout m := by
  refine ⟨getElem?_concat_of_some hn.1, ?_⟩
  intro i d hlt hi
  rcases getElem?_concat_cases hi with hi | ⟨_, rfl⟩
  · exact hn.2 i d hlt hi
  · exact he

theorem newestSet_concat :
    NewestSet (h ++ [.set key value timeout]) key value timeout h.length := by
  refine ⟨List.getElem?_concat_length, ?_⟩
  intro i e hlt hi
  rcases getElem?_concat_cases hi with hi | ⟨rfl, _⟩
  · have hlength := (List.getElem?_eq_some_iff.mp hi).1
    omega
  · omega

/-- The maps know nothing of `key`, or hold what was set last for it together with the timer that
this `set` started, and the timer still runs. -/
inductive Booked (ttlMs : ℕ) (h : List (CacheEvent I B)) (w : CacheState I B) (key : I) : Prop
  | forgotten (hf : w.cache.Forgotten key)
  | held {value : CachedChallenge I B} {timeout m : ℕ} (newest : NewestSet h key value timeout m)
      (entry : w.cache.challengeMap key = some value)
      (handle : w.cache.clearTimeouts key = some timeout)
      (live : w.cache.timers timeout = some ⟨key, clock (h.take m) + timerDelay ttlMs⟩)

/-- An event of another key. -/
theorem Booked.frame (hb : Booked ttlMs h w key) (he : e.sets ≠ some key)
    (hmap : w'.cache.challengeMap key = w.cache.challengeMap key)
    (hhandle : w'.cache.clearTimeouts key = w.cache.clearTimeouts key)
    (htimers : ∀ t due, w.cache.timers t = some ⟨key, due⟩ →
      w'.cache.timers t = some ⟨key, due⟩) : Booked ttlMs (h ++ [e]) w' key := by
  cases hb with
  | forgotten hf => exact .forgotten ⟨hmap.trans hf.1, hhandle.trans hf.2⟩
  | held newest entry handle live =>
    refine .held (newest.concat he) (hmap.trans entry) (hhandle.trans handle) ?_
    rw [List.take_append_of_le_length (Nat.le_of_lt newest.lt)]
    exact htimers _ _ live

variable [DecidableEq I]

theorem cache_clock (hx : (cacheMachine I B ttlMs).Execution h w) : w.now = clock h := by
  apply Machine.Execution.invariant (P := fun h (w : CacheState I B) => w.now = clock h) rfl ?_ hx
  intro h w e w' _ ih hstep
  rw [clock_append, ← ih]
  cases cache_step_inv hstep with
  | get | set | timer => rfl
  | tick => simp [clock]

/-- A timer that was not started does not run. -/
theorem cache_timer_unstarted (hx : (cacheMachine I B ttlMs).Execution h w) :
    w.cache.timers w.cache.nextTimer = none := by
  have hall : ∀ t, w.cache.nextTimer ≤ t → w.cache.timers t = none := by
    apply Machine.Execution.invariant (P := fun _ (w : CacheState I B) =>
      ∀ t, w.cache.nextTimer ≤ t → w.cache.timers t = none) ?_ ?_ hx
    · intro t _
      rfl
    · intro h w e w' _ ih hstep t hle
      cases cache_step_inv hstep with
      | get =>
        rw [LocalChallengeCache.get_nextTimer] at hle
        rw [LocalChallengeCache.get_timers]
        exact ih t hle
      | set =>
        rw [LocalChallengeCache.set_nextTimer] at hle
        rw [LocalChallengeCache.set_timers_ne (by omega)]
        exact ih t (by omega)
      | @timer id running cache ht hf =>
        rw [LocalChallengeCache.fire_nextTimer hf] at hle
        rw [LocalChallengeCache.fire_timers_eq hf]
        by_cases hid : t = id
        · subst hid
          exact Function.update_self ..
        · rw [Function.update_of_ne hid]
          exact ih t hle
      | tick => exact ih t hle
  exact hall _ (Nat.le_refl _)

/-- Reading a key the maps know forgets it in both. -/
theorem Booked.get_forgotten {reading : ℕ} (hb : Booked ttlMs h w key) :
    (w.cache.get key reading).2.Forgotten key := by
  cases hb with
  | forgotten hf =>
    have hsame : (w.cache.get key reading).2 = w.cache := by simp [LocalChallengeCache.get, hf.1]
    rwa [hsame]
  | held _ entry _ _ => exact LocalChallengeCache.get_forgotten (by simp [entry])

theorem cache_step_booked (hx : (cacheMachine I B ttlMs).Execution h w)
    (hs : CacheStep w e w') (hb : Booked ttlMs h w key) : Booked ttlMs (h ++ [e]) w' key := by
  cases hs with
  | @get k reading =>
    by_cases hk : key = k
    · subst hk
      exact .forgotten hb.get_forgotten
    · exact hb.frame (by simp [CacheEvent.sets]) (LocalChallengeCache.get_challengeMap_ne hk)
        (LocalChallengeCache.get_clearTimeouts_ne hk)
        (fun _ _ ht => by rwa [LocalChallengeCache.get_timers])
  | @set k value =>
    by_cases hk : key = k
    · subst hk
      refine .held newestSet_concat LocalChallengeCache.set_challengeMap_self
        LocalChallengeCache.set_clearTimeouts_self ?_
      rw [LocalChallengeCache.set_timers_self, List.take_left', cache_ttlMs hx, cache_clock hx]
      rfl
    · refine hb.frame (by simpa [CacheEvent.sets] using Ne.symm hk)
        (LocalChallengeCache.set_challengeMap_ne hk)
        (LocalChallengeCache.set_clearTimeouts_ne hk) ?_
      -- the new timer takes no running timer's place
      intro t due ht
      have hnew : t ≠ w.cache.nextTimer := by
        rintro rfl
        rw [cache_timer_unstarted hx] at ht
        cases ht
      rwa [LocalChallengeCache.set_timers_ne hnew]
  | @timer id running cache ht hf =>
    obtain ⟨_, ht', _, _, hmap⟩ := LocalChallengeCache.fire_cases hf
    cases ht.symm.trans ht'
    have hhandle := LocalChallengeCache.fire_clearTimeouts ht hf
    by_cases hk : key = running.key
    · subst hk
      exact .forgotten ⟨by simp [hmap], by simp [hhandle]⟩
    · refine hb.frame (by simp [CacheEvent.sets]) (by simp [hmap, hk]) (by simp [hhandle, hk]) ?_
      -- the timer that ran was another key's
      intro t due hlive
      have hid : t ≠ id := by
        rintro rfl
        cases ht.symm.trans hlive
        exact hk rfl
      rw [LocalChallengeCache.fire_timers_eq hf]
      simpa [hid] using hlive
  | tick => exact hb.frame (by simp [CacheEvent.sets]) rfl rfl (fun _ _ ht => ht)

theorem cache_booked (hx : (cacheMachine I B ttlMs).Execution h w) (key : I) :
    Booked ttlMs h w key := by
  apply Machine.Execution.invariant
    (P := fun h (w : CacheState I B) => Booked ttlMs h w key) ?_ ?_ hx
  · exact .forgotten ⟨rfl, rfl⟩
  · intro h w e w' hx hb hstep
    exact cache_step_booked hx (cache_step_inv hstep) hb

/-- Timers run when they are due: none is late. -/
def Punctual (w : CacheState I B) : Prop :=
  ∀ t running, w.cache.timers t = some running → w.now ≤ running.due

/-- The two maps, the timers and the calls so far agree. -/
structure Bookkept (ttlMs : ℕ) (h : List (CacheEvent I B)) (w : CacheState I B) : Prop where
  same_keys : ∀ key, w.cache.challengeMap key ≠ none ↔ w.cache.clearTimeouts key ≠ none
  timer : ∀ key, w.cache.challengeMap key ≠ none → ∃ value timeout m,
    NewestSet h key value timeout m ∧
      ∃ t due, w.cache.timers t = some ⟨key, due⟩ ∧ due ≤ clock (h.take m) + ttlMs
  handle : ∀ key t, w.cache.clearTimeouts key = some t →
    (∃ due, w.cache.timers t = some ⟨key, due⟩) ∧ ∃ value m, NewestSet h key value t m
  in_time : Punctual w → ∀ key value timeout m, w.cache.challengeMap key ≠ none →
    NewestSet h key value timeout m → w.now ≤ clock (h.take m) + ttlMs

/-- Timers are never cancelled, and an earlier one may delete what a later `set` stored, but then it
deletes the later handle as well. -/
theorem cache_bookkept (hmin : 1 ≤ ttlMs) (hmax : ttlMs ≤ maxDelay)
    (hx : (cacheMachine I B ttlMs).Execution h w) : Bookkept ttlMs h w := by
  have hdelay := timerDelay_of_le hmin hmax
  constructor
  case same_keys =>
    intro key
    cases cache_booked hx key with
    | forgotten hf => simp [hf.1, hf.2]
    | held newest entry handle live => simp [entry, handle]
  case timer =>
    intro key hentry
    cases cache_booked hx key with
    | forgotten hf => exact (hentry hf.1).elim
    | held newest entry handle live =>
      exact ⟨_, _, _, newest, _, _, live, Nat.le_of_eq (by rw [hdelay])⟩
  case handle =>
    intro key t ht
    cases cache_booked hx key with
    | forgotten hf =>
      rw [hf.2] at ht
      cases ht
    | held newest entry handle live =>
      cases handle.symm.trans ht
      exact ⟨⟨_, live⟩, _, _, newest⟩
  case in_time =>
    intro hpunctual key value timeout m hentry hnewest
    cases cache_booked hx key with
    | forgotten hf => exact (hentry hf.1).elim
    | held newest entry handle live =>
      obtain rfl := newest.unique hnewest
      have hdue := hpunctual _ _ live
      rwa [hdelay] at hdue

/-- The timer of the first challenge deletes the second; the third keeps its own timer, while that
of the second still runs. -/
theorem cache_bookkept_overlap :
    let m := cacheMachine (List Char) (List UInt8) 10
    let u := "u".toList
    let moves : List (CacheMove (List Char) (List UInt8)) :=
      [.set u ⟨u, [1], 0⟩, .tick 5, .get u 5, .set u ⟨u, [2], 5⟩, .tick 5, .timer 0,
        .set u ⟨u, [3], 10⟩, .tick 3]
    Bookkept 10 (m.history moves) (m.final moves) := by
  intro m u moves
  exact cache_bookkept (by decide) (by decide) (m.final_execution moves)

end MutualKeyChallenge
