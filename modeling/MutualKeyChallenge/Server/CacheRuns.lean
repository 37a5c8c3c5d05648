import MutualKeyChallenge.Machine
import MutualKeyChallenge.Server.LocalChallengeCache
import Mathlib.Data.Int.Notation

/-! The cache alone under any order of calls, timers and clock readings. -/
namespace MutualKeyChallenge
open Transition
variable {I B : Type}

/-- A cache and the clock that its timers follow. -/
structure CacheState (I B : Type) where
  now : ℕ
  cache : LocalChallengeCache I B

/-- `get key reading`: `Date.now()` gives `reading`, whatever the clock of the timers says. -/
inductive CacheMove (I B : Type)
  | get (key : I) (reading : ℕ)
  | set (key : I) (value : CachedChallenge I B)
  | timer (t : ℕ)
  | tick (ms : ℕ)

/-- `timeout` is the timer that the `set` has started. -/
inductive CacheEvent (I B : Type)
  | get (key : I) (reading : ℕ) (returned : Option (CachedChallenge I B))
  | set (key : I) (value : CachedChallenge I B) (timeout : ℕ)
  | timer (t : ℕ) (running : Timer I)
  | tick (ms : ℕ)

/-- The key of a `set`. -/
def CacheEvent.sets : CacheEvent I B → Option I
  | .set key _ _ => some key
  | _ => none

/-- The key of a `get`, whatever it returned. -/
def CacheEvent.gets : CacheEvent I B → Option I
  | .get key _ _ => some key
  | _ => none

/-- The key of a `get` that returned a challenge. -/
def CacheEvent.takes : CacheEvent I B → Option I
  | .get key _ (some _) => some key
  | _ => none

/-- The key of a timer that runs. -/
def CacheEvent.fires : CacheEvent I B → Option I
  | .timer _ running => some running.key
  | _ => none

theorem CacheEvent.takes_of_gets {e : CacheEvent I B} {key : I} (hg : e.gets ≠ some key) :
    e.takes ≠ some key := by
  cases e with
  | get k reading returned =>
    cases returned with
    | none => simp [CacheEvent.takes]
    | some v => exact hg
  | set k value timeout | timer t running | tick ms => simp [CacheEvent.takes]

variable [DecidableEq I]

def CacheState.step (w : CacheState I B) :
    CacheMove I B → Option (CacheState I B × CacheEvent I B)
  | .get key reading =>
    let got := w.cache.get key reading
    some ({ w with cache := got.2 }, .get key reading got.1)
  | .set key value =>
    some ({ w with cache := w.cache.set key value w.now }, .set key value w.cache.nextTimer)
  | .timer t =>
    match w.cache.timers t, w.cache.fire t w.now with
    | some running, some cache => some ({ w with cache }, .timer t running)
    | _, _ => none
  | .tick ms => some ({ w with now := w.now + ms }, .tick ms)

/-- A new cache, called in any way. -/
def cacheMachine (I B : Type) [DecidableEq I] (ttlMs : ℕ) :
    Machine (CacheState I B) (CacheMove I B) (CacheEvent I B) where
  init := { now := 0, cache := .new ttlMs }
  step := CacheState.step

/-! What one step can do. -/

/-- The steps by the event they record. -/
inductive CacheStep (w : CacheState I B) : CacheEvent I B → CacheState I B → Prop
  | get {key reading} :
      CacheStep w (.get key reading (w.cache.get key reading).1)
        { w with cache := (w.cache.get key reading).2 }
  | set {key value} :
      CacheStep w (.set key value w.cache.nextTimer)
        { w with cache := w.cache.set key value w.now }
  | timer {t running cache} (ht : w.cache.timers t = some running)
      (hf : w.cache.fire t w.now = some cache) :
      CacheStep w (.timer t running) { w with cache }
  | tick {ms} : CacheStep w (.tick ms) { w with now := w.now + ms }

variable {ttlMs : ℕ} {w w' : CacheState I B} {e : CacheEvent I B} {h : List (CacheEvent I B)}
  {key : I} {v : CachedChallenge I B}

theorem cache_step_inv (h : (cacheMachine I B ttlMs).Step w e w') : CacheStep w e w' := by
  obtain ⟨move, h⟩ := h
  simp only [cacheMachine] at h
  cases move with
  | get key reading =>
    cases h
    exact .get
  | set key value =>
    cases h
    exact .set
  | timer t =>
    simp only [CacheState.step] at h
    split at h
    · rename_i running cache ht hf
      cases h
      exact .timer ht hf
    · cases h
  | tick ms =>
    cases h
    exact .tick

theorem CacheStep.step (hs : CacheStep w e w') : (cacheMachine I B ttlMs).Step w e w' := by
  cases hs with
  | @get key reading => exact ⟨.get key reading, rfl⟩
  | @set key value => exact ⟨.set key value, rfl⟩
  | @timer t running cache ht hf =>
    exact ⟨.timer t, by simp [cacheMachine, CacheState.step, ht, hf]⟩
  | @tick ms => exact ⟨.tick ms, rfl⟩

theorem cache_step_ttlMs (hs : CacheStep w e w') : w'.cache.ttlMs = w.cache.ttlMs := by
  cases hs with
  | get => exact LocalChallengeCache.get_ttlMs
  | timer ht hf =>
    obtain ⟨_, _, _, httl, _⟩ := LocalChallengeCache.fire_cases hf
    exact httl
  | set | tick => rfl

theorem cache_ttlMs (hx : (cacheMachine I B ttlMs).Execution h w) : w.cache.ttlMs = ttlMs := by
  apply Machine.Execution.invariant (P := fun _ (w : CacheState I B) => w.cache.ttlMs = ttlMs)
    rfl ?_ hx
  intro h w e w' _ ih hstep
  exact (cache_step_ttlMs (cache_step_inv hstep)).trans ih

/-! Where the challenge of a key comes from and what ends it. -/

/-- A challenge is in the cache because it has just been set, or was there and nothing of its key
happened. -/
theorem cache_entry_origin (hs : CacheStep w e w') (hv : w'.cache.challengeMap key = some v) :
    (∃ timeout, e = .set key v timeout) ∨
      w.cache.challengeMap key = some v ∧ e.sets ≠ some key ∧ e.gets ≠ some key ∧
        e.fires ≠ some key := by
  cases hs with
  | @get k reading =>
    by_cases hk : key = k
    · subst hk
      simp only [LocalChallengeCache.get_challengeMap_self, reduceCtorEq] at hv
    · simp only [LocalChallengeCache.get_challengeMap_ne hk] at hv
      exact Or.inr ⟨hv, by simp [CacheEvent.sets], by simpa [CacheEvent.gets] using Ne.symm hk,
        by simp [CacheEvent.fires]⟩
  | @set k value =>
    by_cases hk : key = k
    · subst hk
      simp only [LocalChallengeCache.set_challengeMap_self, Option.some.injEq] at hv
      exact Or.inl ⟨w.cache.nextTimer, by rw [hv]⟩
    · simp only [LocalChallengeCache.set_challengeMap_ne hk] at hv
      exact Or.inr ⟨hv, by simpa [CacheEvent.sets] using Ne.symm hk, by simp [CacheEvent.gets],
        by simp [CacheEvent.fires]⟩
  | @timer t running cache ht hf =>
    obtain ⟨_, ht', _, _, hmap⟩ := LocalChallengeCache.fire_cases hf
    cases ht.symm.trans ht'
    by_cases hk : key = running.key
    · simp [hmap, hk] at hv
    · simp only [hmap, Function.update_of_ne hk] at hv
      exact Or.inr ⟨hv, by simp [CacheEvent.sets], by simp [CacheEvent.gets],
        by simpa [CacheEvent.fires] using Ne.symm hk⟩
  | tick =>
    exact Or.inr ⟨hv, by simp [CacheEvent.sets], by simp [CacheEvent.gets],
      by simp [CacheEvent.fires]⟩

/-- A challenge stays while nothing of its key happens. -/
theorem cache_entry_kept (hs : CacheStep w e w') (hv : w.cache.challengeMap key = some v)
    (hset : e.sets ≠ some key) (hget : e.gets ≠ some key) (hfire : e.fires ≠ some key) :
    w'.cache.challengeMap key = some v := by
  cases hs with
  | @get k reading =>
    have hk : key ≠ k := fun hk => hget (congrArg some hk.symm)
    simpa only [LocalChallengeCache.get_challengeMap_ne hk] using hv
  | @set k value =>
    have hk : key ≠ k := fun hk => hset (congrArg some hk.symm)
    simpa only [LocalChallengeCache.set_challengeMap_ne hk] using hv
  | @timer t running cache ht hf =>
    obtain ⟨_, ht', _, _, hmap⟩ := LocalChallengeCache.fire_cases hf
    cases ht.symm.trans ht'
    have hk : key ≠ running.key := fun hk => hfire (congrArg some hk.symm)
    simpa only [hmap, Function.update_of_ne hk] using hv
  | tick => exact hv

/-! One `get` for each `set`. -/

/-- `value` was set for `key` as event `m`; since then nothing was set for it or taken of it. -/
def LastSet (h : List (CacheEvent I B)) (key : I) (value : CachedChallenge I B) (m : ℕ) : Prop :=
  (∃ timeout, h[m]? = some (.set key value timeout)) ∧
    ∀ i e, m < i → h[i]? = some e → e.sets ≠ some key ∧ e.takes ≠ some key

/-- What the cache holds was set last and has not been taken. -/
theorem entry_lastSet (hx : (cacheMachine I B ttlMs).Execution h w) :
    ∀ key v, w.cache.challengeMap key = some v → ∃ m, LastSet h key v m := by
  apply Machine.Execution.invariant (P := fun h (w : CacheState I B) =>
    ∀ key v, w.cache.challengeMap key = some v → ∃ m, LastSet h key v m) ?_ ?_ hx
  · intro key v hv
    cases hv
  · intro h w e w' _ ih hstep key v hv
    rcases cache_entry_origin (cache_step_inv hstep) hv with ⟨timeout, rfl⟩ | ⟨hold, hset, hget, _⟩
    · refine ⟨h.length, ⟨timeout, List.getElem?_concat_length⟩, ?_⟩
      intro i e hlt hi
      rcases getElem?_concat_cases hi with hi | ⟨rfl, _⟩
      · have hlength := (List.getElem?_eq_some_iff.mp hi).1
        omega
      · omega
    · obtain ⟨m, ⟨timeout, hm⟩, hsince⟩ := ih key v hold
      refine ⟨m, ⟨timeout, getElem?_concat_of_some hm⟩, ?_⟩
      intro i d hlt hi
      rcases getElem?_concat_cases hi with hi | ⟨_, rfl⟩
      · exact hsince i d hlt hi
      · exact ⟨hset, CacheEvent.takes_of_gets hget⟩

/-- As event `n`, `value` is what was set last for `key`; no `get` has returned it before, and at
`reading` it has not expired. -/
def NewestAt (ttlMs : ℕ) (h : List (CacheEvent I B)) (n : ℕ) (key : I) (reading : ℕ)
    (value : CachedChallenge I B) : Prop :=
  ∃ m, m < n ∧ (∃ timeout, h[m]? = some (.set key value timeout)) ∧
    (∀ i e, m < i → i < n → h[i]? = some e → e.sets ≠ some key ∧ e.takes ≠ some key) ∧
    (reading : ℤ) - value.requestDateTime ≤ ttlMs

/-- Whatever the timers and the clock do, a `get` returns only what was set last for its key, once
and in time. -/
theorem get_newest {n reading : ℕ} (hx : (cacheMachine I B ttlMs).Execution h w)
    (hget : h[n]? = some (.get key reading (some v))) : NewestAt ttlMs h n key reading v := by
  obtain ⟨u, u', hu, hstep, _⟩ := hx.origin hget
  have hs := cache_step_inv hstep
  generalize he : CacheEvent.get key reading (some v) = e at hs
  cases hs with
  | get =>
    simp only [CacheEvent.get.injEq] at he
    obtain ⟨rfl, rfl, hreturned⟩ := he
    obtain ⟨hentry, hage⟩ := LocalChallengeCache.get_eq_some_iff.mp hreturned.symm
    rw [cache_ttlMs hu] at hage
    obtain ⟨m, ⟨timeout, hm⟩, hsince⟩ := entry_lastSet hu key v hentry
    obtain ⟨hlt, hm⟩ := getElem?_take_of_some hm
    refine ⟨m, hlt, ⟨timeout, hm⟩, ?_, by omega⟩
    intro i e hi hin hget
    refine hsince i e hi ?_
    rwa [List.getElem?_take_of_lt hin]
  | set | timer | tick => cases he

/-- The cache holds one challenge for each user, whatever else it is asked. -/
def setTwice : List (CacheMove (List Char) (List UInt8)) :=
  [.set "u".toList ⟨"u".toList, [1], 0⟩, .set "u".toList ⟨"u".toList, [2], 0⟩,
    .set "v".toList ⟨"v".toList, [3], 0⟩, .tick 5, .get "v".toList 5, .get "u".toList 7]

theorem get_newest_setTwice :
    NewestAt 10 ((cacheMachine (List Char) (List UInt8) 10).history setTwice) 5 "u".toList 7
      ⟨"u".toList, [2], 0⟩ :=
  get_newest ((cacheMachine (List Char) (List UInt8) 10).final_execution setTwice) rfl

/-! Which pending challenges are lost early. -/

/-- `value` was set for `key`, which started the timer `timeout`; since then `key` was neither set
again nor read, and the challenge is younger than `ttlMs`. -/
structure Pending (ttlMs : ℕ) (before : List (CacheEvent I B)) (w₀ : CacheState I B) (key : I)
    (value : CachedChallenge I B) (timeout : ℕ) (w₁ : CacheState I B)
    (since : List (CacheEvent I B)) (w : CacheState I B) : Prop where
  execution : (cacheMachine I B ttlMs).Execution before w₀
  set : (cacheMachine I B ttlMs).Step w₀ (.set key value timeout) w₁
  run : (cacheMachine I B ttlMs).Run w₁ since w
  untouched : ∀ e ∈ since, e.sets ≠ some key ∧ e.gets ≠ some key
  requested : value.requestDateTime ≤ w₀.now
  young : w.now < value.requestDateTime + ttlMs

/-- No timer runs for `key` but the one that its own `set` has started, and not even this one
where `setTimeout` cannot wait for `ttlMs`. -/
def OnlyOwnTimer (ttlMs : ℕ) (key : I) (timeout : ℕ) (since : List (CacheEvent I B)) : Prop :=
  ∀ t running, .timer t running ∈ since → running.key = key → t = timeout ∧ ttlMs ≤ maxDelay

/-- No pending challenge is lost early: a `get` returns it. -/
def NoneLostEarly (I B : Type) [DecidableEq I] (ttlMs : ℕ) : Prop :=
  ∀ before w₀ key (value : CachedChallenge I B) timeout w₁ since w,
    Pending ttlMs before w₀ key value timeout w₁ since w →
      (w.cache.get key w.now).1 = some value

/-- The timer of a challenge that was taken deletes the next one, five milliseconds old. -/
theorem stale_timer_deletes : ¬ NoneLostEarly (List Char) (List UInt8) 10 := by
  intro hall
  let m := cacheMachine (List Char) (List UInt8) 10
  let w₀ := m.final [.set "u".toList ⟨"u".toList, [1], 0⟩, .tick 5, .get "u".toList 5]
  let w₁ := (m.played w₀ [.set "u".toList ⟨"u".toList, [2], 5⟩]).1
  let since : List (CacheMove (List Char) (List UInt8)) := [.tick 5, .timer 0]
  have hset : m.Step w₀ _ w₁ := ⟨.set "u".toList ⟨"u".toList, [2], 5⟩, rfl⟩
  have hget := hall _ _ _ _ _ _ _ _
    { execution := m.final_execution _
      set := hset
      run := m.played_run w₁ since
      untouched := by decide
      requested := by decide
      young := by decide }
  cases hget

variable {w₀ w₁ : CacheState I B} {before since : List (CacheEvent I B)} {timeout : ℕ}

/-- A started timer is never started again. -/
theorem cache_timer_step {t : ℕ} (hs : CacheStep w e w') (hold : t < w.cache.nextTimer) :
    t < w'.cache.nextTimer ∧
      ∀ running, w'.cache.timers t = some running → w.cache.timers t = some running := by
  cases hs with
  | @get k reading =>
    rw [LocalChallengeCache.get_nextTimer, LocalChallengeCache.get_timers]
    exact ⟨hold, fun _ ht => ht⟩
  | @set k value =>
    refine ⟨Nat.lt_succ_of_lt hold, ?_⟩
    intro running ht
    rwa [LocalChallengeCache.set_timers_ne (Nat.ne_of_lt hold)] at ht
  | timer ht hf =>
    rw [LocalChallengeCache.fire_nextTimer hf]
    exact ⟨hold, fun _ ht => LocalChallengeCache.fire_timers hf ht⟩
  | tick => exact ⟨hold, fun _ ht => ht⟩

theorem cache_step_now (hs : CacheStep w e w') : w.now ≤ w'.now := by
  cases hs with
  | get | set | timer => exact Nat.le_refl _
  | tick => exact Nat.le_add_right _ _

/-- A challenge that is still there was touched by no timer. -/
theorem entry_no_timer (hr : (cacheMachine I B ttlMs).Run w₁ since w)
    (huntouched : ∀ e ∈ since, e.sets ≠ some key ∧ e.gets ≠ some key)
    (hv : w.cache.challengeMap key = some v) : ∀ e ∈ since, e.fires ≠ some key := by
  induction hr with
  | nil =>
    intro e he
    cases he
  | @snoc since u e w _ hstep ih =>
    have hsets := (huntouched e (by simp)).1
    rcases cache_entry_origin (cache_step_inv hstep) hv with ⟨timeout, rfl⟩ | ⟨hold, _, _, hfires⟩
    · exact (hsets rfl).elim
    · intro d hd
      rcases List.mem_append.mp hd with hd | hd
      · exact ih (fun e he => huntouched e (by simp [he])) hold d hd
      · obtain rfl := List.mem_singleton.mp hd
        exact hfires

/-- A challenge that nothing touches stays. -/
theorem entry_stays (hr : (cacheMachine I B ttlMs).Run w₁ since w)
    (huntouched : ∀ e ∈ since, e.sets ≠ some key ∧ e.gets ≠ some key)
    (hfires : ∀ e ∈ since, e.fires ≠ some key) (hv : w₁.cache.challengeMap key = some v) :
    w.cache.challengeMap key = some v := by
  induction hr with
  | nil => exact hv
  | @snoc since u e w _ hstep ih =>
    obtain ⟨hset, hget⟩ := huntouched e (by simp)
    have hold := ih (fun d hd => huntouched d (by simp [hd])) (fun d hd => hfires d (by simp [hd]))
    exact cache_entry_kept (cache_step_inv hstep) hold hset hget (hfires e (by simp))

/-- A timer that was started is never started again, and runs only when it is due. -/
theorem timer_due {t due : ℕ} (hr : (cacheMachine I B ttlMs).Run w₁ since w)
    (hstarted : t < w₁.cache.nextTimer)
    (hdue : ∀ running, w₁.cache.timers t = some running → due ≤ running.due) :
    t < w.cache.nextTimer ∧
      (∀ running, w.cache.timers t = some running → due ≤ running.due) ∧
      ∀ running, .timer t running ∈ since → due ≤ w.now := by
  induction hr with
  | nil =>
    refine ⟨hstarted, hdue, ?_⟩
    intro running hmem
    cases hmem
  | @snoc since u e w hr hstep ih =>
    obtain ⟨hstarted, hdue, hran⟩ := ih
    have hs := cache_step_inv hstep
    have hclock := cache_step_now hs
    obtain ⟨hstarted', htimers⟩ := cache_timer_step hs hstarted
    refine ⟨hstarted', fun running ht => hdue running (htimers running ht), ?_⟩
    intro running hmem
    rcases List.mem_append.mp hmem with hmem | hmem
    · exact Nat.le_trans (hran running hmem) hclock
    · obtain rfl := List.mem_singleton.mp hmem
      cases hs with
      | timer ht hf =>
        obtain ⟨_, ht', hlate, _⟩ := LocalChallengeCache.fire_cases hf
        cases ht.symm.trans ht'
        exact Nat.le_trans (hdue running ht) hlate

/-- A pending challenge younger than `ttlMs` is returned exactly when no timer has run for its key
that an earlier `set` had started, nor, for a `ttlMs` that `setTimeout` cannot wait for, its own. -/
theorem pending_returned_iff (hp : Pending ttlMs before w₀ key value timeout w₁ since w) :
    (w.cache.get key w.now).1 = some value ↔ OnlyOwnTimer ttlMs key timeout since := by
  obtain ⟨hx, hset, hr, huntouched, hrequested, hyoung⟩ := hp
  have httl := cache_ttlMs ((hx.snoc hset).run hr)
  have hs := cache_step_inv hset
  generalize he : CacheEvent.set key value timeout = e at hs
  cases hs with
  | set =>
    simp only [CacheEvent.set.injEq] at he
    obtain ⟨rfl, rfl, rfl⟩ := he
    constructor
    · intro hget t running ht hkey
      obtain ⟨hv, _⟩ := LocalChallengeCache.get_eq_some_iff.mp hget
      exact (entry_no_timer hr huntouched hv _ ht (congrArg some hkey)).elim
    · intro honly
      have hdue : ∀ running, (w₀.cache.set key value w₀.now).timers w₀.cache.nextTimer =
          some running → w₀.now + timerDelay ttlMs ≤ running.due := by
        intro running ht
        rw [LocalChallengeCache.set_timers_self, cache_ttlMs hx] at ht
        cases ht
        exact Nat.le_refl _
      obtain ⟨_, _, hlate⟩ := timer_due hr (Nat.lt_succ_self _) hdue
      have hfires : ∀ e ∈ since, e.fires ≠ some key := by
        intro e he hfires
        cases e with
        | timer t running =>
          -- the one timer that may run for the key runs too late
          obtain ⟨rfl, hmax⟩ := honly t running he (Option.some.inj hfires)
          have hran := hlate running he
          rw [timerDelay_of_le (by omega) hmax] at hran
          omega
        | get | set | tick => cases hfires
      have hv := entry_stays hr huntouched hfires LocalChallengeCache.set_challengeMap_self
      exact LocalChallengeCache.get_eq_some_iff.mpr ⟨hv, by omega⟩
  | get | timer | tick => cases he

/-- The timer of another user's challenge does no harm. -/
theorem pending_returned_otherTimer :
    let m := cacheMachine (List Char) (List UInt8) 10
    let w₀ := m.final [.set "v".toList ⟨"v".toList, [1], 0⟩, .tick 3]
    let w₁ := (m.played w₀ [.set "u".toList ⟨"u".toList, [2], 3⟩]).1
    let since := m.played w₁ [.tick 7, .timer 0]
    (since.1.cache.get "u".toList since.1.now).1 = some ⟨"u".toList, [2], 3⟩ := by
  intro m w₀ w₁ since
  have hset : m.Step w₀ (.set "u".toList ⟨"u".toList, [2], 3⟩ 1) w₁ := ⟨.set _ _, rfl⟩
  have hpending : Pending 10 _ w₀ "u".toList _ 1 w₁ since.2 since.1 :=
    { execution := m.final_execution _
      set := hset
      run := m.played_run w₁ _
      untouched := by decide
      requested := by decide
      young := by decide }
  refine (pending_returned_iff hpending).mpr ?_
  intro t running ht hkey
  rcases List.mem_pair.mp ht with ht | ht
  · cases ht
  · cases ht
    cases hkey

end MutualKeyChallenge
