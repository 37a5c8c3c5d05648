import MutualKeyChallenge.Server.Types
import Mathlib.Logic.Function.Basic

/-! The in-memory cache of pending challenges, with the timers node runs for it. -/
namespace MutualKeyChallenge

/-- A running `setTimeout` of `set(key, ...)` and the first moment it can fire. -/
structure Timer (I : Type) where
  key : I
  due : ℕ
  deriving DecidableEq, Repr

/-- `clearTimeouts` holds handles into `timers`, the timers that still run in the event loop. -/
structure LocalChallengeCache (I B : Type) where
  ttlMs : ℕ
  challengeMap : I → Option (CachedChallenge I B)
  clearTimeouts : I → Option ℕ
  timers : ℕ → Option (Timer I)
  nextTimer : ℕ

/-- The longest delay `setTimeout` accepts. -/
def maxDelay : ℕ := 2147483647

/-- `setTimeout` runs a delay outside `1 ... maxDelay` as one millisecond. -/
def timerDelay (delay : ℕ) : ℕ := if 1 ≤ delay ∧ delay ≤ maxDelay then delay else 1

theorem timerDelay_of_le {delay : ℕ} (h1 : 1 ≤ delay) (h2 : delay ≤ maxDelay) :
    timerDelay delay = delay := by simp [timerDelay, h1, h2]

namespace LocalChallengeCache
variable {I B : Type}

def new (ttlMs : ℕ) : LocalChallengeCache I B where
  ttlMs
  challengeMap := fun _ => none
  clearTimeouts := fun _ => none
  timers := fun _ => none
  nextTimer := 0

/-- Neither map has an entry for the key. -/
def Forgotten (c : LocalChallengeCache I B) (key : I) : Prop :=
  c.challengeMap key = none ∧ c.clearTimeouts key = none

variable [DecidableEq I]

/-- `get(key)` when `Date.now()` is `now`. A `now` before the request counts as no time passed,
which the comparison with `ttlMs` cannot tell from the source's negative difference. -/
def get (c : LocalChallengeCache I B) (key : I) (now : ℕ) :
    Option (CachedChallenge I B) × LocalChallengeCache I B :=
  match c.challengeMap key with
  | none => (none, c)
  | some challenge =>
    let c' := { c with
      challengeMap := Function.update c.challengeMap key none
      clearTimeouts := Function.update c.clearTimeouts key none }
    if c.ttlMs < now - challenge.requestDateTime then (none, c') else (some challenge, c')

/-- `set(key, value)`. Dropping the handle from `clearTimeouts` leaves its timer running. -/
def set (c : LocalChallengeCache I B) (key : I) (value : CachedChallenge I B) (now : ℕ) :
    LocalChallengeCache I B :=
  let clearTimeouts :=
    if (c.clearTimeouts key).isSome then Function.update c.clearTimeouts key none
    else c.clearTimeouts
  let timeout := c.nextTimer
  { c with
    challengeMap := Function.update c.challengeMap key (some value)
    clearTimeouts := Function.update clearTimeouts key (some timeout)
    timers := Function.update c.timers timeout (some ⟨key, now + timerDelay c.ttlMs⟩)
    nextTimer := timeout + 1 }

/-- The callback of timer `id`, which node runs once, at its due time or later. -/
def fire (c : LocalChallengeCache I B) (id now : ℕ) : Option (LocalChallengeCache I B) :=
  match c.timers id with
  | none => none
  | some timer =>
    if timer.due ≤ now then
      some { c with
        challengeMap := Function.update c.challengeMap timer.key none
        clearTimeouts := Function.update c.clearTimeouts timer.key none
        timers := Function.update c.timers id none }
    else none

variable {c c' : LocalChallengeCache I B} {key k : I} {value v : CachedChallenge I B} {now id : ℕ}

@[simp] theorem set_ttlMs : (c.set key value now).ttlMs = c.ttlMs := rfl

@[simp] theorem set_challengeMap_self : (c.set key value now).challengeMap key = some value := by
  simp [set]

theorem set_challengeMap_ne (hk : k ≠ key) :
    (c.set key value now).challengeMap k = c.challengeMap k := by
  simp [set, hk]

/-- What `get` returns depends on the key's challenge only. -/
theorem get_congr (hkey : c'.challengeMap key = c.challengeMap key) (httl : c'.ttlMs = c.ttlMs) :
    (c'.get key now).1 = (c.get key now).1 := by
  unfold get
  rw [hkey, httl]
  split
  · rfl
  · split <;> rfl

theorem get_challengeMap_self : (c.get key now).2.challengeMap key = none := by
  unfold get
  split
  · assumption
  · split <;> simp

theorem get_forgotten (h : c.challengeMap key ≠ none) : (c.get key now).2.Forgotten key := by
  unfold get
  split
  · rename_i hnone
    exact (h hnone).elim
  · split <;> simp [Forgotten]

theorem get_challengeMap_ne (hk : k ≠ key) :
    (c.get key now).2.challengeMap k = c.challengeMap k := by
  unfold get
  split
  · rfl
  · split <;> simp [hk]

@[simp] theorem get_ttlMs : (c.get key now).2.ttlMs = c.ttlMs := by
  unfold get
  split
  · rfl
  · split <;> rfl

/-- `get` returns exactly the stored challenge, and only while it has not expired. -/
theorem get_eq_some_iff :
    (c.get key now).1 = some v ↔
      c.challengeMap key = some v ∧ now ≤ v.requestDateTime + c.ttlMs := by
  unfold get
  split
  · rename_i hn
    simp [hn]
  · rename_i challenge hs
    split
    · rename_i hexp
      simp only [hs, Option.some.injEq, reduceCtorEq, false_iff, not_and]
      rintro rfl
      omega
    · simp only [hs, Option.some.injEq]
      constructor
      · rintro rfl
        exact ⟨rfl, by omega⟩
      · exact And.left

/-- A timer removes at most its own key's challenge. -/
theorem fire_cases (hf : c.fire id now = some c') :
    ∃ timer, c.timers id = some timer ∧ timer.due ≤ now ∧ c'.ttlMs = c.ttlMs ∧
      c'.challengeMap = Function.update c.challengeMap timer.key none := by
  unfold fire at hf
  split at hf
  · cases hf
  · rename_i timer ht
    split at hf
    · rename_i hdue
      cases hf
      exact ⟨timer, ht, hdue, rfl, rfl⟩
    · cases hf

@[simp] theorem get_timers : (c.get key now).2.timers = c.timers := by
  unfold get
  split
  · rfl
  · split <;> rfl

@[simp] theorem get_nextTimer : (c.get key now).2.nextTimer = c.nextTimer := by
  unfold get
  split
  · rfl
  · split <;> rfl

theorem get_clearTimeouts_ne (hk : k ≠ key) :
    (c.get key now).2.clearTimeouts k = c.clearTimeouts k := by
  unfold get
  split
  · rfl
  · split <;> simp [hk]

@[simp] theorem set_clearTimeouts_self :
    (c.set key value now).clearTimeouts key = some c.nextTimer := by
  simp [set]

theorem set_clearTimeouts_ne (hk : k ≠ key) :
    (c.set key value now).clearTimeouts k = c.clearTimeouts k := by
  simp only [set, Function.update_of_ne hk]
  split
  · rw [Function.update_of_ne hk]
  · rfl

theorem set_nextTimer : (c.set key value now).nextTimer = c.nextTimer + 1 := rfl

theorem set_timers_self :
    (c.set key value now).timers c.nextTimer = some ⟨key, now + timerDelay c.ttlMs⟩ := by
  simp [set]

theorem set_timers_ne (hid : id ≠ c.nextTimer) :
    (c.set key value now).timers id = c.timers id := by
  simp [set, hid]

/-- A due timer can run. -/
theorem fire_due {timer : Timer I} (ht : c.timers id = some timer) (hdue : timer.due ≤ now) :
    ∃ c', c.fire id now = some c' := by
  simp [fire, ht, hdue]

theorem fire_timers_eq (hf : c.fire id now = some c') :
    c'.timers = Function.update c.timers id none := by
  unfold fire at hf
  split at hf
  · cases hf
  · split at hf <;> cases hf
    rfl

theorem fire_clearTimeouts {timer : Timer I} (ht : c.timers id = some timer)
    (hf : c.fire id now = some c') :
    c'.clearTimeouts = Function.update c.clearTimeouts timer.key none := by
  simp only [fire, ht] at hf
  split at hf <;> cases hf
  rfl

theorem fire_nextTimer (hf : c.fire id now = some c') : c'.nextTimer = c.nextTimer := by
  unfold fire at hf
  split at hf
  · cases hf
  · split at hf <;> cases hf
    rfl

theorem set_timers {timer : Timer I} (ht : (c.set key value now).timers id = some timer) :
    c.timers id = some timer ∨ timer.due = now + timerDelay c.ttlMs := by
  simp only [set] at ht
  by_cases hid : id = c.nextTimer
  · subst hid
    simp only [Function.update_self, Option.some.injEq] at ht
    exact Or.inr (ht ▸ rfl)
  · rw [Function.update_of_ne hid] at ht
    exact Or.inl ht

/-- The callback of one timer starts no other. -/
theorem fire_timers {t : ℕ} {timer : Timer I} (hf : c.fire id now = some c')
    (ht : c'.timers t = some timer) : c.timers t = some timer := by
  unfold fire at hf
  split at hf
  · cases hf
  · split at hf <;> cases hf
    by_cases hid : t = id
    · subst hid
      simp at ht
    · simpa [hid] using ht

theorem get_forgets :
    (c.get key now).2.challengeMap k = c.challengeMap k ∨
      (c.get key now).2.challengeMap k = none := by
  by_cases hk : k = key
  · subst hk
    exact Or.inr get_challengeMap_self
  · exact Or.inl (get_challengeMap_ne hk)

theorem fire_forgets (hf : c.fire id now = some c') :
    c'.challengeMap k = c.challengeMap k ∨ c'.challengeMap k = none := by
  obtain ⟨timer, _, _, _, hmap⟩ := fire_cases hf
  rw [hmap]
  by_cases hk : k = timer.key
  · subst hk
    exact Or.inr (by simp)
  · exact Or.inl (by simp [hk])

end LocalChallengeCache
end MutualKeyChallenge
