import MutualKeyChallenge.Machine
import Mathlib.Logic.Function.Basic

/-! Stores that give out every value at most once. -/
namespace OneShot
open Transition
variable {ε K V : Type*}

/-- What may happen to a store; `lose` is expiry, eviction or a restart. -/
inductive Effect (K V : Type*)
  | put (key : K) (value : V)
  | take (key : K) (taken : Option V)
  | lose (key : K)

def Effect.key : Effect K V → K
  | .put key _ => key
  | .take key _ => key
  | .lose key => key

/-- Only what is there can be taken; a `take` may always find nothing. -/
def Effect.Possible (store : K → Option V) : Effect K V → Prop
  | .take key (some value) => store key = some value
  | _ => True

def Effect.apply [DecidableEq K] (store : K → Option V) : Effect K V → K → Option V
  | .put key value => Function.update store key (some value)
  | .take key _ => Function.update store key none
  | .lose key => Function.update store key none

/-- The events `h` lead from an empty store to `store`; `view` tells which effect an event has. -/
inductive Explains [DecidableEq K] (view : ε → Option (Effect K V)) :
    List ε → (K → Option V) → Prop
  | empty : Explains view [] fun _ => none
  | effect {h store e f} : Explains view h store → view e = some f → f.Possible store →
      Explains view (h ++ [e]) (f.apply store)
  | silent {h store e} : Explains view h store → view e = none → Explains view (h ++ [e]) store

/-- Event `j` puts the value, and no effect on the key comes between it and event `i`. -/
structure Supplies (view : ε → Option (Effect K V)) (h : List ε) (key : K) (value : V)
    (j i : ℕ) : Prop where
  put : ∃ e, h[j]? = some e ∧ view e = some (.put key value)
  before : j < i
  untouched : ∀ m e f, j < m → m < i → h[m]? = some e → view e = some f → f.key ≠ key

variable {view : ε → Option (Effect K V)} {h : List ε} {store : K → Option V} {key : K} {value : V}
  {e d : ε} {f : Effect K V} {i j : ℕ}

/-- A supply stays one in a longer history. -/
theorem Supplies.concat (hs : Supplies view h key value j i) (hi : i ≤ h.length) :
    Supplies view (h ++ [d]) key value j i where
  put := by
    obtain ⟨e, hj, he⟩ := hs.put
    exact ⟨e, getElem?_concat_of_some hj, he⟩
  before := hs.before
  untouched := by
    intro m e f hjm hmi hm he
    rcases getElem?_concat_cases hm with hm | ⟨rfl, _⟩
    · exact hs.untouched m e f hjm hmi hm he
    · omega

/-- It lasts beyond an event that does not concern its key. -/
theorem Supplies.pass (hs : Supplies view h key value j h.length)
    (hd : ∀ f, view d = some f → f.key ≠ key) :
    Supplies view (h ++ [d]) key value j (h ++ [d]).length where
  put := (hs.concat (Nat.le_refl _) (d := d)).put
  before := by
    have hlt := hs.before
    simp only [List.length_append, List.length_singleton]
    omega
  untouched := by
    intro m e f hjm _ hm he
    rcases getElem?_concat_cases hm with hm | ⟨_, rfl⟩
    · exact hs.untouched m e f hjm (List.getElem?_eq_some_iff.mp hm).1 hm he
    · exact hd f he

/-- No two takes are supplied by one `put`. -/
theorem Supplies.unique {key' : K} {value' : V} {taken taken' : Option V} {i' : ℕ}
    (hs : Supplies view h key value j i) (hs' : Supplies view h key' value' j i')
    (hi : h[i]? = some e) (he : view e = some (.take key taken)) (hi' : h[i']? = some d)
    (hd : view d = some (.take key' taken')) : i = i' := by
  obtain ⟨p, hj, hp⟩ := hs.put
  obtain ⟨p', hj', hp'⟩ := hs'.put
  cases hj.symm.trans hj'
  cases hp.symm.trans hp'
  rcases Nat.lt_trichotomy i i' with hlt | heq | hgt
  · exact (hs'.untouched i e _ hs.before hlt hi he rfl).elim
  · exact heq
  · exact (hs.untouched i' d _ hs'.before hgt hi' hd rfl).elim

variable [DecidableEq K]

theorem Effect.apply_of_ne (hne : f.key ≠ key) : f.apply store key = store key := by
  cases f <;> exact Function.update_of_ne (Ne.symm hne) ..

/-- A value is in the store of a key because it has been put there. -/
theorem Effect.put_of_apply (hv : f.apply store f.key = some value) : f = .put f.key value := by
  cases f with
  | put key value' =>
    obtain rfl : value' = value := by simpa [Effect.apply, Effect.key] using hv
    rfl
  | take | lose => simp [Effect.apply, Effect.key] at hv

/-- What is in the store was put there, and nothing has happened to its key since. -/
theorem Explains.stored (hx : Explains view h store) :
    ∀ key value, store key = some value → ∃ j, Supplies view h key value j h.length := by
  induction hx with
  | empty =>
    intro key value hv
    cases hv
  | @effect h store e f _ he hp ih =>
    intro key value hv
    by_cases hkey : f.key = key
    · subst hkey
      rw [Effect.put_of_apply hv] at he
      refine ⟨h.length, ⟨e, List.getElem?_concat_length, he⟩, by simp, ?_⟩
      intro m e' f' hjm hmi
      simp only [List.length_append, List.length_singleton] at hmi
      omega
    · rw [Effect.apply_of_ne hkey] at hv
      obtain ⟨j, hs⟩ := ih key value hv
      refine ⟨j, hs.pass ?_⟩
      intro f' he'
      cases he.symm.trans he'
      exact hkey
  | silent _ he ih =>
    intro key value hv
    obtain ⟨j, hs⟩ := ih key value hv
    refine ⟨j, hs.pass ?_⟩
    intro f' he'
    cases he.symm.trans he'

/-- What is taken was put there, and nothing happened to its key in between. -/
theorem Explains.supplied (hx : Explains view h store) :
    ∀ i e, h[i]? = some e → view e = some (.take key (some value)) →
      ∃ j, Supplies view h key value j i := by
  induction hx with
  | empty =>
    intro i e hi
    cases hi
  | @effect h store d f hx hd hp ih =>
    intro i e hi he
    rcases getElem?_concat_cases hi with hi | ⟨rfl, rfl⟩
    · obtain ⟨j, hs⟩ := ih i e hi he
      exact ⟨j, hs.concat (Nat.le_of_lt (List.getElem?_eq_some_iff.mp hi).1)⟩
    · cases he.symm.trans hd
      obtain ⟨j, hs⟩ := hx.stored key value hp
      exact ⟨j, hs.concat (Nat.le_refl _)⟩
  | @silent h store d _ hd ih =>
    intro i e hi he
    rcases getElem?_concat_cases hi with hi | ⟨rfl, rfl⟩
    · obtain ⟨j, hs⟩ := ih i e hi he
      exact ⟨j, hs.concat (Nat.le_of_lt (List.getElem?_eq_some_iff.mp hi).1)⟩
    · cases he.symm.trans hd

end OneShot
