import Mathlib.Data.List.Basic
import Mathlib.Data.List.TakeDrop
import Mathlib.Tactic.Common

/-! Deterministic machines, their executions and the two rules every history proof uses. -/
namespace Transition

/-- A machine answers a move with its next state and the event an observer records, or
refuses the move. All nondeterminism of a system is in the moves. -/
structure Machine (σ ι ε : Type*) where
  init : σ
  step : σ → ι → Option (σ × ε)

namespace Machine
variable {σ ι ε : Type*}

/-- One transition, with the move that caused it forgotten. -/
def Step (m : Machine σ ι ε) (s : σ) (e : ε) (t : σ) : Prop := ∃ i, m.step s i = some (t, e)

/-- `Execution m h s`: the events `h`, in this order, lead from the initial state to `s`. -/
inductive Execution (m : Machine σ ι ε) : List ε → σ → Prop
  | init : Execution m [] m.init
  | snoc {h s e t} : Execution m h s → m.Step s e t → Execution m (h ++ [e]) t

/-- `Run m s es t`: the events `es`, in this order, lead from `s` to `t`. -/
inductive Run (m : Machine σ ι ε) : σ → List ε → σ → Prop
  | nil {s} : Run m s [] s
  | snoc {s es t e u} : Run m s es t → m.Step t e u → Run m s (es ++ [e]) u

/-- Every move is refused. -/
def Halted (m : Machine σ ι ε) (s : σ) : Prop := ∀ i, m.step s i = none

/-- Play a script of moves; any refused move refuses the script. -/
def play (m : Machine σ ι ε) : σ → List ι → Option (σ × List ε)
  | s, [] => some (s, [])
  | s, i :: is =>
    match m.step s i with
    | none => none
    | some (t, e) =>
      match m.play t is with
      | none => none
      | some (u, es) => some (u, e :: es)

variable {m : Machine σ ι ε} {s t u : σ} {e d : ε} {h : List ε}

theorem Run.cons {es : List ε} (hstep : m.Step s e t) (hr : m.Run t es u) :
    m.Run s (e :: es) u := by
  induction hr with
  | nil => exact .snoc .nil hstep
  | snoc _ hlast ih => exact ih.snoc hlast

/-- A script that is not refused is a run. -/
theorem run_play {is : List ι} {es : List ε} (hp : m.play s is = some (u, es)) : m.Run s es u := by
  induction is generalizing s es with
  | nil =>
    cases hp
    exact .nil
  | cons i is ih =>
    simp only [play] at hp
    split at hp
    · cases hp
    · rename_i t e hstep
      split at hp
      · cases hp
      · rename_i v ds hrest
        cases hp
        exact .cons ⟨i, hstep⟩ (ih hrest)

/-- Where a script leads and the events on the way; a refused script does nothing. -/
def played (m : Machine σ ι ε) (s : σ) (is : List ι) : σ × List ε :=
  match m.play s is with
  | some p => p
  | none => (s, [])

theorem played_run (m : Machine σ ι ε) (s : σ) (is : List ι) :
    m.Run s (m.played s is).2 (m.played s is).1 := by
  unfold played
  split
  · rename_i p hp
    exact run_play hp
  · exact .nil

/-- A script of one move leads where the move does. -/
theorem played_step {i : ι} (hstep : m.step s i = some (t, e)) :
    m.Step s e (m.played s [i]).1 := by
  have hplay : m.play s [i] = some (t, [e]) := by simp only [play, hstep]
  rw [played, hplay]
  exact ⟨i, hstep⟩

/-- The events of a script from the initial state. -/
def history (m : Machine σ ι ε) (is : List ι) : List ε := (m.played m.init is).2

/-- The state a script leads to from the initial one. -/
def final (m : Machine σ ι ε) (is : List ι) : σ := (m.played m.init is).1

theorem Execution.run {es : List ε} (hx : m.Execution h s) (hr : m.Run s es t) :
    m.Execution (h ++ es) t := by
  induction hr with
  | nil => simpa using hx
  | snoc hr hstep ih =>
    rw [← List.append_assoc]
    exact ih.snoc hstep

theorem final_execution (m : Machine σ ι ε) (is : List ι) :
    m.Execution (m.history is) (m.final is) := Execution.init.run (m.played_run m.init is)

theorem history_execution (m : Machine σ ι ε) (is : List ι) :
    ∃ s, m.Execution (m.history is) s := ⟨_, m.final_execution is⟩

/-- What holds initially and survives every step, given the execution so far, always holds. -/
theorem Execution.invariant {P : List ε → σ → Prop} (h0 : P [] m.init)
    (hs : ∀ h s e t, m.Execution h s → P h s → m.Step s e t → P (h ++ [e]) t)
    (hx : m.Execution h s) : P h s := by
  induction hx with
  | init => exact h0
  | snoc hx hstep ih => exact hs _ _ _ _ hx ih hstep

/-- What holds in a state the execution has reached, and survives every later step, holds in all
later states. -/
theorem Run.invariant {P : List ε → σ → Prop} {es : List ε} (hx : m.Execution h s)
    (h0 : P [] s)
    (hs : ∀ es e t u, m.Execution (h ++ es) t → P es t → m.Step t e u → P (es ++ [e]) u)
    (hr : m.Run s es t) : P es t := by
  induction hr with
  | nil => exact h0
  | snoc hr hstep ih => exact hs _ _ _ _ (hx.run hr) ih hstep

/-- Every recorded event was a step out of the state its predecessors led to. -/
theorem Execution.origin {k : ℕ} (hx : m.Execution h s) (hk : h[k]? = some e) :
    ∃ u v, m.Execution (h.take k) u ∧ m.Step u e v ∧ m.Execution (h.take (k + 1)) v := by
  induction hx with
  | init => simp at hk
  | @snoc h s d t hx hstep ih =>
    rcases Nat.lt_trichotomy k h.length with hlt | heq | hgt
    · rw [List.getElem?_append_left hlt] at hk
      obtain ⟨u, v, hu, huv, hv⟩ := ih hk
      refine ⟨u, v, ?_, huv, ?_⟩
      · rwa [List.take_append_of_le_length (by omega)]
      · rwa [List.take_append_of_le_length (by omega)]
    · subst heq
      simp only [List.getElem?_concat_length, Option.some.injEq] at hk
      subst hk
      refine ⟨s, t, by simpa using hx, hstep, ?_⟩
      rw [List.take_of_length_le (by simp)]
      exact hx.snoc hstep
    · rw [List.getElem?_eq_none (by simp; omega)] at hk
      cases hk

/-- The last step of an execution. -/
theorem Execution.last (hx : m.Execution (h ++ [e]) t) : ∃ s, m.Execution h s ∧ m.Step s e t := by
  generalize hd : h ++ [e] = d at hx
  cases hx with
  | init => simp at hd
  | snoc hx hstep =>
    obtain ⟨rfl, heq⟩ := List.append_inj' hd rfl
    cases heq
    exact ⟨_, hx, hstep⟩

/-- Where an event determines the step, the events determine the state. -/
theorem Execution.unique (hdet : ∀ s e t t', m.Step s e t → m.Step s e t' → t' = t)
    (hx : m.Execution h s) (hx' : m.Execution h t) : t = s := by
  induction hx generalizing t with
  | init =>
    generalize hd : ([] : List ε) = d at hx'
    cases hx' with
    | init => rfl
    | snoc _ _ => simp at hd
  | snoc hx hstep ih =>
    obtain ⟨u, hu, hstep'⟩ := hx'.last
    obtain rfl := ih hu
    exact hdet _ _ _ _ hstep hstep'

/-- A prefix of an execution is an execution. -/
theorem Execution.take (hx : m.Execution h s) (k : ℕ) : ∃ u, m.Execution (h.take k) u := by
  induction hx with
  | init => exact ⟨m.init, by simpa using .init⟩
  | @snoc h s d t hx hstep ih =>
    by_cases hk : k ≤ h.length
    · simpa [List.take_append_of_le_length hk] using ih
    · refine ⟨t, ?_⟩
      rw [List.take_of_length_le (by simp; omega)]
      exact hx.snoc hstep

end Machine

/-- What one machine shows of another: each step of `m` is a step of `m'` or shows nothing. -/
structure Projection {σ ι ε σ' ι' ε' : Type*} (m : Machine σ ι ε) (m' : Machine σ' ι' ε') where
  state : σ → σ'
  event : ε → Option ε'
  init : state m.init = m'.init
  step : ∀ s e t, m.Step s e t →
    (∃ e', event e = some e' ∧ m'.Step (state s) e' (state t)) ∨
      event e = none ∧ state t = state s

namespace Projection
variable {σ ι ε σ' ι' ε' : Type*} {m : Machine σ ι ε} {m' : Machine σ' ι' ε'} {s t : σ}
  {h es : List ε} (p : Projection m m')

theorem run (hr : m.Run s es t) : m'.Run (p.state s) (es.filterMap p.event) (p.state t) := by
  induction hr with
  | nil => exact .nil
  | snoc hr hstep ih =>
    rw [List.filterMap_append]
    rcases p.step _ _ _ hstep with ⟨e', he, hstep'⟩ | ⟨he, hstate⟩
    · simpa [he] using ih.snoc hstep'
    · simpa [he, hstate] using ih

theorem execution (hx : m.Execution h s) : m'.Execution (h.filterMap p.event) (p.state s) := by
  induction hx with
  | init =>
    rw [p.init]
    exact .init
  | snoc hx hstep ih =>
    rw [List.filterMap_append]
    rcases p.step _ _ _ hstep with ⟨e', he, hstep'⟩ | ⟨he, hstate⟩
    · simpa [he] using ih.snoc hstep'
    · simpa [he, hstate] using ih

end Projection

/-- An index below `k` reads the same event from the first `k` events. -/
theorem getElem?_take_of_some {ε : Type*} {h : List ε} {i k : ℕ} {e : ε}
    (hi : (h.take k)[i]? = some e) : i < k ∧ h[i]? = some e := by
  rw [List.getElem?_take] at hi
  split at hi
  · exact ⟨by assumption, hi⟩
  · cases hi

/-- The events before a recorded one are as many as its index. -/
theorem length_take_of_some {ε : Type*} {h : List ε} {k : ℕ} {e : ε} (hk : h[k]? = some e) :
    (h.take k).length = k := by
  obtain ⟨hlt, _⟩ := List.getElem?_eq_some_iff.mp hk
  simp [Nat.le_of_lt hlt]

/-- A new last event leaves the indices of the earlier ones alone. -/
theorem getElem?_concat_of_some {ε : Type*} {h : List ε} {i : ℕ} {d e : ε}
    (hi : h[i]? = some e) : (h ++ [d])[i]? = some e := by
  have hlt : i < h.length := by
    by_contra hge
    rw [List.getElem?_eq_none (by omega)] at hi
    cases hi
  rwa [List.getElem?_append_left hlt]

/-- An event of the longer history is old or is the new one. -/
theorem getElem?_concat_cases {ε : Type*} {h : List ε} {i : ℕ} {d e : ε}
    (hi : (h ++ [d])[i]? = some e) : h[i]? = some e ∨ (i = h.length ∧ d = e) := by
  rcases Nat.lt_trichotomy i h.length with hlt | heq | hgt
  · rw [List.getElem?_append_left hlt] at hi
    exact Or.inl hi
  · subst heq
    simp only [List.getElem?_concat_length, Option.some.injEq] at hi
    exact Or.inr ⟨rfl, hi⟩
  · rw [List.getElem?_eq_none (by simp; omega)] at hi
    cases hi

/-- Where a function of the events has one result only, that comes from one index. -/
theorem filterMap_index_unique {ε β : Type*} {f : ε → Option β} {h : List ε} {i j : ℕ} {d e : ε}
    {b : β} (hone : h.filterMap f = [b]) (hi : h[i]? = some d) (hj : h[j]? = some e)
    (hd : f d ≠ none) (he : f e ≠ none) : i = j := by
  induction h generalizing i j with
  | nil => cases hi
  | cons c h ih =>
    have hlater : ∀ {k : ℕ} {a : ε}, h[k]? = some a → f a ≠ none → h.filterMap f ≠ [] := by
      intro k a hk ha hnil
      exact ha (List.filterMap_eq_nil_iff.mp hnil a (List.mem_of_getElem? hk))
    cases hc : f c with
    | none =>
      rw [List.filterMap_cons_none hc] at hone
      cases i with
      | zero =>
        cases hi
        exact (hd hc).elim
      | succ i =>
        cases j with
        | zero =>
          cases hj
          exact (he hc).elim
        | succ j => exact congrArg Nat.succ (ih hone hi hj)
    | some b' =>
      rw [List.filterMap_cons_some hc] at hone
      have hnone : h.filterMap f = [] := (List.cons.inj hone).2
      cases i with
      | zero =>
        cases j with
        | zero => rfl
        | succ j => exact (hlater hj he hnone).elim
      | succ i => exact (hlater hi hd hnone).elim

end Transition
