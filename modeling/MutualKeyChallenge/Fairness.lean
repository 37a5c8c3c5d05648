import Mathlib.Order.Monotone.Basic
import MutualKeyChallenge.Machine

/-! Endless runs of a machine, and the rule by which a weakly fair one reaches its goal. -/
namespace Transition.Machine
variable {σ ι ε : Type*} {m : Machine σ ι ε} {s t : σ} {e : ε} {h : List ε} {state : ℕ → σ}
  {event : ℕ → ε} {helpful : σ → ε → Prop}

/-- The events, one after the other, lead through these states without end. -/
def Endless (m : Machine σ ι ε) (state : ℕ → σ) (event : ℕ → ε) : Prop :=
  ∀ n, m.Step (state n) (event n) (state (n + 1))

/-- A helpful step is possible. -/
def Enabled (m : Machine σ ι ε) (helpful : σ → ε → Prop) (s : σ) : Prop :=
  ∃ e t, m.Step s e t ∧ helpful s e

/-- Where from some time on a helpful step is always possible, one is taken. -/
def WeaklyFair (m : Machine σ ι ε) (helpful : σ → ε → Prop) (state : ℕ → σ) (event : ℕ → ε) :
    Prop :=
  ∀ n, (∀ k, n ≤ k → m.Enabled helpful (state k)) → ∃ k, n ≤ k ∧ helpful (state k) (event k)

theorem Endless.execution (he : m.Endless state event) (hx : m.Execution h (state 0)) (n : ℕ) :
    ∃ es, m.Execution (h ++ es) (state n) := by
  induction n with
  | zero => exact ⟨[], by rwa [List.append_nil]⟩
  | succ n ih =>
    obtain ⟨es, hes⟩ := ih
    refine ⟨es ++ [event n], ?_⟩
    rw [← List.append_assoc]
    exact hes.snoc (he n)

/-- If short of the goal a helpful step is always possible, no step raises the variant and the
helpful ones lower it, then a weakly fair run reaches the goal. -/
theorem WeaklyFair.reaches (goal : σ → Prop) (variant : σ → ℕ)
    (hfair : m.WeaklyFair helpful state event)
    (henabled : ∀ n, ¬ goal (state n) → m.Enabled helpful (state n))
    (hle : ∀ n, variant (state (n + 1)) ≤ variant (state n))
    (hlt : ∀ n, helpful (state n) (event n) → variant (state (n + 1)) < variant (state n)) :
    ∃ n, goal (state n) := by
  have hanti : Antitone fun n => variant (state n) := antitone_nat_of_succ_le hle
  by_contra hnever
  have hshort : ∀ n, m.Enabled helpful (state n) := fun n => henabled n fun hn => hnever ⟨n, hn⟩
  -- the variant could then be lowered without end
  have hfalls : ∀ v n, variant (state n) = v → False := by
    intro v
    induction v using Nat.strongRecOn with
    | ind v ih =>
      rintro n rfl
      obtain ⟨k, hk, hhelp⟩ := hfair n fun k _ => hshort k
      have hlower : variant (state (k + 1)) < variant (state n) :=
        Nat.lt_of_lt_of_le (hlt k hhelp) (hanti hk)
      exact ih _ hlower (k + 1) rfl
  exact hfalls _ 0 rfl

/-- The sequence after one more entry. -/
def preceded {α : Type*} (a : α) (f : ℕ → α) : ℕ → α
  | 0 => a
  | n + 1 => f n

theorem exists_padding_play {is : List ι} {es : List ε} (hp : m.play s is = some (t, es))
    (hidle : m.Step t e t) : ∃ state event, m.Endless state event ∧ state 0 = s ∧
      ∀ n, is.length ≤ n → state n = t := by
  induction is generalizing s es with
  | nil =>
    cases hp
    exact ⟨fun _ => t, fun _ => e, fun _ => hidle, rfl, fun _ _ => rfl⟩
  | cons i is ih =>
    simp only [play] at hp
    split at hp
    · cases hp
    · rename_i u d hstep
      split at hp
      · cases hp
      · rename_i v ds hrest
        cases hp
        obtain ⟨state, event, he, rfl, hlast⟩ := ih hrest
        refine ⟨preceded s state, preceded d event, ?_, rfl, ?_⟩
        · intro n
          cases n with
          | zero => exact ⟨i, hstep⟩
          | succ n => exact he n
        · intro n hn
          cases n with
          | zero => cases hn
          | succ n => exact hlast n (Nat.le_of_succ_le_succ hn)

/-- A script goes on without end where its last state has a step to itself. -/
theorem exists_padding {is : List ι}
    (hidle : m.Step (m.played s is).1 e (m.played s is).1) :
    ∃ state event, m.Endless state event ∧ state 0 = s ∧
      ∀ n, is.length ≤ n → state n = (m.played s is).1 := by
  unfold played at hidle ⊢
  split at hidle
  · rename_i hp
    exact exists_padding_play hp hidle
  · exact ⟨fun _ => s, fun _ => e, fun _ => hidle, rfl, fun _ _ => rfl⟩

theorem weaklyFair_of_disabled {n : ℕ} (hlast : ∀ k, n ≤ k → ¬ m.Enabled helpful (state k)) :
    m.WeaklyFair helpful state event := by
  intro k hk
  exact (hlast (max n k) (le_max_left n k) (hk _ (le_max_right n k))).elim

end Transition.Machine
