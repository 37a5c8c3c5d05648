import Mathlib.Data.List.Basic
import Mathlib.Tactic.Common

/-! Symbolic byte strings and what a network attacker computes from the ones it has seen. -/
namespace Symbolic

/-- Byte strings up to the equations of ideal cryptography. A key pair is named by one value:
`aenc k` uses its public half, `sig k` its private one. -/
inductive Term (K : Type)
  | data (bytes : List UInt8)
  | nonce (n : ℕ)
  | pair (a b : Term K)
  | digest (m : Term K)
  | aenc (k : K) (seed : ℕ) (m : Term K)
  | sig (k : K) (m : Term K)
  deriving DecidableEq, Repr

/-- A computation of the attacker over the byte strings it has seen so far. -/
inductive Recipe (K : Type)
  | seen (i : ℕ)
  | data (bytes : List UInt8)
  | pair (a b : Recipe K)
  | fst (r : Recipe K)
  | snd (r : Recipe K)
  | digest (r : Recipe K)
  | encrypt (k : K) (seed : ℕ) (r : Recipe K)
  | decrypt (k : K) (r : Recipe K)
  | sign (k : K) (r : Recipe K)
  | signDigest (k : K) (r : Recipe K)
  | recover (r : Recipe K)
  deriving DecidableEq, Repr

/-- The private keys the attacker owns, and whether signatures are made on digests and give
the digest away (as RSASSA-PKCS1-v1_5 signatures are and do) or are ideal. -/
structure Attacker (K : Type) where
  owns : K → Bool
  digests : Bool

variable {K : Type} [DecidableEq K] {a : Attacker K} {seen more : List (Term K)} {t : Term K}

/-- The byte string a computation gives, when each of its steps is possible. -/
def Recipe.eval (a : Attacker K) (seen : List (Term K)) : Recipe K → Option (Term K)
  | .seen i => seen[i]?
  | .data bytes => some (.data bytes)
  | .pair r s =>
    match r.eval a seen, s.eval a seen with
    | some m, some n => some (.pair m n)
    | _, _ => none
  | .fst r =>
    match r.eval a seen with
    | some (.pair m _) => some m
    | _ => none
  | .snd r =>
    match r.eval a seen with
    | some (.pair _ n) => some n
    | _ => none
  | .digest r =>
    match r.eval a seen with
    | some m => some (.digest m)
    | none => none
  | .encrypt k seed r =>
    match r.eval a seen with
    | some m => some (.aenc k seed m)
    | none => none
  | .decrypt k r =>
    match r.eval a seen with
    | some (.aenc k' _ m) => if k' = k ∧ a.owns k then some m else none
    | _ => none
  | .sign k r =>
    match r.eval a seen with
    | some m => if a.owns k then some (.sig k m) else none
    | none => none
  | .signDigest k r =>
    match r.eval a seen with
    | some (.digest m) => if a.digests ∧ a.owns k then some (.sig k m) else none
    | _ => none
  | .recover r =>
    match r.eval a seen with
    | some (.sig _ m) => if a.digests then some (.digest m) else none
    | _ => none

/-- The attacker can produce this byte string. -/
def Derivable (a : Attacker K) (seen : List (Term K)) (t : Term K) : Prop :=
  ∃ r : Recipe K, r.eval a seen = some t

/-- What could be computed can still be computed after seeing more. -/
theorem Recipe.eval_append (r : Recipe K) (hr : r.eval a seen = some t) :
    r.eval a (seen ++ more) = some t := by
  induction r generalizing t with
  | seen i =>
    simp only [eval] at hr ⊢
    have hlt : i < seen.length := by
      by_contra hge
      rw [List.getElem?_eq_none (by omega)] at hr
      cases hr
    rwa [List.getElem?_append_left hlt]
  | data bytes => exact hr
  | pair r s ihr ihs =>
    simp only [eval] at hr ⊢
    split at hr
    · rename_i m n hm hn
      rw [ihr hm, ihs hn]
      exact hr
    · cases hr
  | fst r ih | snd r ih | digest r ih | encrypt k seed r ih | decrypt k r ih | sign k r ih
  | signDigest k r ih | recover r ih =>
    simp only [eval] at hr ⊢
    split at hr
    · rename_i hm
      rw [ih hm]
      exact hr
    · cases hr

theorem Derivable.append (h : Derivable a seen t) : Derivable a (seen ++ more) t := by
  obtain ⟨r, hr⟩ := h
  exact ⟨r, r.eval_append hr⟩

end Symbolic
