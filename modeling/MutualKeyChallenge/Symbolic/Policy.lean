import MutualKeyChallenge.Symbolic.Term

/-! Closed sets of byte strings: what the honest parties may have let the attacker see. -/
namespace Symbolic

/-- What the honest parties have done so far: the nonces that are no longer secret, the
plaintexts they sealed for a key whose owner is honest, and the data they signed. -/
structure Policy (K : Type) where
  opened : ℕ → Prop
  sealedFor : K → Term K → Prop
  signed : K → Term K → Prop

variable {K : Type} {a : Attacker K} {P Q : Policy K} {t m : Term K} {k : K}

/-- A byte string the attacker may know under a policy. -/
def Safe (a : Attacker K) (P : Policy K) : Term K → Prop
  | .data _ => True
  | .nonce n => P.opened n
  | .pair m n => Safe a P m ∧ Safe a P n
  | .digest m => Safe a P m ∨ (a.digests = true ∧ ∃ k, P.signed k m)
  | .aenc k _ m => Safe a P m ∨ (a.owns k = false ∧ P.sealedFor k m)
  | .sig k m =>
    P.signed k m ∨
      (a.owns k = true ∧ (Safe a P m ∨ (a.digests = true ∧ ∃ k', P.signed k' m)))

/-- One policy allows at least what another does. -/
structure Policy.Le (P Q : Policy K) : Prop where
  opened : ∀ n, P.opened n → Q.opened n
  sealedFor : ∀ k m, P.sealedFor k m → Q.sealedFor k m
  signed : ∀ k m, P.signed k m → Q.signed k m

theorem Safe.mono (hle : P.Le Q) (h : Safe a P t) : Safe a Q t := by
  induction t with
  | data bytes => trivial
  | nonce n => exact hle.opened n h
  | pair m n ihm ihn => exact ⟨ihm h.1, ihn h.2⟩
  | digest m ih => exact h.imp ih (fun ⟨hd, k, hk⟩ => ⟨hd, k, hle.signed k m hk⟩)
  | aenc k seed m ih => exact h.imp ih (fun ⟨ho, hs⟩ => ⟨ho, hle.sealedFor k m hs⟩)
  | sig k m ih =>
    rcases h with h | ⟨ho, h⟩
    · exact Or.inl (hle.signed k m h)
    · exact Or.inr ⟨ho, h.imp ih (fun ⟨hd, k', hk⟩ => ⟨hd, k', hle.signed k' m hk⟩)⟩

/-- Without a key's private half, a signature under it is one its owner made. -/
theorem signed_of_safe (h : Safe a P (.sig k m)) (ho : a.owns k = false) : P.signed k m := by
  obtain hk | ⟨hk, _⟩ := h
  · exact hk
  · simp [ho] at hk

/-- With ideal signatures, whoever has one on `m` got it from an owner or knows `m`. -/
theorem signed_or_safe (h : Safe a P (.sig k m)) (hd : a.digests = false) :
    P.signed k m ∨ Safe a P m := by
  obtain hk | ⟨_, hm | ⟨hd', _⟩⟩ := h
  · exact Or.inl hk
  · exact Or.inr hm
  · simp [hd] at hd'

variable [DecidableEq K] {seen : List (Term K)}

/-- No computation leads out of the safe byte strings. -/
theorem Recipe.eval_safe (hs : ∀ t ∈ seen, Safe a P t) (r : Recipe K)
    (hr : r.eval a seen = some t) : Safe a P t := by
  induction r generalizing t with
  | seen i => exact hs t (List.mem_of_getElem? hr)
  | data bytes =>
    cases hr
    trivial
  | pair r s ihr ihs =>
    simp only [eval] at hr
    split at hr
    · rename_i m n hm hn
      cases hr
      exact ⟨ihr hm, ihs hn⟩
    · cases hr
  | fst r ih =>
    simp only [eval] at hr
    split at hr
    · rename_i m n hm
      cases hr
      exact (ih hm).1
    · cases hr
  | snd r ih =>
    simp only [eval] at hr
    split at hr
    · rename_i m n hm
      cases hr
      exact (ih hm).2
    · cases hr
  | digest r ih =>
    simp only [eval] at hr
    split at hr
    · rename_i m hm
      cases hr
      exact Or.inl (ih hm)
    · cases hr
  | encrypt k seed r ih =>
    simp only [eval] at hr
    split at hr
    · rename_i m hm
      cases hr
      exact Or.inl (ih hm)
    · cases hr
  | decrypt k r ih =>
    simp only [eval] at hr
    split at hr
    · rename_i k' seed m hm
      split at hr
      · rename_i hk
        cases hr
        obtain hm' | ⟨ho, _⟩ := ih hm
        · exact hm'
        · simp [hk.1, hk.2] at ho
      · cases hr
    · cases hr
  | sign k r ih =>
    simp only [eval] at hr
    split at hr
    · rename_i m hm
      split at hr
      · rename_i hk
        cases hr
        exact Or.inr ⟨hk, Or.inl (ih hm)⟩
      · cases hr
    · cases hr
  | signDigest k r ih =>
    simp only [eval] at hr
    split at hr
    · rename_i m hm
      split at hr
      · rename_i hk
        cases hr
        exact Or.inr ⟨hk.2, ih hm⟩
      · cases hr
    · cases hr
  | recover r ih =>
    simp only [eval] at hr
    split at hr
    · rename_i k m hm
      split at hr
      · rename_i hd
        cases hr
        obtain hk | ⟨_, hm'⟩ := ih hm
        · exact Or.inr ⟨hd, k, hk⟩
        · exact hm'
      · cases hr
    · cases hr

theorem Derivable.safe (hs : ∀ t ∈ seen, Safe a P t) (h : Derivable a seen t) : Safe a P t := by
  obtain ⟨r, hr⟩ := h
  exact r.eval_safe hs hr

end Symbolic
