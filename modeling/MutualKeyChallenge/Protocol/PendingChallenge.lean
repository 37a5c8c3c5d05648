import MutualKeyChallenge.Protocol.Agreement

/-! Who can spend or replace the challenge pending for a user. -/
namespace MutualKeyChallenge
open Transition Symbolic
variable {C I U K : Type}

/-- The request of call `id` arrived at `a`. -/
def Delivered (h : List (WorldEvent C I U K)) (a id : ℕ) (ctx : C) (content : Content I (Term K)) :
    Prop :=
  ∃ now call, h[a]? = some (.server (.authenticate id now ⟨ctx, content⟩ call))

theorem Delivered.received {h : List (WorldEvent C I U K)} {a id : ℕ} {ctx : C}
    {content : Content I (Term K)} (hd : Delivered h a id ctx content) :
    ∃ now, Received (serverEvents h) id now ⟨ctx, content⟩ := by
  obtain ⟨now, call, hk⟩ := hd
  exact ⟨now, call, mem_serverEvents (List.mem_of_getElem? hk)⟩

variable [DecidableEq I] [DecidableEq K]

variable {cfg : Setting C I U K} {h more : List (WorldEvent C I U K)} {w w' : World I U K}
  {e : WorldEvent C I U K} {u : I} {c : CachedChallenge I (Term K)}

end MutualKeyChallenge
