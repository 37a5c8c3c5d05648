import MutualKeyChallenge.Server.Attempts

/-! Requests without a valid signature are as if they had never been sent, as long as the process
goes on: the rejected promise of a call is an unhandled rejection, which by default ends the process
from node 15 on. -/
namespace MutualKeyChallenge
open Transition
variable {Req I U K B S : Type}

namespace MutualKeyChallengeStrategy
variable (s : MutualKeyChallengeStrategy Req I U K B S) {req : Req} {now now' : ℕ}
  {handler : Handler I U K B} {i : Inputs K S} {call : Call I U K B}

/-- The user that the request names has signed its response, or the nonce that its challenge
encrypts. -/
def Signed (req : Req) (now : ℕ) : Prop :=
  (∃ m user, s.Responds req now m user ∧
    s.verifier.verify user.publicKey m.clientResponsed = true) ∨
    ∃ m user decrypted, s.Challenges req now m user ∧ s.Proves m user decrypted

variable {s} [DecidableEq I] [DecidableEq B] {cache cache' : LocalChallengeCache I B}

/-- The cache is touched only for a signed request. -/
theorem resume_unsigned (hf : s.Follows req now handler) (hu : ¬ s.Signed req now)
    (hp : (s.resume i handler).perform now' cache = (call, cache')) : cache' = cache := by
  obtain rfl | ⟨m, user, ha, _⟩ | ⟨key, value, challenge, ha, _⟩ := perform_cases hp
  · rfl
  · obtain rfl := resume_cacheGet ha
    obtain ⟨hresponds, hverified⟩ := hf
    exact (hu (Or.inl ⟨m, user, hresponds, hverified.symm⟩)).elim
  · obtain ⟨m, user, dm, nonce, nm, rfl, _⟩ := resume_cacheSet ha
    obtain ⟨hchallenges, hproves, _⟩ := hf
    exact (hu (Or.inr ⟨m, user, dm.message, hchallenges, hproves⟩)).elim

omit [DecidableEq I] [DecidableEq B] in
/-- What an unsigned request comes to, if it gets a verdict. -/
theorem concludes_unsigned {v : Verdict U K B} (hc : s.Concludes req now (.settled v))
    (hu : ¬ s.Signed req now) : ∃ error, v = .error error := by
  cases v with
  | error error => exact ⟨error, rfl⟩
  | success user info =>
    obtain ⟨m, r, hresponds, hverified, _⟩ := hc
    exact (hu (Or.inl ⟨m, r, hresponds, hverified⟩)).elim
  | fail challenge status =>
    obtain ⟨_, m, r, hchallenges, hproves⟩ := hc
    exact (hu (Or.inr ⟨m, r, _, hchallenges, hproves⟩)).elim

end MutualKeyChallengeStrategy

/-- The history without the events of some calls. -/
def withoutCalls (dropped : ℕ → Bool) (h : List (ServerEvent Req I U K B S)) :
    List (ServerEvent Req I U K B S) :=
  h.filter fun e => !e.callId.any dropped

variable {s : MutualKeyChallengeStrategy Req I U K B S} {dropped : ℕ → Bool}
  {h : List (ServerEvent Req I U K B S)} {e : ServerEvent Req I U K B S}

theorem withoutCalls_dropped {id : ℕ} (he : e.callId = some id) (hid : dropped id = true) :
    withoutCalls dropped (h ++ [e]) = withoutCalls dropped h := by
  simp [withoutCalls, he, hid]

theorem withoutCalls_kept (he : ∀ id, e.callId = some id → dropped id = false) :
    withoutCalls dropped (h ++ [e]) = withoutCalls dropped h ++ [e] := by
  have hkept : e.callId.any dropped = false := by
    cases hid : e.callId with
    | none => rfl
    | some id => exact he id hid
  simp [withoutCalls, hkept]

theorem verdictOf_other {id : ℕ} (he : e.callId ≠ some id) : e.verdictOf id = none := by
  cases e with
  | authenticate id' now req call | resume id' now before i call =>
    have hid : id' ≠ id := fun hid => he (congrArg some hid)
    cases call <;> simp [ServerEvent.verdictOf, hid]
  | timer | tick => rfl

theorem verdicts_kept {id : ℕ} (hid : dropped id = false) :
    verdicts id (withoutCalls dropped h) = verdicts id h := by
  rw [verdicts, verdicts, withoutCalls, List.filterMap_filter]
  refine List.filterMap_congr ?_
  intro e _
  split
  · rfl
  · rename_i hdropped
    refine (verdictOf_other ?_).symm
    intro he
    simp [he, hid] at hdropped

/-- Every dropped call was started by a request without a valid signature. -/
def AllUnsigned (s : MutualKeyChallengeStrategy Req I U K B S) (dropped : ℕ → Bool)
    (h : List (ServerEvent Req I U K B S)) : Prop :=
  ∀ id now req, Received h id now req → dropped id = true → ¬ s.Signed req now

theorem AllUnsigned.of_concat (hall : AllUnsigned s dropped (h ++ [e])) :
    AllUnsigned s dropped h :=
  fun id now req hreceived => hall id now req (hreceived.grow (List.prefix_append h [e]))

variable [DecidableEq I] [DecidableEq B] {ttlMs : ℕ} {w w' v v' : Server I U K B}

/-- The servers differ only in the dropped calls. -/
structure SameBut (dropped : ℕ → Bool) (w v : Server I U K B) : Prop where
  now : v.now = w.now
  cache : v.cache = w.cache
  calls : ∀ id, dropped id = false → v.calls id = w.calls id

/-- A step of a kept call, of a timer or of the clock is taken by the other server too. -/
theorem SameBut.step (hsame : SameBut dropped w v) (hs : ServerStep s w e w')
    (he : ∀ id, e.callId = some id → dropped id = false) :
    ∃ v', ServerStep s v e v' ∧ SameBut dropped w' v' := by
  obtain ⟨now, cache, calls⟩ := v
  obtain ⟨rfl, rfl, hcalls⟩ := hsame
  have hupdate : ∀ id c, ∀ id', dropped id' = false →
      Function.update calls id (some c) id' = Function.update w.calls id (some c) id' := by
    intro id c id' hid'
    by_cases hid : id' = id
    · rw [hid, Function.update_self, Function.update_self]
    · rw [Function.update_of_ne hid, Function.update_of_ne hid]
      exact hcalls id' hid'
  cases hs with
  | @authenticate id req call cache hfree hp =>
    have hfree' : calls id = none := (hcalls id (he id rfl)).trans hfree
    exact ⟨_, .authenticate (w := ⟨w.now, w.cache, calls⟩) hfree' hp, rfl, rfl, hupdate id call⟩
  | @resume id inputs handler call cache hcall hp =>
    have hcall' : calls id = some (.suspended handler) := (hcalls id (he id rfl)).trans hcall
    exact ⟨_, .resume (w := ⟨w.now, w.cache, calls⟩) hcall' hp, rfl, rfl, hupdate id call⟩
  | timer ht hf => exact ⟨_, .timer (w := ⟨w.now, w.cache, calls⟩) ht hf, rfl, rfl, hcalls⟩
  | tick => exact ⟨_, .tick (w := ⟨w.now, w.cache, calls⟩), rfl, rfl, hcalls⟩

/-- A step of a dropped call is not missed. -/
theorem SameBut.stay {id : ℕ} (hx : (serverMachine s ttlMs).Execution h w)
    (hall : AllUnsigned s dropped (h ++ [e])) (hsame : SameBut dropped w v)
    (hs : ServerStep s w e w') (he : e.callId = some id) (hid : dropped id = true) :
    SameBut dropped w' v := by
  have hother : ∀ id', dropped id' = false → w'.calls id' = w.calls id' := by
    intro id' hkept
    refine other_call hs ?_
    rw [he]
    rintro ⟨⟩
    rw [hid] at hkept
    cases hkept
  suffices hcache : w'.cache = w.cache ∧ w'.now = w.now by
    exact ⟨hsame.now.trans hcache.2.symm, hsame.cache.trans hcache.1.symm,
      fun id' hkept => (hsame.calls id' hkept).trans (hother id' hkept).symm⟩
  cases hs with
  | authenticate hfree hp => exact ⟨authenticate_cache hp, rfl⟩
  | resume hcall hp =>
    cases he
    obtain ⟨arrived, req, hreceived, hfollows⟩ := call_concludes hx hcall
    exact ⟨MutualKeyChallengeStrategy.resume_unsigned hfollows
      (hall.of_concat id arrived req hreceived hid) hp, rfl⟩
  | timer | tick => cases he

theorem sameBut_run (hx : (serverMachine s ttlMs).Execution h w) (hall : AllUnsigned s dropped h) :
    ∃ v, (serverMachine s ttlMs).Execution (withoutCalls dropped h) v ∧ SameBut dropped w v := by
  revert hall
  apply Machine.Execution.invariant (P := fun h (w : Server I U K B) => AllUnsigned s dropped h →
    ∃ v, (serverMachine s ttlMs).Execution (withoutCalls dropped h) v ∧ SameBut dropped w v)
    ?_ ?_ hx
  · intro _
    exact ⟨_, .init, rfl, rfl, fun _ _ => rfl⟩
  · intro h w e w' hx ih hstep hall
    obtain ⟨v, hv, hsame⟩ := ih hall.of_concat
    have hs := server_step_inv hstep
    by_cases hkept : ∀ id, e.callId = some id → dropped id = false
    · obtain ⟨v', hs', hsame'⟩ := hsame.step hs hkept
      rw [withoutCalls_kept hkept]
      exact ⟨v', hv.snoc hs'.step, hsame'⟩
    · simp only [not_forall, Bool.not_eq_false] at hkept
      obtain ⟨id, he, hid⟩ := hkept
      rw [withoutCalls_dropped he hid]
      exact ⟨v, hv, hsame.stay hx hall hs he hid⟩

/-- Any unsigned requests can be left out: the cache, the clock and all other calls come out the
same. The ones left out have got nothing but errors. -/
structure Unnoticed (s : MutualKeyChallengeStrategy Req I U K B S) (ttlMs : ℕ)
    (dropped : ℕ → Bool) (h : List (ServerEvent Req I U K B S)) (w : Server I U K B) : Prop where
  same : ∃ v, (serverMachine s ttlMs).Execution (withoutCalls dropped h) v ∧ SameBut dropped w v
  kept : ∀ id, dropped id = false → verdicts id (withoutCalls dropped h) = verdicts id h
  errors : ∀ id, dropped id = true → ∀ v ∈ verdicts id h, ∃ error, v = .error error

theorem unsigned_unnoticed (hx : (serverMachine s ttlMs).Execution h w)
    (hall : AllUnsigned s dropped h) : Unnoticed s ttlMs dropped h w where
  same := sameBut_run hx hall
  kept _ hid := verdicts_kept hid
  errors := by
    intro id hid v hv
    obtain ⟨arrived, req, hreceived, hc⟩ := call_concludes hx (settled_of_verdict hx hv)
    exact MutualKeyChallengeStrategy.concludes_unsigned hc (hall id arrived req hreceived hid)

/-- The request that starts a call. -/
def ServerEvent.request : ServerEvent Req I U K B S → Option (ℕ × Req)
  | .authenticate id _ req _ => some (id, req)
  | _ => none

/-- A request and the segments of its call. -/
def handled (id : ℕ) (req : Extracted ℕ (List ℕ)) (segments : ℕ) :
    List (ServerMove (Extracted ℕ (List ℕ)) ℕ ℕ) :=
  .authenticate id req :: List.replicate segments (.resume id ⟨0, 5, 0⟩)

/-- Between the two requests of user 3, somebody with key 2 sends both in his name. -/
def forgedBetween : List (ServerMove (Extracted ℕ (List ℕ)) ℕ ℕ) :=
  handled 0 (.clientChallenge ⟨3, ⟨[0, 7], [1, 7]⟩, 0⟩) 7 ++
    handled 1 (.clientChallenge ⟨3, ⟨[0, 8], [2, 8]⟩, 0⟩) 3 ++
    handled 2 (.clientResponse ⟨3, ⟨[5], [2, 5]⟩⟩) 3 ++
    handled 3 (.clientResponse ⟨3, ⟨[5], [1, 5]⟩⟩) 3

theorem unsigned_unnoticed_forgedBetween :
    let s := numberingStrategy (.keyObject 0)
    let m := serverMachine s 10
    let h := m.history forgedBetween
    verdicts 3 h = [.success 3 1] ∧
      Unnoticed s 10 (fun id => id = 1 || id = 2) h (m.final forgedBetween) := by
  intro s m h
  refine ⟨rfl, unsigned_unnoticed (m.final_execution forgedBetween) ?_⟩
  have hrequests : h.filterMap ServerEvent.request =
      [(0, .clientChallenge ⟨3, ⟨[0, 7], [1, 7]⟩, 0⟩),
        (1, .clientChallenge ⟨3, ⟨[0, 8], [2, 8]⟩, 0⟩),
        (2, .clientResponse ⟨3, ⟨[5], [2, 5]⟩⟩), (3, .clientResponse ⟨3, ⟨[5], [1, 5]⟩⟩)] := rfl
  rintro id now req ⟨call, hmem⟩ hid
  have hreq : (id, req) ∈ h.filterMap ServerEvent.request := List.mem_filterMap.mpr ⟨_, hmem, rfl⟩
  rw [hrequests] at hreq
  simp only [List.mem_cons, Prod.mk.injEq, List.not_mem_nil, or_false] at hreq
  rcases hreq with ⟨rfl, rfl⟩ | ⟨rfl, rfl⟩ | ⟨rfl, rfl⟩ | ⟨rfl, rfl⟩
  · cases hid
  · rintro (⟨m, user, ⟨hm, _⟩, _⟩ | ⟨m, user, d, ⟨hm, hu⟩, _, hd⟩)
    · cases hm
    · cases hm
      cases hu
      cases hd
  · rintro (⟨m, user, ⟨hm, hu⟩, hv⟩ | ⟨m, user, d, ⟨hm, _⟩, _⟩)
    · cases hm
      cases hu
      cases hv
    · cases hm
  · cases hid

end MutualKeyChallenge
