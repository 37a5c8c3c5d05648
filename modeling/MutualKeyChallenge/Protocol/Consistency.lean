import MutualKeyChallenge.Protocol.History

/-! The state agrees with its history, and what follows for each recorded event. -/
namespace MutualKeyChallenge
open Transition Symbolic
variable {C I U K : Type} [DecidableEq I] [DecidableEq K] {cfg : Setting C I U K}
  {h : List (WorldEvent C I U K)} {w w' : World I U K} {e : WorldEvent C I U K}
  {id seed k j now run : ℕ}

/-- The state agrees with its history. -/
structure Consistent (cfg : Setting C I U K) (h : List (WorldEvent C I U K))
    (w : World I U K) : Prop where
  fresh : w.fresh = h.length
  handlers : ∀ id hd, w.server.calls id = some (.suspended hd) → HandlerOk cfg h w.wire id hd
  cached : CacheOk h w.server.cache
  runs : ∀ run args, w.runs run = some (.awaitingChallenge args) →
    ∃ n, args.nonce = .nonce n ∧ StartedAt h n run args
  answered : ∀ k run args m, AnsweredAt h k run args m →
    w.runs run = some (.awaitingResult args m)

/-- A segment's cache step keeps the cache explained; a write is the `this.fail` it records. -/
theorem cacheOk_resume {hd : Handler I U K (Term K)} {call : Call I U K (Term K)}
    {now : ℕ} {cache : LocalChallengeCache I (Term K)} {i : Inputs K ℕ}
    (hc : CacheOk h w.server.cache)
    (hp : (cfg.strategy.resume i hd).perform now w.server.cache = (call, cache)) :
    CacheOk (h ++ [(.server (.resume id now hd i call) : WorldEvent C I U K)]) cache := by
  obtain rfl | ⟨message, user, _, rfl, _⟩ | ⟨key, value, challenge, ha, rfl, hcall⟩ :=
    perform_cases hp
  · exact hc.concat
  · exact hc.concat.forget (fun u => LocalChallengeCache.get_forgets)
  · obtain ⟨request, user, dm, nonce, nm, rfl, rfl, rfl, rfl⟩ :=
      MutualKeyChallengeStrategy.resume_cacheSet ha
    subst hcall
    intro u c hu
    by_cases hkey : u = request.userId
    · subst hkey
      simp only [LocalChallengeCache.set_challengeMap_self, Option.some.injEq] at hu
      subst hu
      exact ⟨rfl, h.length, id, request, user, dm.message,
        ⟨now, i, dm, nm, by simp, rfl⟩, rfl, rfl⟩
    · rw [LocalChallengeCache.set_challengeMap_ne hkey] at hu
      exact hc.concat u c hu

theorem consistent_init : Consistent cfg [] cfg.world.init where
  fresh := rfl
  handlers := by intro id hd hcall; cases hcall
  cached := by intro u c hu; cases hu
  runs := by intro run args hrun; cases hrun
  answered := by rintro k run args m ⟨reply, hk⟩; simp at hk

theorem consistent_step (hc : Consistent cfg h w) (hs : WorldStep cfg w e w') :
    Consistent cfg (h ++ [e]) w' := by
  cases hs with
  | @authenticate id req call cache hfree hder hp =>
    have hcache := authenticate_cache hp
    subst hcache
    refine ⟨by simp [Setting.served, hc.fresh], ?_, hc.cached.concat,
      runs_concat hc.runs, answered_concat hc.answered (by simp)⟩
    apply handlers_update hc.handlers
    rintro hd rfl
    exact (handlerOk_authenticate hder (perform_suspended hp).1).grow
  | @resume id seed hd call cache hcall hp =>
    refine ⟨by simp [Setting.served, hc.fresh], ?_, cacheOk_resume hc.cached hp,
      runs_concat hc.runs, answered_concat hc.answered (by simp)⟩
    apply handlers_update hc.handlers
    rintro hd' rfl
    have hnew : HandlerOk cfg (h ++ [.server (.resume id w.server.now hd (cfg.inputs w seed)
        (.suspended hd'))]) w.wire id hd' :=
      handlerOk_resume (hc.handlers id hd hcall) hc.fresh (perform_suspended hp).1
    cases hd' <;> simpa [Setting.published] using hnew
  | @timer t timer cache ht hf =>
    refine ⟨by simp [Setting.served, hc.fresh], ?_,
      hc.cached.concat.forget (fun u => LocalChallengeCache.fire_forgets hf), runs_concat hc.runs,
      answered_concat hc.answered (by simp)⟩
    intro id hd hcall
    exact (hc.handlers id hd hcall).grow
  | tick =>
    refine ⟨by simp [Setting.served, hc.fresh], ?_, hc.cached.concat,
      runs_concat hc.runs, answered_concat hc.answered (by simp)⟩
    intro id hd hcall
    exact (hc.handlers id hd hcall).grow
  | @started run args sent seed hfree hhonest hnonce hsent =>
    refine ⟨by simp [hc.fresh], ?_, hc.cached.concat, ?_, ?_⟩
    · intro id hd hcall
      exact (hc.handlers id hd hcall).grow
    · intro run' args' hrun
      by_cases hr : run' = run
      · subst hr
        simp only [Function.update_self, Option.some.injEq, RunState.awaitingChallenge.injEq]
          at hrun
        subst hrun
        exact ⟨w.fresh, hnonce, sent, by simp [hc.fresh]⟩
      · simp only [Function.update_of_ne hr] at hrun
        exact runs_concat hc.runs run' args' hrun
    · exact answered_update hc.answered (by simp [hfree]) (by simp)
  | @threw run args reply err hrun =>
    refine ⟨by simp [hc.fresh], ?_, hc.cached.concat, ?_, ?_⟩
    · intro id hd hcall
      have hold : HandlerOk cfg (h ++ [.replied run args reply (.threw err)]) (w.wire ++ []) id
          hd := (hc.handlers id hd hcall).grow
      rwa [List.append_nil] at hold
    · intro run' args' hrun'
      have hr : run' ≠ run := by
        rintro rfl
        simp at hrun'
      simp only [Function.update_of_ne hr] at hrun'
      exact runs_concat hc.runs run' args' hrun'
    · exact answered_update hc.answered (by simp [hrun]) (by simp)
  | @answered run args reply sent hrun hder hsent =>
    refine ⟨by simp [hc.fresh], ?_, hc.cached.concat, ?_, ?_⟩
    · intro id hd hcall
      exact (hc.handlers id hd hcall).grow
    · intro run' args' hrun'
      have hr : run' ≠ run := by
        rintro rfl
        simp at hrun'
      simp only [Function.update_of_ne hr] at hrun'
      exact runs_concat hc.runs run' args' hrun'
    · apply answered_update hc.answered (by simp [hrun])
      intro run' args' reply' args'' m he
      cases he
      exact ⟨rfl, rfl⟩

theorem consistent (hx : cfg.world.Execution h w) : Consistent cfg h w := by
  apply Machine.Execution.invariant consistent_init ?_ hx
  intro h s e t _ hc hstep
  exact consistent_step hc (world_step_inv hstep)

/-- A recorded event was one of the world's steps, out of a consistent state. -/
theorem event_origin (hx : cfg.world.Execution h w) (hk : h[k]? = some e) :
    ∃ u v, cfg.world.Execution (h.take k) u ∧ Consistent cfg (h.take k) u ∧
      WorldStep cfg u e v := by
  obtain ⟨u, v, hu, huv, _⟩ := hx.origin hk
  exact ⟨u, v, hu, consistent hu, world_step_inv huv⟩

end MutualKeyChallenge
