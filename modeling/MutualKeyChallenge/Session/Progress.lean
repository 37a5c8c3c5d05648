import MutualKeyChallenge.Fairness
import MutualKeyChallenge.Session.Legs

/-! Every `request` ends, if its messages are delivered and its calls go on: nothing that other
clients do holds it up for ever. -/
namespace MutualKeyChallenge
open Transition

/-! How far a call has to go. -/

section Server
variable {Req I U K B S : Type}

theorem Call.remaining_le (c : Call I U K B) : c.remaining ≤ 7 := by
  cases c with
  | suspended handler => cases handler <;> simp [Call.remaining, Handler.remaining]
  | settled v | rejected e => exact Nat.zero_le 7

variable [DecidableEq I] [DecidableEq B] {s : MutualKeyChallengeStrategy Req I U K B S}
  {ttlMs id : ℕ} {h : List (ServerEvent Req I U K B S)} {e : ServerEvent Req I U K B S}
  {w w' : Server I U K B} {c : Call I U K B}

/-- No step sends a call back, and each of its own segments brings it on. -/
theorem remaining_step (hs : ServerStep s w e w') (hcall : w.calls id = some c) :
    ∃ c', w'.calls id = some c' ∧ c'.remaining ≤ c.remaining ∧
      (e.resumes id = true → c'.remaining < c.remaining) := by
  by_cases hid : e.callId = some id
  · cases hs with
    | authenticate hfree hp =>
      obtain rfl := Option.some.inj hid
      rw [hfree] at hcall
      cases hcall
    | @resume id' inputs handler c' cache hsuspended hp =>
      obtain rfl := Option.some.inj hid
      cases hsuspended.symm.trans hcall
      have hlt : c'.remaining < handler.remaining := by
        cases c' with
        | suspended handler' =>
          have hless := MutualKeyChallengeStrategy.resume_remaining (perform_suspended hp).1
          exact Nat.lt_of_succ_le (Nat.le_of_eq hless)
        | settled v | rejected e => cases handler <;> simp [Call.remaining, Handler.remaining]
      exact ⟨c', Function.update_self .., Nat.le_of_lt hlt, fun _ => hlt⟩
    | timer | tick => cases hid
  · refine ⟨c, (other_call hs hid).trans hcall, Nat.le_refl _, ?_⟩
    intro hresumes
    cases e with
    | resume id' => exact (hid (congrArg some (of_decide_eq_true hresumes))).elim
    | authenticate | timer | tick => cases hresumes

/-- The calls so far are finitely many. -/
theorem calls_bounded (hx : (serverMachine s ttlMs).Execution h w) :
    ∃ n, ∀ id, n ≤ id → w.calls id = none := by
  apply Machine.Execution.invariant (P := fun _ (w : Server I U K B) =>
    ∃ n, ∀ id, n ≤ id → w.calls id = none) ⟨0, fun _ _ => rfl⟩ ?_ hx
  rintro h w e w' _ ⟨n, hn⟩ hstep
  refine ⟨max n (e.callId.elim 0 (· + 1)), ?_⟩
  intro id hid
  have hother : e.callId ≠ some id := by
    intro he
    simp only [he, Option.elim_some] at hid
    omega
  rw [other_call (server_step_inv hstep) hother]
  exact hn id (Nat.le_trans (Nat.le_max_left ..) hid)

end Server

namespace Session
variable {K S : Type} {cfg : Deployment K S} {w w' : State K} {e : Event K S}
  {h : List (Event K S)} {run call : ℕ}

/-- The run waits for the reply to this call. -/
def WaitsFor (w : State K) (run call : ℕ) : Prop :=
  ∃ leg args sent, w.requests run = some (.awaiting leg args sent (some call))

/-- The step delivers a message of the run or its reply, or goes on with the call that the run
waits for. -/
def Serves (run : ℕ) (w : State K) : Event K S → Prop
  | .arrived run' _ _ => run' = run
  | .received run' _ _ => run' = run
  | .server (.resume call _ _ _ _) => WaitsFor w run call
  | _ => False

/-- No reply will come: the promise of `authenticate` was rejected, or `sign` threw. Nothing handles
such a rejection, and from node 15 on that ends the process by default; the server here goes on. -/
def Unanswered (cfg : Deployment K S) (w : State K) (run : ℕ) : Prop :=
  ∃ call, WaitsFor w run call ∧
    ((∃ e, w.server.calls call = some (.rejected e)) ∨
      ∃ user info, w.server.calls call = some (.settled (.success user info)) ∧
        cfg.token user = none)

/-- The run can go no further: its promise is settled, its listener threw, or the server has left
it without a reply. -/
inductive Ended (cfg : Deployment K S) (w : State K) (run : ℕ) : Prop
  | resolved {args sent response} (hrun : w.requests run = some (.resolved args sent response))
  | rejected {args e} (hrun : w.requests run = some (.rejected args e))
  | hanging {args e} (hrun : w.requests run = some (.hanging args e))
  | unanswered (hrun : Unanswered cfg w run)

/-- The steps a run may still need after this leg. -/
def Leg.later : Leg → ℕ
  | .challenge => 9
  | .response => 0

/-- The steps that a run may still need. -/
def State.left (w : State K) (run : ℕ) : ℕ :=
  match w.requests run with
  | some (.awaiting leg _ _ none) => leg.later + 9
  | some (.awaiting leg _ _ (some call)) =>
    leg.later + 1 + ((w.server.calls call).map Call.remaining).getD 0
  | _ => 0

/-- The call that a run waits for has been started. -/
theorem waited_call (hx : cfg.session.Execution h w) (hwait : WaitsFor w run call) :
    ∃ c, w.server.calls call = some c := by
  obtain ⟨leg, args, sent, hrun⟩ := hwait
  have hok := requests_ok hx run
  rw [hrun] at hok
  have harrived : ∃ a ∈ arrivals run h, ArrivedAs leg sent call a := by
    cases leg with
    | challenge =>
      obtain ⟨a, ha, harr, _⟩ := hok
      exact ⟨a, ha ▸ List.mem_singleton_self a, harr⟩
    | response =>
      obtain ⟨a, b, hab, _, harr⟩ := hok
      exact ⟨b, hab ▸ by simp, harr⟩
  obtain ⟨a, ha, now, after, rfl⟩ := harrived
  have hcall := calls_ok (session_server hx) call
  cases hc : w.server.calls call with
  | some c => exact ⟨c, rfl⟩
  | none =>
    rw [hc] at hcall
    cases hcall with
    | unknown hreq => exact (hreq _ _ (received_of_arrival ha)).elim

/-- A run that waits was started with some random numbers. -/
theorem awaiting_seed {leg : Leg} {args : HandshakeRun (List Char) K Bytes}
    {sent : ClientSignedMessage (List Char) Bytes} {call : Option ℕ}
    (hx : cfg.session.Execution h w)
    (hrun : w.requests run = some (.awaiting leg args sent call)) : Nonempty S := by
  have hok := requests_ok hx run
  rw [hrun] at hok
  cases leg with
  | challenge =>
    cases call with
    | none =>
      obtain ⟨_, seed, _⟩ := hok
      exact ⟨seed⟩
    | some call =>
      obtain ⟨_, _, _, seed, _⟩ := hok
      exact ⟨seed⟩
  | response =>
    cases call with
    | none =>
      obtain ⟨_, _, seed, _⟩ := hok
      exact ⟨seed⟩
    | some call =>
      obtain ⟨_, _, _, ⟨seed, _⟩, _⟩ := hok
      exact ⟨seed⟩

/-! What one step does to a run. -/

theorem started_step (hstep : cfg.session.Step w e w') (hstarted : w.requests run ≠ none) :
    w'.requests run ≠ none := by
  have hkept : ∀ run' st, Function.update w.requests run' (some st) run ≠ none := by
    intro run' st
    by_cases hrun : run = run'
    · subst hrun
      simp
    · rwa [Function.update_of_ne hrun]
  cases step_inv hstep with
  | started | arrived | received | disconnected => exact hkept _ _
  | server hs => exact hstarted

/-- The server brings no run back, and brings a run on with each segment of its call. -/
theorem left_server {se : ServerEvent HttpRequest UserId MockUser K Bytes S}
    (hx : cfg.session.Execution h w) (hs : ServerStep cfg.strategy w.server se w'.server)
    (hsame : w'.requests run = w.requests run) :
    w'.left run ≤ w.left run ∧
      ∀ call, WaitsFor w run call → se.resumes call = true → w'.left run < w.left run := by
  unfold State.left
  rw [hsame]
  split
  · rename_i hrun
    refine ⟨Nat.le_refl _, ?_⟩
    rintro call ⟨leg, args, sent, hwait⟩
    cases hrun.symm.trans hwait
  · rename_i leg args sent call hrun
    obtain ⟨c, hcall⟩ := waited_call hx ⟨leg, args, sent, hrun⟩
    obtain ⟨c', hcall', hle, hlt⟩ := remaining_step hs hcall
    simp only [hcall, hcall', Option.map_some, Option.getD_some]
    refine ⟨by omega, ?_⟩
    rintro call' ⟨leg', args', sent', hwait⟩ hresumes
    cases hrun.symm.trans hwait
    have hless := hlt hresumes
    omega
  · rename_i hnone hsome
    refine ⟨Nat.le_refl _, ?_⟩
    rintro call ⟨leg, args, sent, hwait⟩
    exact (hsome _ _ _ _ hwait).elim

theorem left_onReply {leg : Leg} {args : HandshakeRun (List Char) K Bytes}
    {sent : ClientSignedMessage (List Char) Bytes} {response : HttpResponse}
    (hrun : w.requests run = some (cfg.onReply leg args sent response)) :
    w.left run ≤ leg.later := by
  cases leg with
  | response =>
    rw [State.left, hrun]
    exact Nat.le_refl 0
  | challenge =>
    simp only [Deployment.onReply] at hrun
    split at hrun
    · rw [State.left, hrun]
      exact Nat.zero_le _
    · split at hrun
      · rw [State.left, hrun]
        exact Nat.zero_le _
      · rw [State.left, hrun]
        exact Nat.le_refl _

/-- No step brings a run back, and each that serves it brings it on. -/
theorem left_step (hx : cfg.session.Execution h w) (hstarted : w.requests run ≠ none)
    (hstep : cfg.session.Step w e w') :
    w'.left run ≤ w.left run ∧ (Serves run w e → w'.left run < w.left run) := by
  cases step_inv hstep with
  | @started run' args seed hfree =>
    have hne : run ≠ run' := by
      rintro rfl
      exact hstarted hfree
    have hleft : State.left ⟨w.server, Function.update w.requests run'
        (some (cfg.begin args seed))⟩ run = w.left run := by
      simp only [State.left, Function.update_of_ne hne]
    exact ⟨Nat.le_of_eq hleft, False.elim⟩
  | @arrived run' leg args sent call after server hrun hs =>
    by_cases hself : run = run'
    · subst hself
      have hcall : server.calls call = some after := by
        cases hs
        exact Function.update_self ..
      have hafter := after.remaining_le
      have hlt : State.left ⟨server, Function.update w.requests run
          (some (.awaiting leg args sent (some call)))⟩ run < w.left run := by
        simp only [State.left, Function.update_self, hcall, hrun, Option.map_some,
          Option.getD_some]
        omega
      exact ⟨Nat.le_of_lt hlt, fun _ => hlt⟩
    · refine ⟨(left_server hx hs (Function.update_of_ne hself ..)).1, ?_⟩
      intro hserves
      exact (hself hserves.symm).elim
  | @received run' leg args sent call v response hrun hcall hreply =>
    by_cases hself : run = run'
    · subst hself
      have hlater : State.left ⟨w.server, Function.update w.requests run
          (some (cfg.onReply leg args sent response))⟩ run ≤ leg.later :=
        left_onReply (Function.update_self ..)
      have hlt : leg.later < w.left run := by
        simp only [State.left, hrun]
        omega
      exact ⟨Nat.le_of_lt (Nat.lt_of_le_of_lt hlater hlt), fun _ => Nat.lt_of_le_of_lt hlater hlt⟩
    · have hleft : State.left ⟨w.server, Function.update w.requests run'
          (some (cfg.onReply leg args sent response))⟩ run = w.left run := by
        simp only [State.left, Function.update_of_ne hself]
      exact ⟨Nat.le_of_eq hleft, fun hserves => (hself hserves.symm).elim⟩
  | @disconnected run' leg args sent call e hrun =>
    refine ⟨?_, False.elim⟩
    by_cases hself : run = run'
    · subst hself
      simp [State.left]
    · simp only [State.left, Function.update_of_ne hself, Nat.le_refl]
  | @server se server hs =>
    have hserver : ServerStep cfg.strategy w.server se (State.server { w with server }) := hs
    obtain ⟨hle, hlt⟩ := left_server hx hserver (rfl : _ = w.requests run)
    refine ⟨hle, ?_⟩
    intro hserves
    cases se with
    | resume call now handler i c => exact hlt call hserves (by simp [ServerEvent.resumes])
    | authenticate | timer | tick => exact hserves.elim

/-! The step that serves a run. -/

/-- The router has no reply only where `sign` throws. -/
theorem unanswered_verdict {v : Verdict MockUser K Bytes}
    (hr : authenticateRouter cfg.token (.ofVerdict v) = none) :
    ∃ user info, v = .success user info ∧ cfg.token user = none := by
  cases v with
  | success user info =>
    exact ⟨user, info, rfl, Option.map_eq_none_iff.mp hr⟩
  | fail challenge status =>
    simp only [authenticateRouter, AuthResult.ofVerdict] at hr
    split at hr
    · cases hr
    · rename_i hinfo _
      cases hinfo
    · cases hr
  | error error => cases hr

/-- A run that has not ended can be served. -/
theorem serves_enabled (hx : cfg.session.Execution h w) (hstarted : w.requests run ≠ none)
    (hgoes : ¬ Ended cfg w run) : cfg.session.Enabled (Serves run) w := by
  cases hrun : w.requests run with
  | none => exact (hstarted hrun).elim
  | some st =>
    cases st with
    | resolved args sent response => exact (hgoes (.resolved hrun)).elim
    | rejected args e => exact (hgoes (.rejected hrun)).elim
    | hanging args e => exact (hgoes (.hanging hrun)).elim
    | awaiting leg args sent call =>
      cases call with
      | none =>
        obtain ⟨n, hn⟩ := calls_bounded (session_server hx)
        have hfree := hn n (Nat.le_refl n)
        obtain ⟨se, w', hstep⟩ : ∃ se w', cfg.session.step w (.arrive run n) =
            some (w', .arrived run leg se) := by
          simp only [Deployment.session, Deployment.step, hrun, Server.step, hfree]
          exact ⟨_, _, rfl⟩
        exact ⟨_, w', ⟨_, hstep⟩, rfl⟩
      | some call =>
        have hwait : WaitsFor w run call := ⟨leg, args, sent, hrun⟩
        obtain ⟨c, hcall⟩ := waited_call hx hwait
        cases c with
        | rejected e => exact (hgoes (.unanswered ⟨call, hwait, .inl ⟨e, hcall⟩⟩)).elim
        | suspended handler =>
          obtain ⟨seed⟩ := awaiting_seed hx hrun
          let i : Inputs K S := ⟨args.clientKey, seed, seed⟩
          obtain ⟨c, w', hstep⟩ : ∃ c w', cfg.session.step w (.server (.resume call i)) =
              some (w', .server (.resume call w.server.now handler i c)) := by
            simp only [Deployment.session, Deployment.step, Server.step, hcall]
            exact ⟨_, _, rfl⟩
          exact ⟨_, w', ⟨_, hstep⟩, hwait⟩
        | settled v =>
          cases hreply : authenticateRouter cfg.token (.ofVerdict v) with
          | none =>
            obtain ⟨user, info, rfl, ht⟩ := unanswered_verdict hreply
            exact (hgoes (.unanswered ⟨call, hwait, .inr ⟨user, info, hcall, ht⟩⟩)).elim
          | some response =>
            obtain ⟨after, w', hstep⟩ : ∃ after w', cfg.session.step w (.receive run) =
                some (w', .received run response after) := by
              simp only [Deployment.session, Deployment.step, hrun, hcall, Deployment.reply,
                hreply]
              exact ⟨_, _, rfl⟩
            exact ⟨_, w', ⟨_, hstep⟩, rfl⟩

/-- However the requests of other clients and the timers are interleaved with it, a started run
ends if its messages are not for ever on their way and its calls not for ever suspended. A lost
connection ends a run where `http` reports it as an error of the request. -/
theorem fair_request_ends {state : ℕ → State K} {event : ℕ → Event K S}
    (hx : cfg.session.Execution h (state 0)) (hstarted : (state 0).requests run ≠ none)
    (he : cfg.session.Endless state event)
    (hfair : cfg.session.WeaklyFair (Serves run) state event) :
    ∃ n, Ended cfg (state n) run := by
  have hgoes : ∀ n, (state n).requests run ≠ none := by
    intro n
    induction n with
    | zero => exact hstarted
    | succ n ih => exact started_step (he n) ih
  have hleft : ∀ n, (state (n + 1)).left run ≤ (state n).left run ∧
      (Serves run (state n) (event n) → (state (n + 1)).left run < (state n).left run) := by
    intro n
    obtain ⟨es, hes⟩ := he.execution hx n
    exact left_step hes (hgoes n) (he n)
  refine hfair.reaches (Ended cfg · run) (State.left · run) ?_ (fun n => (hleft n).1)
    (fun n => (hleft n).2)
  intro n hn
  obtain ⟨es, hes⟩ := he.execution hx n
  exact serves_enabled hes (hgoes n) hn

theorem resolved_not_served {args : HandshakeRun (List Char) K Bytes}
    {sent : ClientSignedMessage (List Char) Bytes} {response : HttpResponse}
    (hrun : w.requests run = some (.resolved args sent response)) :
    ¬ cfg.session.Enabled (Serves run) w := by
  rintro ⟨e, w', hstep, hserves⟩
  cases step_inv hstep with
  | arrived hwaits | received hwaits =>
    obtain rfl := hserves
    cases hrun.symm.trans hwaits
  | @server se server hs =>
    cases se with
    | resume =>
      obtain ⟨leg, args, sent, hwaits⟩ := hserves
      cases hrun.symm.trans hwaits
    | authenticate | timer | tick => exact hserves
  | started | disconnected => exact hserves

/-- Run 0 ends although the challenge of run 1, of the same user, takes the place of its own. -/
theorem fair_request_ends_overlap : ∃ state event, demo.session.Endless state event ∧
    state 0 = demo.session.final ((challengeLeg 0 0).take 1) ∧
    demo.session.WeaklyFair (Serves 0) state event ∧ ∃ n, Ended demo (state n) 0 := by
  let moves := (challengeLeg 0 0).drop 1 ++ challengeLeg 1 1 ++ responseLeg 0 2
  let last := (demo.session.played (demo.session.final ((challengeLeg 0 0).take 1)) moves).1
  have hidle : demo.session.Step last (.server (.tick 0)) last := ⟨.server (.tick 0), rfl⟩
  obtain ⟨args, sent, response, hrun⟩ : ∃ args sent response,
      last.requests 0 = some (.resolved args sent response) := ⟨_, _, _, rfl⟩
  obtain ⟨state, event, he, hfirst, hlast⟩ := Machine.exists_padding hidle
  have hfair : demo.session.WeaklyFair (Serves 0) state event := by
    apply Machine.weaklyFair_of_disabled (n := moves.length)
    intro k hk
    rw [hlast k hk]
    exact resolved_not_served hrun
  have hx := demo.session.final_execution ((challengeLeg 0 0).take 1)
  rw [← hfirst] at hx
  have hstarted : (state 0).requests 0 ≠ none := by
    rw [hfirst]
    exact Option.some_ne_none _
  exact ⟨state, event, he, hfirst, hfair, fair_request_ends hx hstarted he hfair⟩

end Session
end MutualKeyChallenge
