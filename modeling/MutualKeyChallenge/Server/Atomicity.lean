import MutualKeyChallenge.Server.Verdicts
import MutualKeyChallenge.Server.Isolation

/-! Interleaved `authenticate` calls are as if each was handled in one moment. -/
namespace MutualKeyChallenge
open Transition
variable {Req I U K B S : Type} {s : MutualKeyChallengeStrategy Req I U K B S} {id arrived : ℕ}
  {req : Req}

namespace MutualKeyChallengeStrategy

theorem segments_concat {is : List (Inputs K S)} {i : Inputs K S}
    {handler handler' : Handler I U K B} (hs : s.segments is handler = .suspend handler') :
    s.segments (is ++ [i]) handler = s.resume i handler' := by
  induction is generalizing handler with
  | nil =>
    cases hs
    simp only [List.nil_append, segments]
    split
    · rename_i heq
      exact heq.symm
    · rfl
  | cons j is ih =>
    simp only [segments] at hs
    simp only [List.cons_append, segments]
    split at hs
    · exact ih hs
    · rename_i hother
      exact (hother _ hs).elim

/-- A request from its arrival on, with nothing in between; `inputs` are those of its segments. -/
def handle (s : MutualKeyChallengeStrategy Req I U K B S) (arrived : ℕ) (req : Req)
    (inputs : List (Inputs K S)) : Action I U K B :=
  match s.authenticate req arrived with
  | .suspend handler => s.segments inputs handler
  | action => action

theorem handle_nil : s.handle arrived req [] = s.authenticate req arrived := by
  simp only [handle]
  split
  · rename_i handler heq
    exact heq.symm
  · rfl

theorem handle_concat {inputs : List (Inputs K S)} {i : Inputs K S} {handler : Handler I U K B}
    (hs : s.handle arrived req inputs = .suspend handler) :
    s.handle arrived req (inputs ++ [i]) = s.resume i handler := by
  simp only [handle] at hs ⊢
  split at hs
  · exact segments_concat hs
  · rename_i hother
    exact (hother _ hs).elim

end MutualKeyChallengeStrategy

/-- What a request comes to: its verdict, or a rejected promise. -/
def Call.result : Call I U K B → Option (Except Thrown (Verdict U K B))
  | .suspended _ => none
  | .settled v => some (.ok v)
  | .rejected e => some (.error e)

/-- What can be told of an event without knowing how calls are cut into segments. -/
inductive Visible (I U K B : Type)
  | handled (id : ℕ) (result : Except Thrown (Verdict U K B))
  | timer (t : ℕ) (running : Timer I)
  | tick (ms : ℕ)

def ServerEvent.visible : ServerEvent Req I U K B S → Option (Visible I U K B)
  | .authenticate id _ _ after => after.result.map (.handled id)
  | .resume id _ _ _ after => after.result.map (.handled id)
  | .timer t running _ => some (.timer t running)
  | .tick ms => some (.tick ms)

/-- The clock and the cache are all that such a server needs. -/
structure AtomicServer (I B : Type) where
  now : ℕ
  cache : LocalChallengeCache I B

inductive AtomicMove (Req K S : Type)
  | handle (id arrived : ℕ) (req : Req) (inputs : List (Inputs K S))
  | timer (t : ℕ)
  | tick (ms : ℕ)

inductive AtomicEvent (Req I U K B : Type)
  | handled (id arrived : ℕ) (req : Req) (result : Except Thrown (Verdict U K B))
  | timer (t : ℕ) (running : Timer I)
  | tick (ms : ℕ)

def AtomicEvent.visible : AtomicEvent Req I U K B → Visible I U K B
  | .handled id _ _ result => .handled id result
  | .timer t running => .timer t running
  | .tick ms => .tick ms

variable [DecidableEq I] [DecidableEq B] {ttlMs : ℕ}

def AtomicServer.step (s : MutualKeyChallengeStrategy Req I U K B S) (a : AtomicServer I B) :
    AtomicMove Req K S → Option (AtomicServer I B × AtomicEvent Req I U K B)
  | .handle id arrived req inputs =>
    let p := (s.handle arrived req inputs).perform a.now a.cache
    match p.1.result with
    | some result => some ({ a with cache := p.2 }, .handled id arrived req result)
    | none => none
  | .timer t =>
    match a.cache.timers t, a.cache.fire t a.now with
    | some running, some cache => some ({ a with cache }, .timer t running)
    | _, _ => none
  | .tick ms => some ({ a with now := a.now + ms }, .tick ms)

/-- The strategy with its cache, one request after the other. -/
def atomicMachine (s : MutualKeyChallengeStrategy Req I U K B S) (ttlMs : ℕ) :
    Machine (AtomicServer I B) (AtomicMove Req K S) (AtomicEvent Req I U K B) where
  init := { now := 0, cache := .new ttlMs }
  step := AtomicServer.step s

/-- `es` is a run of the atomic server that explains `h`: it leads to the same clock and cache, with
the same outcomes in the same order, each at the end of its call and for the request that arrived
with it. -/
structure Linearizes (s : MutualKeyChallengeStrategy Req I U K B S) (ttlMs : ℕ)
    (h : List (ServerEvent Req I U K B S)) (w : Server I U K B)
    (es : List (AtomicEvent Req I U K B)) : Prop where
  execution : (atomicMachine s ttlMs).Execution es ⟨w.now, w.cache⟩
  visible : es.map AtomicEvent.visible = h.filterMap ServerEvent.visible
  received : ∀ id arrived req result, .handled id arrived req result ∈ es →
    Received h id arrived req

variable {h : List (ServerEvent Req I U K B S)} {e : ServerEvent Req I U K B S}
  {w w' : Server I U K B} {es : List (AtomicEvent Req I U K B)} {d : AtomicEvent Req I U K B}

theorem Linearizes.silent (hl : Linearizes s ttlMs h w es) (hnow : w'.now = w.now)
    (hcache : w'.cache = w.cache) (he : e.visible = none) :
    Linearizes s ttlMs (h ++ [e]) w' es where
  execution := by
    rw [hnow, hcache]
    exact hl.execution
  visible := by rw [List.filterMap_append, hl.visible]; simp [he]
  received := fun id arrived req result hd =>
    (hl.received id arrived req result hd).grow (List.prefix_append h [e])

theorem Linearizes.shows (hl : Linearizes s ttlMs h w es)
    (hstep : (atomicMachine s ttlMs).Step ⟨w.now, w.cache⟩ d ⟨w'.now, w'.cache⟩)
    (he : e.visible = some d.visible)
    (hreceived : ∀ id arrived req result, d = .handled id arrived req result →
      Received (h ++ [e]) id arrived req) : Linearizes s ttlMs (h ++ [e]) w' (es ++ [d]) where
  execution := hl.execution.snoc hstep
  visible := by rw [List.map_append, List.filterMap_append, hl.visible]; simp [he]
  received := by
    intro id arrived req result hd
    rcases List.mem_append.mp hd with hd | hd
    · exact (hl.received id arrived req result hd).grow (List.prefix_append h [e])
    · exact hreceived id arrived req result (List.mem_singleton.mp hd).symm

/-- A suspended call is where its segments so far would have brought it in one go. -/
def Unfolds (s : MutualKeyChallengeStrategy Req I U K B S) (h : List (ServerEvent Req I U K B S))
    (id : ℕ) (call : Option (Call I U K B)) : Prop :=
  ∀ handler, call = some (.suspended handler) → ∃ arrived req inputs,
    Received h id arrived req ∧ s.handle arrived req inputs = .suspend handler

theorem unfolds_step (hs : ServerStep s w e w') (hu : ∀ id, Unfolds s h id (w.calls id)) :
    ∀ id, Unfolds s (h ++ [e]) id (w'.calls id) := by
  intro id handler' hcall'
  by_cases he : e.callId = some id
  · cases hs with
    | @authenticate id' req call cache hfree hp =>
      cases he
      simp only [Function.update_self, Option.some.injEq] at hcall'
      subst hcall'
      exact ⟨w.now, req, [], received_concat.mpr (Or.inr ⟨_, rfl⟩),
        MutualKeyChallengeStrategy.handle_nil.trans (perform_suspended hp).1⟩
    | @resume id' inputs handler call cache hcall hp =>
      cases he
      simp only [Function.update_self, Option.some.injEq] at hcall'
      subst hcall'
      obtain ⟨arrived, req, is, hr, hhandle⟩ := hu id handler hcall
      refine ⟨arrived, req, is ++ [inputs], hr.grow (List.prefix_append h _), ?_⟩
      rw [MutualKeyChallengeStrategy.handle_concat hhandle]
      exact (perform_suspended hp).1
    | timer | tick => cases he
  · rw [other_call hs he] at hcall'
    obtain ⟨arrived, req, is, hr, hhandle⟩ := hu id handler' hcall'
    exact ⟨arrived, req, is, hr.grow (List.prefix_append h [e]), hhandle⟩

/-- The last segment of a call is where the whole call may be thought to happen. -/
theorem linearizes_step (hu : ∀ id, Unfolds s h id (w.calls id)) (hs : ServerStep s w e w')
    (hl : Linearizes s ttlMs h w es) : ∃ es', Linearizes s ttlMs (h ++ [e]) w' es' := by
  cases hs with
  | @authenticate id req call cache hfree hp =>
    cases hresult : call.result with
    | none =>
      exact ⟨es, hl.silent rfl (authenticate_cache hp) (by simp [ServerEvent.visible, hresult])⟩
    | some result =>
      refine ⟨es ++ [.handled id w.now req result], hl.shows ⟨.handle id w.now req [], ?_⟩
        (by simp [ServerEvent.visible, hresult, AtomicEvent.visible]) ?_⟩
      · simp only [atomicMachine, AtomicServer.step, MutualKeyChallengeStrategy.handle_nil, hp,
          hresult]
      · intro id' arrived req' result' heq
        cases heq
        exact received_concat.mpr (Or.inr ⟨_, rfl⟩)
  | @resume id inputs handler call cache hcall hp =>
    cases hresult : call.result with
    | none =>
      cases call with
      | suspended handler' =>
        exact ⟨es, hl.silent rfl (perform_suspended hp).2 (by simp [ServerEvent.visible, hresult])⟩
      | settled | rejected => cases hresult
    | some result =>
      obtain ⟨arrived, req, is, hr, hhandle⟩ := hu id handler hcall
      refine ⟨es ++ [.handled id arrived req result],
        hl.shows ⟨.handle id arrived req (is ++ [inputs]), ?_⟩
          (by simp [ServerEvent.visible, hresult, AtomicEvent.visible]) ?_⟩
      · simp only [atomicMachine, AtomicServer.step,
          MutualKeyChallengeStrategy.handle_concat hhandle, hp, hresult]
      · intro id' arrived' req' result' heq
        cases heq
        exact hr.grow (List.prefix_append h _)
  | @timer t running cache ht hf =>
    refine ⟨es ++ [.timer t running], hl.shows ⟨.timer t, ?_⟩ rfl (by simp)⟩
    simp only [atomicMachine, AtomicServer.step, ht, hf]
  | @tick ms => exact ⟨es ++ [.tick ms], hl.shows ⟨.tick ms, rfl⟩ rfl (by simp)⟩

theorem calls_unfold (hx : (serverMachine s ttlMs).Execution h w) :
    ∀ id, Unfolds s h id (w.calls id) := by
  apply Machine.Execution.invariant (P := fun h (w : Server I U K B) =>
    ∀ id, Unfolds s h id (w.calls id)) ?_ ?_ hx
  · intro id handler hcall
    cases hcall
  · intro h w e w' _ hu hstep
    exact unfolds_step (server_step_inv hstep) hu

/-- However calls are interleaved, the server does what it would do if it handled every request at
the moment of its call's last segment and nothing came in between. -/
theorem authenticate_atomic (hx : (serverMachine s ttlMs).Execution h w) :
    ∃ es, Linearizes s ttlMs h w es := by
  apply Machine.Execution.invariant (P := fun h (w : Server I U K B) =>
    ∃ es, Linearizes s ttlMs h w es) ?_ ?_ hx
  · exact ⟨[], ⟨.init, rfl, fun _ _ _ _ hd => by cases hd⟩⟩
  · rintro h w e w' hx ⟨es, hl⟩ hstep
    exact linearizes_step (calls_unfold hx) (server_step_inv hstep) hl

/-- Two challenges of user 1 in turns, segment by segment, and a response that began before them. -/
def inTurns : List (ServerMove (Extracted ℕ ℕ) ℕ ℕ) :=
  [.authenticate 2 (.clientResponse ⟨1, ⟨71, 72⟩⟩), .resume 2 ⟨0, 0, 0⟩,
    .authenticate 0 (.clientChallenge ⟨1, ⟨5, 6⟩, 0⟩), .tick 1,
    .authenticate 1 (.clientChallenge ⟨1, ⟨5, 6⟩, 1⟩)] ++
    (List.replicate 7 [.resume 0 ⟨0, 70, 0⟩, .resume 1 ⟨0, 71, 0⟩]).flatten ++
    List.replicate 2 (.resume 2 ⟨0, 0, 0⟩)

theorem authenticate_atomic_inTurns :
    ∃ es, Linearizes openStrategy 10 ((serverMachine openStrategy 10).history inTurns)
      ((serverMachine openStrategy 10).final inTurns) es :=
  authenticate_atomic ((serverMachine openStrategy 10).final_execution inTurns)

end MutualKeyChallenge
