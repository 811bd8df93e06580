import AdvancedInterrupts.Proofs.OwnRequests

/-!
# The history of the handler table

Handlers are registered and removed by whatever runs, handlers included, and also
for the identity that they run for. So a run of the machine has one history of
registrations, whichever routines made them, and the table is a function of it:
an identity has the handler that was registered last, unless that was removed or
the table has no slot for the identity. A dispatch looks this handler up once and
calls it once; what becomes of the table afterwards, also while the handler runs,
is left to the next lookup.
-/
namespace AdvancedInterrupts

/-- A handler that was registered for an identity, or the removal of the one it had. -/
structure Registration (κ : Type) where
  identity : Nat
  handler : Option κ
deriving DecidableEq, Repr

section

variable {κ : Type}

/-- The handler that an identity has after some registrations, of which the latest is the first in
the list. -/
def handlerAfter (past : List (Registration κ)) (identity : Nat) : Option κ :=
  if identity < handlerSlots then
    (past.find? fun x => decide (x.identity = identity)).bind Registration.handler
  else none

theorem handlerAfter_nil (identity : Nat) :
    handlerAfter ([] : List (Registration κ)) identity = none :=
  ite_self none

theorem handlerAfter_cons (x : Registration κ) (past : List (Registration κ)) (identity : Nat) :
    handlerAfter (x :: past) identity =
      if x.identity = identity ∧ identity < handlerSlots then x.handler
      else handlerAfter past identity := by
  by_cases hslot : identity < handlerSlots
  · by_cases hx : x.identity = identity <;> simp [handlerAfter, hslot, hx]
  · simp [handlerAfter, hslot]

end

/-- The registration that a request asks for, if it asks for one. -/
def Request.registration? {ι κ : Type} {E : Interface} : Request ι κ E → Option (Registration κ)
  | install identity handler => some ⟨identity, some handler⟩
  | remove identity => some ⟨identity, none⟩
  | _ => none

/-- What a dispatch asks for once it has looked the handler of its identity up. -/
def Request.afterLookup {ι κ : Type} {E : Interface} (identity : Nat) :
    Option κ → Request ι κ E
  | some handler => call (.handler handler identity)
  | none => report (.unhandled identity)

namespace Machine

variable {ι κ σ : Type} {E : Interface} [DecidableEq ι]

/-- The registration that the next step makes, if it makes one. -/
def registering? (m : Machine ι κ E σ) : Option (Registration κ) :=
  match m.stack with
  | ⟨_, .ask request _⟩ :: _ => request.registration?
  | _ => none

variable (p : Platform ι κ E σ) {m : Machine ι κ E σ} {r : Option (Routine ι κ)}
  {below : List (Frame ι κ E)} {past : List (Registration κ)} {e : Nat} {handler : κ}

/-- The registrations of a number of steps, the latest first. -/
def history : Nat → Machine ι κ E σ → List (Registration κ)
  | 0, _ => []
  | n + 1, m => (run p n m).registering?.toList ++ history n m

/-- The dispatch of an identity, if it were called now, would start the handler. -/
def WouldStart (e : Nat) (handler : κ) (m : Machine ι κ E σ) : Prop :=
  ∃ caller, (run p 3 (m.load (Request.run (.dispatch e)))).stack =
    ⟨some (.handler handler e), (Routine.handler handler e).program p⟩ :: caller

/-! ### The table -/

theorem handlers_start (routine : Routine ι κ) (w : σ) (hs : HandlerTable κ) (t : List (ι × Nat))
    (stack : List (Frame ι κ E)) : (start p routine w hs t stack).handlers = hs := by
  unfold start
  split <;> rfl

theorem handlers_finish (outcome : Outcome) (w : σ) (hs : HandlerTable κ) (t : List (ι × Nat))
    (stack : List (Frame ι κ E)) : (finish p outcome r w hs t stack).handlers = hs := by
  unfold finish
  split <;> rfl

/-- Only a registration changes the table. -/
theorem handlers_step (m : Machine ι κ E σ) : (step p m).handlers =
    m.registering?.elim m.handlers fun x => m.handlers.set x.identity x.handler := by
  obtain ⟨w, hs, t, stack⟩ := m
  cases stack with
  | nil => rfl
  | cons f below =>
    obtain ⟨r, rest⟩ := f
    cases rest with
    | done outcome => exact handlers_finish p outcome w hs t below
    | ask request next =>
      cases request with
      | call called => exact handlers_start p called w hs t _
      | device op => rfl
      | csr op => rfl
      | report notice => rfl
      | lookup identity => rfl
      | install identity handler => rfl
      | remove identity => rfl
      | trapState controller hart => rfl

/-- A step keeps the table in line with the history. -/
theorem get_step (h : ∀ e, m.handlers.get e = handlerAfter past e) (e : Nat) :
    (step p m).handlers.get e = handlerAfter (m.registering?.toList ++ past) e := by
  rw [handlers_step]
  cases m.registering? with
  | none => exact h e
  | some x =>
    rw [Option.elim_some, Table.get_set, h, Option.toList_some, List.singleton_append,
      handlerAfter_cons]

/-- The table is what the history says, at any time of a run that starts with an empty one. -/
theorem get_run (hm : m.handlers = .fill handlerSlots none) (n e : Nat) :
    (run p n m).handlers.get e = handlerAfter (history p n m) e := by
  induction n generalizing e with
  | zero =>
    rw [run_zero, hm, history, handlerAfter_nil]
    exact Table.get_fill_default e
  | succ n ih =>
    rw [run_succ_last, history]
    exact get_step p ih e

/-! ### A dispatch -/

/-- A dispatch makes two requests: the lookup, and the call of the handler that it found. -/
theorem makes_dispatch
    (hm : m.stack = ⟨some (.dispatch e), (Routine.dispatch e).program p⟩ :: below) :
    Makes p below [.lookup e, .afterLookup e (m.handlers.get e)] m := by
  have hmid : Midway (.dispatch e) below [] [.afterLookup e (m.handlers.get e)] (step p m) := by
    obtain ⟨w, hs, t, stack⟩ := m
    subst hm
    simp only [Routine.program, Software.dispatch, Software.handler?, Program.ask_bind,
      Program.done_bind, Program.map_ask, step_lookup]
    cases hs.get e with
    | some handler =>
      exact ⟨[], _, .finished, rfl, Program.issues_perform (I := software ι κ E) (.call _),
        by decide, fun habove => absurd rfl habove⟩
    | none =>
      exact ⟨[], _, .finished, rfl, Program.issues_perform (I := software ι κ E) (.report _),
        by decide, fun habove => absurd rfl habove⟩
  exact .of_step_ask p hm hmid.makes

section Called

variable {next : Unit → Program (software ι κ E) Outcome}
  (hm : m.stack = ⟨r, .ask (Request.call (.dispatch e)) next⟩ :: below)
include hm

theorem makes_called : Makes p (⟨r, next ()⟩ :: below)
    [.lookup e, .afterLookup e (m.handlers.get e)] (step p m) := by
  have hstack : (step p m).stack =
      ⟨some (.dispatch e), (Routine.dispatch e).program p⟩ :: ⟨r, next ()⟩ :: below := by
    rw [step_dispatch p hm]
  have hhandlers : (step p m).handlers = m.handlers := by rw [step_dispatch p hm]
  rw [← hhandlers]
  exact makes_dispatch p hstack

/-- A dispatch that is called has started the handler of its identity after two more steps. -/
theorem run_called_some (h : m.handlers.get e = some handler) : run p 3 m = { m with
    world := p.started handler e m.world
    stack := ⟨some (.handler handler e), (Routine.handler handler e).program p⟩ ::
      ⟨some (.dispatch e), .done .finished⟩ :: ⟨r, next ()⟩ :: below } := by
  rw [run_succ, step_dispatch p hm, run_dispatch p e rfl]
  simp only [h]

/-- Without a handler nothing is left to do by then. -/
theorem run_called_none (h : m.handlers.get e = none) : run p 3 m = { m with
    world := p.report (.unhandled e) m.world
    stack := ⟨some (.dispatch e), .done .finished⟩ :: ⟨r, next ()⟩ :: below } := by
  rw [run_succ, step_dispatch p hm, run_dispatch p e rfl]
  simp only [h]

end Called

theorem wouldStart_iff : WouldStart p e handler m ↔ m.handlers.get e = some handler := by
  have hm : (m.load (Request.run (.dispatch e))).stack =
      ⟨none, .ask (Request.call (.dispatch e)) fun _ => .done .finished⟩ :: m.stack := rfl
  constructor
  · rintro ⟨caller, hcaller⟩
    cases hfound : m.handlers.get e with
    | none =>
      rw [run_called_none p hm hfound] at hcaller
      simp at hcaller
    | some found =>
      rw [run_called_some p hm hfound] at hcaller
      simp only [List.cons.injEq, Frame.mk.injEq, Option.some.injEq,
        Routine.handler.injEq] at hcaller
      rw [hcaller.1.1.1]
  · intro hfound
    exact ⟨_, by rw [run_called_some p hm hfound]⟩

/-- After some registrations, a machine uses its table as they say. -/
structure FollowsHistory (past : List (Registration κ)) (m : Machine ι κ E σ) : Prop where
  /-- Every identity has the handler that was registered last. -/
  handlers (e : Nat) : m.handlers.get e = handlerAfter past e
  /-- A handler that is set becomes part of the history if the table has a slot for it, and changes
  nothing otherwise. -/
  set {r : Option (Routine ι κ)} {e : Nat} {handler : κ}
    {next : Unit → Program (software ι κ E) Outcome} {below : List (Frame ι κ E)}
    (hm : m.stack = ⟨r, Software.setHandler e handler >>= next⟩ :: below) :
    (step p m).stack = ⟨r, next ()⟩ :: below ∧
      (e < handlerSlots → m.registering? = some ⟨e, some handler⟩) ∧
      (handlerSlots ≤ e → (step p m).handlers = m.handlers)
  /-- So does the removal of one. -/
  clear {r : Option (Routine ι κ)} {e : Nat}
    {next : Unit → Program (software ι κ E) Outcome} {below : List (Frame ι κ E)}
    (hm : m.stack = ⟨r, Software.clearHandler e >>= next⟩ :: below) :
    (step p m).stack = ⟨r, next ()⟩ :: below ∧ m.registering? = some ⟨e, none⟩ ∧
      (handlerSlots ≤ e → (step p m).handlers = m.handlers)
  /-- Whether there is a handler is whether a dispatch would start one. -/
  has {r : Option (Routine ι κ)} {e : Nat}
    {next : Bool → Program (software ι κ E) Outcome} {below : List (Frame ι κ E)}
    (hm : m.stack = ⟨r, Software.hasHandler e >>= next⟩ :: below) :
    ∃ answer, step p m = { m with stack := ⟨r, next answer⟩ :: below } ∧
      (answer = true ↔ ∃ handler, WouldStart p e handler m)
  /-- A dispatch calls the handler that was registered last, with its identity and once. -/
  handled {r : Option (Routine ι κ)} {e : Nat} {handler : κ}
    {next : Unit → Program (software ι κ E) Outcome} {below : List (Frame ι κ E)}
    (hm : m.stack = ⟨r, .ask (Request.call (.dispatch e)) next⟩ :: below)
    (h : handlerAfter past e = some handler) :
    Makes p (⟨r, next ()⟩ :: below) [.lookup e, .call (.handler handler e)] (step p m) ∧
      run p 3 m = { m with
        world := p.started handler e m.world
        stack := ⟨some (.handler handler e), (Routine.handler handler e).program p⟩ ::
          ⟨some (.dispatch e), .done .finished⟩ :: ⟨r, next ()⟩ :: below }
  /-- If there is none it calls nothing. -/
  unhandled {r : Option (Routine ι κ)} {e : Nat}
    {next : Unit → Program (software ι κ E) Outcome} {below : List (Frame ι κ E)}
    (hm : m.stack = ⟨r, .ask (Request.call (.dispatch e)) next⟩ :: below)
    (h : handlerAfter past e = none) :
    Makes p (⟨r, next ()⟩ :: below) [.lookup e, .report (.unhandled e)] (step p m) ∧
      run p 4 m = { m with
        world := p.report (.unhandled e) m.world
        stack := ⟨r, next ()⟩ :: below }

/-- A machine follows the history of its registrations if its table does. -/
theorem followsHistory_of_handlers (h : ∀ e, m.handlers.get e = handlerAfter past e) :
    FollowsHistory p past m := by
  constructor
  case handlers => exact h
  case set =>
    intro r e handler next below hm
    obtain ⟨w, hs, t, stack⟩ := m
    subst hm
    unfold Software.setHandler
    by_cases hslot : e < handlerSlots
    · rw [if_pos hslot]
      exact ⟨rfl, fun _ => rfl, fun hle => absurd hslot (Nat.not_lt.mpr hle)⟩
    · rw [if_neg hslot]
      exact ⟨rfl, fun hlt => absurd hlt hslot, fun _ => rfl⟩
  case clear =>
    intro r e next below hm
    obtain ⟨w, hs, t, stack⟩ := m
    subst hm
    exact ⟨rfl, rfl, fun hle => dif_neg (Nat.not_lt.mpr hle)⟩
  case has =>
    intro r e next below hm
    refine ⟨(m.handlers.get e).isSome, ?_, ?_⟩
    · obtain ⟨w, hs, t, stack⟩ := m
      subst hm
      rfl
    · rw [Option.isSome_iff_exists]
      exact exists_congr fun handler => (wouldStart_iff p).symm
  case handled =>
    intro r e handler next below hm hpast
    have hfound : m.handlers.get e = some handler := (h e).trans hpast
    refine ⟨?_, run_called_some p hm hfound⟩
    have hmakes := makes_called p hm
    rwa [hfound] at hmakes
  case unhandled =>
    intro r e next below hm hpast
    have hfound : m.handlers.get e = none := (h e).trans hpast
    refine ⟨?_, ?_⟩
    · have hmakes := makes_called p hm
      rwa [hfound] at hmakes
    · rw [run_succ_last, run_called_none p hm hfound]
      rfl

/-- Whatever runs on a machine that starts with an empty table, and however its handlers register,
remove and dispatch others while they run, it follows the history of the registrations made so far,
before each of its steps. -/
theorem follows_history (m : Machine ι κ E σ) (n : Nat) :
    let fresh : Machine ι κ E σ := { m with handlers := .fill handlerSlots none }
    FollowsHistory p (history p n fresh) (run p n fresh) :=
  followsHistory_of_handlers p fun e => get_run p rfl n e

/-- The first handler puts the second in its place, dispatches its own identity and removes what it
finds there. The handlers that start are kept with their identities. -/
def replacingPlatform : Platform Unit Bool ⟨Empty, fun _ => Unit⟩ (List (Bool × Nat)) where
  controller _ :=
    ⟨.done (), fun _ => .done (), fun _ _ => .done (), fun _ => .done .spurious, .scause⟩
  behaviour first identity :=
    if first then do
      Software.setHandler identity false
      Request.run (.dispatch identity)
      Software.clearHandler identity
    else pure ()
  device op _ := op.elim
  csr
    | .scause, w => (0, w)
    | .stopi, w => (0, w)
    | .clearSoftPending, w => ((), w)
    | .setExternalEnabled _, w => ((), w)
  report _ w := w
  started handler identity w := w ++ [(handler, identity)]

/-- Of the two dispatches of identity 7 the first starts both handlers and the second none. The
table has no slot for identity 2000. -/
example :
    let program : Program (software Unit Bool ⟨Empty, fun _ => Unit⟩) Unit := do
      Software.setHandler 7 true
      Software.setHandler 2000 true
      Request.run (.dispatch 7)
      Request.run (.dispatch 7)
      Request.run (.dispatch 2000)
    let m := load program ⟨[], .fill handlerSlots none, [], []⟩
    (run replacingPlatform 30 m).stack.isEmpty = true ∧
      (run replacingPlatform 30 m).world = [(true, 7), (false, 7)] ∧
      history replacingPlatform 30 m = [⟨7, none⟩, ⟨7, some false⟩, ⟨7, some true⟩] := by
  decide +kernel

end Machine

end AdvancedInterrupts
