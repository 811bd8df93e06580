import AdvancedInterrupts.Software.Handlers
import AdvancedInterrupts.Software.TrapEntry

/-!
# Running interrupt software

A machine runs routines on a stack. Each step performs one request of the
routine on top, so that handlers may call the trap entry or the dispatch again,
to any depth, and whatever happens between two accesses can be observed. The
flags of the trap entries are accessed in the steps that call a trap and return
from it, as the programs of the trap entry say.
-/
namespace AdvancedInterrupts

/-- The parts that interrupt software runs on: its controllers and handlers, and how a state `σ` of
everything else answers requests and takes note of events. -/
structure Platform (ι κ : Type) (E : Interface) (σ : Type) where
  controller : ι → Controller E
  /-- What a handler does for an identity. -/
  behaviour : κ → Nat → Program (software ι κ E) Unit
  device : Service E σ
  csr : Service trapCsrs σ
  report : Notice → σ → σ
  /-- Takes note that a handler starts for an identity. -/
  started : κ → Nat → σ → σ

/-- A routine that has not returned yet, and what is left of it. There is no routine when the
machine runs a program on its own. -/
structure Frame (ι κ : Type) (E : Interface) where
  routine : Option (Routine ι κ)
  rest : Program (software ι κ E) Outcome

structure Machine (ι κ : Type) (E : Interface) (σ : Type) where
  world : σ
  handlers : HandlerTable κ
  /-- The harts that are inside a trap entry, with its controller. -/
  inTrap : List (ι × Nat)
  stack : List (Frame ι κ E)

namespace Routine

variable {ι κ σ : Type} {E : Interface}

/-- The accesses to flags with which a call begins, and why the routine does not start, if so. -/
def enter : Routine ι κ → Program (trapFlags ι) (Option Notice)
  | trap controller hart => TrapEntry.enter controller hart
  | _ => pure none

/-- The accesses to flags with which a routine returns. -/
def leave (outcome : Outcome) : Routine ι κ → Program (trapFlags ι) Unit
  | trap controller hart =>
    match outcome with
    | .released => TrapEntry.leave controller hart
    | _ => pure ()
  | _ => pure ()

def program (p : Platform ι κ E σ) : Routine ι κ → Program (software ι κ E) Outcome
  | trap controller hart =>
    TrapEntry.handle (p.controller controller).causeRegister controller hart
  | drain controller hart => Software.drainRound (p.controller controller) hart
  | dispatch identity => (fun _ => .finished) <$> Software.dispatch identity
  | handler h identity => (fun _ => .finished) <$> p.behaviour h identity

end Routine

namespace Machine

variable {ι κ σ : Type} {E : Interface} [DecidableEq ι]

/-- Whether a hart is inside a trap entry. -/
def trapState (inTrap : List (ι × Nat)) (controller : ι) (hart : Nat) : TrapState :=
  if (controller, hart) ∈ inTrap then .inTrap else .normal

/-- The flags, as the list of those that are set. -/
def flagService : Service (trapFlags ι) (List (ι × Nat))
  | .swap controller hart, inTrap =>
    (trapState inTrap controller hart, inTrap.insert (controller, hart))
  | .clear controller hart, inTrap => ((), inTrap.erase (controller, hart))

/-- Why a routine does not start, if it does not. -/
def refusal (inTrap : List (ι × Nat)) (routine : Routine ι κ) : Option Notice :=
  (routine.enter.run flagService inTrap).1

/-- The harts inside a trap entry after the call of a routine. -/
def entered (inTrap : List (ι × Nat)) (routine : Routine ι κ) : List (ι × Nat) :=
  (routine.enter.run flagService inTrap).2

/-- The harts inside a trap entry once a routine has returned. -/
def left (inTrap : List (ι × Nat)) (routine : Routine ι κ) (outcome : Outcome) : List (ι × Nat) :=
  ((routine.leave outcome).run flagService inTrap).2

/-- The events of the start of a routine. -/
def noteStart (p : Platform ι κ E σ) (world : σ) : Routine ι κ → σ
  | .handler h identity => p.started h identity world
  | _ => world

/-- Starts a routine, with `stack` to return to, or reports why it does not start. -/
def start (p : Platform ι κ E σ) (routine : Routine ι κ) (world : σ) (handlers : HandlerTable κ)
    (inTrap : List (ι × Nat)) (stack : List (Frame ι κ E)) : Machine ι κ E σ :=
  match refusal inTrap routine with
  | some notice => ⟨p.report notice world, handlers, entered inTrap routine, stack⟩
  | none =>
    ⟨noteStart p world routine, handlers, entered inTrap routine,
      ⟨some routine, routine.program p⟩ :: stack⟩

/-- The end of the program of a frame: its routine starts once more or returns. -/
def finish (p : Platform ι κ E σ) (outcome : Outcome) (routine : Option (Routine ι κ))
    (world : σ) (handlers : HandlerTable κ) (inTrap : List (ι × Nat))
    (stack : List (Frame ι κ E)) : Machine ι κ E σ :=
  match routine, outcome with
  | some r, .again => ⟨world, handlers, inTrap, ⟨some r, r.program p⟩ :: stack⟩
  | some r, outcome => ⟨world, handlers, left inTrap r outcome, stack⟩
  | none, _ => ⟨world, handlers, inTrap, stack⟩

/-- One step: the request of the frame on top, or its return. A machine without frames stays as
it is. -/
def step (p : Platform ι κ E σ) : Machine ι κ E σ → Machine ι κ E σ
  | ⟨world, handlers, inTrap, []⟩ => ⟨world, handlers, inTrap, []⟩
  | ⟨world, handlers, inTrap, ⟨routine, .done outcome⟩ :: stack⟩ =>
    finish p outcome routine world handlers inTrap stack
  | ⟨world, handlers, inTrap, ⟨routine, .ask request next⟩ :: stack⟩ =>
    match request, next with
    | .device op, next =>
      let answered := p.device op world
      ⟨answered.2, handlers, inTrap, ⟨routine, next answered.1⟩ :: stack⟩
    | .csr op, next =>
      let answered := p.csr op world
      ⟨answered.2, handlers, inTrap, ⟨routine, next answered.1⟩ :: stack⟩
    | .report notice, next =>
      ⟨p.report notice world, handlers, inTrap, ⟨routine, next ()⟩ :: stack⟩
    | .lookup identity, next =>
      ⟨world, handlers, inTrap, ⟨routine, next (handlers.get identity)⟩ :: stack⟩
    | .install identity handler, next =>
      ⟨world, handlers.set identity (some handler), inTrap, ⟨routine, next ()⟩ :: stack⟩
    | .remove identity, next =>
      ⟨world, handlers.set identity none, inTrap, ⟨routine, next ()⟩ :: stack⟩
    | .trapState controller hart, next =>
      ⟨world, handlers, inTrap,
        ⟨routine, next (trapState inTrap controller hart)⟩ :: stack⟩
    | .call called, next =>
      start p called world handlers inTrap (⟨routine, next ()⟩ :: stack)

section Steps

variable (p : Platform ι κ E σ) (w : σ) (hs : HandlerTable κ) (t : List (ι × Nat))
  (r : Option (Routine ι κ)) (stack : List (Frame ι κ E))

@[simp] theorem step_nil : step p ⟨w, hs, t, []⟩ = ⟨w, hs, t, []⟩ := rfl

@[simp] theorem step_done (o : Outcome) :
    step p ⟨w, hs, t, ⟨r, .done o⟩ :: stack⟩ = finish p o r w hs t stack := rfl

@[simp] theorem step_device (op : E.Op) (k : E.Answer op → Program (software ι κ E) Outcome) :
    step p ⟨w, hs, t, ⟨r, .ask (Request.device op) k⟩ :: stack⟩ =
      ⟨(p.device op w).2, hs, t, ⟨r, k (p.device op w).1⟩ :: stack⟩ := rfl

@[simp] theorem step_csr (op : TrapCsr) (k : op.Answer → Program (software ι κ E) Outcome) :
    step p ⟨w, hs, t, ⟨r, .ask (Request.csr op) k⟩ :: stack⟩ =
      ⟨(p.csr op w).2, hs, t, ⟨r, k (p.csr op w).1⟩ :: stack⟩ := rfl

@[simp] theorem step_lookup (i : Nat) (k : Option κ → Program (software ι κ E) Outcome) :
    step p ⟨w, hs, t, ⟨r, .ask (Request.lookup i) k⟩ :: stack⟩ =
      ⟨w, hs, t, ⟨r, k (hs.get i)⟩ :: stack⟩ := rfl

@[simp] theorem step_call (c : Routine ι κ) (k : Unit → Program (software ι κ E) Outcome) :
    step p ⟨w, hs, t, ⟨r, .ask (Request.call c) k⟩ :: stack⟩ =
      start p c w hs t (⟨r, k ()⟩ :: stack) := rfl

end Steps

/-- Steps until no frame is left, at most as often as the bound says. -/
def run (p : Platform ι κ E σ) : Nat → Machine ι κ E σ → Machine ι κ E σ
  | 0, m => m
  | n + 1, m => if m.stack.isEmpty then m else run p n (m.step p)

/-- The machine about to run a program, on top of what it is doing. -/
def load (program : Program (software ι κ E) Unit) (m : Machine ι κ E σ) : Machine ι κ E σ :=
  { m with stack := ⟨none, (fun _ => .finished) <$> program⟩ :: m.stack }

end Machine

end AdvancedInterrupts
