import AdvancedInterrupts.Aplic.Controller
import AdvancedInterrupts.Proofs.DomainAction
import AdvancedInterrupts.Proofs.DriverWindow
import AdvancedInterrupts.Proofs.MachineRun

/-!
# Platforms around an emulated domain

A platform whose controllers are handles on one emulated domain. The software on
it, handlers included, may drive the domain through its window, act on it in any
other way, and do anything else that does not concern the domain. Each step of
its machine therefore changes the domain by at most one access.
-/
namespace AdvancedInterrupts

/-- An operation of the software around an emulated domain. -/
inductive PlatformOp (F : Interface) where
  /-- A step of a driver of the domain. -/
  | driver (op : WindowAccess)
  /-- Any access to the domain, an injection for instance. -/
  | access (access : EmulatedAccess)
  /-- An operation that does not concern the domain. -/
  | other (op : F.Op)

abbrev PlatformOp.Answer {F : Interface} : PlatformOp F → Type
  | driver op => op.Answer
  | access _ => Option Word
  | other op => F.Answer op

/-- The interface of the software around an emulated domain. -/
abbrev platformOps (F : Interface) : Interface := ⟨PlatformOp F, PlatformOp.Answer⟩

/-- A platform whose controllers are handles on one emulated domain. Everything else has states of
type `τ`. -/
structure EmulatedPlatform (ι κ : Type) (F : Interface) (τ : Type) where
  handle : ι → Aplic
  /-- What a handler does for an identity. -/
  behaviour : κ → Nat → Program (software ι κ (platformOps F)) Unit
  other : Service F τ
  csr : Service trapCsrs τ
  report : Notice → τ → τ
  /-- Takes note that a handler starts for an identity. -/
  started : κ → Nat → τ → τ

namespace EmulatedPlatform

variable {ι κ τ : Type} {F : Interface} (P : EmulatedPlatform ι κ F τ)

/-- What a step of a driver makes of the things besides the domain. -/
def noted : WindowAccess → τ → τ
  | .report notice, rest => P.report notice rest
  | _, rest => rest

/-- What operations of the software answer, and the state after them. -/
def device : Service (platformOps F) (EmulatedDomain × τ)
  | .driver op, w =>
    let answered := EmulatedDomain.service op w.1
    (answered.1, answered.2, P.noted op w.2)
  | .access access, w => (w.1.answer? access, w.1.after access, w.2)
  | .other op, w => ((P.other op w.2).1, w.1, (P.other op w.2).2)

/-- A step of a driver, as an operation of the platform. -/
def ofDriver (op : WindowAccess) : Program (platformOps F) op.Answer :=
  .ask (PlatformOp.driver op) .done

/-- The parts that the software runs on. -/
def platform : Platform ι κ (platformOps F) (EmulatedDomain × τ) where
  controller c := (P.handle c).controller.expand ofDriver
  behaviour := P.behaviour
  device := P.device
  csr op w := ((P.csr op w.2).1, w.1, (P.csr op w.2).2)
  report notice w := (w.1, P.report notice w.2)
  started h identity w := (w.1, P.started h identity w.2)

abbrev Machine (ι κ : Type) (F : Interface) (τ : Type) : Type :=
  AdvancedInterrupts.Machine ι κ (platformOps F) (EmulatedDomain × τ)

theorem domain_device (op : PlatformOp F) (w : EmulatedDomain × τ) :
    (P.device op w).2.1 = w.1 ∨ ∃ access, (P.device op w).2.1 = w.1.after access := by
  cases op with
  | driver op =>
    cases op with
    | read offset => exact Or.inr ⟨.windowRead offset, rfl⟩
    | write offset value => exact Or.inr ⟨.windowWrite offset value, rfl⟩
    | report notice => exact Or.inl rfl
  | access access => exact Or.inr ⟨access, rfl⟩
  | other op => exact Or.inl rfl

/-- The read of a driver that claims an interrupt, if the window fits the address space. -/
theorem device_claim {i : Nat} {w : EmulatedDomain × τ}
    (hfit : w.1.address + w.1.size ≤ addressSpace) (hi : i < w.1.idcCount) :
    P.device (.driver (.read (Register.idc i .claim).offset)) w =
      (w.1.topWord i, w.1.afterClaim i, w.2) := by
  simp only [device, EmulatedDomain.service, EmulatedDomain.windowRead_claim hfit hi, noted]

/-- What a drain does with the word that its claim reads. -/
def afterClaimWord (word : Word) : Program (software ι κ (platformOps F)) Outcome :=
  if (Claim.ofWord word).isSpurious then .done .finished
  else .ask (Request.call (.dispatch (Claim.ofWord word).identity)) fun _ => .done .again

/-- A round of a drain reads the claim register of the delivery structure of the hart. -/
theorem drain_program {c : ι} {hart i : Nat} (hmap : (P.handle c).idcOfHart hart = some i)
    (hi : i < (P.handle c).idcs) :
    (Routine.drain c hart).program P.platform =
      .ask (Request.device (.driver (.read (Register.idc i .claim).offset))) afterClaimWord := by
  have hclaim : (P.platform.controller c).claim hart =
      .ask (.driver (.read (Register.idc i .claim).offset)) fun word =>
        .done (Claim.ofWord word) := by
    simp only [platform, Controller.expand, Aplic.controller, Aplic.claim_eq hmap hi]
    rfl
  simp only [Routine.program, Software.drainRound, hclaim]
  rfl

variable [DecidableEq ι]

open AdvancedInterrupts.Machine in
/-- A step of the machine leaves the domain alone, unless it performs an operation. -/
theorem domain_step_cases (m : Machine ι κ F τ) :
    (step P.platform m).world.1 = m.world.1 ∨ ∃ routine op next below,
      m.stack = ⟨routine, .ask (Request.device op) next⟩ :: below ∧
        (step P.platform m).world.1 = (P.device op m.world).2.1 := by
  obtain ⟨w, hs, t, stack⟩ := m
  match stack with
  | [] => exact Or.inl rfl
  | ⟨routine, .done outcome⟩ :: below =>
    refine Or.inl ?_
    rw [step_done]
    cases routine with
    | none => rfl
    | some r => cases outcome <;> rfl
  | ⟨routine, .ask request next⟩ :: below =>
    cases request with
    | device op => exact Or.inr ⟨routine, op, next, below, rfl, rfl⟩
    | call called =>
      refine Or.inl ?_
      rw [step_call, start]
      cases refusal t called with
      | some notice => rfl
      | none => cases called <;> rfl
    | _ => exact Or.inl rfl

/-- A step of the machine changes the domain by at most one access. -/
theorem domain_step (m : Machine ι κ F τ) :
    (Machine.step P.platform m).world.1 = m.world.1 ∨
      ∃ access, (Machine.step P.platform m).world.1 = m.world.1.after access := by
  rcases P.domain_step_cases m with hkept | ⟨-, op, -, -, -, hop⟩
  · exact Or.inl hkept
  · rw [hop]
    exact P.domain_device op m.world

/-- A request that does not touch the domain and does not run the software of a controller. -/
def HandsOff : Request ι κ (platformOps F) → Prop
  | .device (.driver (.report _)) => True
  | .device (.driver _) => False
  | .device (.access _) => False
  | .call (.trap _ _) => False
  | .call (.drain _ _) => False
  | _ => True

omit [DecidableEq ι] in
/-- If handlers do not touch the domain, then neither does a dispatch. -/
theorem asks_program_of_handsOff (hoff : ∀ h s, (P.behaviour h s).Asks HandsOff)
    (r : Routine ι κ) (hr : HandsOff (F := F) (.call r)) :
    (r.program P.platform).Asks HandsOff := by
  cases r with
  | trap c hart => exact absurd hr id
  | drain c hart => exact absurd hr id
  | handler h s => exact (hoff h s).map _
  | dispatch s => exact Machine.asks_dispatch P.platform trivial trivial fun _ => trivial

/-- A step leaves the domain alone if the frame on top does not touch it. -/
theorem domain_step_of_handsOff {m : Machine ι κ F τ} {f : Frame ι κ (platformOps F)}
    {below : List (Frame ι κ (platformOps F))} (h : m.stack = f :: below)
    (hf : f.rest.Asks HandsOff) : (Machine.step P.platform m).world.1 = m.world.1 := by
  rcases P.domain_step_cases m with hkept | ⟨routine, op, next, below', hop, hdomain⟩
  · exact hkept
  · rw [hop] at h
    cases h
    obtain ⟨hoff, -⟩ := hf
    rw [hdomain]
    cases op with
    | driver op =>
      cases op with
      | report notice => rfl
      | _ => exact absurd hoff id
    | access access => exact absurd hoff id
    | other op => rfl

/-- The interface without operations. -/
abbrev noOps : Interface := ⟨Empty, fun _ => Unit⟩

/-- A platform with a single handle and a single handler, and nothing besides the domain. Hart `h`
has delivery structure `h`. -/
def sample (behaviour : Nat → Program (software Unit Unit (platformOps noOps)) Unit) :
    EmulatedPlatform Unit Unit noOps Unit where
  handle _ := ⟨⟨8, 2, .direct, some⟩, by decide, by decide⟩
  behaviour _ := behaviour
  other op _ := op.elim
  csr
    | .scause, w => (0, w)
    | .stopi, w => (0, w)
    | .clearSoftPending, w => ((), w)
    | .setExternalEnabled _, w => ((), w)
  report _ w := w
  started _ _ w := w

end EmulatedPlatform

end AdvancedInterrupts
