import AdvancedInterrupts.Proofs.OwnRequests
import Mathlib.Algebra.Group.Nat.Defs

/-!
# What a trap entry does for its cause

The cause decides everything that an accepted trap does itself: which cause
register it reads, whether it drains the controller or dispatches an identity,
and which control registers it writes around that. The list of these requests is
computed from the number in the cause register alone. A run of the trap makes
exactly these requests, whatever the handlers do in between.
-/
namespace AdvancedInterrupts

namespace TrapEntry

variable {ι κ : Type} {E : Interface} (c : ι) (hart : Nat)

/-- The requests for an interrupt with a code: codes 8 and 9 are those of the controller. -/
def codeRequests (code : Nat) : List (Request ι κ E) :=
  if code = 8 ∨ code = 9 then [.call (.drain c hart)]
  else if code + 1024 < 2 ^ 32 then
    .call (.dispatch (code + 1024)) :: if code = 1 then [.csr .clearSoftPending] else []
  else []

/-- The requests for a value of the trap cause register, with its flag for interrupts in bit 63. -/
def scauseRequests (scause : BitVec 64) : List (Request ι κ E) :=
  if 2 ^ 63 ≤ scause.toNat then codeRequests c hart (scause.toNat - 2 ^ 63)
  else [.report (.trapException hart scause.toNat)]

/-- The requests for a value of the top interrupt register, with the code in bits 27:16. -/
def stopiRequests (stopi : BitVec 64) : List (Request ι κ E) :=
  if stopi = 0 then []
  else
    .csr (.setExternalEnabled false) ::
      (codeRequests c hart (stopi.toNat / 2 ^ 16 % 2 ^ 12) ++ [.csr (.setExternalEnabled true)])

/-- The requests for a value of the cause register, which is read first. -/
def causeRequests : CauseRegister → BitVec 64 → List (Request ι κ E)
  | .scause, value => .csr .scause :: scauseRequests c hart value
  | .stopi, value => .csr .stopi :: stopiRequests c hart value

variable {c hart}

/-- No code is so large that its identity wraps around to that of a source. -/
theorem le_of_dispatch_mem_codeRequests {code s : Nat}
    (h : Request.call (.dispatch s) ∈ (codeRequests c hart code : List (Request ι κ E))) :
    localBase ≤ s := by
  unfold codeRequests at h
  split at h
  · simp at h
  · split at h
    · rcases List.mem_cons.mp h with heq | hrest
      · cases heq
        exact Nat.le_add_left _ _
      · split at hrest <;> simp at hrest
    · simp at h

theorem le_of_dispatch_mem_causeRequests {register : CauseRegister} {value : BitVec 64} {s : Nat}
    (h : Request.call (.dispatch s) ∈
      (causeRequests c hart register value : List (Request ι κ E))) : localBase ≤ s := by
  cases register with
  | scause =>
    simp only [causeRequests, scauseRequests, List.mem_cons, reduceCtorEq, false_or] at h
    split at h
    · exact le_of_dispatch_mem_codeRequests h
    · simp at h
  | stopi =>
    simp only [causeRequests, stopiRequests, List.mem_cons, reduceCtorEq, false_or] at h
    split at h
    · simp at h
    · have hcode : Request.call (.dispatch s) ∈ (codeRequests c hart
          (value.toNat / 2 ^ 16 % 2 ^ 12) : List (Request ι κ E)) := by simpa using h
      exact le_of_dispatch_mem_codeRequests hcode

theorem isExternal_eq_true_iff (code : Nat) :
    TrapCause.isExternal code = true ↔ code = 8 ∨ code = 9 := by
  simp [TrapCause.isExternal, TrapCause.supervisorExternalCode, TrapCause.userExternalCode,
    or_comm]

theorem issues_dispatchLocal {code : Nat} (hlocal : ¬ (code = 8 ∨ code = 9)) :
    (dispatchLocal code : Program (software ι κ E) Unit).Issues (codeRequests c hart code) := by
  unfold dispatchLocal localIdentity? codeRequests
  rw [if_neg hlocal]
  by_cases hfits : code + 1024 < 2 ^ 32
  · have hfits' : code + localBase < 0x100000000 := by
      simp only [localBase]
      omega
    have hsoft : code + localBase = ipiDispatchIdentity ↔ code = 1 := by
      simp only [ipiDispatchIdentity, localBase, TrapCause.softwareCode]
      omega
    rw [if_pos hfits, if_pos hfits']
    apply Program.Issues.ask
    intro _
    by_cases hcode : code = 1
    · rw [if_pos hcode, if_pos (hsoft.mpr hcode)]
      exact Program.issues_perform _
    · rw [if_neg hcode, if_neg (mt hsoft.mp hcode)]
      exact .done ()
  · have hfits' : ¬ code + localBase < 0x100000000 := by
      simp only [localBase]
      omega
    rw [if_neg hfits, if_neg hfits']
    exact .done ()

theorem issues_handleCode (code : Nat) :
    (handleCode c hart code : Program (software ι κ E) Unit).Issues (codeRequests c hart code) := by
  unfold handleCode
  split
  next hexternal =>
    rw [isExternal_eq_true_iff] at hexternal
    rw [codeRequests, if_pos hexternal]
    exact Program.issues_perform _
  next hlocal =>
    rw [isExternal_eq_true_iff] at hlocal
    exact issues_dispatchLocal hlocal

theorem ofScause_of_lt {scause : BitVec 64} (h : scause.toNat < 2 ^ 63) :
    TrapCause.ofScause scause = .exception scause.toNat := by
  have hmsb : scause.msb = false := by
    rw [BitVec.msb_eq_false_iff_two_mul_lt]
    omega
  have hcode : (scause.setWidth 63).toNat = scause.toNat := by
    rw [BitVec.toNat_setWidth]
    exact Nat.mod_eq_of_lt h
  simp [TrapCause.ofScause, hmsb, hcode]

theorem ofScause_of_le {scause : BitVec 64} (h : 2 ^ 63 ≤ scause.toNat) :
    TrapCause.ofScause scause =
      if TrapCause.isExternal (scause.toNat - 2 ^ 63) then .external
      else .localInterrupt (scause.toNat - 2 ^ 63) := by
  have hbound := scause.isLt
  have hmsb : scause.msb = true := by
    rw [BitVec.msb_eq_true_iff_two_mul_ge]
    omega
  have hcode : (scause.setWidth 63).toNat = scause.toNat - 2 ^ 63 := by
    rw [BitVec.toNat_setWidth]
    omega
  simp only [TrapCause.ofScause, hmsb, hcode, if_true]

/-- In the trap cause register the code is all that is below the flag. -/
theorem issues_of_scause (scause : BitVec 64) :
    (match TrapCause.ofScause scause with
      | .external => Request.run (.drain c hart)
      | .localInterrupt code => dispatchLocal code
      | .exception code => Request.note (.trapException hart code) :
      Program (software ι κ E) Unit).Issues (scauseRequests c hart scause) := by
  unfold scauseRequests
  by_cases hinterrupt : 2 ^ 63 ≤ scause.toNat
  · rw [ofScause_of_le hinterrupt, if_pos hinterrupt]
    generalize scause.toNat - 2 ^ 63 = code
    have hissues : (handleCode c hart code : Program (software ι κ E) Unit).Issues _ :=
      issues_handleCode code
    unfold handleCode at hissues
    cases hexternal : TrapCause.isExternal code with
    | true => simpa [hexternal] using hissues
    | false => simpa [hexternal] using hissues
  · rw [ofScause_of_lt (Nat.lt_of_not_le hinterrupt), if_neg hinterrupt]
    exact Program.issues_perform _

/-- In the top interrupt register only twelve bits are the code. -/
theorem issues_of_stopi (stopi : BitVec 64) :
    (if stopi = 0 then pure ()
      else do
        Request.onCsr (.setExternalEnabled false)
        handleCode c hart (TrapCause.stopiCode stopi)
        Request.onCsr (.setExternalEnabled true) :
      Program (software ι κ E) Unit).Issues (stopiRequests c hart stopi) := by
  have hcode : TrapCause.stopiCode stopi = stopi.toNat / 2 ^ 16 % 2 ^ 12 := by
    rw [TrapCause.stopiCode, BitVec.extractLsb'_toNat, Nat.shiftRight_eq_div_pow]
  unfold stopiRequests
  by_cases hzero : stopi = 0
  · rw [if_pos hzero, if_pos hzero]
    exact .done ()
  · have hoff := Program.issues_perform
      (I := software ι κ E) (Request.csr (.setExternalEnabled false))
    rw [if_neg hzero, if_neg hzero, hcode]
    apply hoff.bind
    intro _
    apply (issues_handleCode _).bind
    intro _
    exact Program.issues_perform _

end TrapEntry

namespace Machine

variable {ι κ σ : Type} {E : Interface} [DecidableEq ι] (p : Platform ι κ E σ)
  {t : List (ι × Nat)} {c : ι} {hart : Nat}

/-- What is read from a cause register. -/
def cause (w : σ) : CauseRegister → BitVec 64
  | .scause => (p.csr .scause w).1
  | .stopi => (p.csr .stopi w).1

omit [DecidableEq ι] in
theorem program_trap (c : ι) (hart : Nat) : (Routine.trap c hart).program p =
    (fun _ => .released) <$> TrapEntry.handleCause (p.controller c).causeRegister c hart := rfl

/-- An accepted trap makes the requests of its cause. -/
theorem makes_trap (w : σ) (hs : HandlerTable κ) (below : List (Frame ι κ E))
    (haccepted : refusal t (.trap c hart : Routine ι κ) = none) :
    let register := (p.controller c).causeRegister
    Makes p below (TrapEntry.causeRequests c hart register (cause p w register))
      (start p (.trap c hart) w hs t below) := by
  intro register
  have hprogram : (Routine.trap c hart).program p =
      (fun _ => .released) <$> TrapEntry.handleCause register c hart := program_trap p c hart
  rw [start_of_accepted p haccepted, hprogram]
  cases register with
  | scause =>
    apply Makes.of_step_csr p rfl
    apply Midway.makes
    exact ⟨[], _, .released, rfl, TrapEntry.issues_of_scause _, by decide,
      fun habove => absurd rfl habove⟩
  | stopi =>
    apply Makes.of_step_csr p rfl
    apply Midway.makes
    exact ⟨[], _, .released, rfl, TrapEntry.issues_of_stopi _, by decide,
      fun habove => absurd rfl habove⟩

/-- An accepted trap makes the requests of its cause and no others, whatever its handlers do, and
none of them dispatches the identity of a source. If there was no cause in the top interrupt
register, it returns at once, and reading that register is all that has happened. -/
theorem trap_requests (w : σ) (hs : HandlerTable κ) (below : List (Frame ι κ E))
    (hrange : hart < trapHarts) (hnormal : (c, hart) ∉ t) :
    let register := (p.controller c).causeRegister
    let asked := TrapEntry.causeRequests c hart register (cause p w register)
    let m := start p (.trap c hart) w hs t below
    Makes p below asked m ∧ (∀ s, Request.call (.dispatch s) ∈ asked → localBase ≤ s) ∧
      (register = .stopi → cause p w register = 0 →
        run p 2 m = ⟨(p.csr .stopi w).2, hs, t, below⟩) := by
  intro register asked m
  have haccepted : refusal t (.trap c hart : Routine ι κ) = none :=
    refusal_trap_eq_none hrange hnormal
  refine ⟨makes_trap p w hs below haccepted, fun s => TrapEntry.le_of_dispatch_mem_causeRequests,
    fun hstopi hzero => ?_⟩
  have hm : m = _ := start_trap p hrange hnormal w hs below
  rw [hstopi] at hzero
  have hread : step p m = ⟨(p.csr .stopi w).2, hs, (c, hart) :: t,
      ⟨some (.trap c hart), .done .released⟩ :: below⟩ := by
    rw [hm, program_trap, show (p.controller c).causeRegister = .stopi from hstopi,
      TrapEntry.handleCause, TrapEntry.handleStopi, Program.map_ask, step_csr]
    have hif : (p.csr .stopi w).1 = 0 := hzero
    rw [hif, if_pos rfl]
    rfl
  rw [run_succ, run_succ, run_zero, hread, step_released p rfl, List.erase_cons_head]

/-- The top interrupt is always the software interrupt, and handlers read the trap cause. Accesses
to control registers are kept. -/
def softPlatform : Platform Unit Unit ⟨Empty, fun _ => Unit⟩ (List TrapCsr) where
  controller _ := ⟨.done (), fun _ => .done (), fun _ _ => .done (), fun _ => .done .spurious, .stopi⟩
  behaviour _ _ := do
    let _ ← Request.onCsr .scause
    pure ()
  device op _ := op.elim
  csr
    | .scause, w => (0, w ++ [.scause])
    | .stopi, w => (0x10001#64, w ++ [.stopi])
    | .clearSoftPending, w => ((), w ++ [.clearSoftPending])
    | .setExternalEnabled on, w => ((), w ++ [.setExternalEnabled on])
  report _ w := w
  started _ _ w := w

/-- A machine on which hart 3 is about to enter its trap. -/
def softTrap : Machine Unit Unit ⟨Empty, fun _ => Unit⟩ (List TrapCsr) :=
  start softPlatform (.trap () 3) [] (.fill _ (some ())) [((), 7)] []

theorem trap_requests_softTrap :
    issued softPlatform 0 11 softTrap =
      [.csr .stopi, .csr (.setExternalEnabled false), .call (.dispatch 1025),
        .csr .clearSoftPending, .csr (.setExternalEnabled true)] ∧
      (run softPlatform 11 softTrap).world =
        [.stopi, .setExternalEnabled false, .scause, .clearSoftPending, .setExternalEnabled true] := by
  have hrange : 3 < trapHarts := by decide
  have hnormal : ((), 3) ∉ [((), 7)] := by decide
  obtain ⟨hmakes, -, -⟩ :=
    trap_requests softPlatform [] (.fill _ (some ())) [] hrange hnormal
  have hstay : StaysAbove softPlatform 0 11 softTrap := by decide +kernel
  have hreturned : (run softPlatform 11 softTrap).stack.length ≤ 0 := by decide +kernel
  exact ⟨(hmakes.complete 11 hstay hreturned).2, by decide +kernel⟩

end Machine

end AdvancedInterrupts
