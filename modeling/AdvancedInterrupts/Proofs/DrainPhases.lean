import AdvancedInterrupts.Proofs.EmulatedPlatform
import AdvancedInterrupts.Proofs.UrgencyOrder

/-!
# The phases of a drain

A drain that runs by itself is always in one of five phases, whatever the
handlers do: it is about to claim, it has found an interrupt, something that it
called is running, it has found nothing, or it has returned. What a step makes
of the phase and of the domain is listed once. Claims happen at the start of a
round only, and nothing is eligible any more when the drain ends.
-/
namespace AdvancedInterrupts

namespace EmulatedDomain

/-- A domain in use: all of its window has addresses, and a delivery structure exists. -/
structure Serves (d : EmulatedDomain) (i : Nat) : Prop where
  reachable : d.Reachable
  fits : d.address + d.size ≤ addressSpace
  hasIdc : i < d.idcCount

theorem Serves.after {d : EmulatedDomain} {i : Nat} (h : d.Serves i) (access : EmulatedAccess) :
    (d.after access).Serves i := by
  have hshape := d.shape_after access
  exact ⟨h.reachable.step access, fits_of_shape hshape h.fits,
    by rw [idcCount_of_shape hshape]; exact h.hasIdc⟩

end EmulatedDomain

namespace EmulatedPlatform

variable {ι κ τ : Type} {F : Interface} (P : EmulatedPlatform ι κ F τ) [DecidableEq ι]

/-- The machine at the start of a drain, with nothing to return to. -/
def drain (c : ι) (hart : Nat) (w : EmulatedDomain × τ) (handlers : HandlerTable κ)
    (inTrap : List (ι × Nat)) : Machine ι κ F τ :=
  .start P.platform (.drain c hart) w handlers inTrap []

/-- Where a drain stands. -/
inductive DrainPhase (ι κ : Type) (F : Interface) where
  /-- It is about to claim an interrupt. -/
  | round
  /-- It is about to dispatch the interrupt that it claimed. -/
  | found (identity : Nat)
  /-- It waits for the frames above it to return, and starts again once there are none. -/
  | calling (above : List (Frame ι κ (platformOps F)))
  /-- Its claim was spurious. -/
  | empty
  | returned

/-- The frames of a drain in a phase. -/
def DrainPhase.frames (c : ι) (hart : Nat) :
    DrainPhase ι κ F → List (Frame ι κ (platformOps F))
  | round => [⟨some (.drain c hart), (Routine.drain c hart).program P.platform⟩]
  | found s => [⟨some (.drain c hart), .ask (Request.call (.dispatch s)) fun _ => .done .again⟩]
  | calling above => above ++ [⟨some (.drain c hart), .done .again⟩]
  | empty => [⟨some (.drain c hart), .done .finished⟩]
  | returned => []

/-- The identity that a drain is about to dispatch. -/
def DrainPhase.identity? : DrainPhase ι κ F → Option Nat
  | found s => some s
  | _ => none

/-- Whether a drain has made its last claim. -/
def DrainPhase.Ended : DrainPhase ι κ F → Prop
  | empty | returned => True
  | _ => False

/-- What a step makes of the phase of a drain and of the domain. -/
inductive DrainMove (i : Nat) : DrainPhase ι κ F → EmulatedDomain → DrainPhase ι κ F →
    EmulatedDomain → Prop where
  | claim {d : EmulatedDomain} {c : Claim} (h : d.top i = some c) :
      DrainMove i .round d (.found c.identity) (d.afterClaim i)
  | spurious {d : EmulatedDomain} (h : d.top i = none) :
      DrainMove i .round d .empty (d.afterClaim i)
  | dispatch (s : Nat) (f : Frame ι κ (platformOps F)) (d : EmulatedDomain) :
      DrainMove i (.found s) d (.calling [f]) d
  /-- What was called does something, which reaches the domain by one access at most. -/
  | work {f : Frame ι κ (platformOps F)} {above above' : List (Frame ι κ (platformOps F))}
      {d d' : EmulatedDomain} (h : d' = d ∨ ∃ access, d' = d.after access) :
      DrainMove i (.calling (f :: above)) d (.calling above') d'
  | again (d : EmulatedDomain) : DrainMove i (.calling []) d .round d
  | finish (d : EmulatedDomain) : DrainMove i .empty d .returned d
  | stay (d : EmulatedDomain) : DrainMove i .returned d .returned d

/-- A machine in a phase of a drain for the delivery structure `i`. -/
structure InPhase (c : ι) (hart i : Nat) (φ : DrainPhase ι κ F) (m : Machine ι κ F τ) : Prop where
  /-- The handle gives the hart a delivery structure that it knows. -/
  mapped : (P.handle c).idcOfHart hart = some i ∧ i < (P.handle c).idcs
  stack : m.stack = φ.frames P c hart
  serves : m.world.1.Serves i
  settled : φ.Ended → m.world.1.top i = none

/-- Nothing that the drain called changes the domain. -/
def Keeps (m : Machine ι κ F τ) : Prop :=
  ∀ n, (Machine.run P.platform n m).Busy →
    (Machine.run P.platform (n + 1) m).world.1 = (Machine.run P.platform n m).world.1

theorem Keeps.run {P : EmulatedPlatform ι κ F τ} {m : Machine ι κ F τ} (h : P.Keeps m) (a : Nat) :
    P.Keeps (Machine.run P.platform a m) := by
  have hview : Machine.KeepsView P.platform (fun w => w.1) m := h
  exact hview.run P.platform a

theorem serves_step {i : Nat} {m : Machine ι κ F τ} (h : m.world.1.Serves i) :
    (Machine.step P.platform m).world.1.Serves i := by
  rcases P.domain_step m with hkept | ⟨access, hafter⟩
  · rw [hkept]
    exact h
  · rw [hafter]
    exact h.after access

theorem inPhase_drain {c : ι} {hart i : Nat}
    (hmap : (P.handle c).idcOfHart hart = some i ∧ i < (P.handle c).idcs)
    {w : EmulatedDomain × τ} (hw : w.1.Serves i) (hs : HandlerTable κ) (t : List (ι × Nat)) :
    P.InPhase c hart i .round (P.drain c hart w hs t) :=
  ⟨hmap, rfl, hw, False.elim⟩

namespace InPhase

open AdvancedInterrupts.Machine

variable {P} {c : ι} {hart i : Nat} {φ : DrainPhase ι κ F} {m : Machine ι κ F τ}

/-- The first step of a round claims, and goes by what the claim has found. -/
theorem step_round (h : P.InPhase c hart i .round m) :
    (step P.platform m).world.1 = m.world.1.afterClaim i ∧
      (step P.platform m).stack =
        ((m.world.1.top i).elim DrainPhase.empty fun x => .found x.identity).frames P c hart := by
  obtain ⟨w, hs, t, stack⟩ := m
  have hclaim : P.platform.device (.driver (.read (Register.idc i .claim).offset)) w =
      (w.1.topWord i, w.1.afterClaim i, w.2) :=
    P.device_claim h.serves.fits h.serves.hasIdc
  obtain rfl : stack = _ := h.stack
  rw [DrainPhase.frames, P.drain_program h.mapped.1 h.mapped.2, step_device, hclaim]
  refine ⟨rfl, ?_⟩
  have hword := w.1.ofWord_topWord i
  cases htop : w.1.top i with
  | none =>
    rw [htop] at hword
    simp only [afterClaimWord, hword]
    rfl
  | some x =>
    have hx : (Claim.ofWord (w.1.topWord i)).identity = x.identity := by
      rw [hword, htop]
      rfl
    have hne : x.identity ≠ 0 := EmulatedDomain.identity_top_ne_zero htop
    simp [afterClaimWord, Claim.isSpurious, hx, hne, DrainPhase.frames]

theorem step_claim (h : P.InPhase c hart i .round m) {x : Claim} (hx : m.world.1.top i = some x) :
    P.InPhase c hart i (.found x.identity) (step P.platform m) ∧
      (step P.platform m).world.1 = m.world.1.afterClaim i := by
  obtain ⟨hdomain, hstack⟩ := h.step_round
  rw [hx] at hstack
  exact ⟨⟨h.mapped, hstack, P.serves_step h.serves, False.elim⟩, hdomain⟩

theorem step_spurious (h : P.InPhase c hart i .round m) (hx : m.world.1.top i = none) :
    P.InPhase c hart i .empty (step P.platform m) ∧
      (step P.platform m).world.1 = m.world.1.afterClaim i := by
  obtain ⟨hdomain, hstack⟩ := h.step_round
  rw [hx] at hstack
  refine ⟨⟨h.mapped, hstack, P.serves_step h.serves, fun _ => ?_⟩, hdomain⟩
  rw [hdomain]
  exact EmulatedDomain.top_afterClaim_of_none hx

theorem step_found {s : Nat} (h : P.InPhase c hart i (.found s) m) :
    P.InPhase c hart i (.calling [⟨some (.dispatch s), (Routine.dispatch s).program P.platform⟩])
        (step P.platform m) ∧ (step P.platform m).world.1 = m.world.1 := by
  have hstep := step_dispatch P.platform h.stack
  refine ⟨⟨h.mapped, ?_, P.serves_step h.serves, False.elim⟩, by rw [hstep]⟩
  rw [hstep]
  rfl

theorem step_calling {f : Frame ι κ (platformOps F)} {above : List (Frame ι κ (platformOps F))}
    (h : P.InPhase c hart i (.calling (f :: above)) m) :
    ∃ above', P.InPhase c hart i (.calling above') (step P.platform m) := by
  have hcons : m.stack = f :: (above ++ [⟨some (.drain c hart), .done .again⟩]) := h.stack
  obtain ⟨new, hstack⟩ := exists_stack_step P.platform hcons
  refine ⟨new ++ above, h.mapped, ?_, P.serves_step h.serves, False.elim⟩
  rw [hstack, DrainPhase.frames, List.append_assoc]

theorem step_called (h : P.InPhase c hart i (.calling []) m) :
    P.InPhase c hart i .round (step P.platform m) ∧
      (step P.platform m).world.1 = m.world.1 := by
  have hstep := step_again P.platform h.stack
  refine ⟨⟨h.mapped, ?_, P.serves_step h.serves, False.elim⟩, by rw [hstep]⟩
  rw [hstep]
  rfl

theorem step_empty (h : P.InPhase c hart i .empty m) :
    P.InPhase c hart i .returned (step P.platform m) ∧
      (step P.platform m).world.1 = m.world.1 := by
  have hstep := step_finished P.platform h.stack
  refine ⟨⟨h.mapped, ?_, P.serves_step h.serves, fun _ => ?_⟩, by rw [hstep]⟩
  · rw [hstep]
    rfl
  · rw [hstep]
    exact h.settled trivial

/-- Every step of a drain is one of the moves. -/
theorem exists_move (h : P.InPhase c hart i φ m) :
    ∃ φ', P.InPhase c hart i φ' (step P.platform m) ∧
      DrainMove i φ m.world.1 φ' (step P.platform m).world.1 := by
  cases φ with
  | round =>
    cases htop : m.world.1.top i with
    | none =>
      obtain ⟨hnext, hdomain⟩ := h.step_spurious htop
      exact ⟨_, hnext, hdomain ▸ .spurious htop⟩
    | some x =>
      obtain ⟨hnext, hdomain⟩ := h.step_claim htop
      exact ⟨_, hnext, hdomain ▸ .claim htop⟩
  | found s =>
    obtain ⟨hnext, hdomain⟩ := h.step_found
    exact ⟨_, hnext, hdomain ▸ .dispatch s _ _⟩
  | calling above =>
    cases above with
    | nil =>
      obtain ⟨hnext, hdomain⟩ := h.step_called
      exact ⟨_, hnext, hdomain ▸ .again _⟩
    | cons f above =>
      obtain ⟨above', hnext⟩ := h.step_calling
      exact ⟨_, hnext, .work (P.domain_step m)⟩
  | empty =>
    obtain ⟨hnext, hdomain⟩ := h.step_empty
    exact ⟨_, hnext, hdomain ▸ .finish _⟩
  | returned =>
    have hstep := step_of_stack_nil P.platform h.stack
    rw [hstep]
    exact ⟨.returned, h, .stay _⟩

theorem exists_run (h : P.InPhase c hart i φ m) (n : Nat) :
    ∃ φ', P.InPhase c hart i φ' (run P.platform n m) := by
  induction n with
  | zero => exact ⟨φ, h⟩
  | succ n ih =>
    obtain ⟨φ', h'⟩ := ih
    obtain ⟨φ'', h'', -⟩ := h'.exists_move
    rw [run_succ_last]
    exact ⟨φ'', h''⟩

omit [DecidableEq ι] in
/-- Something is called exactly while frames lie above the drain. -/
theorem busy_iff (h : P.InPhase c hart i φ m) : m.Busy ↔ ∃ f above, φ = .calling (f :: above) := by
  unfold Busy
  rw [h.stack]
  cases φ with
  | calling above => cases above <;> simp [DrainPhase.frames]
  | _ => simp [DrainPhase.frames]

omit [DecidableEq ι] in
/-- Only a claim that found an interrupt is followed by a dispatch. -/
theorem dispatching?_eq (h : P.InPhase c hart i φ m) : m.dispatching? = φ.identity? := by
  have hstack := h.stack
  cases φ with
  | round =>
    rw [DrainPhase.frames, P.drain_program h.mapped.1 h.mapped.2] at hstack
    simp only [dispatching?, hstack, DrainPhase.identity?]
  | calling above =>
    cases above with
    | nil =>
      rw [DrainPhase.frames, List.nil_append] at hstack
      simp only [dispatching?, hstack, DrainPhase.identity?]
    | cons f above => exact dispatching?_of_busy (h.busy_iff.mpr ⟨f, above, rfl⟩)
  | _ => simp only [dispatching?, hstack, DrainPhase.frames, DrainPhase.identity?]

/-- As long as something is called, the drain waits and dispatches nothing. -/
theorem run_busy {above : List (Frame ι κ (platformOps F))}
    (h : P.InPhase c hart i (.calling above) m) {k : Nat}
    (hbusy : ∀ j < k, (run P.platform j m).Busy) :
    (∃ above', P.InPhase c hart i (.calling above') (run P.platform k m)) ∧
      dispatched P.platform k m = [] := by
  induction k with
  | zero => exact ⟨⟨above, h⟩, rfl⟩
  | succ k ih =>
    obtain ⟨⟨above', h'⟩, hnone⟩ := ih fun j hj => hbusy j (by omega)
    have hk := hbusy k (by omega)
    obtain ⟨f, rest, he⟩ := h'.busy_iff.mp hk
    rw [he] at h'
    rw [run_succ_last, dispatched_add, hnone]
    refine ⟨h'.step_calling, ?_⟩
    simp [dispatched, dispatching?_of_busy hk]

/-- The domain stays as it is until nothing is called any more, if what is called keeps it. -/
theorem domain_run_busy (hkeep : P.Keeps m) {k : Nat}
    (hbusy : ∀ j < k, (run P.platform j m).Busy) :
    (run P.platform k m).world.1 = m.world.1 := by
  have hview : KeepsView P.platform (fun w => w.1) m := hkeep
  exact hview.run_busy P.platform hbusy

/-- A drain that claims an interrupt comes to its next round, if what it dispatches returns. -/
theorem next_round (h : P.InPhase c hart i .round m) {x : Claim} (hx : m.world.1.top i = some x)
    (hret : Returns P.platform m) :
    ∃ k, P.InPhase c hart i .round (run P.platform k m) ∧
      dispatched P.platform k m = [x.identity] ∧
      (P.Keeps m → (run P.platform k m).world.1 = m.world.1.afterClaim i) := by
  obtain ⟨hfound, hclaimed⟩ := h.step_claim hx
  obtain ⟨hcalling, hsame⟩ := hfound.step_found
  have hnow : (step P.platform m).dispatching? = some x.identity := hfound.dispatching?_eq
  have htwo : run P.platform 2 m = step P.platform (step P.platform m) := by
    rw [run_succ, run_succ]
    rfl
  rw [← htwo] at hcalling hsame
  obtain ⟨b, hidle, hbusy⟩ := hret.exists_first P.platform (a := 1)
    (by rw [run_succ]; exact Option.isSome_of_eq_some hnow)
  obtain ⟨⟨above, hwait⟩, hnone⟩ := hcalling.run_busy hbusy
  have habove : above = [] := by
    cases above with
    | nil => rfl
    | cons f above => exact absurd (hwait.busy_iff.mpr ⟨f, above, rfl⟩) hidle
  subst habove
  obtain ⟨hround, hlast⟩ := hwait.step_called
  have hlist : dispatched P.platform 2 m = [x.identity] := by
    simp [dispatched, h.dispatching?_eq, DrainPhase.identity?, hnow]
  refine ⟨2 + b + 1, ?_, ?_, fun hkeep => ?_⟩
  · rw [run_succ_last, run_add]
    exact hround
  · rw [dispatched_add, dispatched_add, hnone, hlist, run_add, dispatched, hwait.dispatching?_eq]
    rfl
  · rw [run_succ_last, run_add, hlast, domain_run_busy (hkeep.run 2) hbusy, hsame, hclaimed]

end InPhase

end EmulatedPlatform

end AdvancedInterrupts
