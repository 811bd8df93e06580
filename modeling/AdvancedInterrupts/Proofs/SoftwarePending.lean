import AdvancedInterrupts.Proofs.ExternalMask
import Mathlib.Data.List.Basic

/-!
# The acknowledgement of a software interrupt

Other harts make a software interrupt pending at any moment, and a trap clears
the pending bit after the handler of the interrupt has returned. So there is one
moment in a trap that decides: what is raised later is still pending when the
trap returns, and what was raised before it is not, since nothing is called any
more. A handler that has already looked for its work misses what is raised
between that look and the acknowledgement.
-/
namespace AdvancedInterrupts

/-- The pending bit of the software interrupt after a request. -/
def Request.softPending {ι κ : Type} {E : Interface} : Request ι κ E → Bool → Bool
  | csr .clearSoftPending, _ => false
  | _, before => before

theorem Request.softPending_of_ne {ι κ : Type} {E : Interface} {request : Request ι κ E}
    (h : request ≠ .csr .clearSoftPending) (before : Bool) :
    request.softPending before = before := by
  cases request with
  | csr op =>
    cases op with
    | clearSoftPending => exact absurd rfl h
    | _ => rfl
  | _ => rfl

/-- Whether a value of a cause register names the software interrupt. -/
def TrapEntry.IsSoftware : CauseRegister → BitVec 64 → Prop
  | .scause, value => value.toNat = 2 ^ 63 + 1
  | .stopi, value => value.toNat / 2 ^ 16 % 2 ^ 12 = 1

namespace Machine

variable {ι κ σ : Type} {E : Interface} [DecidableEq ι] (p : Platform ι κ E σ)
  {m : Machine ι κ E σ} {below : List (Frame ι κ E)} {made rest : List (Request ι κ E)}

/-- Whether the software interrupt is pending after a number of steps. Other harts raise it at
certain moments, each of which is told by the steps before it. -/
def softPending (raised : Nat → Bool) (before : Bool) (m : Machine ι κ E σ) : Nat → Bool
  | 0 => before || raised 0
  | n + 1 =>
    ((run p n m).next?.elim id Request.softPending) (softPending raised before m n) ||
      raised (n + 1)

omit [DecidableEq ι] in
theorem requestAt?_of_height {height : Nat} (h : m.stack.length = height + 1) :
    m.requestAt? height = m.next? := by
  obtain ⟨w, hs, t, stack⟩ := m
  obtain _ | ⟨⟨r, rest⟩, stack⟩ := stack
  · rfl
  · have hlength : stack.length = height := by simpa using h
    cases rest with
    | done outcome => rfl
    | ask request next => exact if_pos hlength

/-- After the last acknowledgement the interrupt is pending if it is raised again. -/
theorem softPending_iff_of_clear {k n : Nat} (raised : Nat → Bool) (before : Bool) (hk : k < n)
    (hclear : (run p k m).next? = some (.csr .clearSoftPending))
    (hlast : ∀ j, k < j → j < n → (run p j m).next? ≠ some (.csr .clearSoftPending)) :
    softPending p raised before m n = true ↔ ∃ j, k < j ∧ j ≤ n ∧ raised j = true := by
  induction n, hk using Nat.le_induction with
  | base =>
    have hnow : softPending p raised before m (k + 1) = raised (k + 1) := by
      rw [softPending, hclear]
      rfl
    rw [hnow]
    refine ⟨fun h => ⟨k + 1, by omega, by omega, h⟩, ?_⟩
    rintro ⟨j, hj, hle, h⟩
    obtain rfl : j = k + 1 := by omega
    exact h
  | succ n hk ih =>
    have hstep : softPending p raised before m (n + 1) =
        (softPending p raised before m n || raised (n + 1)) := by
      rw [softPending]
      cases hnext : (run p n m).next? with
      | none => rfl
      | some request =>
        have hne : request ≠ .csr .clearSoftPending := by
          rintro rfl
          exact hlast n hk (by omega) hnext
        rw [Option.elim_some, Request.softPending_of_ne hne]
    rw [hstep, Bool.or_eq_true, ih fun j hj hlt => hlast j hj (by omega)]
    constructor
    · rintro (⟨j, hj, hle, h⟩ | h)
      · exact ⟨j, hj, by omega, h⟩
      · exact ⟨n + 1, by omega, by omega, h⟩
    · rintro ⟨j, hj, hle, h⟩
      by_cases hlate : j = n + 1
      · exact .inr (hlate ▸ h)
      · exact .inl ⟨j, hj, by omega, h⟩

/-- Each of the requests made during a run is made at some moment, after those before it. -/
theorem exists_requestAt?_of_issued {height n : Nat} {request : Request ι κ E}
    (h : issued p height n m = made ++ request :: rest) :
    ∃ k < n, issued p height k m = made ∧ (run p k m).requestAt? height = some request := by
  induction n generalizing rest with
  | zero => simp [issued] at h
  | succ n ih =>
    rw [issued_succ_last] at h
    cases hlast : (run p n m).requestAt? height with
    | none =>
      rw [hlast, Option.toList_none, List.append_nil] at h
      obtain ⟨k, hk, hfound⟩ := ih h
      exact ⟨k, by omega, hfound⟩
    | some last =>
      rw [hlast, Option.toList_some] at h
      rcases List.eq_nil_or_concat rest with rfl | ⟨init, final, rfl⟩
      · obtain ⟨hmade, hrequest⟩ := List.append_inj' h rfl
        rw [List.singleton_inj] at hrequest
        exact ⟨n, by omega, hmade, by rw [hlast, hrequest]⟩
      · have hinit : issued p height n m = made ++ request :: init := by
          rw [List.concat_eq_append, ← List.cons_append, ← List.append_assoc] at h
          exact (List.append_inj' h rfl).1
        obtain ⟨k, hk, hfound⟩ := ih hinit
        exact ⟨k, by omega, hfound⟩

/-- A request after which a routine calls nothing and acknowledges nothing. -/
def Settles (request : Request ι κ E) : Prop :=
  (∀ called, request ≠ .call called) ∧ request ≠ .csr .clearSoftPending

/-- A routine that settles after an acknowledgement makes the acknowledgement when what it called
has returned, and is left on its own from then on. -/
theorem Makes.acknowledges (h : Makes p below (made ++ .csr .clearSoftPending :: rest) m)
    (hrest : ∀ request ∈ rest, Settles request) {n : Nat} (hstay : StaysAbove p below.length n m)
    (hreturned : (run p n m).stack.length ≤ below.length) :
    ∃ k < n, issued p below.length k m = made ∧
      (run p k m).requestAt? below.length = some (.csr .clearSoftPending) ∧
      (∀ j, k < j → j ≤ n → (run p j m).stack.length ≤ below.length + 1) ∧
      ∀ j, k < j → j < n → (run p j m).next? ≠ some (.csr .clearSoftPending) := by
  obtain ⟨k, hk, hmade, hclear⟩ := exists_requestAt?_of_issued p (h.complete n hstay hreturned).2
  have hlater {j : Nat} (hj : k < j) (hle : j ≤ n) : ∃ later, later <+: rest ∧
      issued p below.length j m = made ++ .csr .clearSoftPending :: later := by
    obtain ⟨a, rfl⟩ := Nat.exists_eq_add_of_le hj
    have hissued : issued p below.length (k + 1 + a) m =
        made ++ .csr .clearSoftPending :: issued p below.length a (run p (k + 1) m) := by
      rw [issued_add, issued_succ_last, hmade, hclear, Option.toList_some, List.append_assoc]
      rfl
    have hpart := h.in_order (k + 1 + a) fun i hi => hstay i (by omega)
    rw [hissued, List.prefix_append_right_inj, List.cons_prefix_cons] at hpart
    exact ⟨_, hpart.2, hissued⟩
  have halone {j : Nat} (hj : k < j) (hle : j ≤ n) :
      (run p j m).stack.length ≤ below.length + 1 := by
    by_contra hbusy
    obtain ⟨later, hpart, hissued⟩ := hlater hj hle
    obtain ⟨called, hlast⟩ := h.waits j (fun i hi => hstay i (by omega)) (by omega)
    have hmem : .call called ∈ Request.csr .clearSoftPending :: later := by
      rw [hissued, List.getLast?_append_cons] at hlast
      exact List.mem_of_getLast? hlast
    rcases List.mem_cons.mp hmem with heq | hmem
    · cases heq
    · exact (hrest _ (hpart.subset hmem)).1 called rfl
  refine ⟨k, hk, hmade, hclear, fun j hj hle => halone hj hle, fun j hj hlt hnext => ?_⟩
  have hheight : (run p j m).stack.length = below.length + 1 :=
    Nat.le_antisymm (halone hj (by omega)) (hstay j hlt)
  obtain ⟨later, hpart, hissued⟩ := hlater (Nat.lt_succ_of_lt hj) hlt
  obtain ⟨earlier, -, hearlier⟩ := hlater hj (Nat.le_of_lt hlt)
  rw [issued_succ_last, requestAt?_of_height hheight, hnext, hearlier, List.append_assoc,
    List.append_cancel_left_eq, List.cons_append, List.cons.injEq] at hissued
  have hmem : .csr .clearSoftPending ∈ later := by
    rw [← hissued.2]
    exact List.mem_append_right _ (List.mem_singleton_self _)
  exact (hrest _ (hpart.subset hmem)).2 rfl

omit [DecidableEq ι] in
/-- A trap for the software interrupt dispatches its identity, then acknowledges it, and settles. -/
theorem exists_causeRequests_software (c : ι) (hart : Nat) {register : CauseRegister}
    {value : BitVec 64} (h : TrapEntry.IsSoftware register value) :
    ∃ made rest : List (Request ι κ E),
      TrapEntry.causeRequests c hart register value = made ++ .csr .clearSoftPending :: rest ∧
        .call (.dispatch ipiDispatchIdentity) ∈ made ∧ ∀ request ∈ rest, Settles request := by
  have hcode : (TrapEntry.codeRequests c hart 1 : List (Request ι κ E)) =
      [.call (.dispatch ipiDispatchIdentity), .csr .clearSoftPending] := rfl
  cases register with
  | scause =>
    have hvalue : value.toNat = 2 ^ 63 + 1 := h
    refine ⟨[.csr .scause, .call (.dispatch ipiDispatchIdentity)], [], ?_, by simp, by simp⟩
    rw [TrapEntry.causeRequests, TrapEntry.scauseRequests, hvalue, if_pos (by omega),
      Nat.add_sub_cancel_left, hcode]
    rfl
  | stopi =>
    have hvalue : value.toNat / 2 ^ 16 % 2 ^ 12 = 1 := h
    have hcause : value ≠ 0 := by
      rintro rfl
      simp at hvalue
    refine ⟨[.csr .stopi, .csr (.setExternalEnabled false), .call (.dispatch ipiDispatchIdentity)],
      [.csr (.setExternalEnabled true)], ?_, by simp, ?_⟩
    · rw [TrapEntry.causeRequests, TrapEntry.stopiRequests, if_neg hcause, hvalue, hcode]
      rfl
    · intro request hmem
      rw [List.mem_singleton.mp hmem]
      refine ⟨fun called heq => ?_, fun heq => ?_⟩ <;> cases heq

/-- The acknowledgement in a trap for the software interrupt, whatever the handlers do. It is made
after the handler of the interrupt was dispatched and has returned, and nothing is called after it.
When the trap returns, the interrupt is pending exactly if another hart raised it after the
acknowledgement; so what is raised then is not lost, and what was raised before, while the handler
was running, is not pending any more. -/
theorem softPending_of_trap (c : ι) (hart : Nat) (w : σ) (hs : HandlerTable κ)
    (t : List (ι × Nat)) (below : List (Frame ι κ E))
    (haccepted : refusal t (.trap c hart : Routine ι κ) = none)
    (hsoftware : TrapEntry.IsSoftware (p.controller c).causeRegister
      (cause p w (p.controller c).causeRegister)) (raised : Nat → Bool) (before : Bool) :
    let m := start p (.trap c hart) w hs t below
    (∀ n, StaysAbove p below.length n m → (run p n m).stack.length ≤ below.length →
      ∃ k < n, (run p k m).requestAt? below.length = some (.csr .clearSoftPending) ∧
        .call (.dispatch ipiDispatchIdentity) ∈ issued p below.length k m ∧
        (∀ j, k < j → j ≤ n → (run p j m).stack.length ≤ below.length + 1) ∧
        (softPending p raised before m n = true ↔ ∃ j, k < j ∧ j ≤ n ∧ raised j = true)) ∧
    ((∀ n, ∃ k ≥ n, (run p k m).stack.length ≤ below.length + 1) →
      ∃ n, StaysAbove p below.length n m ∧ (run p n m).stack = below) := by
  intro m
  have hmakes : Makes p below _ m := makes_trap p w hs below haccepted
  obtain ⟨made, rest, hasked, hdispatch, hrest⟩ :=
    exists_causeRequests_software (κ := κ) (E := E) c hart hsoftware
  refine ⟨fun n hstay hreturned => ?_, hmakes.returns⟩
  rw [hasked] at hmakes
  obtain ⟨k, hk, hmade, hclear, halone, hlast⟩ := hmakes.acknowledges p hrest hstay hreturned
  refine ⟨k, hk, hclear, by rwa [hmade], halone, ?_⟩
  exact softPending_iff_of_clear p raised before hk (next?_of_requestAt? hclear) hlast

/-- Whether the next step starts the handler of the software interrupt. -/
def startsSoftware (m : Machine ι κ E σ) : Bool :=
  match m.next? with
  | some (.call (.handler _ identity)) => identity == ipiDispatchIdentity
  | _ => false

/-- Whatever other harts raise after the handler of the software interrupt was started, it is still
pending when the trap returns, or the handler is started again. -/
def KeepsRaised (c : ι) (hart : Nat) : Prop :=
  ∀ w hs t below, refusal t (.trap c hart : Routine ι κ) = none →
    TrapEntry.IsSoftware (p.controller c).causeRegister
      (cause p w (p.controller c).causeRegister) →
    ∀ raised before n, StaysAbove p below.length n (start p (.trap c hart) w hs t below) →
      (run p n (start p (.trap c hart) w hs t below)).stack = below →
    ∀ i j, i < j → j ≤ n →
      (run p i (start p (.trap c hart) w hs t below)).startsSoftware = true → raised j = true →
      softPending p raised before (start p (.trap c hart) w hs t below) n = true ∨
        ∃ l, j ≤ l ∧ l < n ∧ (run p l (start p (.trap c hart) w hs t below)).startsSoftware = true

theorem isSoftware_softPlatform :
    TrapEntry.IsSoftware (softPlatform.controller ()).causeRegister
      (cause softPlatform [] (softPlatform.controller ()).causeRegister) := by
  change (0x10001#64).toNat / 2 ^ 16 % 2 ^ 12 = 1
  decide

/-- An interrupt raised when the handler has made its only access is lost. -/
theorem not_keepsRaised_softTrap : ¬ KeepsRaised softPlatform () 3 := by
  intro h
  have hstay : StaysAbove softPlatform 0 11 softTrap := by decide +kernel
  have hreturned : (run softPlatform 11 softTrap).stack.length = 0 := by decide +kernel
  have hstarted : (run softPlatform 4 softTrap).startsSoftware = true := by decide +kernel
  have honce : ∀ l < 11, 6 ≤ l → (run softPlatform l softTrap).startsSoftware = false := by
    decide +kernel
  have hlost : softPending softPlatform (· == 6) true softTrap 11 = false := by decide +kernel
  rcases h [] (.fill _ (some ())) [((), 7)] [] (by decide) isSoftware_softPlatform
    (· == 6) true 11 hstay (List.length_eq_zero_iff.mp hreturned) 4 6 (by omega) (by omega)
    hstarted rfl with hpending | ⟨l, hl, hlt, hagain⟩
  · have hkept : softPending softPlatform (· == 6) true softTrap 11 = true := hpending
    rw [hlost] at hkept
    cases hkept
  · have hnone := honce l hlt hl
    have hsome : (run softPlatform l softTrap).startsSoftware = true := hagain
    rw [hnone] at hsome
    cases hsome

/-- The interrupt that caused the trap is acknowledged, and one raised at the end is kept. -/
theorem softPending_of_trap_softTrap :
    softPending softPlatform (fun _ => false) true softTrap 11 = false ∧
      softPending softPlatform (· == 11) true softTrap 11 = true := by
  have hstay : StaysAbove softPlatform 0 11 softTrap := by decide +kernel
  have hreturned : (run softPlatform 11 softTrap).stack.length ≤ 0 := by decide +kernel
  have htrap := softPending_of_trap softPlatform () 3 [] (.fill _ (some ())) [((), 7)] []
    (by decide) isSoftware_softPlatform
  constructor
  · obtain ⟨k, -, -, -, -, hpending⟩ := (htrap (fun _ => false) true).1 11 hstay hreturned
    rw [Bool.eq_false_iff]
    intro htrue
    obtain ⟨j, -, -, hraised⟩ := hpending.mp htrue
    cases hraised
  · obtain ⟨k, hk, -, -, -, hpending⟩ := (htrap (· == 11) true).1 11 hstay hreturned
    exact hpending.mpr ⟨11, hk, Nat.le_refl 11, rfl⟩

end Machine

end AdvancedInterrupts
