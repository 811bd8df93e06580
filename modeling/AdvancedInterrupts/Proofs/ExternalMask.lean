import AdvancedInterrupts.Proofs.Interleaving
import AdvancedInterrupts.Proofs.TrapRouting

/-!
# External interrupts during a trap

The enable bit of external interrupts is changed by accesses to it and by
nothing else, so its value follows from the accesses that were made. A trap whose
cause is in the top interrupt register clears the bit before it calls anything,
and sets it when everything that it called has returned. While handlers run, the
bit is clear. At the end it is set, also if it was clear before the trap.
-/
namespace AdvancedInterrupts

/-- The enable bit of external interrupts after an access to a control register. -/
def TrapCsr.external : TrapCsr → Bool → Bool
  | setExternalEnabled on, _ => on
  | _, before => before

namespace Request

variable {ι κ : Type} {E : Interface}

/-- The enable bit of external interrupts after a request. -/
def external : Request ι κ E → Bool → Bool
  | csr op, before => op.external before
  | _, before => before

/-- A request that neither changes the enable bit of external interrupts nor enters a trap. -/
def LeavesExternal : Request ι κ E → Prop
  | csr (.setExternalEnabled _) => False
  | call (.trap _ _) => False
  | _ => True

/-- A request that calls no other routines than such. -/
def CallsOnly (ok : Request ι κ E → Prop) : Request ι κ E → Prop
  | call called => ok (call called)
  | _ => True

theorem LeavesExternal.external_eq {request : Request ι κ E} (h : request.LeavesExternal)
    (before : Bool) : request.external before = before := by
  cases request with
  | csr op =>
    cases op with
    | setExternalEnabled on => exact absurd h id
    | _ => rfl
  | _ => rfl

theorem asks_onDevices {α : Type} {ok : Request ι κ E → Prop} (hdevice : ∀ op, ok (.device op))
    (q : Program E α) : (onDevices q : Program (software ι κ E) α).Asks ok := by
  induction q with
  | done a => trivial
  | ask op next ih => exact ⟨hdevice op, fun answer => ih answer⟩

end Request

theorem Program.Issues.asks {I : Interface} {α : Type} {ok : I.Op → Prop} {p : Program I α}
    {ops : List I.Op} (h : p.Issues ops) (hok : ∀ op ∈ ops, ok op) : p.Asks ok := by
  induction h with
  | done a => trivial
  | ask op hnext ih =>
    refine ⟨hok op List.mem_cons_self, fun answer => ih answer fun later hlater => ?_⟩
    exact hok later (List.mem_cons_of_mem op hlater)

namespace Machine

variable {ι κ σ : Type} {E : Interface} [DecidableEq ι] (p : Platform ι κ E σ)
  {m : Machine ι κ E σ} {below : List (Frame ι κ E)} {ok : Request ι κ E → Prop}

/-- The request of the next step, if it makes one. -/
def next? (m : Machine ι κ E σ) : Option (Request ι κ E) :=
  match m.stack with
  | ⟨_, .ask request _⟩ :: _ => some request
  | _ => none

/-- Whether external interrupts are enabled after a number of steps. -/
def external (before : Bool) (m : Machine ι κ E σ) : Nat → Bool
  | 0 => before
  | n + 1 => ((run p n m).next?.elim id Request.external) (external before m n)

omit [DecidableEq ι] in
theorem next?_of_requestAt? {height : Nat} {request : Request ι κ E}
    (h : m.requestAt? height = some request) : m.next? = some request := by
  unfold requestAt? at h
  split at h
  next heq =>
    simp only [Option.ite_none_right_eq_some] at h
    rw [next?, heq]
    exact h.2
  next => cases h

/-- Above some frames there is one that makes no other calls than such, and everything above that
one makes no other requests than such. -/
def Shelters (ok : Request ι κ E → Prop) (below : List (Frame ι κ E)) (m : Machine ι κ E σ) :
    Prop :=
  ∃ above f, m.stack = above ++ f :: below ∧ (∀ g ∈ above, Allows p ok g) ∧
    Allows p (Request.CallsOnly ok) f

omit [DecidableEq ι] in
/-- The next request is such, or it is made by the lowest of these frames. -/
theorem Shelters.ok_or_requestAt? (h : Shelters p ok below m) {request : Request ι κ E}
    (hnext : m.next? = some request) : ok request ∨ m.requestAt? below.length = some request := by
  obtain ⟨above, f, hstack, habove, -⟩ := h
  cases above with
  | nil =>
    right
    rw [next?, hstack] at hnext
    rw [requestAt?, hstack]
    obtain ⟨r, rest⟩ := f
    cases rest with
    | done outcome => cases hnext
    | ask op next =>
      cases hnext
      exact if_pos rfl
  | cons g above =>
    left
    rw [next?, hstack] at hnext
    obtain ⟨r, rest⟩ := g
    cases rest with
    | done outcome => cases hnext
    | ask op next =>
      cases hnext
      exact (habove _ List.mem_cons_self).1.1

/-- After a step the lowest of these frames has returned, or all is as before. -/
theorem Shelters.step (hok : ∀ r, ok (.call r) → (r.program p).Asks ok)
    (h : Shelters p ok below m) :
    (Machine.step p m).stack = below ∨ Shelters p ok below (Machine.step p m) := by
  obtain ⟨above, f, hstack, habove, hf⟩ := h
  cases above with
  | cons g above =>
    right
    have hcons : m.stack = g :: (above ++ f :: below) := hstack
    obtain ⟨new, hnew, hallows⟩ :=
      exists_stack_step_allows p hok hcons (habove g List.mem_cons_self)
    refine ⟨new ++ above, f, by rw [hnew, List.append_assoc], fun x hx => ?_, hf⟩
    rcases List.mem_append.mp hx with hx | hx
    · exact hallows x hx
    · exact habove x (List.mem_cons_of_mem g hx)
  | nil =>
    obtain ⟨routine, rest⟩ := f
    obtain ⟨hrest, hagain⟩ := hf
    cases rest with
    | done outcome =>
      obtain ⟨w, hs, t, stack⟩ := m
      subst hstack
      rw [List.nil_append, step_done]
      cases routine with
      | none => exact .inl rfl
      | some r =>
        cases outcome with
        | finished | released => exact .inl rfl
        | again => exact .inr ⟨[], _, rfl, by simp, hagain r rfl, hagain⟩
    | ask request next =>
      right
      obtain ⟨hrequest, hnext⟩ := hrest
      rcases stack_step_ask p hstack with ⟨answer, hnow⟩ | ⟨called, answer, rfl, hnow⟩
      · exact ⟨[], _, hnow, by simp, hnext answer, hagain⟩
      · have hcalled : Allows p ok (⟨some called, called.program p⟩ : Frame ι κ E) := by
          simpa [Allows] using hok called hrequest
        exact ⟨[⟨some called, called.program p⟩], _, hnow, by simpa using hcalled, hnext answer,
          hagain⟩

/-- If what a routine calls leaves the enable bit alone, then the bit follows from the requests that
the routine has made itself. -/
theorem Shelters.external_eq_foldl
    (hok : ∀ r, (.call r : Request ι κ E).LeavesExternal →
      (r.program p).Asks Request.LeavesExternal)
    (h : Shelters p Request.LeavesExternal below m) (before : Bool) {n : Nat}
    (hstay : StaysAbove p below.length n m) :
    ((run p n m).stack = below ∨ Shelters p Request.LeavesExternal below (run p n m)) ∧
      external p before m n =
        (issued p below.length n m).foldl (fun bit request => request.external bit) before := by
  induction n with
  | zero => exact ⟨.inr h, rfl⟩
  | succ n ih =>
    obtain ⟨hshelters, hbit⟩ := ih fun k hk => hstay k (by omega)
    have hbefore : below.length < (run p n m).stack.length := hstay n (by omega)
    have hnow : Shelters p Request.LeavesExternal below (run p n m) := by
      rcases hshelters with hreturned | hnow
      · rw [hreturned] at hbefore
        omega
      · exact hnow
    refine ⟨by rw [run_succ_last]; exact hnow.step p hok, ?_⟩
    rw [issued_succ_last, List.foldl_append, ← hbit, external]
    cases hown : (run p n m).requestAt? below.length with
    | some request =>
      rw [next?_of_requestAt? hown]
      rfl
    | none =>
      cases hnext : (run p n m).next? with
      | none => rfl
      | some request =>
        rcases hnow.ok_or_requestAt? p hnext with hleaves | hsome
        · exact hleaves.external_eq _
        · rw [hown] at hsome
          cases hsome

omit [DecidableEq ι] in
/-- A drain uses devices, and dispatches what it has claimed. -/
theorem asks_drain {c : ι} {hart : Nat} (hdevice : ∀ op, ok (.device op))
    (hcall : ∀ s, ok (.call (.dispatch s))) : ((Routine.drain c hart).program p).Asks ok := by
  have hclaim : (Request.onDevices ((p.controller c).claim hart) :
      Program (software ι κ E) Claim).Asks ok := Request.asks_onDevices hdevice _
  refine hclaim.bind fun claim => ?_
  split
  · trivial
  · exact ⟨hcall _, fun _ => trivial⟩

omit [DecidableEq ι] in
/-- What is called by a routine other than a trap leaves the enable bit alone, if handlers do. -/
theorem asks_leavesExternal (hbehaviour : ∀ h s, (p.behaviour h s).Asks Request.LeavesExternal)
    (r : Routine ι κ) (hr : (.call r : Request ι κ E).LeavesExternal) :
    (r.program p).Asks Request.LeavesExternal := by
  cases r with
  | trap c hart => exact absurd hr id
  | handler h s => exact (hbehaviour h s).map _
  | dispatch s => exact asks_dispatch p trivial trivial fun _ => trivial
  | drain c hart => exact asks_drain p (fun _ => trivial) fun _ => trivial

end Machine

namespace TrapEntry

variable {ι κ : Type} {E : Interface} {c : ι} {hart : Nat}

theorem foldl_external {requests : List (Request ι κ E)}
    (h : ∀ request ∈ requests, request.LeavesExternal) (before : Bool) :
    requests.foldl (fun bit request => request.external bit) before = before := by
  induction requests with
  | nil => rfl
  | cons request rest ih =>
    rw [List.foldl_cons, (h request List.mem_cons_self).external_eq]
    exact ih fun later hlater => h later (List.mem_cons_of_mem request hlater)

theorem leavesExternal_codeRequests (c : ι) (hart code : Nat) {request : Request ι κ E}
    (h : request ∈ codeRequests c hart code) : request.LeavesExternal := by
  unfold codeRequests at h
  split at h
  · rw [List.mem_singleton.mp h]
    trivial
  · split at h
    · rcases List.mem_cons.mp h with rfl | hrest
      · trivial
      · split at hrest
        · rw [List.mem_singleton.mp hrest]
          trivial
        · cases hrest
    · cases h

/-- All the requests for a cause in the top interrupt register set the bit, if there is a cause. -/
theorem foldl_external_causeRequests (stopi : BitVec 64) (before : Bool) :
    (causeRequests c hart .stopi stopi : List (Request ι κ E)).foldl
      (fun bit request => request.external bit) before = if stopi = 0 then before else true := by
  rw [causeRequests, stopiRequests]
  split
  next => rfl
  next =>
    rw [← List.cons_append, ← List.cons_append, List.foldl_append]
    rfl

/-- The bit is clear whenever the last of these requests that was made is a call. -/
theorem foldl_external_of_getLast? {stopi : BitVec 64} {made : List (Request ι κ E)}
    {called : Routine ι κ} (h : made <+: causeRequests c hart .stopi stopi)
    (hlast : made.getLast? = some (.call called)) (before : Bool) :
    made.foldl (fun bit request => request.external bit) before = false := by
  rw [causeRequests, stopiRequests] at h
  split at h
  next =>
    have hmem := h.subset (List.mem_of_getLast? hlast)
    simp at hmem
  next =>
    obtain _ | ⟨first, made⟩ := made
    · cases hlast
    obtain ⟨hfirst, hrest⟩ := List.cons_prefix_cons.mp h
    obtain _ | ⟨second, made⟩ := made
    · rw [hfirst] at hlast
      cases hlast
    obtain ⟨hsecond, hcodes⟩ := List.cons_prefix_cons.mp hrest
    rw [hfirst, hsecond] at hlast ⊢
    rcases List.prefix_concat_iff.mp hcodes with hall | hcode
    · rw [hall, ← List.cons_append, ← List.cons_append, List.getLast?_concat] at hlast
      cases hlast
    · exact foldl_external (fun request hmem =>
        leavesExternal_codeRequests c hart _ (hcode.subset hmem)) false

end TrapEntry

namespace Machine

variable {ι κ σ : Type} {E : Interface} [DecidableEq ι] (p : Platform ι κ E σ)
  {t : List (ι × Nat)} {c : ι} {hart : Nat} {below : List (Frame ι κ E)}

omit [DecidableEq ι] in
/-- A trap calls only what leaves the enable bit alone. -/
theorem asks_trap (c : ι) (hart : Nat) :
    ((Routine.trap c hart).program p).Asks (Request.CallsOnly Request.LeavesExternal) := by
  have hcode (code : Nat) (request : Request ι κ E)
      (h : request ∈ TrapEntry.codeRequests c hart code) :
      request.CallsOnly Request.LeavesExternal := by
    have hleaves := TrapEntry.leavesExternal_codeRequests c hart code h
    cases request with
    | call called => exact hleaves
    | _ => trivial
  rw [program_trap]
  refine Program.Asks.map ?_ _
  cases (p.controller c).causeRegister with
  | scause =>
    refine ⟨trivial, fun scause => (TrapEntry.issues_of_scause scause).asks fun request h => ?_⟩
    unfold TrapEntry.scauseRequests at h
    split at h
    · exact hcode _ request h
    · rw [List.mem_singleton.mp h]
      trivial
  | stopi =>
    refine ⟨trivial, fun stopi => (TrapEntry.issues_of_stopi stopi).asks fun request h => ?_⟩
    unfold TrapEntry.stopiRequests at h
    split at h
    · cases h
    · rcases List.mem_cons.mp h with rfl | h
      · trivial
      · rcases List.mem_append.mp h with h | h
        · exact hcode _ request h
        · rw [List.mem_singleton.mp h]
          trivial

theorem shelters_trap (w : σ) (hs : HandlerTable κ) (below : List (Frame ι κ E))
    (haccepted : refusal t (.trap c hart : Routine ι κ) = none) :
    Shelters p Request.LeavesExternal below (start p (.trap c hart) w hs t below) := by
  rw [start_of_accepted p haccepted]
  exact ⟨[], _, rfl, by simp, by simpa [Allows] using asks_trap p c hart⟩

/-- A trap that is refused has returned at once. -/
theorem eq_zero_of_refused {notice : Notice} (w : σ) (hs : HandlerTable κ) {n : Nat}
    (hrefused : refusal t (.trap c hart : Routine ι κ) = some notice)
    (hstay : StaysAbove p below.length n (start p (.trap c hart) w hs t below)) :
    (start p (.trap c hart) w hs t below).stack = below ∧ n = 0 := by
  have hstack : (start p (.trap c hart) w hs t below).stack = below := by
    rw [start_of_refused p hrefused]
  refine ⟨hstack, Nat.eq_zero_of_not_pos fun hpos => ?_⟩
  have habove := hstay 0 hpos
  rw [run_zero, hstack] at habove
  omega

/-- The enable bit of external interrupts around a trap with its cause in the top interrupt
register. While anything runs that the trap has called, and so during every handler, external
interrupts are off. When the trap returns they are on, unless it was refused or found no cause. So
the bit has its old value again exactly if it was set before, or was never touched. -/
theorem external_of_trap (c : ι) (hart : Nat) (hstopi : (p.controller c).causeRegister = .stopi)
    (hbehaviour : ∀ h s, (p.behaviour h s).Asks Request.LeavesExternal) (before : Bool) (w : σ)
    (hs : HandlerTable κ) (t : List (ι × Nat)) (below : List (Frame ι κ E)) :
    let m := start p (.trap c hart) w hs t below
    let untouched := refusal t (.trap c hart : Routine ι κ) ≠ none ∨ (p.csr .stopi w).1 = 0
    (∀ n, StaysAbove p below.length n m → below.length + 1 < (run p n m).stack.length →
      external p before m n = false) ∧
    (∀ n, StaysAbove p below.length n m → (run p n m).stack.length ≤ below.length →
      (run p n m).stack = below ∧
        (untouched → external p before m n = before) ∧
        (¬ untouched → external p before m n = true) ∧
        (external p before m n = before ↔ before = true ∨ untouched)) ∧
    ((∀ n, ∃ k ≥ n, (run p k m).stack.length ≤ below.length + 1) →
      ∃ n, StaysAbove p below.length n m ∧ (run p n m).stack = below) := by
  intro m untouched
  cases hrefusal : refusal t (.trap c hart : Routine ι κ) with
  | some notice =>
    have huntouched : untouched := .inl (by rw [hrefusal]; nofun)
    have hat {n : Nat} (hstay : StaysAbove p below.length n m) : m.stack = below ∧ n = 0 :=
      eq_zero_of_refused p w hs hrefusal hstay
    refine ⟨fun n hstay hbusy => ?_, fun n hstay _ => ?_, fun _ => ?_⟩
    · obtain ⟨hstack, rfl⟩ := hat hstay
      rw [run_zero, hstack] at hbusy
      omega
    · obtain ⟨hstack, rfl⟩ := hat hstay
      exact ⟨hstack, fun _ => rfl, fun hnot => absurd huntouched hnot,
        iff_of_true rfl (.inr huntouched)⟩
    · have hnone : StaysAbove p below.length 0 m := fun k hk => absurd hk (Nat.not_lt_zero k)
      exact ⟨0, hnone, (hat hnone).1⟩
  | none =>
    have hmakes : Makes p below _ m := makes_trap p w hs below hrefusal
    have hshelters : Shelters p Request.LeavesExternal below m :=
      shelters_trap p w hs below hrefusal
    have hbit {n : Nat} (hstay : StaysAbove p below.length n m) :=
      (hshelters.external_eq_foldl p (asks_leavesExternal p hbehaviour) before hstay).2
    rw [hstopi] at hmakes
    refine ⟨fun n hstay hbusy => ?_, fun n hstay hreturned => ?_, hmakes.returns⟩
    · obtain ⟨called, hlast⟩ := hmakes.waits n hstay hbusy
      rw [hbit hstay]
      exact TrapEntry.foldl_external_of_getLast? (hmakes.in_order n hstay) hlast before
    · obtain ⟨hstack, hall⟩ := hmakes.complete n hstay hreturned
      have hend : external p before m n = if (p.csr .stopi w).1 = 0 then before else true := by
        rw [hbit hstay, hall]
        exact TrapEntry.foldl_external_causeRequests _ before
      have huntouched : untouched ↔ (p.csr .stopi w).1 = 0 := by
        simp only [untouched, hrefusal, ne_eq, not_true_eq_false, false_or]
      rw [huntouched, hend]
      refine ⟨hstack, fun hzero => if_pos hzero, fun hcause => if_neg hcause, ?_⟩
      by_cases hzero : (p.csr .stopi w).1 = 0
      · rw [if_pos hzero]
        exact iff_of_true rfl (.inr hzero)
      · rw [if_neg hzero]
        simp only [hzero, or_false, eq_comm]

theorem asks_leavesExternal_softPlatform (h : Unit) (s : Nat) :
    (softPlatform.behaviour h s).Asks Request.LeavesExternal :=
  ⟨trivial, fun _ => trivial⟩

/-- During the handler of a software interrupt external interrupts are off, and after it they are
on. -/
theorem external_of_trap_softTrap :
    (run softPlatform 5 softTrap).stack.length = 3 ∧ external softPlatform true softTrap 5 = false ∧
      (run softPlatform 11 softTrap).stack = [] ∧
      external softPlatform true softTrap 11 = true := by
  have hstay (n : Nat) (h : n ≤ 11) : StaysAbove softPlatform 0 n softTrap := by
    intro k hk
    have hall : ∀ k < 11, 0 < (run softPlatform k softTrap).stack.length := by decide +kernel
    exact hall k (by omega)
  have hbusy : (run softPlatform 5 softTrap).stack.length = 3 := by decide +kernel
  have hreturned : (run softPlatform 11 softTrap).stack.length = 0 := by decide +kernel
  have hcause : (softPlatform.csr .stopi []).1 ≠ 0 := by decide
  obtain ⟨hduring, hafter, -⟩ := external_of_trap softPlatform () 3 rfl
    asks_leavesExternal_softPlatform true [] (.fill _ (some ())) [((), 7)] []
  obtain ⟨hstack, -, hon, -⟩ := hafter 11 (hstay 11 (by omega)) (Nat.le_of_eq hreturned)
  refine ⟨hbusy, hduring 5 (hstay 5 (by omega)) ?_, hstack, hon ?_⟩
  · change 1 < (run softPlatform 5 softTrap).stack.length
    omega
  · rintro (hrefused | hzero)
    · exact hrefused (by decide)
    · exact hcause hzero

/-- A trap always leaves the enable bit of external interrupts as it found it. -/
def RestoresExternal (c : ι) (hart : Nat) : Prop :=
  ∀ before w hs t below n, StaysAbove p below.length n (start p (.trap c hart) w hs t below) →
    (run p n (start p (.trap c hart) w hs t below)).stack = below →
      external p before (start p (.trap c hart) w hs t below) n = before

/-- External interrupts that were masked before the software interrupt are not masked after it. -/
theorem not_restoresExternal_softTrap : ¬ RestoresExternal softPlatform () 3 := by
  intro h
  have hstay : StaysAbove softPlatform 0 11 softTrap := by decide +kernel
  have hreturned : (run softPlatform 11 softTrap).stack.length = 0 := by decide +kernel
  have hrestored : external softPlatform false softTrap 11 = false :=
    h false [] (.fill _ (some ())) [((), 7)] [] 11 hstay (List.length_eq_zero_iff.mp hreturned)
  have hon : external softPlatform false softTrap 11 = true := by decide +kernel
  rw [hon] at hrestored
  cases hrestored

end Machine

end AdvancedInterrupts
