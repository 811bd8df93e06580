import AdvancedInterrupts.Proofs.ExternalMask

/-!
# The rounds of a drain

A drain that runs by itself goes from round to round. Each round starts with a
claim, which may take any number of steps, and which nothing can disturb, since
the drain is alone on the stack. If the claim is spurious the drain returns.
Otherwise it dispatches the identity that it has claimed, and comes to its next
round when this has returned. Nothing here depends on the controller: all that
is known of it is what its claim makes of the world.
-/
namespace AdvancedInterrupts

/-- A request that does not change what is seen of the world, and that runs neither the software of
a controller nor a trap. -/
def Request.Leaves {ι κ σ τ : Type} {E : Interface} (p : Platform ι κ E σ) (view : σ → τ) :
    Request ι κ E → Prop
  | device op => ∀ w, view (p.device op w).2 = view w
  | csr op => ∀ w, view (p.csr op w).2 = view w
  | report notice => ∀ w, view (p.report notice w) = view w
  | call (.handler h s) => ∀ w, view (p.started h s w) = view w
  | call (.trap _ _) => False
  | call (.drain _ _) => False
  | _ => True

namespace Machine

variable {ι κ σ τ : Type} {E : Interface} [DecidableEq ι] (p : Platform ι κ E σ)
  {m : Machine ι κ E σ}

/-- The program of a drain once its claim was answered. -/
def afterClaim (claim : Claim) : Program (software ι κ E) Outcome :=
  if claim.isSpurious then .done .finished
  else .ask (Request.call (.dispatch claim.identity)) fun _ => .done .again

/-- The machine is at the start of a round of a drain. -/
def AtRound (c : ι) (hart : Nat) (m : Machine ι κ E σ) : Prop :=
  m.stack = [⟨some (.drain c hart), (Routine.drain c hart).program p⟩]

variable {c : ι} {hart : Nat}

/-- What a claim of a hart answers, and what it makes of the world. -/
def claimed (c : ι) (hart : Nat) (w : σ) : Claim × σ :=
  ((p.controller c).claim hart).run p.device w

/-- A round claims before it does anything else. -/
theorem AtRound.run_claim (h : AtRound p c hart m) :
    ∃ n, run p n m = { m with
        world := (claimed p c hart m.world).2
        stack := [⟨some (.drain c hart), afterClaim (claimed p c hart m.world).1⟩] } ∧
      dispatched p n m = [] :=
  exists_run_onDevices p ((p.controller c).claim hart) afterClaim h

/-- A drain returns when its claim was spurious. -/
theorem AtRound.exists_run_spurious (h : AtRound p c hart m)
    (hclaim : (claimed p c hart m.world).1.isSpurious = true) :
    ∃ n, run p n m = { m with world := (claimed p c hart m.world).2, stack := [] } ∧
      dispatched p n m = [] := by
  obtain ⟨n, hn, hlist⟩ := h.run_claim
  rw [afterClaim, if_pos hclaim] at hn
  refine ⟨n + 1, ?_, ?_⟩
  · rw [run_succ_last, hn, step_finished p rfl]
  · rw [dispatched_add, hlist, hn]
    rfl

/-- As long as something runs above a frame, the frame waits and dispatches nothing. -/
theorem run_busy {f : Frame ι κ E} (h : ∃ above, m.stack = above ++ [f]) {n : Nat}
    (hbusy : ∀ j < n, (run p j m).Busy) :
    (∃ above, (run p n m).stack = above ++ [f]) ∧ dispatched p n m = [] := by
  induction n with
  | zero => exact ⟨h, rfl⟩
  | succ n ih =>
    obtain ⟨⟨above, hstack⟩, hnone⟩ := ih fun j hj => hbusy j (by omega)
    have hnow := hbusy n (by omega)
    refine ⟨?_, by rw [dispatched_add, hnone, dispatched, dispatching?_of_busy hnow]; rfl⟩
    cases above with
    | nil => simp [Busy, hstack] at hnow
    | cons g above =>
      have hcons : (run p n m).stack = g :: (above ++ [f]) := hstack
      obtain ⟨new, hnew⟩ := exists_stack_step p hcons
      exact ⟨new ++ above, by rw [run_succ_last, hnew, List.append_assoc]⟩

/-- A drain whose claim was not spurious dispatches what it has claimed, and is at its next round
when this has returned. -/
theorem AtRound.exists_next (h : AtRound p c hart m)
    (hclaim : (claimed p c hart m.world).1.isSpurious = false) (hret : Returns p m) :
    ∃ n > 0, AtRound p c hart (run p n m) ∧
      dispatched p n m = [(claimed p c hart m.world).1.identity] ∧
      ∀ view : σ → τ, KeepsView p view m →
        view (run p n m).world = view (claimed p c hart m.world).2 := by
  obtain ⟨a, ha, hlist⟩ := h.run_claim
  have hstack : (run p a m).stack = [⟨some (.drain c hart), .ask (Request.call
      (.dispatch (claimed p c hart m.world).1.identity)) fun _ => .done .again⟩] := by
    rw [ha, afterClaim, hclaim]
    rfl
  have hnow : (run p a m).dispatching? = some (claimed p c hart m.world).1.identity := by
    rw [dispatching?, hstack]
  have hcall := step_dispatch p hstack
  rw [← run_succ_last] at hcall
  obtain ⟨b, hidle, hbusy⟩ := hret.exists_first p (Option.isSome_of_eq_some hnow)
  obtain ⟨⟨above, hwait⟩, hnone⟩ := run_busy p ⟨[_], by rw [hcall]; rfl⟩ hbusy
  have halone : above = [] := by
    cases above with
    | nil => rfl
    | cons f above =>
      refine absurd ?_ hidle
      rw [Busy, hwait, List.length_append, List.length_cons, List.length_singleton]
      omega
  rw [halone, List.nil_append] at hwait
  have hagain := step_again p hwait
  refine ⟨a + 1 + b + 1, by omega, ?_, ?_, fun view hkeep => ?_⟩
  · rw [run_succ_last, run_add, hagain]
    rfl
  · have hlast : (run p b (run p (a + 1) m)).dispatching? = none := by
      rw [dispatching?, hwait]
    rw [dispatched_add, dispatched_add, dispatched_add, run_add p (a + 1), hlist, hnone, dispatched,
      dispatched, dispatched, hnow, hlast]
    rfl
  · rw [run_succ_last, run_add, hagain]
    show view (run p b (run p (a + 1) m)).world = _
    rw [(hkeep.run p (a + 1)).run_busy p hbusy, hcall, ha]

/-- A run that comes to its end has returned from whatever was dispatched in it. -/
theorem returns_of_stack_nil {n : Nat} (h : (run p n m).stack = []) : Returns p m := by
  intro k hk
  have hlt : k < n := by
    by_contra hle
    obtain ⟨a, rfl⟩ := Nat.exists_eq_add_of_le (Nat.le_of_not_lt hle)
    rw [run_add, run_of_stack_nil p h, dispatching?, h] at hk
    cases hk
  exact ⟨n, hlt, by simp [Busy, h]⟩

theorem run_eq_of_stack_nil {a b : Nat} (h : (run p a m).stack = []) (hle : a ≤ b) :
    run p b m = run p a m := by
  obtain ⟨k, rfl⟩ := Nat.exists_eq_add_of_le hle
  rw [run_add, run_of_stack_nil p h]

/-- A drain that has returned has made a spurious claim at last, and did nothing more to the
world. -/
theorem AtRound.exists_last (h : AtRound p c hart m) {n : Nat} (hn : (run p n m).stack = []) :
    ∃ k, AtRound p c hart (run p k m) ∧
      (claimed p c hart (run p k m).world).1.isSpurious = true ∧
      (run p n m).world = (claimed p c hart (run p k m).world).2 := by
  induction n using Nat.strong_induction_on generalizing m with
  | _ n ih =>
    cases hclaim : (claimed p c hart m.world).1.isSpurious with
    | true =>
      obtain ⟨a, ha, -⟩ := h.exists_run_spurious p hclaim
      have hworld : run p n m = run p a m := by
        rcases Nat.le_total a n with hle | hle
        · exact run_eq_of_stack_nil p (by rw [ha]) hle
        · exact (run_eq_of_stack_nil p hn hle).symm
      refine ⟨0, h, hclaim, ?_⟩
      rw [hworld, ha]
      rfl
    | false =>
      obtain ⟨a, hpos, hround, -, -⟩ := h.exists_next (τ := σ) p hclaim (returns_of_stack_nil p hn)
      have hlt : a < n := by
        by_contra hle
        rw [AtRound, run_eq_of_stack_nil p hn (Nat.le_of_not_lt hle), hn] at hround
        cases hround
      obtain ⟨b, rfl⟩ := Nat.exists_eq_add_of_le (Nat.le_of_lt hlt)
      rw [run_add] at hn
      obtain ⟨k, hlast⟩ := ih b (by omega) hround hn
      rw [← run_add, ← run_add] at hlast
      exact ⟨a + k, hlast⟩

/-- A step does not change what is seen of the world if its request does not. -/
theorem view_step {view : σ → τ} (h : ∀ request, m.next? = some request → request.Leaves p view) :
    view (step p m).world = view m.world := by
  obtain ⟨w, hs, t, stack⟩ := m
  obtain _ | ⟨⟨r, rest⟩, below⟩ := stack
  · rfl
  · cases rest with
    | done outcome =>
      rw [step_done]
      cases r with
      | none => rfl
      | some r => cases outcome <;> rfl
    | ask request next =>
      have hrequest := h request rfl
      cases request with
      | device op => exact hrequest w
      | csr op => exact hrequest w
      | report notice => exact hrequest w
      | call called =>
        cases called with
        | trap c hart => exact absurd hrequest id
        | drain c hart => exact absurd hrequest id
        | dispatch s => rfl
        | handler h s => exact hrequest w
      | _ => rfl

/-- If the handlers of a platform leave what is seen of the world alone, then so does everything
that runs above a drain. -/
theorem AtRound.keepsView (h : AtRound p c hart m) {view : σ → τ}
    (hbehaviour : ∀ h s, (p.behaviour h s).Asks (Request.Leaves p view))
    (hstarted : ∀ h s w, view (p.started h s w) = view w)
    (hreport : ∀ s w, view (p.report (.unhandled s) w) = view w) : KeepsView p view m := by
  have hok : ∀ r, (.call r : Request ι κ E).Leaves p view →
      (r.program p).Asks (Request.Leaves p view) := by
    intro r hr
    cases r with
    | trap c hart => exact absurd hr id
    | drain c hart => exact absurd hr id
    | dispatch s => exact asks_dispatch p trivial (hreport s) fun h => hstarted h s
    | handler h s => exact (hbehaviour h s).map _
  have hprogram : ((Routine.drain c hart).program p).Asks
      (Request.CallsOnly (Request.Leaves p view)) :=
    asks_drain p (fun _ => trivial) fun _ => trivial
  have hrun (n : Nat) :
      (run p n m).stack = [] ∨ Shelters p (Request.Leaves p view) [] (run p n m) := by
    induction n with
    | zero => exact .inr ⟨[], _, h, by simp, by simpa [Allows] using hprogram⟩
    | succ n ih =>
      rw [run_succ_last]
      rcases ih with hreturned | hshelters
      · rw [step_of_stack_nil p hreturned]
        exact .inl hreturned
      · exact hshelters.step p hok
  intro n hbusy
  rw [run_succ_last]
  refine view_step p fun request hnext => ?_
  rcases hrun n with hreturned | hshelters
  · simp [Busy, hreturned] at hbusy
  · rcases hshelters.ok_or_requestAt? p hnext with hleaves | hown
    · exact hleaves
    · rw [List.length_nil, requestAt?_of_lt hbusy] at hown
      cases hown

end Machine

end AdvancedInterrupts
