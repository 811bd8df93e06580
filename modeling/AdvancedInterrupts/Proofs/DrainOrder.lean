import AdvancedInterrupts.Proofs.DrainCredit

/-!
# Draining while handlers leave the domain alone

With handlers that do not change the domain, the eligible sources at the start
of a drain are all that it takes. It dispatches each of them once, in the order
of urgency, and in the end they are no longer pending, an interrupt that was
forced is not forced any more, and everything else is as it was.
-/
namespace AdvancedInterrupts

namespace EmulatedDomain

variable {d d' : EmulatedDomain} {i : Nat} {ids : List Nat}

/-- What a delivery structure has taken from a domain, and all that this has changed. -/
structure DrainedInOrder (i : Nat) (ids : List Nat) (d d' : EmulatedDomain) : Prop where
  /-- Exactly what could be claimed has been taken. -/
  mem_iff (s : Nat) : s ∈ ids ↔ d.Claimable i s
  /-- It was taken by priority, and by number among equal priorities. -/
  sorted : ids.Pairwise fun a b => (d.claimOf a).Precedes (d.claimOf b)
  shape : d'.shape = d.shape
  config : d'.config = d.config
  /-- What was taken is no longer pending. -/
  source (s : Nat) :
    d'.source s = if s ∈ ids then (d.source s).withFlag .pending false else d.source s
  /-- No interrupt is forced at the delivery structure any more. -/
  idc (j : Nat) : d'.idc j = if j = i then { d.idc j with force := false } else d.idc j

namespace DrainedInOrder

/-- Nothing is taken twice. -/
theorem nodup (h : DrainedInOrder i ids d d') : ids.Nodup := by
  refine h.sorted.imp ?_
  rintro a b hab rfl
  exact Claim.not_precedes_self _ hab

/-- Nothing is taken by a claim that finds nothing. -/
theorem nil (hd : d.Consistent) (hi : i < d.idcCount) (h : d.top i = none) :
    DrainedInOrder i [] d (d.afterClaim i) where
  mem_iff s := by
    have hs := (top_eq_none hd i).mp h s
    simp [hs]
  sorted := .nil
  shape := d.shape_afterClaim i
  config := d.config_afterClaim i
  source s := by rw [source_afterClaim_of_none h, if_neg List.not_mem_nil]
  idc := idc_afterClaim_of_none h hi

/-- What a claim has found is taken before everything that can be claimed after it. -/
theorem cons (hd : d.Consistent) {x : Claim} (hx : d.top i = some x)
    (h : DrainedInOrder i ids (d.afterClaim i) d') :
    DrainedInOrder i (x.identity :: ids) d d' := by
  obtain ⟨-, hclaimable, hfirst⟩ := foremost_of_top hd hx
  have hrest : ∀ s, s ∈ ids ↔ d.Claimable i s ∧ s ≠ x.identity := by
    intro s
    rw [h.mem_iff, claimable_afterClaim hx]
  refine ⟨fun s => ?_, ?_, ?_, ?_, fun s => ?_, fun j => ?_⟩
  · rw [List.mem_cons, hrest]
    by_cases hs : s = x.identity
    · subst hs
      simp [hclaimable]
    · simp [hs]
  · refine List.pairwise_cons.mpr ⟨fun s hs => ?_, ?_⟩
    · obtain ⟨hs, hne⟩ := (hrest s).mp hs
      exact hfirst s hs hne
    · simpa only [claimOf_afterClaim hx] using h.sorted
  · rw [h.shape, shape_afterClaim]
  · rw [h.config, config_afterClaim]
  · rw [h.source, source_afterClaim hx]
    by_cases hs : s = x.identity
    · subst hs
      have hnot : x.identity ∉ ids := fun hmem => ((hrest _).mp hmem).2 rfl
      simp [hnot]
    · simp [hs]
  · rw [h.idc, idc_afterClaim hx]

end DrainedInOrder

end EmulatedDomain

namespace EmulatedPlatform

variable {ι κ τ : Type} {F : Interface} (P : EmulatedPlatform ι κ F τ) [DecidableEq ι]

open AdvancedInterrupts.Machine

namespace InPhase

variable {P} {c : ι} {hart i : Nat} {φ : DrainPhase ι κ F} {m : Machine ι κ F τ}

/-- A drain that is left alone ends, and has taken everything that could be claimed. -/
theorem exists_drainedInOrder (h : P.InPhase c hart i .round m) (hret : Returns P.platform m)
    (hkeep : P.Keeps m) :
    ∃ n, (run P.platform n m).stack = [] ∧
      EmulatedDomain.DrainedInOrder i (dispatched P.platform n m) m.world.1
        (run P.platform n m).world.1 := by
  -- Each round takes one pending source, so there are no more rounds than those.
  induction hcount : m.world.1.pendingSet.card using Nat.strong_induction_on generalizing m with
  | _ count ih =>
    cases htop : m.world.1.top i with
    | none =>
      obtain ⟨hempty, hclaimed⟩ := h.step_spurious htop
      obtain ⟨hreturned, hsame⟩ := hempty.step_empty
      refine ⟨2, ?_, ?_⟩
      · rw [run_succ, run_succ, run_zero]
        exact hreturned.stack
      · have hlist : dispatched P.platform 2 m = [] := by
          simp [dispatched, h.dispatching?_eq, hempty.dispatching?_eq, DrainPhase.identity?]
        rw [hlist, run_succ, run_succ, run_zero, hsame, hclaimed]
        exact .nil h.serves.reachable.consistent h.serves.hasIdc htop
    | some x =>
      obtain ⟨k, hround, hlist, hdomain⟩ := h.next_round htop hret
      have hless := EmulatedDomain.card_pendingSet_afterClaim htop
      rw [← hdomain hkeep] at hless
      obtain ⟨n, hstack, hdrained⟩ :=
        ih _ (by omega) hround (hret.run P.platform k) (hkeep.run k) rfl
      rw [hdomain hkeep] at hdrained
      refine ⟨k + n, by rw [run_add]; exact hstack, ?_⟩
      rw [dispatched_add, hlist, run_add]
      exact hdrained.cons h.serves.reachable.consistent htop

/-- If handlers do not touch the domain, then nothing that lies above a drain does. -/
theorem exists_run_handsOff (hoff : ∀ h s, (P.behaviour h s).Asks HandsOff)
    (h : P.InPhase c hart i .round m) (n : Nat) :
    ∃ φ, P.InPhase c hart i φ (run P.platform n m) ∧
      ∀ above, φ = .calling above → ∀ f ∈ above, Allows P.platform HandsOff f := by
  have hprogram := P.asks_program_of_handsOff hoff
  induction n with
  | zero => exact ⟨.round, h, by simp⟩
  | succ n ih =>
    obtain ⟨φ, hphase, habove⟩ := ih
    rw [run_succ_last]
    cases φ with
    | found s =>
      obtain ⟨hnext, -⟩ := hphase.step_found
      refine ⟨_, hnext, ?_⟩
      rintro _ ⟨⟩ f hf
      obtain rfl := List.mem_singleton.mp hf
      simpa [Allows] using hprogram (.dispatch s) trivial
    | calling above =>
      cases above with
      | nil => exact ⟨_, hphase.step_called.1, by simp⟩
      | cons f above =>
        have hcons : (run P.platform n m).stack =
            f :: (above ++ [⟨some (.drain c hart), .done .again⟩]) := hphase.stack
        have hrest := habove _ rfl
        obtain ⟨new, hstack, hnew⟩ :=
          exists_stack_step_allows P.platform hprogram hcons (hrest f (by simp))
        refine ⟨.calling (new ++ above), ⟨hphase.mapped, ?_, P.serves_step hphase.serves,
          False.elim⟩, ?_⟩
        · rw [hstack, DrainPhase.frames, List.append_assoc]
        · rintro _ ⟨⟩ g hg
          rcases List.mem_append.mp hg with hg | hg
          · exact hnew g hg
          · exact hrest g (List.mem_cons_of_mem f hg)
    | round =>
      obtain ⟨φ', hnext, hmove⟩ := hphase.exists_move
      refine ⟨φ', hnext, ?_⟩
      rintro _ rfl
      cases hmove
    | empty => exact ⟨_, hphase.step_empty.1, by simp⟩
    | returned =>
      rw [step_of_stack_nil P.platform hphase.stack]
      exact ⟨_, hphase, by simp⟩

theorem keeps_of_handsOff (hoff : ∀ h s, (P.behaviour h s).Asks HandsOff)
    (h : P.InPhase c hart i .round m) : P.Keeps m := by
  intro n hbusy
  obtain ⟨φ, hphase, habove⟩ := h.exists_run_handsOff hoff n
  obtain ⟨f, above, rfl⟩ := hphase.busy_iff.mp hbusy
  rw [run_succ_last]
  exact P.domain_step_of_handsOff hphase.stack (habove _ rfl f (by simp)).1

end InPhase

/-- A drain whose handlers return and leave the domain alone, as those do that call nothing and do
not touch it, returns. It has then dispatched exactly the sources that could be claimed when it
started, each of them once and in the order of urgency. Nothing has changed in the domain, except
that these sources are no longer pending and that no interrupt is forced at the delivery
structure. -/
theorem drain_with_quiet_handlers (c : ι) (hart : Nat) {i : Nat} {d : EmulatedDomain}
    (hd : d.Reachable) (hfit : d.address + d.size ≤ addressSpace)
    (hmap : (P.handle c).idcOfHart hart = some i) (hhandle : i < (P.handle c).idcs)
    (hdomain : i < d.idcCount) (t : τ) (hs : HandlerTable κ) (inTrap : List (ι × Nat)) :
    let m := P.drain c hart (d, t) hs inTrap
    (Returns P.platform m → P.Keeps m → ∃ n ids,
      (run P.platform n m).stack = [] ∧ dispatched P.platform n m = ids ∧ ids.Nodup ∧
        EmulatedDomain.DrainedInOrder i ids d (run P.platform n m).world.1) ∧
    ((∀ h s, (P.behaviour h s).Asks Request.CallFree) → Returns P.platform m) ∧
    ((∀ h s, (P.behaviour h s).Asks HandsOff) → P.Keeps m) := by
  have hround : P.InPhase c hart i .round (P.drain c hart (d, t) hs inTrap) :=
    P.inPhase_drain ⟨hmap, hhandle⟩ ⟨hd, hfit, hdomain⟩ hs inTrap
  refine ⟨fun hret hkeep => ?_, fun hfree => returns_of_callFree P.platform hfree _,
    fun hoff => hround.keeps_of_handsOff hoff⟩
  obtain ⟨n, hstack, hdrained⟩ := hround.exists_drainedInOrder hret hkeep
  exact ⟨n, _, hstack, rfl, hdrained.nodup, hdrained⟩

/-- The handler of each source registers itself once more. -/
def sampleQuiet : EmulatedPlatform Unit Unit noOps Unit :=
  sample fun s => Software.setHandler s ()

def sampleDrain : Machine Unit Unit noOps Unit :=
  sampleQuiet.drain () 0 (EmulatedDomain.sample.afterAll EmulatedDomain.sampleAccesses, ())
    (.fill _ (some ())) []

theorem drain_with_quiet_handlers_sampleDrain :
    dispatched sampleQuiet.platform 30 sampleDrain = [3, 5] ∧
      ∃ n ids, (run sampleQuiet.platform n sampleDrain).stack = [] ∧
        dispatched sampleQuiet.platform n sampleDrain = ids ∧ ids.Nodup ∧
        EmulatedDomain.DrainedInOrder 0 ids
          (EmulatedDomain.sample.afterAll EmulatedDomain.sampleAccesses)
          (run sampleQuiet.platform n sampleDrain).world.1 := by
  obtain ⟨hdrain, hfree, hoff⟩ := sampleQuiet.drain_with_quiet_handlers () 0
    (EmulatedDomain.sample_reachable.afterAll EmulatedDomain.sampleAccesses) (by decide) rfl
    (by decide) (by decide) () (.fill _ (some ())) []
  exact ⟨by decide, hdrain (hfree fun _ s => Software.asks_setHandler s () trivial fun _ => trivial)
    (hoff fun _ s => Software.asks_setHandler s () trivial fun _ => trivial)⟩

end EmulatedPlatform

end AdvancedInterrupts
