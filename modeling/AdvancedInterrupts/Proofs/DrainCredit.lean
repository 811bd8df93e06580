import AdvancedInterrupts.Proofs.DrainPhases
import Mathlib.Data.Finset.Card
import Mathlib.Data.Finset.Range

/-!
# Draining while handlers act on the domain

Handlers may raise, enable, reroute or mask sources between two claims, so
neither the set of eligible sources nor its order is fixed. Two facts remain.
Each claim takes the most urgent source of its own moment, and each dispatch
uses up one source that was pending: it was pending at the start, or a handler
made it pending since. A drain whose handlers raise finitely often therefore
ends, and then nothing is left to claim.
-/
namespace AdvancedInterrupts

namespace EmulatedDomain

variable {d : EmulatedDomain}

def pendingSet (d : EmulatedDomain) : Finset Nat :=
  (Finset.range sourceSlots).filter fun s => (d.source s).pending = true

/-- The sources that are pending in a domain, and were not in an earlier one. -/
def raisedSince (before after : EmulatedDomain) : Finset Nat :=
  after.pendingSet \ before.pendingSet

/-- A claim uses up one pending source. -/
theorem card_pendingSet_afterClaim {i : Nat} {x : Claim} (h : d.top i = some x) :
    (d.afterClaim i).pendingSet.card + 1 = d.pendingSet.card := by
  obtain ⟨-, he, -⟩ := top_eq_some h
  simp only [eligible, waitsAt, Bool.and_eq_true] at he
  have hmem : x.identity ∈ d.pendingSet := by
    simp only [pendingSet, Finset.mem_filter, Finset.mem_range]
    exact ⟨d.lt_sourceSlots_of_hasSource he.2.1.1.1.1, he.2.1.1.1.2⟩
  have herase : (d.afterClaim i).pendingSet = d.pendingSet.erase x.identity := by
    ext s
    simp only [pendingSet, Finset.mem_filter, Finset.mem_erase, source_afterClaim h]
    by_cases hs : s = x.identity <;> simp [hs, Source.withFlag]
  rw [herase, Finset.card_erase_add_one hmem]

theorem pendingSet_afterClaim_of_none {i : Nat} (h : d.top i = none) :
    (d.afterClaim i).pendingSet = d.pendingSet := by
  simp only [pendingSet, source_afterClaim_of_none h]

end EmulatedDomain

namespace EmulatedPlatform

variable {ι κ τ : Type} {F : Interface} (P : EmulatedPlatform ι κ F τ) [DecidableEq ι]

open AdvancedInterrupts.Machine

/-- How often sources become pending in one step of something that the drain called. -/
def raisedInStep (m : Machine ι κ F τ) : Nat :=
  if m.Busy then (m.world.1.raisedSince (step P.platform m).world.1).card else 0

/-- How often what the drain called makes sources pending during a number of steps. -/
def raised : Nat → Machine ι κ F τ → Nat
  | 0, _ => 0
  | n + 1, m => P.raisedInStep m + raised n (step P.platform m)

/-- The next thing that the machine does is to read a claim register, and nothing is called. -/
def AboutToClaim (i : Nat) (m : Machine ι κ F τ) : Prop :=
  ∃ routine next, m.stack =
    [⟨routine, .ask (Request.device (.driver (.read (Register.idc i .claim).offset))) next⟩]

namespace InPhase

variable {P} {c : ι} {hart i : Nat} {φ : DrainPhase ι κ F} {m : Machine ι κ F τ}

omit [DecidableEq ι] in
theorem aboutToClaim (h : P.InPhase c hart i .round m) : AboutToClaim i m :=
  ⟨some (.drain c hart), afterClaimWord, by
    rw [h.stack, DrainPhase.frames, P.drain_program h.mapped.1 h.mapped.2]⟩

/-- What is dispatched was the most urgent source when it was claimed, one step before. -/
theorem foremost_of_dispatching? (h : P.InPhase c hart i .round m) {n s : Nat}
    (hs : (run P.platform n m).dispatching? = some s) :
    ∃ k, n = k + 1 ∧ AboutToClaim i (run P.platform k m) ∧
      (run P.platform k m).world.1.Foremost i s ∧
      (run P.platform n m).world.1 = (run P.platform k m).world.1.afterClaim i := by
  cases n with
  | zero =>
    rw [run_zero, h.dispatching?_eq] at hs
    cases hs
  | succ k =>
    obtain ⟨φ', h'⟩ := h.exists_run k
    obtain ⟨φ'', h'', hmove⟩ := h'.exists_move
    rw [run_succ_last] at hs ⊢
    rw [h''.dispatching?_eq] at hs
    generalize hafter : (step P.platform (run P.platform k m)).world.1 = after at hmove ⊢
    cases hmove with
    | claim hx =>
      cases hs
      exact ⟨k, rfl, h'.aboutToClaim,
        (EmulatedDomain.foremost_of_top h'.serves.reachable.consistent hx).2, rfl⟩
    | _ => cases hs

omit [DecidableEq ι] in
/-- Nothing is left to claim once the drain has returned. -/
theorem top_eq_none_of_returned (h : P.InPhase c hart i φ m) (hm : m.stack = []) :
    m.world.1.top i = none := by
  have hstack := h.stack
  rw [hm] at hstack
  cases φ with
  | returned => exact h.settled trivial
  | calling above => simp [DrainPhase.frames] at hstack
  | _ => cases hstack

/-- No step makes more sources pending than it is charged for, and what is about to be dispatched
is pending no more. -/
theorem card_pendingSet_step (h : P.InPhase c hart i φ m) :
    (step P.platform m).world.1.pendingSet.card + (step P.platform m).dispatching?.toList.length ≤
      m.world.1.pendingSet.card + P.raisedInStep m := by
  obtain ⟨φ', h', hmove⟩ := h.exists_move
  rw [h'.dispatching?_eq]
  generalize hafter : (step P.platform m).world.1 = after at hmove ⊢
  cases hmove with
  | claim hx =>
    have hcard := EmulatedDomain.card_pendingSet_afterClaim hx
    simp only [DrainPhase.identity?, Option.toList_some, List.length_singleton]
    omega
  | spurious hx =>
    rw [EmulatedDomain.pendingSet_afterClaim_of_none hx]
    simp [DrainPhase.identity?]
  | work =>
    have hbusy : m.Busy := h.busy_iff.mpr ⟨_, _, rfl⟩
    have hcard := Finset.card_le_card_sdiff_add_card (s := after.pendingSet)
      (t := m.world.1.pendingSet)
    rw [raisedInStep, if_pos hbusy, hafter, EmulatedDomain.raisedSince]
    simp only [DrainPhase.identity?, Option.toList_none, List.length_nil]
    omega
  | _ => simp [DrainPhase.identity?]

theorem length_dispatched_le (h : P.InPhase c hart i φ m) (n : Nat) :
    (dispatched P.platform n m).length ≤
      m.world.1.pendingSet.card + m.dispatching?.toList.length + P.raised n m := by
  induction n generalizing φ m with
  | zero => simp [dispatched]
  | succ n ih =>
    obtain ⟨φ', h', -⟩ := h.exists_move
    have hrest := ih h'
    have hstep := h.card_pendingSet_step
    rw [dispatched, List.length_append, raised]
    omega

/-- A drain comes to its end, or it dispatches any number of times. -/
theorem exists_returned_or_length_le (h : P.InPhase c hart i .round m)
    (hret : Returns P.platform m) (count : Nat) :
    ∃ n, (run P.platform n m).stack = [] ∨
      P.InPhase c hart i .round (run P.platform n m) ∧
        count ≤ (dispatched P.platform n m).length := by
  induction count with
  | zero => exact ⟨0, Or.inr ⟨h, Nat.zero_le _⟩⟩
  | succ count ih =>
    obtain ⟨n, hreturned | ⟨hround, hcount⟩⟩ := ih
    · exact ⟨n, Or.inl hreturned⟩
    cases htop : (run P.platform n m).world.1.top i with
    | none =>
      obtain ⟨hempty, -⟩ := hround.step_spurious htop
      obtain ⟨hreturned, -⟩ := hempty.step_empty
      refine ⟨n + 2, Or.inl ?_⟩
      rw [run_succ_last, run_succ_last]
      exact hreturned.stack
    | some x =>
      obtain ⟨k, hnext, hlist, -⟩ := hround.next_round htop (hret.run P.platform n)
      refine ⟨n + k, Or.inr ⟨by rw [run_add]; exact hnext, ?_⟩⟩
      rw [dispatched_add, hlist, List.length_append, List.length_singleton]
      omega

/-- A drain ends if what it dispatches returns and makes sources pending finitely often. -/
theorem exists_returned (h : P.InPhase c hart i .round m) (hret : Returns P.platform m)
    {bound : Nat} (hbound : ∀ n, P.raised n m ≤ bound) : ∃ n, (run P.platform n m).stack = [] := by
  obtain ⟨n, hreturned | ⟨-, hcount⟩⟩ :=
    h.exists_returned_or_length_le hret (m.world.1.pendingSet.card + bound + 1)
  · exact ⟨n, hreturned⟩
  have hle := h.length_dispatched_le n
  have hn := hbound n
  rw [h.dispatching?_eq] at hle
  simp only [DrainPhase.identity?, Option.toList_none, List.length_nil] at hle
  omega

end InPhase

/-- Whatever the handlers do between the claims of a drain, each identity that it dispatches was
the most urgent source that could be claimed at its moment, nothing can be claimed any more when it
returns, and it dispatches no more often than sources were pending at the start or became pending
while handlers ran. So it does return if they become pending finitely often, and if handlers
return, as those do that call nothing. -/
theorem drain_with_any_handlers (c : ι) (hart : Nat) {i : Nat} {d : EmulatedDomain}
    (hd : d.Reachable) (hfit : d.address + d.size ≤ addressSpace)
    (hmap : (P.handle c).idcOfHart hart = some i) (hhandle : i < (P.handle c).idcs)
    (hdomain : i < d.idcCount) (t : τ) (hs : HandlerTable κ) (inTrap : List (ι × Nat)) :
    let m := P.drain c hart (d, t) hs inTrap
    (∀ n s, (run P.platform n m).dispatching? = some s →
      ∃ k, n = k + 1 ∧ AboutToClaim i (run P.platform k m) ∧
        (run P.platform k m).world.1.Foremost i s ∧
        (run P.platform n m).world.1 = (run P.platform k m).world.1.afterClaim i) ∧
    (∀ n, (run P.platform n m).stack = [] →
      (run P.platform n m).world.1.topWord i = 0 ∧
        ∀ s, ¬ (run P.platform n m).world.1.Claimable i s) ∧
    (∀ n, (dispatched P.platform n m).length ≤ d.pendingSet.card + P.raised n m) ∧
    ((∀ h s, (P.behaviour h s).Asks Request.CallFree) → Returns P.platform m) ∧
    (Returns P.platform m → (∃ bound, ∀ n, P.raised n m ≤ bound) →
      ∃ n, (run P.platform n m).stack = []) := by
  have hround : P.InPhase c hart i .round (P.drain c hart (d, t) hs inTrap) :=
    P.inPhase_drain ⟨hmap, hhandle⟩ ⟨hd, hfit, hdomain⟩ hs inTrap
  refine ⟨fun n s => hround.foremost_of_dispatching?, fun n hn => ?_, fun n => ?_,
    fun hfree => returns_of_callFree P.platform hfree _, fun hret ⟨bound, hbound⟩ =>
    hround.exists_returned hret hbound⟩
  · obtain ⟨φ, hphase⟩ := hround.exists_run n
    have htop := hphase.top_eq_none_of_returned hn
    refine ⟨by rw [EmulatedDomain.topWord, htop], ?_⟩
    exact (EmulatedDomain.top_eq_none hphase.serves.reachable.consistent i).mp htop
  · have hstart : (P.drain c hart (d, t) hs inTrap).world.1 = d := rfl
    have hle := hround.length_dispatched_le n
    rw [hround.dispatching?_eq, hstart] at hle
    simpa [DrainPhase.identity?] using hle

/-- The handler of source 5 raises source 3. -/
def sampleRaising : EmulatedPlatform Unit Unit noOps Unit :=
  sample fun s =>
    if s = 5 then .ask (Request.device (.access (.inject 3))) fun _ => .done () else .done ()

def sampleRaisingDrain : Machine Unit Unit noOps Unit :=
  sampleRaising.drain () 0 (EmulatedDomain.sample.afterAll EmulatedDomain.sampleAccesses, ())
    (.fill _ (some ())) []

theorem drain_with_any_handlers_sampleRaisingDrain :
    (dispatched sampleRaising.platform 40 sampleRaisingDrain = [3, 5, 3] ∧
      (run sampleRaising.platform 40 sampleRaisingDrain).stack = []) ∧
    (∀ s, ¬ (run sampleRaising.platform 40 sampleRaisingDrain).world.1.Claimable 0 s) ∧
    Returns sampleRaising.platform sampleRaisingDrain := by
  obtain ⟨-, hend, -, hfree, -⟩ := sampleRaising.drain_with_any_handlers () 0
    (EmulatedDomain.sample_reachable.afterAll EmulatedDomain.sampleAccesses) (by decide) rfl
    (by decide) (by decide) () (.fill _ (some ())) []
  have hstack : (run sampleRaising.platform 40 sampleRaisingDrain).stack = [] := by decide
  refine ⟨⟨by decide, hstack⟩, (hend 40 hstack).2, hfree fun _ s => ?_⟩
  change Program.Asks _ (ite _ _ _)
  split
  · exact ⟨trivial, fun _ => trivial⟩
  · trivial

end EmulatedPlatform

end AdvancedInterrupts
