import AdvancedInterrupts.Proofs.DirectRouting
import AdvancedInterrupts.Proofs.DrainOrder
import AdvancedInterrupts.Proofs.SourceWiring

/-!
# Draining every delivery structure

The sources that are pending and enabled are divided among the delivery
structures that they are routed to. With open thresholds a drain takes the part
of its own structure, and no other part. So one drain for each structure, in any
order, takes every such source once, and none is left that no hart would ever
take.
-/
namespace AdvancedInterrupts

namespace EmulatedDomain

/-- Opens the thresholds of some delivery structures. -/
def openThresholds (indices : List Nat) : Program window Unit :=
  indices.forM fun i => (Idc.mk i).setThreshold 0

/-- A domain with direct delivery in which some delivery structures are in use and let every
priority through. -/
structure Open (indices : List Nat) (d : EmulatedDomain) : Prop where
  serves (i : Nat) (hi : i ∈ indices) : d.Serves i
  direct : d.config.delivery = .direct
  threshold (i : Nat) (hi : i ∈ indices) : (d.idc i).threshold = 0

variable {d e : EmulatedDomain} {i s : Nat} {ids indices : List Nat}

theorem run_setThreshold_zero (hfits : d.address + d.size ≤ addressSpace) (hi : i < d.idcCount) :
    ((Idc.mk i).setThreshold 0).run service d =
      ((), d.modifyIdc i fun x => { x with threshold := 0 }) := by
  refine (run_write hfits (hasRegister_idc hi .threshold) 0).trans ?_
  rw [writeRegister, if_pos hi]
  rfl

/-- Opening thresholds changes nothing else. -/
theorem run_openThresholds (hfits : d.address + d.size ≤ addressSpace)
    (hindices : ∀ i ∈ indices, i < d.idcCount) :
    let after := ((openThresholds indices).run service d).2
    after.shape = d.shape ∧ after.config = d.config ∧ (∀ s, after.source s = d.source s) ∧
      ∀ i, (after.idc i).threshold = if i ∈ indices then 0 else (d.idc i).threshold := by
  induction indices generalizing d with
  | nil => exact ⟨rfl, rfl, fun _ => rfl, fun _ => rfl⟩
  | cons i rest ih =>
    have hi := hindices i List.mem_cons_self
    have hrun : (openThresholds (i :: rest)).run service d = (openThresholds rest).run service
        (d.modifyIdc i fun x => { x with threshold := 0 }) := by
      change ((Idc.mk i).setThreshold 0 >>= fun _ => openThresholds rest).run service d = _
      rw [Program.run_bind, run_setThreshold_zero hfits hi]
    obtain ⟨hshape, hconfig, hsource, hthreshold⟩ :=
      ih (d := d.modifyIdc i fun x => { x with threshold := 0 }) hfits fun j hj =>
        hindices j (List.mem_cons_of_mem i hj)
    rw [hrun]
    refine ⟨hshape, hconfig, hsource, fun j => (hthreshold j).trans ?_⟩
    have hcount := d.idcCount_range
    rw [idc_modifyIdc]
    by_cases hj : j = i
    · subst hj
      simp [show j < maxEmulatedIdcs by omega]
    · simp [hj, Ne.symm hj]

/-- In a domain that is in use for direct delivery, all thresholds can be opened. -/
theorem Routed.open_openThresholds {n : Nat} (h : d.Routed n) {order : List Nat}
    (horder : order.Perm (List.range n)) :
    let after := ((openThresholds (List.range n)).run service d).2
    after.Open order ∧ ∀ s, after.source s = d.source s := by
  intro after
  have hindices : ∀ i ∈ List.range n, i < d.idcCount := fun i hi => by
    rw [h.idcCount]
    exact List.mem_range.mp hi
  obtain ⟨hshape, hconfig, hsource, hthreshold⟩ := run_openThresholds h.fits hindices
  have hcount : after.idcCount = d.idcCount := idcCount_of_shape hshape
  refine ⟨⟨fun i hi => ⟨h.reachable.run _, fits_of_shape hshape h.fits, ?_⟩, ?_, fun i hi => ?_⟩,
    hsource⟩
  · rw [hcount]
    exact hindices i (horder.mem_iff.mp hi)
  · rw [hconfig, h.direct]
  · rw [hthreshold, if_pos (horder.mem_iff.mp hi)]

/-- A source that is pending is routed to a delivery structure that exists. -/
theorem Routed.hart_lt {n : Nat} (h : d.Routed n) (hs : (d.source s).pending = true) :
    Target.hart (d.source s).target < n := by
  have hknown := (h.reachable.consistent.of_flag (f := .pending) hs).1
  exact (h.target s hknown).hart_lt h.le_maxEmulatedIdcs

/-- At an open delivery structure exactly the pending and enabled sources that are routed there can
be claimed. -/
theorem Open.claimable_iff (h : d.Open indices) (hi : i ∈ indices) :
    d.Claimable i s ↔ (d.source s).pending = true ∧ (d.source s).enabled = true ∧
      Target.hart (d.source s).target = i := by
  simp only [Claimable, h.direct, h.threshold i hi, true_and, true_or, and_true]

/-- What was drained at one delivery structure leaves the others open. -/
theorem Open.of_drained (h : d.Open indices) (hdrained : DrainedInOrder i ids d e)
    (hserves : ∀ j ∈ indices, e.Serves j) : e.Open indices where
  serves := hserves
  direct := by rw [hdrained.config, h.direct]
  threshold j hj := by
    rw [hdrained.idc]
    split <;> exact h.threshold j hj

theorem Open.of_cons (h : d.Open (i :: indices)) : d.Open indices :=
  ⟨fun j hj => h.serves j (List.mem_cons_of_mem i hj), h.direct,
    fun j hj => h.threshold j (List.mem_cons_of_mem i hj)⟩

end EmulatedDomain

namespace EmulatedPlatform

variable {ι κ τ : Type} {F : Interface} (P : EmulatedPlatform ι κ F τ) [DecidableEq ι]

open AdvancedInterrupts.Machine

/-- A drain that starts when the machine has returned from everything else. -/
def thenDrain (visit : ι × Nat) (m : Machine ι κ F τ) : Machine ι κ F τ :=
  P.drain visit.1 visit.2 m.world m.handlers m.inTrap

/-- One drain after the other returns. The list has what they have dispatched together. -/
inductive DrainsInTurn : List (ι × Nat) → Machine ι κ F τ → List Nat → Machine ι κ F τ → Prop where
  | nil (m : Machine ι κ F τ) : DrainsInTurn [] m [] m
  | cons {visit : ι × Nat} {visits : List (ι × Nat)} {m after : Machine ι κ F τ} {ids : List Nat}
      (n : Nat) (hreturned : (run P.platform n (P.thenDrain visit m)).stack = [])
      (hrest : DrainsInTurn visits (run P.platform n (P.thenDrain visit m)) ids after) :
      DrainsInTurn (visit :: visits) m
        (dispatched P.platform n (P.thenDrain visit m) ++ ids) after

/-- Whatever is dispatched in drains that take turns returns, and does not change the domain. -/
def QuietInTurn : List (ι × Nat) → Machine ι κ F τ → Prop
  | [], _ => True
  | visit :: visits, m =>
    Returns P.platform (P.thenDrain visit m) ∧ P.Keeps (P.thenDrain visit m) ∧
      ∀ n, (run P.platform n (P.thenDrain visit m)).stack = [] →
        QuietInTurn visits (run P.platform n (P.thenDrain visit m))

variable {P} {m : Machine ι κ F τ} {visits : List (ι × Nat)} {i : Nat}

theorem serves_thenDrain (h : m.world.1.Serves i) (visit : ι × Nat) (n : Nat) :
    (run P.platform n (P.thenDrain visit m)).world.1.Serves i := by
  induction n with
  | zero => exact h
  | succ n ih =>
    rw [run_succ_last]
    exact P.serves_step ih

theorem inPhase_thenDrain {visit : ι × Nat} (hindex : (P.handle visit.1).idcIndex? visit.2 = some i)
    (hm : m.world.1.Serves i) :
    P.InPhase visit.1 visit.2 i .round (P.thenDrain visit m) := by
  obtain ⟨hmap, hi⟩ := Option.filter_eq_some_iff.mp hindex
  exact P.inPhase_drain ⟨hmap, of_decide_eq_true hi⟩ hm m.handlers m.inTrap

/-- Handlers that call nothing and do not touch the domain are quiet, whichever drains take
turns. -/
theorem quietInTurn_of_handsOff (hfree : ∀ h s, (P.behaviour h s).Asks Request.CallFree)
    (hoff : ∀ h s, (P.behaviour h s).Asks HandsOff)
    (hvisits : ∀ visit ∈ visits, ∃ i, (P.handle visit.1).idcIndex? visit.2 = some i ∧
      m.world.1.Serves i) : P.QuietInTurn visits m := by
  induction visits generalizing m with
  | nil => trivial
  | cons visit rest ih =>
    obtain ⟨i, hindex, hserves⟩ := hvisits visit List.mem_cons_self
    have hkeeps := (inPhase_thenDrain hindex hserves).keeps_of_handsOff hoff
    refine ⟨returns_of_callFree P.platform hfree _, hkeeps, fun n _ => ih fun later hlater => ?_⟩
    obtain ⟨j, hindex', hserves'⟩ := hvisits later (List.mem_cons_of_mem visit hlater)
    exact ⟨j, hindex', serves_thenDrain hserves' visit n⟩

/-- Drains of different open delivery structures take every pending and enabled source that is
routed to one of these structures, each of them once, and leave the other sources alone. -/
theorem exists_drainsInTurn {indices : List Nat}
    (hvisits : visits.map (fun visit => (P.handle visit.1).idcIndex? visit.2) = indices.map some)
    (hnodup : indices.Nodup) (hopen : m.world.1.Open indices) (hquiet : P.QuietInTurn visits m) :
    ∃ ids after, P.DrainsInTurn visits m ids after ∧ ids.Nodup ∧
      (∀ s, s ∈ ids ↔ (m.world.1.source s).pending = true ∧ (m.world.1.source s).enabled = true ∧
        Target.hart (m.world.1.source s).target ∈ indices) ∧
      ∀ s, after.world.1.source s =
        if s ∈ ids then (m.world.1.source s).withFlag .pending false else m.world.1.source s := by
  induction visits generalizing indices m with
  | nil =>
    obtain rfl : indices = [] := by simpa using hvisits
    exact ⟨[], m, .nil m, .nil, by simp, by simp⟩
  | cons visit rest ih =>
    obtain ⟨i, others, rfl⟩ : ∃ i others, indices = i :: others := by
      cases indices with
      | nil => simp at hvisits
      | cons i others => exact ⟨i, others, rfl⟩
    obtain ⟨hindex, hrest⟩ := List.cons_eq_cons.mp hvisits
    obtain ⟨hfirst, hothers⟩ := List.nodup_cons.mp hnodup
    obtain ⟨hreturns, hkeeps, hlater⟩ := hquiet
    have hserves := hopen.serves i List.mem_cons_self
    obtain ⟨n, hstack, hdrained⟩ : ∃ n, (run P.platform n (P.thenDrain visit m)).stack = [] ∧
        EmulatedDomain.DrainedInOrder i (dispatched P.platform n (P.thenDrain visit m)) m.world.1
          (run P.platform n (P.thenDrain visit m)).world.1 :=
      (inPhase_thenDrain hindex hserves).exists_drainedInOrder hreturns hkeeps
    have hopen' := hopen.of_cons.of_drained hdrained fun j hj =>
      serves_thenDrain (hopen.of_cons.serves j hj) visit n
    obtain ⟨ids, after, hturns, hids, hmem, hsource⟩ := ih hrest hothers hopen' (hlater n hstack)
    have htaken (s : Nat) := (hdrained.mem_iff s).trans (hopen.claimable_iff List.mem_cons_self)
    have hleft (s : Nat) : s ∈ ids ↔ (m.world.1.source s).pending = true ∧
        (m.world.1.source s).enabled = true ∧ Target.hart (m.world.1.source s).target ∈ others := by
      rw [hmem, hdrained.source]
      split
      next hs =>
        have hroute := ((htaken s).mp hs).2.2
        simp [Source.withFlag, hroute, hfirst]
      next => rfl
    refine ⟨_, after, .cons n hstack hturns, ?_, fun s => ?_, fun s => ?_⟩
    · refine List.nodup_append.mpr ⟨hdrained.nodup, hids, ?_⟩
      rintro s hs _ hs' rfl
      have hroute := ((htaken s).mp hs).2.2
      exact hfirst (hroute ▸ ((hleft s).mp hs').2.2)
    · rw [List.mem_append, htaken, hleft, List.mem_cons]
      tauto
    · rw [hsource, hdrained.source]
      by_cases hs : s ∈ dispatched P.platform n (P.thenDrain visit m) <;> by_cases hs' : s ∈ ids <;>
        simp [hs, hs', Source.withFlag]

/-- From a reset for direct delivery on, sources stay routed to delivery structures that exist,
whatever handles for direct delivery are asked for. So no interrupt is stranded: with open
thresholds, one drain for each delivery structure, in any order and with handlers that return and
leave the domain alone, dispatches every source that is pending and enabled exactly once. -/
theorem no_stranded_interrupt {d : EmulatedDomain} (hd : d.Reachable)
    (hfits : d.address + d.size ≤ addressSpace) {a : Aplic} (ha : a.delivery = .direct)
    (hsources : d.sourceCount ≤ a.sources) {uses : List DomainUse}
    (huses : ∀ use ∈ uses, use.Direct d.idcCount) (P : EmulatedPlatform ι κ F τ) (t : τ)
    (handlers : HandlerTable κ) (inTrap : List (ι × Nat)) {order : List Nat}
    (horder : order.Perm (List.range d.idcCount)) {visits : List (ι × Nat)}
    (hvisits : visits.map (fun visit => (P.handle visit.1).idcIndex? visit.2) = order.map some) :
    let used := uses.foldl DomainUse.apply (a.reset.run EmulatedDomain.service d).2
    let opening := EmulatedDomain.openThresholds (List.range d.idcCount)
    let m : Machine ι κ F τ :=
      ⟨((opening.run EmulatedDomain.service used).2, t), handlers, inTrap, []⟩
    used.config.delivery = .direct ∧
      (∀ s, used.hasSource s = true →
        Target.hart (used.source s).target < d.idcCount ∧
        (1 ≤ Target.priority (used.source s).target ∧
          Target.priority (used.source s).target ≤ maxPriority) ∧
        ∀ bit, 8 ≤ bit → bit < 18 → (used.source s).target.getLsbD bit = false) ∧
      (∀ s, (used.source s).pending = true → (used.source s).enabled = true →
        ∃! i, i < d.idcCount ∧ Target.hart (used.source s).target = i) ∧
      (P.QuietInTurn visits m → ∃ ids after, P.DrainsInTurn visits m ids after ∧ ids.Nodup ∧
        (∀ s, s ∈ ids ↔ (used.source s).pending = true ∧ (used.source s).enabled = true) ∧
        ∀ s, ¬ ((after.world.1.source s).pending = true ∧
          (after.world.1.source s).enabled = true)) ∧
      ((∀ h s, (P.behaviour h s).Asks Request.CallFree) →
        (∀ h s, (P.behaviour h s).Asks HandsOff) → P.QuietInTurn visits m) := by
  intro used opening m
  have hrouted : used.Routed d.idcCount :=
    (EmulatedDomain.routed_reset hd hfits ha hsources).uses huses
  obtain ⟨hopen, hsame⟩ : m.world.1.Open order ∧ ∀ s, m.world.1.source s = used.source s :=
    hrouted.open_openThresholds horder
  refine ⟨hrouted.direct, fun s hs => ?_, fun s hpending _ => ?_, fun hquiet => ?_,
    fun hfree hoff => quietInTurn_of_handsOff hfree hoff fun visit hvisit => ?_⟩
  · have hroutes := hrouted.target s hs
    have hrange := hrouted.le_maxEmulatedIdcs
    exact ⟨hroutes.hart_lt hrange, hroutes.priority_range hrange,
      fun bit hlow hhigh => hroutes.getLsbD_between hlow hhigh⟩
  · exact ⟨_, ⟨hrouted.hart_lt hpending, rfl⟩, fun i hi => hi.2.symm⟩
  · obtain ⟨ids, after, hturns, hnodup, hids, hsource⟩ :=
      exists_drainsInTurn hvisits (horder.nodup_iff.mpr List.nodup_range) hopen hquiet
    simp only [hsame, horder.mem_iff, List.mem_range] at hids hsource
    have hwaiting (s : Nat) : s ∈ ids ↔
        (used.source s).pending = true ∧ (used.source s).enabled = true :=
      (hids s).trans ⟨fun h => ⟨h.1, h.2.1⟩, fun h => ⟨h.1, h.2, hrouted.hart_lt h.1⟩⟩
    refine ⟨ids, after, hturns, hnodup, hwaiting, fun s => ?_⟩
    rw [hsource]
    split
    next => simp [Source.withFlag]
    next hs => exact fun h => hs ((hwaiting s).mpr h)
  · have hindex : (P.handle visit.1).idcIndex? visit.2 ∈ order.map some :=
      hvisits ▸ List.mem_map_of_mem hvisit
    obtain ⟨i, hi, hsome⟩ := List.mem_map.mp hindex
    exact ⟨i, hsome.symm, hopen.serves i hi⟩

/-- Source 3 is wired to the second delivery structure and raised. -/
def sampleUses : List DomainUse :=
  [.operation Aplic.sampleHandle (.configure 3 ⟨.edgeRise, 1, 5⟩), .inject 3]

/-- A handle for direct delivery describes a domain that it has reset. -/
theorem describes_of_resets {a : Aplic} {d e : EmulatedDomain} (h : a.Resets d e)
    (hfits : d.address + d.size ≤ addressSpace) (ha : a.delivery = .direct)
    (hsources : a.sources = d.sourceCount) : a.Describes e where
  fits := EmulatedDomain.fits_of_shape h.shape hfits
  sources := hsources.trans (EmulatedDomain.sourceCount_of_shape h.shape).symm
  handleDelivery := ha
  domainDelivery := (congrArg DomainConfig.delivery h.config).trans ha

theorem source_sampleUses {d : EmulatedDomain} (h : Aplic.sampleHandle.Describes d) :
    ((sampleUses.foldl DomainUse.apply d).source 3).pending = true ∧
      ((sampleUses.foldl DomainUse.apply d).source 3).enabled = true := by
  have hknown : d.hasSource 3 = true := by rw [← h.hasSource_eq]; decide
  have hused : sampleUses.foldl DomainUse.apply d =
      (d.modifySource 3 (Aplic.sampleHandle.wired ⟨.edgeRise, 1, 5⟩)).inject 3 :=
    congrArg (EmulatedDomain.inject · 3) (h.run_configure 3 ⟨.edgeRise, 1, 5⟩)
  have hsource : (d.modifySource 3 (Aplic.sampleHandle.wired ⟨.edgeRise, 1, 5⟩)).source 3 =
      Aplic.sampleHandle.wired ⟨.edgeRise, 1, 5⟩ (d.source 3) :=
    d.source_modifySource_self (by decide) _
  have haccepts : (d.modifySource 3 (Aplic.sampleHandle.wired ⟨.edgeRise, 1, 5⟩)).acceptsFlag 3
      true = true := by
    rw [EmulatedDomain.acceptsFlag, hsource]
    exact Bool.and_eq_true_iff.mpr ⟨hknown, rfl⟩
  rw [hused, EmulatedDomain.inject, EmulatedDomain.source_setFlag, if_pos ⟨rfl, haccepts⟩, hsource]
  exact ⟨rfl, rfl⟩

/-- The second hart drains before the first one, and source 3 is dispatched. -/
theorem no_stranded_interrupt_sampleUses :
    let d := EmulatedDomain.sample.afterAll EmulatedDomain.sampleAccesses
    let used := sampleUses.foldl DomainUse.apply
      (Aplic.sampleHandle.reset.run EmulatedDomain.service d).2
    let opening := EmulatedDomain.openThresholds (List.range d.idcCount)
    let m : Machine Unit Unit noOps Unit :=
      ⟨((opening.run EmulatedDomain.service used).2, ()), .fill _ (some ()), [], []⟩
    (∀ use ∈ sampleUses, use.Direct d.idcCount) ∧
      (used.source 3).pending = true ∧ (used.source 3).enabled = true ∧
      ∃ ids after, sampleQuiet.DrainsInTurn [((), 1), ((), 0)] m ids after ∧ ids.Nodup ∧
        (∀ s, s ∈ ids ↔ (used.source s).pending = true ∧ (used.source s).enabled = true) ∧
        ∀ s, ¬ ((after.world.1.source s).pending = true ∧
          (after.world.1.source s).enabled = true) := by
  intro d used opening m
  have hd : d.Reachable := EmulatedDomain.sample_reachable.afterAll _
  have hfits : d.address + d.size ≤ addressSpace := by decide
  have huses : ∀ use ∈ sampleUses, use.Direct d.idcCount := by
    simp only [sampleUses, List.mem_cons, List.not_mem_nil, or_false]
    rintro _ (rfl | rfl)
    · exact ⟨rfl, by decide, fun _ => by simp⟩
    · trivial
  have hsources : Aplic.sampleHandle.sources = d.sourceCount := by decide
  obtain ⟨hpending, henabled⟩ := source_sampleUses (describes_of_resets
    (EmulatedDomain.resets_run hd.consistent hfits) hfits rfl hsources)
  have horder : [1, 0].Perm (List.range d.idcCount) := by decide
  have hvisits : [((), 1), ((), 0)].map
      (fun visit => (sampleQuiet.handle visit.1).idcIndex? visit.2) = [1, 0].map some := rfl
  obtain ⟨-, -, -, hdrain, hquiet⟩ := no_stranded_interrupt hd hfits (a := Aplic.sampleHandle) rfl
    (by decide) huses sampleQuiet () (.fill _ (some ())) [] horder hvisits
  refine ⟨huses, hpending, henabled, hdrain (hquiet ?_ ?_)⟩
  · exact fun _ s => Software.asks_setHandler s () trivial fun _ => trivial
  · exact fun _ s => Software.asks_setHandler s () trivial fun _ => trivial

end EmulatedPlatform

end AdvancedInterrupts
