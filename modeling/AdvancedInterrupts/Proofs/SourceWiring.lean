import AdvancedInterrupts.Proofs.SourceRefinement

/-!
# Wiring a source

A source is wired in three steps: its mode, its target and its enable bit. The
first and the last take effect for every source that exists. The target is
written only if the hart has a delivery structure and the priority fits, so a
wiring with a target that is refused still leaves the source in its new mode and
enabled, on the hart that it was routed to before.
-/
namespace AdvancedInterrupts

namespace Aplic

/-- The handle and the domain deliver directly and have the same sources. -/
structure Describes (a : Aplic) (d : EmulatedDomain) : Prop where
  fits : d.address + d.size ≤ addressSpace
  sources : a.sources = d.sourceCount
  handleDelivery : a.delivery = .direct
  domainDelivery : d.config.delivery = .direct

variable (a : Aplic)

/-- The target word of a wiring, if its hart has a delivery structure and its priority fits. -/
def targetWord? (w : Wiring) : Option Word :=
  (a.idcOfHart w.hart).bind fun i =>
    if i < a.idcs ∧ w.priority ≤ maxPriority then some (Target.word i (max w.priority 1)) else none

/-- The registers of a source that has been wired. -/
def wired (w : Wiring) (x : Source) : Source where
  mode := w.mode
  target := (a.targetWord? w).getD x.target
  pending := w.mode.isActive && x.pending
  enabled := w.mode.isActive

variable {a} {d : EmulatedDomain}

/-- An update of a source that the handle and the domain both know reaches it. -/
theorem afterUpdate_of_hasSource {s : Nat} (hs : a.hasSource s = true) (hs' : d.hasSource s = true)
    (u : SourceUpdate) : a.afterUpdate d s u = d.modifySource s ((u.effect? a).getD id) := by
  rw [afterUpdate_eq_change, change_of_hasSource hs, hs', if_pos rfl]

theorem foldl_afterUpdate {s : Nat} (hs : a.hasSource s = true) (hs' : d.hasSource s = true)
    (us : List SourceUpdate) :
    us.foldl (fun d u => a.afterUpdate d s u) d =
      d.modifySource s fun x => us.foldl (fun x u => (u.effect? a).getD id x) x := by
  rw [foldl_afterUpdate_eq_change, change_of_hasSource hs, hs', if_pos rfl]

section Direct

variable (ha : a.delivery = .direct)

include ha

/-- The target of a wiring is what is asked for when the source is routed. -/
theorem effect?_target (w : Wiring) :
    (SourceUpdate.target w.hart w.priority).effect? a =
      (a.targetWord? w).map fun word x => { x with target := word } := by
  rw [SourceUpdate.effect?, route?, ha, targetWord?, idcIndex?]
  cases a.idcOfHart w.hart with
  | none => simp
  | some i =>
    rw [Option.filter_some]
    by_cases hi : i < a.idcs <;> by_cases hpriority : w.priority ≤ maxPriority <;>
      simp [hi, hpriority]

/-- The three updates of a wiring, taken together. -/
theorem wired_eq (w : Wiring) (x : Source) :
    (a.wiringUpdates w).foldl (fun x u => (u.effect? a).getD id x) x = a.wired w x := by
  have hrouted (y : Source) : (((a.targetWord? w).map fun word (x : Source) =>
      { x with target := word }).getD id) y =
      { y with target := (a.targetWord? w).getD y.target } := by
    cases a.targetWord? w <;> rfl
  simp only [wiringUpdates, ha, List.foldl_cons, List.foldl_nil, effect?_target ha, hrouted]
  cases hmode : w.mode <;>
    simp [SourceUpdate.effect?, wired, Source.switchedTo, Source.withFlag, SourceMode.isActive,
      hmode]

end Direct

namespace Describes

theorem hasSource_eq (h : a.Describes d) (s : Nat) : a.hasSource s = d.hasSource s := by
  rw [Aplic.hasSource, EmulatedDomain.hasSource, h.sources]

/-- A wiring changes the registers of the source, if it exists, and nothing else. -/
theorem run_configure (h : a.Describes d) (s : Nat) (w : Wiring) :
    ((a.configure s w).run EmulatedDomain.service d).2 =
      if a.hasSource s then d.modifySource s (a.wired w) else d := by
  rw [Aplic.run_configure h.fits (h.handleDelivery.trans h.domainDelivery.symm)]
  cases hs : a.hasSource s with
  | false =>
    simp only [wiringUpdates, List.foldl_cons, List.foldl_nil, afterUpdate_of_not_hasSource hs]
    rfl
  | true =>
    rw [if_pos rfl, foldl_afterUpdate hs (by rwa [← h.hasSource_eq])]
    exact d.modifySource_congr (wired_eq h.handleDelivery w _)

end Describes

/-- The source has what its wiring asks for. -/
structure HasWiring (a : Aplic) (s : Nat) (w : Wiring) (d : EmulatedDomain) : Prop where
  mode : (d.source s).mode = w.mode
  routed : ∃ i < a.idcs, a.idcOfHart w.hart = some i ∧ Target.hart (d.source s).target = i
  priority : Target.priority (d.source s).target = max w.priority 1
  enabled : (d.source s).enabled = w.mode.isActive

/-- There is no such source, its hart has no delivery structure, or its priority does not fit. -/
def RefusesWiring (a : Aplic) (s : Nat) (w : Wiring) : Prop :=
  a.hasSource s = false ∨ (∀ i, a.idcOfHart w.hart = some i → a.idcs ≤ i) ∨
    maxPriority < w.priority

/-- Either the source has what its wiring asks for, or the wiring has been refused and the domain
is as before. -/
def AllOrNothing (a : Aplic) (s : Nat) (w : Wiring) (before after : EmulatedDomain) : Prop :=
  a.HasWiring s w after ∨ a.RefusesWiring s w ∧ after = before

theorem targetWord?_eq_some_iff {w : Wiring} {word : Word} :
    a.targetWord? w = some word ↔ ∃ i < a.idcs, a.idcOfHart w.hart = some i ∧
      w.priority ≤ maxPriority ∧ word = Target.word i (max w.priority 1) := by
  constructor
  · intro h
    obtain ⟨i, hmap, hword⟩ := Option.bind_eq_some_iff.mp h
    split at hword
    next hfits => exact ⟨i, hfits.1, hmap, hfits.2, (Option.some.inj hword).symm⟩
    next => cases hword
  · rintro ⟨i, hi, hmap, hp, rfl⟩
    simp [targetWord?, hmap, hi, hp]

theorem refusesWiring_of_targetWord? {w : Wiring} (h : a.targetWord? w = none) (s : Nat) :
    a.RefusesWiring s w := by
  by_cases hp : w.priority ≤ maxPriority
  · refine Or.inr (Or.inl fun i hmap => Nat.le_of_not_lt fun hi => ?_)
    have hsome := targetWord?_eq_some_iff.mpr ⟨i, hi, hmap, hp, rfl⟩
    rw [h] at hsome
    cases hsome
  · exact Or.inr (Or.inr (Nat.lt_of_not_le hp))

/-- A source that has its wiring has a target that is not refused. -/
theorem HasWiring.targetWord?_ne_none {s : Nat} {w : Wiring} (h : a.HasWiring s w d) :
    a.targetWord? w ≠ none := by
  obtain ⟨i, hi, hmap, -⟩ := h.routed
  have hfit : Target.priority (d.source s).target ≤ Target.priorityField.max := Word.field_le _ _
  have hpriority : w.priority ≤ maxPriority := by
    rw [h.priority] at hfit
    exact Nat.le_trans (Nat.le_max_left w.priority 1) hfit
  have hsome := targetWord?_eq_some_iff.mpr ⟨i, hi, hmap, hpriority, rfl⟩
  rw [hsome]
  exact Option.some_ne_none _

theorem hasWiring_modifySource {s : Nat} (hs : s < sourceSlots) {w : Wiring}
    (h : a.targetWord? w ≠ none) : a.HasWiring s w (d.modifySource s (a.wired w)) := by
  obtain ⟨word, hword⟩ := Option.ne_none_iff_exists'.mp h
  obtain ⟨i, hi, hmap, hpriority, rfl⟩ := targetWord?_eq_some_iff.mp hword
  have hsource : (d.modifySource s (a.wired w)).source s = a.wired w (d.source s) :=
    d.source_modifySource_self hs _
  have htarget : (a.wired w (d.source s)).target = Target.word i (max w.priority 1) := by
    rw [wired, hword, Option.getD_some]
  have hhart : i ≤ Target.hartField.max := by
    have hrange := a.idcs_range
    omega
  have hmax : max w.priority 1 ≤ maxPriority := Nat.max_le.mpr ⟨hpriority, by decide⟩
  constructor
  · rw [hsource, wired]
  · exact ⟨i, hi, hmap, by rw [hsource, htarget, Target.hart_word hhart hmax]⟩
  · rw [hsource, htarget, Target.priority_word hhart hmax]
  · rw [hsource, wired]

/-- A wiring of a source that exists gives it its mode and its enable bit in any case. So it is
applied as a whole or not at all exactly when its target is not refused, or when the source
already has that mode and enable bit. -/
theorem configure_allOrNothing_iff (hd : d.Reachable) (h : a.Describes d) (s : Nat) (w : Wiring) :
    let after := ((a.configure s w).run EmulatedDomain.service d).2
    after = (if a.hasSource s then d.modifySource s (a.wired w) else d) ∧
      (a.AllOrNothing s w d after ↔ (a.hasSource s = true → a.targetWord? w = none →
        (d.source s).mode = w.mode ∧ (d.source s).enabled = w.mode.isActive)) := by
  intro after
  have hafter : after = _ := h.run_configure s w
  refine ⟨hafter, ?_⟩
  rw [hafter]
  by_cases hs : a.hasSource s = true
  · have hslots : s < sourceSlots := d.lt_sourceSlots_of_hasSource (by rwa [← h.hasSource_eq])
    rw [if_pos hs]
    constructor
    · rintro (hwired | ⟨-, hsame⟩) - hrefused
      · exact absurd hrefused hwired.targetWord?_ne_none
      · have hsource : a.wired w (d.source s) = d.source s := by
          rw [← d.source_modifySource_self hslots (a.wired w), hsame]
        rw [← hsource]
        exact ⟨rfl, rfl⟩
    · intro hkeeps
      cases htarget : a.targetWord? w with
      | some word =>
        refine Or.inl (hasWiring_modifySource hslots ?_)
        rw [htarget]
        exact Option.some_ne_none word
      | none =>
        obtain ⟨hmode, henabled⟩ := hkeeps hs htarget
        refine Or.inr ⟨refusesWiring_of_targetWord? htarget s, d.modifySource_eq_self ?_⟩
        have hpending : (w.mode.isActive && (d.source s).pending) = (d.source s).pending := by
          rw [← hmode]
          cases hactive : (d.source s).mode.isActive with
          | true => exact Bool.true_and _
          | false =>
            have hinactive : (d.source s).mode = .inactive := by
              simpa [SourceMode.isActive] using hactive
            exact (hd.consistent.inactive s hinactive .pending).symm
        rw [wired, htarget, Option.getD_none, hpending, ← henabled, ← hmode]
  · rw [if_neg hs]
    exact ⟨fun _ hsource => absurd hsource hs,
      fun _ => Or.inr ⟨Or.inl (Bool.eq_false_iff.mpr hs), rfl⟩⟩

/-- A handle on the sample domain that gives hart `h` delivery structure `h`. -/
def sampleHandle : Aplic :=
  ⟨{ AplicConfig.standard with sources := 8, idcs := 2 }, by decide, by decide⟩

theorem sampleHandle_describes : sampleHandle.Describes .sample :=
  ⟨by decide, rfl, rfl, rfl⟩

theorem configure_allOrNothing_sampleHandle :
    sampleHandle.AllOrNothing 3 ⟨.edgeRise, 1, 0⟩ .sample
      ((sampleHandle.configure 3 ⟨.edgeRise, 1, 0⟩).run EmulatedDomain.service .sample).2 := by
  have htarget : sampleHandle.targetWord? ⟨.edgeRise, 1, 0⟩ ≠ none := by decide
  obtain ⟨-, hiff⟩ := configure_allOrNothing_iff EmulatedDomain.sample_reachable
    sampleHandle_describes 3 ⟨.edgeRise, 1, 0⟩
  exact hiff.mpr fun _ hrefused => absurd hrefused htarget

/-- Hart 7 would have a delivery structure that does not exist. The source is live on the first one
all the same. -/
theorem not_allOrNothing_sampleHandle :
    let after := ((sampleHandle.configure 3 ⟨.edgeRise, 7, 5⟩).run EmulatedDomain.service .sample).2
    ¬ sampleHandle.AllOrNothing 3 ⟨.edgeRise, 7, 5⟩ .sample after ∧
      after.source 3 = ⟨.edgeRise, 0, false, true⟩ ∧ Target.hart (after.source 3).target = 0 := by
  intro after
  have hafter : after.source 3 = ⟨.edgeRise, 0, false, true⟩ := by decide
  refine ⟨?_, hafter, by rw [hafter]; rfl⟩
  rintro (hwired | ⟨-, hsame⟩)
  · exact hwired.targetWord?_ne_none rfl
  · rw [hsame] at hafter
    exact absurd hafter (by decide)

end Aplic

end AdvancedInterrupts
