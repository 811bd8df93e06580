import AdvancedInterrupts.Proofs.SourceWiring

/-!
# Paths to a target

Under direct delivery the target of a source is written as a whole, or its hart
and its priority are replaced one after the other. A replacement reads the old
word, which may never have been written, or may be that of a message with bits
that mean something else. Whatever the first replacement keeps of it, the second
one takes the rest away: all paths end with the same word, and change nothing
but this target.
-/
namespace AdvancedInterrupts.Aplic

variable {a : Aplic} {d : EmulatedDomain} {hart i p s : Nat}

theorem route?_eq_some (ha : a.delivery = .direct) (hhart : a.idcOfHart hart = some i)
    (hi : i < a.idcs) : a.route? hart = some i := by
  rw [route?, ha, idcIndex?, hhart, Option.filter_some, decide_eq_true hi, if_pos rfl]

/-! ### Effects on a source -/

section

variable (ha : a.delivery = .direct) (hroute : a.route? hart = some i)
  (hp : 1 ≤ p ∧ p ≤ maxPriority)

include ha hp in
theorem effect?_priority : (SourceUpdate.priority p).effect? a =
    some fun x => { x with target := Target.word (Target.hart x.target) p } :=
  if_pos ⟨ha, hp⟩

include ha hroute in
theorem effect?_hart : (SourceUpdate.hart hart).effect? a =
    some fun x => { x with target := Target.word i (max (Target.priority x.target) 1) } := by
  simp only [SourceUpdate.effect?, hroute, ha, Option.map_some]

include ha hroute hp

theorem effect?_hart_and_priority : (SourceUpdate.target hart p).effect? a =
    some fun x => { x with target := Target.word i p } := by
  simp only [SourceUpdate.effect?, ha, hp.2, and_self, if_true, hroute, Option.map_some,
    Nat.max_eq_left hp.1]

/-- The hart comes with a priority from the old word, which is then replaced. -/
theorem effect_hart_priority (x : Source) :
    [SourceUpdate.hart hart, .priority p].foldl (fun x u => (u.effect? a).getD id x) x =
      { x with target := Target.word i p } := by
  have hi : i ≤ Target.hartField.max := le_max_of_lt_idcs (lt_of_route? hroute)
  have hold : max (Target.priority x.target) 1 ≤ maxPriority :=
    Nat.max_le.mpr ⟨Word.field_le _ _, by decide⟩
  simp only [List.foldl_cons, List.foldl_nil, effect?_hart ha hroute, effect?_priority ha hp,
    Option.getD_some, Target.hart_word hi hold]

/-- The priority comes with a hart from the old word, which is then replaced. -/
theorem effect_priority_hart (x : Source) :
    [SourceUpdate.priority p, .hart hart].foldl (fun x u => (u.effect? a).getD id x) x =
      { x with target := Target.word i p } := by
  have hold : Target.hart x.target ≤ Target.hartField.max := Word.field_le _ _
  simp only [List.foldl_cons, List.foldl_nil, effect?_hart ha hroute, effect?_priority ha hp,
    Option.getD_some, Target.priority_word hold hp.2, Nat.max_eq_left hp.1]

end

/-! ### Paths -/

/-- Two updates of one source change it by both effects. -/
theorem run_update_update (hd : d.Reachable) (hfits : d.address + d.size ≤ addressSpace)
    (hdelivery : a.delivery = d.config.delivery) (s : Nat) (u u' : SourceUpdate) :
    ((do
      u.program a s
      u'.program a s : Program window Unit).run EmulatedDomain.service d).2 =
      a.change d s fun x => [u, u'].foldl (fun x u => (u.effect? a).getD id x) x := by
  calc _ = (([u, u'].forM fun u => u.program a s).run EmulatedDomain.service d).2 := by
        simp only [List.forM, Program.run_bind]
        rfl
    _ = _ := by rw [run_updates hfits hdelivery hd, foldl_afterUpdate_eq_change]

/-- Whatever the target of a source is, all ways to route the source end in the same state. -/
theorem target_paths_agree (hd : d.Reachable) (hfits : d.address + d.size ≤ addressSpace)
    (ha : a.delivery = .direct) (hdelivery : d.config.delivery = .direct)
    (hhart : a.idcOfHart hart = some i) (hi : i < a.idcs) (hp : 1 ≤ p ∧ p ≤ maxPriority)
    (s : Nat) :
    let after := a.change d s fun x => { x with target := Target.word i p }
    ((a.setTarget s hart p).run EmulatedDomain.service d).2 = after ∧
      ((do
        a.setHart s hart
        a.setPriority s p : Program window Unit).run EmulatedDomain.service d).2 = after ∧
      ((do
        a.setPriority s p
        a.setHart s hart : Program window Unit).run EmulatedDomain.service d).2 = after := by
  intro after
  have hroute : a.route? hart = some i := route?_eq_some ha hhart hi
  have hagree : a.delivery = d.config.delivery := ha.trans hdelivery.symm
  refine ⟨?_, ?_, ?_⟩
  · rw [run_setTarget hfits hagree, afterUpdate, effect?_hart_and_priority ha hroute hp]
  · refine (run_update_update hd hfits hagree s (.hart hart) (.priority p)).trans ?_
    exact change_congr (effect_hart_priority ha hroute hp _)
  · refine (run_update_update hd hfits hagree s (.priority p) (.hart hart)).trans ?_
    exact change_congr (effect_priority_hart ha hroute hp _)

/-- The sample domain has come back from message delivery, and source 3 still has the target of a
message to hart 1. -/
def sampleLeftover : EmulatedDomain :=
  .afterAll .sample
    [.windowWrite Register.domainConfig.offset 4, .windowWrite (Register.target 3).offset 0x7F700,
      .windowWrite Register.domainConfig.offset 0]

/-- A handle that knows five of the seven sources, and one hart. -/
def loneHartHandle : Aplic :=
  ⟨⟨6, 2, .direct, fun hart => if hart = 4 then some 1 else none⟩, by decide, by decide⟩

/-- Source 3 goes to the hart, and the handle finds no source 6. -/
theorem target_paths_agree_sampleLeftover :
    let after (s : Nat) := loneHartHandle.change sampleLeftover s fun x =>
      { x with target := Target.word 1 9 }
    sampleLeftover.Reachable ∧ sampleLeftover.address + sampleLeftover.size ≤ addressSpace ∧
      loneHartHandle.delivery = .direct ∧ sampleLeftover.config.delivery = .direct ∧
      loneHartHandle.idcOfHart 4 = some 1 ∧ 1 < loneHartHandle.idcs ∧ (1 ≤ 9 ∧ 9 ≤ maxPriority) ∧
      (sampleLeftover.source 3).target = 0x7F700 ∧ ((after 3).source 3).target = 0x40009 ∧
      ∀ s,
        ((loneHartHandle.setTarget s 4 9).run EmulatedDomain.service sampleLeftover).2 = after s ∧
        ((do
          loneHartHandle.setHart s 4
          loneHartHandle.setPriority s 9 : Program window Unit).run EmulatedDomain.service
            sampleLeftover).2 = after s ∧
        ((do
          loneHartHandle.setPriority s 9
          loneHartHandle.setHart s 4 : Program window Unit).run EmulatedDomain.service
            sampleLeftover).2 = after s := by
  intro after
  have hd : sampleLeftover.Reachable := EmulatedDomain.sample_reachable.afterAll _
  have hfits : sampleLeftover.address + sampleLeftover.size ≤ addressSpace := by decide
  have hp : 1 ≤ 9 ∧ 9 ≤ maxPriority := by decide
  exact ⟨hd, hfits, rfl, rfl, rfl, by decide, hp, by decide, by decide,
    target_paths_agree hd hfits rfl rfl rfl (by decide) hp⟩

end AdvancedInterrupts.Aplic
