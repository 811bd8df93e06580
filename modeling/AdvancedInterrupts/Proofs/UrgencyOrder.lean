import AdvancedInterrupts.Proofs.LegalRegisters

/-!
# The order of urgency

The scan of a delivery structure visits the sources in ascending order and keeps
the best one so far unless a later one is strictly more urgent. Since numbers
ascend, this finds the first source in the order by priority and then by number.
The word that reports it can be read back without loss.
-/
namespace AdvancedInterrupts

namespace Claim

theorem Precedes.trans {a b c : Claim} (hab : a.Precedes b) (hbc : b.Precedes c) :
    a.Precedes c := by
  unfold Precedes at *
  omega

theorem not_precedes_self (a : Claim) : ¬ a.Precedes a := by
  unfold Precedes
  omega

/-- Over ascending identities the scan ends with a claim that it saw and that precedes every other
one. -/
theorem foldl_moreUrgent (b : Claim) (cs : List Claim)
    (h : (b :: cs).Pairwise fun x y => x.identity < y.identity) :
    ∃ c ∈ b :: cs, cs.foldl moreUrgent (some b) = some c ∧
      ∀ x ∈ b :: cs, x = c ∨ c.Precedes x := by
  induction cs generalizing b with
  | nil => exact ⟨b, by simp, rfl, by simp⟩
  | cons x rest ih =>
    obtain ⟨hb, hx, hrest⟩ : (∀ y ∈ x :: rest, b.identity < y.identity) ∧
        (∀ y ∈ rest, x.identity < y.identity) ∧
        rest.Pairwise (fun y z => y.identity < z.identity) := by
      rw [List.pairwise_cons, List.pairwise_cons] at h
      exact h
    have hbx : b.identity < x.identity := hb x (by simp)
    rw [List.foldl_cons, moreUrgent]
    split
    next hle =>
      have hpre : b.Precedes x := by
        unfold Precedes
        omega
      have hpair : (b :: rest).Pairwise fun y z => y.identity < z.identity :=
        List.pairwise_cons.mpr ⟨fun y hy => hb y (by simp [hy]), hrest⟩
      obtain ⟨c, hc, hfold, hall⟩ := ih b hpair
      have hmem : c ∈ b :: x :: rest := by
        rcases List.mem_cons.mp hc with rfl | hc
        · simp
        · simp [hc]
      refine ⟨c, hmem, hfold, fun y hy => ?_⟩
      rcases List.mem_cons.mp hy with rfl | hy
      · exact hall y (by simp)
      rcases List.mem_cons.mp hy with rfl | hy
      · rcases hall b (by simp) with rfl | hcb
        · exact Or.inr hpre
        · exact Or.inr (hcb.trans hpre)
      · exact hall y (by simp [hy])
    next hlt =>
      have hpre : x.Precedes b := by
        unfold Precedes
        omega
      obtain ⟨c, hc, hfold, hall⟩ := ih x (List.pairwise_cons.mpr ⟨hx, hrest⟩)
      refine ⟨c, List.mem_cons_of_mem _ hc, hfold, fun y hy => ?_⟩
      rcases List.mem_cons.mp hy with rfl | hy
      · rcases hall x (by simp) with rfl | hcx
        · exact Or.inr hpre
        · exact Or.inr (hcx.trans hpre)
      · exact hall y hy

end Claim

namespace EmulatedDomain

variable {d : EmulatedDomain}

theorem mem_waiting (i : Nat) (c : Claim) :
    c ∈ d.waiting i ↔ ∃ s, d.waitsAt i s = true ∧ d.claimOf s = c := by
  simp only [waiting, List.mem_map, List.mem_filter, List.mem_range]
  constructor
  · rintro ⟨s, ⟨-, hs⟩, rfl⟩
    exact ⟨s, hs, rfl⟩
  · rintro ⟨s, hs, rfl⟩
    refine ⟨s, ⟨?_, hs⟩, rfl⟩
    simp only [waitsAt, Bool.and_eq_true, hasSource_iff] at hs
    omega

/-- What waits is listed by ascending source number. -/
theorem pairwise_waiting (d : EmulatedDomain) (i : Nat) :
    (d.waiting i).Pairwise fun x y => x.identity < y.identity := by
  rw [waiting, List.pairwise_map]
  exact List.Pairwise.filter _ List.pairwise_lt_range

/-- Nothing is reported exactly if no source is eligible. -/
theorem top_eq_none_iff (i : Nat) : d.top i = none ↔ ∀ s, d.eligible i s = false := by
  unfold top eligible
  cases d.config.delivery with
  | msi => simp
  | direct =>
    have hpair := d.pairwise_waiting i
    have hmem := d.mem_waiting i
    cases hw : d.waiting i with
    | nil =>
      rw [hw] at hmem
      simp only [List.foldl_nil, true_iff]
      intro s
      cases hs : d.waitsAt i s with
      | false => rfl
      | true => exact absurd ((hmem (d.claimOf s)).mpr ⟨s, hs, rfl⟩) (by simp)
    | cons b rest =>
      rw [hw] at hpair hmem
      obtain ⟨c, -, hfold, -⟩ := Claim.foldl_moreUrgent b rest hpair
      obtain ⟨s, hs, -⟩ := (hmem b).mp (by simp)
      simp only [List.foldl_cons, Claim.moreUrgent, hfold, reduceCtorEq, false_iff]
      intro hnone
      have hs' := hnone s
      rw [hs] at hs'
      cases hs'

/-- What is reported is eligible, and precedes every other eligible source. -/
theorem top_eq_some {i : Nat} {c : Claim} (h : d.top i = some c) :
    c = d.claimOf c.identity ∧ d.eligible i c.identity = true ∧
      ∀ s, d.eligible i s = true → s ≠ c.identity → c.Precedes (d.claimOf s) := by
  unfold top at h
  unfold eligible
  cases hm : d.config.delivery with
  | msi =>
    rw [hm] at h
    cases h
  | direct =>
    rw [hm] at h
    have hpair := d.pairwise_waiting i
    have hmem := d.mem_waiting i
    cases hw : d.waiting i with
    | nil =>
      rw [hw] at h
      cases h
    | cons b rest =>
      rw [hw] at hpair hmem h
      obtain ⟨c', hc', hfold, hall⟩ := Claim.foldl_moreUrgent b rest hpair
      simp only [List.foldl_cons, Claim.moreUrgent, hfold, Option.some.injEq] at h
      subst h
      obtain ⟨s, hs, hcs⟩ := (hmem c').mp hc'
      have hid : c'.identity = s := by rw [← hcs]; rfl
      subst hid
      refine ⟨hcs.symm, by simpa using hs, fun s hs hne => ?_⟩
      rcases hall (d.claimOf s) ((hmem _).mpr ⟨s, by simpa using hs, rfl⟩) with he | hpre
      · exact absurd (congrArg Claim.identity he) hne
      · exact hpre

/-- The word that reports the top interrupt reads back as it, and as a spurious claim without
one. -/
theorem ofWord_topWord (d : EmulatedDomain) (i : Nat) :
    Claim.ofWord (d.topWord i) = (d.top i).getD Claim.spurious := by
  unfold topWord
  cases ht : d.top i with
  | none => rfl
  | some c =>
    obtain ⟨hc, he, -⟩ := top_eq_some ht
    simp only [eligible, waitsAt, Bool.and_eq_true, hasSource_iff] at he
    have hcount := d.sourceCount_range
    refine Claim.ofWord_toWord ?_ ?_
    · show c.identity ≤ 1023
      simp only [sourceSlots] at hcount
      omega
    · rw [hc]
      exact Word.field_le _ Target.priorityField

/-- Only the absence of an eligible source is reported as zero. -/
theorem identity_top_ne_zero {i : Nat} {c : Claim} (h : d.top i = some c) : c.identity ≠ 0 := by
  obtain ⟨-, he, -⟩ := top_eq_some h
  simp only [eligible, waitsAt, Bool.and_eq_true, hasSource_iff] at he
  omega

/-- The registers of another delivery structure have no part in what is reported. -/
theorem top_modifyIdc {i j : Nat} (h : j ≠ i) (f : IdcState → IdcState) :
    (d.modifyIdc j f).top i = d.top i := by
  have hidc : (d.modifyIdc j f).idc i = d.idc i := by simp [idc_modifyIdc, h]
  have hwaits : (d.modifyIdc j f).waitsAt i = d.waitsAt i := by
    funext s
    rw [waitsAt, waitsAt, hidc]
    rfl
  rw [top, top, waiting, waiting, hwaits]
  rfl

/-- A source that does not wait at a delivery structure before and after it is changed has no part
in what is reported there. -/
theorem top_modifySource {i s : Nat} {f : Source → Source} (h : d.waitsAt i s = false)
    (h' : (d.modifySource s f).waitsAt i s = false) : (d.modifySource s f).top i = d.top i := by
  have hsource (s' : Nat) (hne : s' ≠ s) : (d.modifySource s f).source s' = d.source s' := by
    simp [source_modifySource, hne.symm]
  have hwaits : (d.modifySource s f).waitsAt i = d.waitsAt i := by
    funext s'
    by_cases hs : s' = s
    · rw [hs, h, h']
    · rw [waitsAt, waitsAt, hsource s' hs]
      rfl
  have hwaiting : (d.modifySource s f).waiting i = d.waiting i := by
    rw [waiting, waiting, hwaits]
    refine List.map_congr_left fun s' hs' => ?_
    have hne : s' ≠ s := by
      rintro rfl
      simp [h] at hs'
    rw [claimOf, claimOf, hsource s' hne]
  rw [top, top, hwaiting]
  rfl

/-- A source can be claimed at a delivery structure: the domain delivers directly, and the source
is pending, enabled, routed there and let through by the threshold. -/
def Claimable (d : EmulatedDomain) (i s : Nat) : Prop :=
  d.config.delivery = .direct ∧ (d.source s).pending = true ∧ (d.source s).enabled = true ∧
    Target.hart (d.source s).target = i ∧
    ((d.idc i).threshold = 0 ∨ Target.priority (d.source s).target < (d.idc i).threshold.toNat)

/-- The source that is claimed next: it precedes every other one by priority and number. -/
def Foremost (d : EmulatedDomain) (i s : Nat) : Prop :=
  d.Claimable i s ∧ ∀ s', d.Claimable i s' → s' ≠ s → (d.claimOf s).Precedes (d.claimOf s')

theorem eligible_iff (hd : d.Consistent) (i s : Nat) : d.eligible i s = true ↔ d.Claimable i s := by
  simp only [eligible, waitsAt, IdcState.admits, Claimable, Bool.and_eq_true, Bool.or_eq_true,
    beq_iff_eq, decide_eq_true_eq]
  constructor
  · rintro ⟨hm, ⟨⟨⟨-, hp⟩, he⟩, hr⟩, ht⟩
    exact ⟨hm, hp, he, hr, ht⟩
  · rintro ⟨hm, hp, he, hr, ht⟩
    have hs : d.hasSource s = true := (hd.of_flag (f := .pending) hp).1
    exact ⟨hm, ⟨⟨⟨hs, hp⟩, he⟩, hr⟩, ht⟩

theorem top_eq_none (hd : d.Consistent) (i : Nat) : d.top i = none ↔ ∀ s, ¬ d.Claimable i s := by
  rw [top_eq_none_iff]
  refine forall_congr' fun s => ?_
  rw [← eligible_iff hd, Bool.not_eq_true]

theorem foremost_of_top (hd : d.Consistent) {i : Nat} {c : Claim} (h : d.top i = some c) :
    c = d.claimOf c.identity ∧ d.Foremost i c.identity := by
  obtain ⟨hc, he, hall⟩ := top_eq_some h
  refine ⟨hc, (eligible_iff hd i _).mp he, fun s hs hne => ?_⟩
  rw [← hc]
  exact hall s ((eligible_iff hd i s).mpr hs) hne

/-- A claim withdraws the source that it reports. -/
theorem source_afterClaim {i : Nat} {c : Claim} (h : d.top i = some c) (s : Nat) :
    (d.afterClaim i).source s =
      if s = c.identity then (d.source s).withFlag .pending false else d.source s := by
  have hlt : c.identity < sourceSlots := by
    obtain ⟨-, he, -⟩ := top_eq_some h
    simp only [eligible, waitsAt, Bool.and_eq_true] at he
    exact d.lt_sourceSlots_of_hasSource he.2.1.1.1.1
  simp only [afterClaim, h, source_modifySource]
  by_cases hs : s = c.identity
  · subst hs
    simp [hlt]
  · simp [hs, Ne.symm hs]

@[simp] theorem config_afterClaim (i : Nat) : (d.afterClaim i).config = d.config := by
  unfold afterClaim
  split <;> rfl

/-- A claim of a source leaves the delivery structures alone. -/
theorem idc_afterClaim {i : Nat} {c : Claim} (h : d.top i = some c) (j : Nat) :
    (d.afterClaim i).idc j = d.idc j := by
  simp only [afterClaim, h, idc_modifySource]

/-- After a claim, everything that could be claimed still can be, apart from the claimed source. -/
theorem claimable_afterClaim {i : Nat} {c : Claim} (h : d.top i = some c) (j s : Nat) :
    (d.afterClaim i).Claimable j s ↔ d.Claimable j s ∧ s ≠ c.identity := by
  unfold Claimable
  rw [config_afterClaim, idc_afterClaim h, source_afterClaim h]
  by_cases hs : s = c.identity
  · subst hs
    simp [Source.withFlag]
  · simp [hs]

/-- A claim leaves priorities alone, so the claims that are reported later keep theirs. -/
theorem claimOf_afterClaim {i : Nat} {c : Claim} (h : d.top i = some c) (s : Nat) :
    (d.afterClaim i).claimOf s = d.claimOf s := by
  unfold claimOf
  rw [source_afterClaim h]
  split
  · rw [Source.target_withFlag]
  · rfl

theorem source_afterClaim_of_none {i : Nat} (h : d.top i = none) (s : Nat) :
    (d.afterClaim i).source s = d.source s := by
  simp only [afterClaim, h, source_modifyIdc]

theorem idc_afterClaim_of_none {i : Nat} (h : d.top i = none) (hi : i < d.idcCount) (j : Nat) :
    (d.afterClaim i).idc j = if j = i then { d.idc j with force := false } else d.idc j := by
  have hcount := d.idcCount_range
  simp only [afterClaim, h, idc_modifyIdc]
  by_cases hj : j = i
  · subst hj
    rw [if_pos ⟨rfl, by omega⟩, if_pos rfl]
  · rw [if_neg fun he => hj he.1.symm, if_neg hj]

/-- A claim that finds nothing takes back a forced interrupt, which makes nothing eligible. -/
theorem top_afterClaim_of_none {i : Nat} (h : d.top i = none) : (d.afterClaim i).top i = none := by
  have hthreshold : ((d.afterClaim i).idc i).threshold = (d.idc i).threshold := by
    simp only [afterClaim, h, idc_modifyIdc]
    split <;> rfl
  have hsource := source_afterClaim_of_none h
  rw [top_eq_none_iff] at h
  rw [top_eq_none_iff]
  intro s
  have hs := h s
  have hcount : (d.afterClaim i).sourceCount = d.sourceCount :=
    sourceCount_of_shape (d.shape_afterClaim i)
  simpa only [eligible, waitsAt, IdcState.admits, hasSource, config_afterClaim, hsource, hcount,
    hthreshold] using hs

end EmulatedDomain

end AdvancedInterrupts
