import AdvancedInterrupts.Proofs.DrainOrder
import AdvancedInterrupts.Proofs.DriverSafety
import AdvancedInterrupts.Proofs.SourceWiring

/-!
# Delivery of a wired source

A source that is wired to a hart and raised becomes eligible at the delivery
structure of this hart, whatever it was before. When the hart claims until
nothing is left, the source is reported once, right after everything that
precedes it, with the priority that was asked for. A claim never routes a source
elsewhere, so no other delivery structure ever reports it.
-/
namespace AdvancedInterrupts

open EmulatedDomain

/-! ### Sorted lists of claims -/

/-- An element of what was drained splits it into what precedes the element and the rest. -/
theorem EmulatedDomain.DrainedInOrder.exists_split {d d' : EmulatedDomain} {i s : Nat}
    {ids : List Nat} (h : DrainedInOrder i ids d d') (hs : d.Claimable i s) :
    ∃ before after, ids = before ++ s :: after ∧ s ∉ before ∧ s ∉ after ∧
      ∀ s', s' ∈ before ↔ d.Claimable i s' ∧ (d.claimOf s').Precedes (d.claimOf s) := by
  obtain ⟨before, after, hids⟩ := List.append_of_mem ((h.mem_iff s).mpr hs)
  have hsorted := h.sorted
  rw [hids, List.pairwise_append, List.pairwise_cons] at hsorted
  obtain ⟨-, ⟨hafter, -⟩, hbefore⟩ := hsorted
  have hprecedes {s' : Nat} (hs' : s' ∈ before) : (d.claimOf s').Precedes (d.claimOf s) :=
    hbefore s' hs' s List.mem_cons_self
  refine ⟨before, after, hids, fun hs' => ?_, fun hs' => ?_, fun s' => ⟨fun hs' => ?_, ?_⟩⟩
  · exact Claim.not_precedes_self _ (hprecedes hs')
  · exact Claim.not_precedes_self _ (hafter s hs')
  · exact ⟨(h.mem_iff s').mp (by simp [hids, hs']), hprecedes hs'⟩
  · rintro ⟨hclaimable, hpre⟩
    have hmem := (h.mem_iff s').mpr hclaimable
    rw [hids, List.mem_append, List.mem_cons] at hmem
    rcases hmem with hmem | rfl | hmem
    · exact hmem
    · exact absurd hpre (Claim.not_precedes_self _)
    · exact absurd (hpre.trans (hafter s' hmem)) (Claim.not_precedes_self _)

namespace Aplic

variable {a b : Aplic} {d e : EmulatedDomain} {hart i s : Nat}

/-! ### Claims -/

/-- A hart claims again and again, until nothing is reported. -/
inductive ClaimsUntilSpurious (a : Aplic) (hart : Nat) :
    EmulatedDomain → List Claim → EmulatedDomain → Prop where
  | spurious {d e : EmulatedDomain} {c : Claim} (h : (a.claim hart).run service d = (c, e))
      (hc : c.isSpurious = true) : ClaimsUntilSpurious a hart d [] e
  | claimed {d e last : EmulatedDomain} {c : Claim} {cs : List Claim}
      (h : (a.claim hart).run service d = (c, e)) (hc : c.isSpurious = false)
      (hrest : ClaimsUntilSpurious a hart e cs last) : ClaimsUntilSpurious a hart d (c :: cs) last

/-- The claims of a hart are determined by the domain that it begins with. -/
theorem ClaimsUntilSpurious.unique {cs cs' : List Claim} {last last' : EmulatedDomain}
    (h : a.ClaimsUntilSpurious hart d cs last) (h' : a.ClaimsUntilSpurious hart d cs' last') :
    cs' = cs ∧ last' = last := by
  induction h generalizing cs' with
  | spurious hrun hc =>
    cases h' with
    | spurious hrun' hc' =>
      rw [hrun, Prod.mk.injEq] at hrun'
      exact ⟨rfl, hrun'.2.symm⟩
    | claimed hrun' hc' hrest' =>
      rw [hrun, Prod.mk.injEq] at hrun'
      rw [← hrun'.1, hc] at hc'
      cases hc'
  | claimed hrun hc hrest ih =>
    cases h' with
    | spurious hrun' hc' =>
      rw [hrun, Prod.mk.injEq] at hrun'
      rw [← hrun'.1, hc] at hc'
      cases hc'
    | claimed hrun' hc' hrest' =>
      rw [hrun, Prod.mk.injEq] at hrun'
      obtain ⟨rfl, rfl⟩ := hrun'
      obtain ⟨rfl, hlast⟩ := ih hrest'
      exact ⟨rfl, hlast⟩

/-- The domain after some claims, each of them through a handle and for a hart. -/
def afterClaims (d : EmulatedDomain) (claims : List (Aplic × Nat)) : EmulatedDomain :=
  claims.foldl (fun d claim => ((claim.1.claim claim.2).run service d).2) d

theorem run_claim (hfits : d.address + d.size ≤ addressSpace) (hmap : a.idcOfHart hart = some i)
    (hi : i < a.idcs) (hi' : i < d.idcCount) :
    (a.claim hart).run service d = ((d.top i).getD Claim.spurious, d.afterClaim i) := by
  rw [claim_eq hmap hi, Program.run_ask]
  change (Claim.ofWord (d.windowRead (Register.idc i .claim).offset).1,
    (d.windowRead (Register.idc i .claim).offset).2) = _
  rw [windowRead_claim hfits hi', ofWord_topWord]

/-- A claim takes the top interrupt of the delivery structure of its hart, or does nothing. -/
theorem run_claim_cases (b : Aplic) (hart : Nat) (d : EmulatedDomain) :
    (∃ j, b.idcIndex? hart = some j ∧
      (b.claim hart).run service d = ((d.top j).getD Claim.spurious, d.afterClaim j)) ∨
    (b.claim hart).run service d = (Claim.spurious, d) := by
  rw [claim, Program.run_bind, (b.finds_idc hart).run]
  cases hindex : b.idcIndex? hart with
  | none => exact Or.inr rfl
  | some j =>
    have howned : b.Owns (.idc j .claim) := lt_of_idcIndex? hindex
    have hspace := (reaches_of_owns howned).offset_lt_addressSpace
    have hread := service_read (r := .idc j .claim) trivial hspace d
    have hrun : ((Idc.mk j).claim).run service d =
        (Claim.ofWord (service (.read (Register.idc j .claim).offset) d).1,
          (service (.read (Register.idc j .claim).offset) d).2) := rfl
    refine Or.imp (fun h => ⟨j, rfl, hrun.trans h⟩) (fun h => hrun.trans h) ?_
    have hzero : Claim.ofWord 0 = Claim.spurious := by decide
    rw [hread]
    split
    · rw [readRegister]
      split
      · exact Or.inl (by rw [readIdc, ofWord_topWord])
      · exact Or.inr (Prod.ext hzero rfl)
    · exact Or.inr (Prod.ext hzero rfl)

/-- A claim routes no source elsewhere. -/
theorem target_claim (b : Aplic) (hart : Nat) (d : EmulatedDomain) (s : Nat) :
    (((b.claim hart).run service d).2.source s).target = (d.source s).target := by
  rcases run_claim_cases b hart d with ⟨j, -, hrun⟩ | hrun
  · rw [hrun]
    cases htop : d.top j with
    | none => rw [source_afterClaim_of_none htop]
    | some c =>
      rw [source_afterClaim htop]
      split
      · rw [Source.target_withFlag]
      · rfl
  · rw [hrun]

theorem target_afterClaims (d : EmulatedDomain) (claims : List (Aplic × Nat)) (s : Nat) :
    ((afterClaims d claims).source s).target = (d.source s).target := by
  induction claims generalizing d with
  | nil => rfl
  | cons claim rest ih =>
    rw [afterClaims, List.foldl_cons]
    exact (ih _).trans (target_claim claim.1 claim.2 d s)

/-- A claim through one delivery structure never reports a source that is routed to another. -/
theorem identity_claim_ne (hs : s ≠ 0) (hother : b.idcIndex? hart ≠ some i)
    (hroute : Target.hart (d.source s).target = i) :
    ((b.claim hart).run service d).1.identity ≠ s := by
  rcases run_claim_cases b hart d with ⟨j, hindex, hrun⟩ | hrun
  · rw [hrun]
    cases htop : d.top j with
    | none => exact Ne.symm hs
    | some c =>
      rintro rfl
      obtain ⟨-, heligible, -⟩ := top_eq_some htop
      simp only [eligible, waitsAt, Bool.and_eq_true, beq_iff_eq] at heligible
      have hj : Target.hart (d.source c.identity).target = j := heligible.2.1.2
      exact hother (by rw [hindex, ← hj, ← hroute]; rfl)
  · rw [hrun]
    exact Ne.symm hs

/-- A hart can claim until nothing is left. It takes what was eligible, in the order of urgency. -/
theorem exists_claimsUntilSpurious (hd : d.Reachable) (hfits : d.address + d.size ≤ addressSpace)
    (hmap : a.idcOfHart hart = some i) (hi : i < a.idcs) (hi' : i < d.idcCount) :
    ∃ ids last, a.ClaimsUntilSpurious hart d (ids.map d.claimOf) last ∧
      DrainedInOrder i ids d last := by
  induction hcount : d.pendingSet.card using Nat.strong_induction_on generalizing d with
  | _ count ih =>
    have hrun := run_claim hfits hmap hi hi'
    cases htop : d.top i with
    | none =>
      rw [htop] at hrun
      exact ⟨[], _, .spurious hrun rfl, .nil hd.consistent hi' htop⟩
    | some x =>
      rw [htop, Option.getD_some] at hrun
      have hless := card_pendingSet_afterClaim htop
      have hshape := d.shape_afterClaim i
      have hafter : (d.afterClaim i).Reachable := by
        have hreachable := hd.run (a.claim hart)
        rwa [hrun] at hreachable
      have hidcs : i < (d.afterClaim i).idcCount :=
        hi'.trans_eq (idcCount_of_shape hshape).symm
      obtain ⟨ids, last, hclaims, hdrained⟩ :=
        ih _ (by omega) hafter (fits_of_shape hshape hfits) hidcs rfl
      obtain ⟨hx, -⟩ := foremost_of_top hd.consistent htop
      have hids : ids.map (d.afterClaim i).claimOf = ids.map d.claimOf :=
        List.map_congr_left fun s _ => claimOf_afterClaim htop s
      have hspurious : x.isSpurious = false := by
        have hne := identity_top_ne_zero htop
        simpa [Claim.isSpurious] using hne
      refine ⟨x.identity :: ids, last, ?_, hdrained.cons hd.consistent htop⟩
      rw [hids] at hclaims
      rw [List.map_cons, ← hx]
      exact .claimed hrun hspurious hclaims

/-- A hart that claims until nothing is left takes every eligible source once. It takes what
precedes a source before this source, and everything else after it. -/
theorem exists_claims_around (hd : d.Reachable) (hfits : d.address + d.size ≤ addressSpace)
    (hmap : a.idcOfHart hart = some i) (hi : i < a.idcs) (hi' : i < d.idcCount)
    (hs : d.Claimable i s) :
    ∃ before after last,
      (∀ claims e, a.ClaimsUntilSpurious hart d claims e ↔
        claims = before ++ d.claimOf s :: after ∧ e = last) ∧
      (before ++ d.claimOf s :: after).Pairwise Claim.Precedes ∧
      (∀ c, c ∈ before ↔
        ∃ s', d.Claimable i s' ∧ d.claimOf s' = c ∧ c.Precedes (d.claimOf s)) ∧
      ∀ c ∈ before ++ after, c.identity ≠ s := by
  obtain ⟨ids, last, hclaims, hdrained⟩ := exists_claimsUntilSpurious hd hfits hmap hi hi'
  obtain ⟨before, after, rfl, hbefore, hafter, hmem⟩ := hdrained.exists_split hs
  rw [List.map_append, List.map_cons] at hclaims
  refine ⟨before.map d.claimOf, after.map d.claimOf, last, fun claims e => ?_, ?_,
    fun c => ?_, ?_⟩
  · constructor
    · exact fun h => hclaims.unique h
    · rintro ⟨rfl, rfl⟩
      exact hclaims
  · rw [← List.map_cons, ← List.map_append, List.pairwise_map]
    exact hdrained.sorted
  · rw [List.mem_map]
    constructor
    · rintro ⟨s', hs', rfl⟩
      obtain ⟨hclaimable, hpre⟩ := (hmem s').mp hs'
      exact ⟨s', hclaimable, rfl, hpre⟩
    · rintro ⟨s', hclaimable, rfl, hpre⟩
      exact ⟨s', (hmem s').mpr ⟨hclaimable, hpre⟩, rfl⟩
  · rw [← List.map_append, List.forall_mem_map]
    intro s' hs'
    have hne : s' ≠ s := by
      rintro rfl
      rcases List.mem_append.mp hs' with hs' | hs'
      · exact hbefore hs'
      · exact hafter hs'
    exact hne

/-! ### Wiring and raising a source -/

/-- Wires a source and makes it pending. -/
def raise (a : Aplic) (source : Nat) (wiring : Wiring) : Program window Unit := do
  a.configure source wiring
  a.setPending source

/-- Whatever a source was before, it is then active, enabled, pending, and routed to its hart. -/
theorem run_raise {mode : SourceMode} {p : Nat} (hd : d.Reachable)
    (hfits : d.address + d.size ≤ addressSpace) (hdirect : d.config.delivery = .direct)
    (ha : a.delivery = .direct) (hs : a.hasSource s = true) (hs' : d.hasSource s = true)
    (hmode : mode.isActive = true) (hp : p ≤ maxPriority) (hmap : a.idcOfHart hart = some i)
    (hi : i < a.idcs) :
    ((a.raise s ⟨mode, hart, p⟩).run service d).2 =
      d.modifySource s fun _ => ⟨mode, Target.word i (max p 1), true, true⟩ := by
  have htarget : a.targetWord? ⟨mode, hart, p⟩ = some (Target.word i (max p 1)) :=
    targetWord?_eq_some_iff.mpr ⟨i, hi, hmap, hp, rfl⟩
  have hconfigure : ((a.configure s ⟨mode, hart, p⟩).run service d).2 =
      d.modifySource s (a.wired ⟨mode, hart, p⟩) := by
    rw [run_configure hfits (ha.trans hdirect.symm), foldl_afterUpdate hs hs']
    exact d.modifySource_congr (wired_eq ha _ _)
  have hwired := (hd.run (a.configure s ⟨mode, hart, p⟩)).consistent
  rw [hconfigure] at hwired
  rw [raise, Program.run_bind, hconfigure]
  have hpending := run_update (s := s) (d := d.modifySource s (a.wired ⟨mode, hart, p⟩)) hfits
    (ha.trans hdirect.symm) hwired (.flag .pending true)
  rw [afterUpdate_of_hasSource hs (d := d.modifySource s _) hs', d.modifySource_modifySource]
    at hpending
  refine (congrArg Prod.snd hpending).trans (d.modifySource_congr ?_)
  have hactive : mode ≠ .inactive := by simpa [SourceMode.isActive] using hmode
  simp [SourceUpdate.effect?, wired, htarget, hmode, hactive, Source.withFlag]

/-- A source that was wired to a hart and raised is reported to this hart exactly once, when it
claims until nothing is left: after everything that was eligible at its delivery structure and
precedes the source, and before the rest. No claim through another delivery structure ever reports
the source, whatever is claimed before. -/
theorem delivered_to_its_hart {mode : SourceMode} {p : Nat} (hd : d.Reachable)
    (hfits : d.address + d.size < addressSpace) (hdirect : d.config.delivery = .direct)
    (ha : a.delivery = .direct) (hs : a.hasSource s = true) (hs' : d.hasSource s = true)
    (hmode : mode.isActive = true) (hp : p ≤ maxPriority) (hmap : a.idcOfHart hart = some i)
    (hi : i < a.idcs) (hi' : i < d.idcCount)
    (hthreshold : (d.idc i).threshold = 0 ∨ max p 1 < (d.idc i).threshold.toNat) :
    let raised := ((a.raise s ⟨mode, hart, p⟩).run service d).2
    (∃ before after last,
      (∀ claims e, a.ClaimsUntilSpurious hart raised claims e ↔
        claims = before ++ ⟨s, max p 1⟩ :: after ∧ e = last) ∧
      (before ++ ⟨s, max p 1⟩ :: after).Pairwise Claim.Precedes ∧
      (∀ c, c ∈ before ↔ ∃ s', raised.Claimable i s' ∧ raised.claimOf s' = c ∧
        c.Precedes ⟨s, max p 1⟩) ∧
      ∀ c ∈ before ++ after, c.identity ≠ s) ∧
    ∀ (claims : List (Aplic × Nat)) (b : Aplic) (other : Nat), b.idcIndex? other ≠ some i →
      ((b.claim other).run service (afterClaims raised claims)).1.identity ≠ s := by
  intro raised
  have hfits : d.address + d.size ≤ addressSpace := Nat.le_of_lt hfits
  have hraised : raised = d.modifySource s fun _ => ⟨mode, Target.word i (max p 1), true, true⟩ :=
    run_raise hd hfits hdirect ha hs hs' hmode hp hmap hi
  have hreachable : raised.Reachable := hd.run (a.raise s ⟨mode, hart, p⟩)
  have hshape : raised.shape = d.shape := by rw [hraised, shape_modifySource]
  have hidcs : i < raised.idcCount := hi'.trans_eq (idcCount_of_shape hshape).symm
  have hsource : raised.source s = ⟨mode, Target.word i (max p 1), true, true⟩ := by
    rw [hraised, source_modifySource_self d (d.lt_sourceSlots_of_hasSource hs')]
  have hmax : max p 1 ≤ maxPriority := Nat.max_le.mpr ⟨hp, by decide⟩
  have hhart : Target.hart (raised.source s).target = i := by
    rw [hsource, Target.hart_word (le_max_of_lt_idcs hi) hmax]
  have hpriority : Target.priority (raised.source s).target = max p 1 := by
    rw [hsource, Target.priority_word (le_max_of_lt_idcs hi) hmax]
  have hclaimable : raised.Claimable i s := by
    have hconfig : raised.config = d.config := by rw [hraised]; rfl
    have hidc : raised.idc i = d.idc i := by rw [hraised, idc_modifySource]
    refine ⟨hconfig ▸ hdirect, by rw [hsource], by rw [hsource], hhart, ?_⟩
    rwa [hidc, hpriority]
  have hclaim : raised.claimOf s = ⟨s, max p 1⟩ := by rw [claimOf, hpriority]
  constructor
  · rw [← hclaim]
    exact exists_claims_around hreachable (fits_of_shape hshape hfits) hmap hi hidcs hclaimable
  · intro claims b other hother
    have hne : s ≠ 0 := by
      rw [hasSource_iff] at hs
      omega
    refine identity_claim_ne hne hother ?_
    rw [target_afterClaims, hhart]

/-- Source 5 of the sample accesses gets the priority of source 3, which has the lower number and
is claimed before it. -/
theorem delivered_to_its_hart_sampleAccesses :
    let d := sample.afterAll sampleAccesses
    let raised := ((sampleHandle.raise 5 ⟨.edgeRise, 0, 2⟩).run service d).2
    (d.Reachable ∧ d.address + d.size < addressSpace ∧ (d.source 5).pending = true) ∧
      (∃ before after last,
        (∀ claims e, sampleHandle.ClaimsUntilSpurious 0 raised claims e ↔
          claims = before ++ ⟨5, 2⟩ :: after ∧ e = last) ∧ ⟨3, 2⟩ ∈ before) ∧
      ((sampleHandle.claim 1).run service raised).1.identity ≠ 5 := by
  intro d raised
  have hd : d.Reachable := sample_reachable.afterAll sampleAccesses
  have hfits : d.address + d.size < addressSpace := by decide
  have hknown : sampleHandle.hasSource 5 = true := by decide
  have hmode : SourceMode.edgeRise.isActive = true := rfl
  have hpriority : 2 ≤ maxPriority := by decide
  have hmap : sampleHandle.idcOfHart 0 = some 0 := rfl
  obtain ⟨⟨before, after, last, hclaims, -, hbefore, -⟩, hother⟩ :=
    delivered_to_its_hart hd hfits (by decide) rfl hknown (by decide) hmode hpriority hmap
      (by decide) (by decide) (by decide)
  have hthree : raised.Claimable 0 3 := by
    unfold Claimable
    decide
  refine ⟨⟨hd, hfits, by decide⟩, ⟨before, after, last, hclaims, ?_⟩,
    hother [] sampleHandle 1 (by decide)⟩
  exact (hbefore ⟨3, 2⟩).mpr ⟨3, hthree, by decide, by decide⟩

end Aplic

end AdvancedInterrupts
