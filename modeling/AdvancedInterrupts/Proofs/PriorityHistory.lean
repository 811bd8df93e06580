import AdvancedInterrupts.Proofs.TargetWord
import AdvancedInterrupts.Proofs.TopReport

/-!
# Where a priority of zero comes from

Under direct delivery a target that is written with priority zero keeps priority
one. The rule is applied when the target is written and at no other time, so the
last write to the target tells whether the priority is zero: a source whose
target was never written has the zero that it came out of reset with, and one
whose target was last written under message delivery has the low bits of the
identity of its message. Such a source is reported with priority zero, which
precedes every other one and is let through by every threshold.
-/
namespace AdvancedInterrupts

namespace Target

theorem priority_stored_direct (w : Word) :
    Target.priority (stored .direct w) = max (Target.priority w) 1 := by
  have hhart : Target.hart w ≤ hartField.max := Word.field_le w hartField
  have hpriority : Target.priority w ≤ maxPriority := Word.field_le w priorityField
  rw [stored_direct, priority_word hhart (Nat.max_le.mpr ⟨hpriority, by decide⟩)]

/-- A stored target has a priority other than zero if it was written under direct delivery, or with
such a priority. -/
theorem priority_stored_ne_zero_iff (delivery : DeliveryMode) (w : Word) :
    Target.priority (stored delivery w) ≠ 0 ↔ delivery = .direct ∨ Target.priority w ≠ 0 := by
  cases delivery with
  | direct =>
    rw [priority_stored_direct]
    exact iff_of_true (by omega) (.inl rfl)
  | msi =>
    have hfield : Target.priority (stored .msi w) = Target.priority w :=
      field_stored_msi w (.inl (by decide))
    rw [hfield]
    exact ⟨.inr, fun h => h.resolve_left (by decide)⟩

end Target

/-- The word that an action writes to the target register of a source. -/
def DomainAction.targetWord? (s : Nat) : DomainAction → Option Word
  | .write (.target s') word => if s' = s then some word else none
  | _ => none

theorem DomainAction.targetWord?_eq_some_iff {x : DomainAction} {s : Nat} {word : Word} :
    x.targetWord? s = some word ↔ x = .write (.target s) word := by
  constructor
  · intro h
    unfold targetWord? at h
    split at h
    next s' word' =>
      rw [Option.ite_none_right_eq_some, Option.some.injEq] at h
      rw [h.1, h.2]
    next => cases h
  · rintro rfl
    exact if_pos rfl

namespace EmulatedDomain

variable {d e : EmulatedDomain} {s : Nat}

/-! ### The last write -/

/-- The word that an access writes to the target of a source, with the delivery mode in which it
arrives. -/
def targetWrite? (s : Nat) (d : EmulatedDomain) (access : EmulatedAccess) :
    Option (DeliveryMode × Word) :=
  ((d.action? access).bind fun x => x.targetWord? s).map fun word => (d.config.delivery, word)

/-- The last one of these writes in a history. -/
def lastTargetWrite? (s : Nat) : EmulatedDomain → List EmulatedAccess → Option (DeliveryMode × Word)
  | _, [] => none
  | d, access :: rest => (lastTargetWrite? s (d.after access) rest).or (targetWrite? s d access)

/-- The target of a source that exists is changed by a write to it and by nothing else. -/
theorem target_perform (hs : d.hasSource s = true) (x : DomainAction) :
    ((d.perform x).source s).target =
      ((x.targetWord? s).map (Target.stored d.config.delivery)).getD (d.source s).target := by
  cases hword : x.targetWord? s with
  | some word =>
    obtain rfl := DomainAction.targetWord?_eq_some_iff.mp hword
    rw [perform, writeRegister, if_pos hs,
      source_modifySource_self d (d.lt_sourceSlots_of_hasSource hs)]
    rfl
  | none =>
    have heffect := d.sourceEffect x s
    generalize (d.perform x).source s = after at heffect ⊢
    cases heffect with
    | kept => rfl
    | flag q hq hn ha => exact Source.target_withFlag q.flag q.value _
    | mode word m hx hm hs' => exact Source.target_withMode m _
    | target word hx hs' =>
      rw [DomainAction.targetWord?_eq_some_iff.mpr hx] at hword
      cases hword
    | claimed i c hx hi ht hc => exact Source.target_withFlag .pending false _

theorem target_after (hs : d.hasSource s = true) (access : EmulatedAccess) :
    ((d.after access).source s).target =
      ((targetWrite? s d access).map fun write => Target.stored write.1 write.2).getD
        (d.source s).target := by
  rw [after_eq, targetWrite?]
  cases d.action? access with
  | none => rfl
  | some x =>
    rw [Option.map_some, Option.getD_some, target_perform hs, Option.bind_some, Option.map_map]
    rfl

/-- After a history, the target of a source is what the last write left. -/
theorem target_afterAll (hs : d.hasSource s = true) (history : List EmulatedAccess) :
    ((d.afterAll history).source s).target =
      ((lastTargetWrite? s d history).map fun write => Target.stored write.1 write.2).getD
        (d.source s).target := by
  induction history generalizing d with
  | nil => rfl
  | cons access rest ih =>
    have hs' : (d.after access).hasSource s = true := by
      rwa [hasSource, sourceCount_of_shape (d.shape_after access)]
    have hrest := ih hs'
    rw [target_after hs access] at hrest
    rw [lastTargetWrite?]
    cases hlast : lastTargetWrite? s (d.after access) rest with
    | some write =>
      rw [hlast] at hrest
      exact hrest
    | none =>
      rw [hlast] at hrest
      exact hrest

/-- The target of a source was written, and the last time under direct delivery or with a number
that reads as a priority. -/
def Prioritised (d : EmulatedDomain) (history : List EmulatedAccess) (s : Nat) : Prop :=
  ∃ write, lastTargetWrite? s d history = some write ∧
    (write.1 = .direct ∨ Target.priority write.2 ≠ 0)

theorem priority_afterAll_ne_zero_iff (hnew : d.source s = Source.reset)
    (hs : d.hasSource s = true) (history : List EmulatedAccess) :
    Target.priority ((d.afterAll history).source s).target ≠ 0 ↔ d.Prioritised history s := by
  rw [target_afterAll hs, Prioritised]
  cases lastTargetWrite? s d history with
  | none =>
    rw [hnew]
    exact iff_of_false (fun h => h rfl) (by simp)
  | some write =>
    rw [Option.map_some, Option.getD_some, Target.priority_stored_ne_zero_iff]
    simp

/-! ### Reports -/

/-- What would hold if no priority were ever zero. -/
structure NeverZeroPriority (d : EmulatedDomain) : Prop where
  /-- The target of every source has a priority from one on. -/
  target (s : Nat) (hs : d.hasSource s = true) :
    1 ≤ Target.priority (d.readRegister (.target s)).1 ∧
      Target.priority (d.readRegister (.target s)).1 ≤ maxPriority
  /-- A report that names a source has a priority from one on. -/
  report (i : Nat) (hi : i < d.idcCount) (x : IdcRegister) (hx : x = .top ∨ x = .claim)
    (h : (Claim.ofWord (d.readRegister (.idc i x)).1).identity ≠ 0) :
    (Claim.ofWord (d.readRegister (.idc i x)).1).priority ≠ 0
  /-- The lowest threshold lets nothing through. -/
  masked (i : Nat) (hi : i < d.idcCount) (h : (d.readRegister (.idc i .threshold)).1 = 1) :
    (d.readRegister (.idc i .top)).1 = 0

/-- What holds instead after a history of a new domain. -/
structure PrioritiesFollow (d : EmulatedDomain) (history : List EmulatedAccess)
    (after : EmulatedDomain) : Prop where
  /-- The priority of a target is in range exactly if the last write to it has given it one. -/
  target (s : Nat) (hs : after.hasSource s = true) :
    (1 ≤ Target.priority (after.readRegister (.target s)).1 ∧
      Target.priority (after.readRegister (.target s)).1 ≤ maxPriority) ↔ d.Prioritised history s
  /-- So is the priority in a report. -/
  report (i : Nat) (hi : i < after.idcCount) (x : IdcRegister) (hx : x = .top ∨ x = .claim)
    (h : (Claim.ofWord (after.readRegister (.idc i x)).1).identity ≠ 0) :
    (Claim.ofWord (after.readRegister (.idc i x)).1).priority ≠ 0 ↔
      d.Prioritised history (Claim.ofWord (after.readRegister (.idc i x)).1).identity
  /-- The lowest threshold holds back the sources with a priority, and no others. -/
  masked (i : Nat) (hi : i < after.idcCount) (h : (after.readRegister (.idc i .threshold)).1 = 1) :
    (after.readRegister (.idc i .top)).1 = 0 ↔
      ∀ s, (after.source s).pending = true → (after.source s).enabled = true →
        Target.hart (after.source s).target = i → d.Prioritised history s
  /-- So no priority is zero exactly if every source was given one. -/
  all : after.NeverZeroPriority ↔ ∀ s, after.hasSource s = true → d.Prioritised history s

theorem readRegister_target (hs : d.hasSource s = true) :
    (d.readRegister (.target s)).1 = (d.source s).target :=
  if_pos hs

theorem readRegister_report {i : Nat} (hi : i < d.idcCount) {x : IdcRegister}
    (hx : x = .top ∨ x = .claim) : (d.readRegister (.idc i x)).1 = d.topWord i := by
  rcases hx with rfl | rfl <;> rw [readRegister, if_pos hi, readIdc]

/-- A report that names a source tells the priority of its target. -/
theorem priority_report {i : Nat} (h : (Claim.ofWord (d.topWord i)).identity ≠ 0) :
    d.hasSource (Claim.ofWord (d.topWord i)).identity = true ∧
      (Claim.ofWord (d.topWord i)).priority =
        Target.priority (d.source (Claim.ofWord (d.topWord i)).identity).target := by
  rw [ofWord_topWord] at h ⊢
  cases htop : d.top i with
  | none =>
    rw [htop] at h
    exact absurd rfl h
  | some c =>
    obtain ⟨hc, he, -⟩ := top_eq_some htop
    simp only [eligible, waitsAt, Bool.and_eq_true] at he
    exact ⟨he.2.1.1.1.1, congrArg Claim.priority hc⟩

/-- Under the lowest threshold only a source with priority zero can be claimed. -/
theorem topWord_eq_zero_of_threshold_one (hd : d.Consistent) {i : Nat}
    (hdirect : d.config.delivery = .direct) (h : (d.idc i).threshold = 1) :
    d.topWord i = 0 ↔ ∀ s, (d.source s).pending = true → (d.source s).enabled = true →
      Target.hart (d.source s).target = i → Target.priority (d.source s).target ≠ 0 := by
  have hzero : (1 : BitVec 8) ≠ 0 := by decide
  have hone : (1 : BitVec 8).toNat = 1 := rfl
  rw [topWord_eq_zero_iff, top_eq_none hd]
  refine forall_congr' fun s => ?_
  simp only [Claimable, hdirect, h, hzero, hone, false_or, Nat.lt_one_iff, true_and, not_and,
    ne_eq]

theorem threshold_of_readRegister {i : Nat} (hi : i < d.idcCount)
    (h : (d.readRegister (.idc i .threshold)).1 = 1) : (d.idc i).threshold = 1 := by
  rw [readRegister, if_pos hi, readIdc] at h
  have hnat := congrArg BitVec.toNat h
  rw [BitVec.toNat_setWidth] at hnat
  apply BitVec.eq_of_toNat_eq
  have hlt := (d.idc i).threshold.isLt
  have hone : (1 : Word).toNat = 1 := rfl
  have hone' : (1 : BitVec 8).toNat = 1 := rfl
  omega

/-- The registers follow the writes to the targets, if the priorities of the targets do. -/
theorem prioritiesFollow {history : List EmulatedAccess} (he : e.Consistent)
    (hdirect : e.config.delivery = .direct)
    (hzero : ∀ s, e.hasSource s = true →
      (Target.priority (e.source s).target ≠ 0 ↔ d.Prioritised history s)) :
    d.PrioritiesFollow history e := by
  have htarget (s : Nat) (hs : e.hasSource s = true) :
      (1 ≤ Target.priority (e.readRegister (.target s)).1 ∧
        Target.priority (e.readRegister (.target s)).1 ≤ maxPriority) ↔
        d.Prioritised history s := by
    have hle : Target.priority (e.source s).target ≤ maxPriority :=
      Word.field_le _ Target.priorityField
    rw [readRegister_target hs, ← hzero s hs]
    omega
  have hreport (i : Nat) (hi : i < e.idcCount) (x : IdcRegister) (hx : x = .top ∨ x = .claim)
      (hidentity : (Claim.ofWord (e.readRegister (.idc i x)).1).identity ≠ 0) :
      (Claim.ofWord (e.readRegister (.idc i x)).1).priority ≠ 0 ↔
        d.Prioritised history (Claim.ofWord (e.readRegister (.idc i x)).1).identity := by
    rw [readRegister_report hi hx] at hidentity ⊢
    obtain ⟨hs, hpriority⟩ := priority_report hidentity
    rw [hpriority, hzero _ hs]
  have hmasked (i : Nat) (hi : i < e.idcCount)
      (hthreshold : (e.readRegister (.idc i .threshold)).1 = 1) :
      (e.readRegister (.idc i .top)).1 = 0 ↔
        ∀ s, (e.source s).pending = true → (e.source s).enabled = true →
          Target.hart (e.source s).target = i → d.Prioritised history s := by
    rw [readRegister_report hi (.inl rfl),
      topWord_eq_zero_of_threshold_one he hdirect (threshold_of_readRegister hi hthreshold)]
    refine forall_congr' fun s => forall_congr' fun hp => ?_
    rw [hzero s (he.of_flag (f := .pending) hp).1]
  refine ⟨htarget, hreport, hmasked, fun hnever s hs => (htarget s hs).mp (hnever.target s hs), ?_⟩
  intro hall
  constructor
  case target => exact fun s hs => (htarget s hs).mpr (hall s hs)
  case report =>
    intro i hi x hx hidentity
    refine (hreport i hi x hx hidentity).mpr (hall _ ?_)
    rw [readRegister_report hi hx] at hidentity ⊢
    exact (priority_report hidentity).1
  case masked =>
    intro i hi hthreshold
    refine (hmasked i hi hthreshold).mpr fun s hp _ _ => hall s ?_
    exact (he.of_flag (f := .pending) hp).1

/-- In every history of a new domain that ends under direct delivery, it is the last write to each
target that tells whether its priority is zero. -/
theorem priorities_follow_writes {address sourceCount idcCount : Nat}
    (h : create address sourceCount idcCount = .ok d) (history : List EmulatedAccess)
    (hdirect : (d.afterAll history).config.delivery = .direct) :
    d.PrioritiesFollow history (d.afterAll history) := by
  have hd : (d.afterAll history).Consistent := ((Reachable.new h).afterAll history).consistent
  refine prioritiesFollow hd hdirect fun s hs => ?_
  rw [hasSource_of_shape (d.shape_afterAll history)] at hs
  exact priority_afterAll_ne_zero_iff ((registers_of_create h).1 s) hs history

/-- Targets are written in both delivery modes, in the end with direct delivery: that of source 3
for a message with identity 0x700, that of source 5 for one with identity 7, that of source 6 with
priority zero, and that of source 4 not at all. -/
def sampleTargets : List EmulatedAccess :=
  [.windowWrite Register.domainConfig.offset 4, .windowWrite (Register.target 3).offset 0x40700,
    .windowWrite (Register.target 5).offset 7, .windowWrite Register.domainConfig.offset 0,
    .windowWrite (Register.target 6).offset 0]

theorem priorities_follow_writes_sampleTargets :
    let after := sample.afterAll sampleTargets
    create 0xd000000 8 2 = .ok sample ∧ after.config.delivery = .direct ∧
      sample.PrioritiesFollow sampleTargets after ∧
      sample.Prioritised sampleTargets 5 ∧ sample.Prioritised sampleTargets 6 ∧
      ¬ sample.Prioritised sampleTargets 3 ∧ ¬ sample.Prioritised sampleTargets 4 := by
  intro after
  have hcreate : create 0xd000000 8 2 = .ok sample := rfl
  have hfollow := priorities_follow_writes hcreate sampleTargets rfl
  refine ⟨hcreate, rfl, hfollow, (hfollow.target 5 (by decide)).mp (by decide),
    (hfollow.target 6 (by decide)).mp (by decide), fun h => ?_, fun h => ?_⟩
  · exact absurd ((hfollow.target 3 (by decide)).mpr h) (by decide)
  · exact absurd ((hfollow.target 4 (by decide)).mpr h) (by decide)

/-- Source 3 becomes active, enabled and pending, and is never routed. -/
def sampleUnrouted : List EmulatedAccess :=
  [.windowWrite (Register.sourceConfig 3).offset 4,
    .windowWrite Register.setEnableNumber.offset 3, .inject 3,
    .windowWrite (Register.idc 0 .threshold).offset 1]

/-- The source is reported with priority zero, past the lowest threshold. -/
theorem not_neverZeroPriority_sampleUnrouted :
    let d := sample.afterAll sampleUnrouted
    d.Reachable ∧ d.config.delivery = .direct ∧ (d.readRegister (.target 3)).1 = 0 ∧
      (d.readRegister (.idc 0 .threshold)).1 = 1 ∧ (d.readRegister (.idc 0 .top)).1 = 0x30000 ∧
      (d.readRegister (.idc 0 .claim)).1 = 0x30000 ∧ ¬ d.NeverZeroPriority := by
  intro d
  have htop : (d.readRegister (.idc 0 .top)).1 = 0x30000 := by decide
  have hthreshold : (d.readRegister (.idc 0 .threshold)).1 = 1 := by decide
  refine ⟨sample_reachable.afterAll _, by decide, by decide, hthreshold, htop, by decide, ?_⟩
  intro hnever
  have hsilent := hnever.masked 0 (by decide) hthreshold
  rw [htop] at hsilent
  exact absurd hsilent (by decide)

end EmulatedDomain

end AdvancedInterrupts
