import AdvancedInterrupts.Proofs.DomainAction

/-!
# Legal register contents

What the registers of an emulated domain can hold, whatever its drivers and its
guest do. A source that the domain does not have stays as it came out of reset,
an inactive source has neither flag, targets keep their unused bit clear, and
delivery structures that the domain does not have stay off. Every action keeps
these four facts, and the ranges of all registers follow from them.
-/
namespace AdvancedInterrupts

/-- No delivery mode stores the bit between the guest file and the message identity. -/
theorem Target.getLsbD_stored_gap (delivery : DeliveryMode) (w : Word) :
    (Target.stored delivery w).getLsbD 11 = false := by
  have hhart : hartField.mask.getLsbD 11 = false := by decide
  cases delivery with
  | direct =>
    have hpriority : priorityField.mask.getLsbD 11 = false := by decide
    simp only [Target.stored, BitVec.getLsbD_or, BitVec.getLsbD_and, hhart, Bool.and_false,
      Bool.false_or]
    split
    · decide
    · rw [BitVec.getLsbD_and, hpriority, Bool.and_false]
  | msi =>
    have hmask :
        (hartField.mask ||| guestField.mask ||| identityField.mask).getLsbD 11 = false := by
      decide
    simp only [Target.stored, BitVec.getLsbD_and, hmask, Bool.and_false]

namespace EmulatedDomain

variable {d : EmulatedDomain}

@[simp] theorem sourceCount_perform (x : DomainAction) :
    (d.perform x).sourceCount = d.sourceCount :=
  sourceCount_of_shape (d.shape_perform x)

@[simp] theorem idcCount_perform (x : DomainAction) : (d.perform x).idcCount = d.idcCount :=
  idcCount_of_shape (d.shape_perform x)

@[simp] theorem hasSource_perform (x : DomainAction) (s : Nat) :
    (d.perform x).hasSource s = d.hasSource s := by
  simp only [hasSource, sourceCount_perform]

/-- Only an existing source accepts a value of a flag. -/
theorem hasSource_of_acceptsFlag {s : Nat} {value : Bool} (h : d.acceptsFlag s value = true) :
    d.hasSource s = true := by
  simp only [acceptsFlag, Bool.and_eq_true] at h
  exact h.1

/-- Only an active source accepts that a flag is set. -/
theorem isActive_of_acceptsFlag {s : Nat} (h : d.acceptsFlag s true = true) :
    (d.source s).mode.isActive = true := by
  simp only [acceptsFlag, Bool.and_eq_true, Bool.not_true, Bool.false_or] at h
  exact h.2

/-- What every action keeps: the parts that a domain does not have are as out of reset, inactive
sources have no flags, and the unused bit of every target is clear. -/
structure Consistent (d : EmulatedDomain) : Prop where
  absent (s : Nat) (h : d.hasSource s = false) : d.source s = Source.reset
  inactive (s : Nat) (h : (d.source s).mode = .inactive) (f : SourceFlag) :
    (d.source s).flag f = false
  gap (s : Nat) : (d.source s).target.getLsbD 11 = false
  spare (i : Nat) (h : d.idcCount ≤ i) : d.idc i = IdcState.reset

/-- A new domain has all its sources and delivery structures out of reset. -/
theorem registers_of_create {address sourceCount idcCount : Nat}
    (h : create address sourceCount idcCount = .ok d) :
    (∀ s, d.source s = Source.reset) ∧ ∀ i, d.idc i = IdcState.reset := by
  unfold create at h
  split at h
  next =>
    split at h
    next =>
      cases h
      exact ⟨Table.get_fill_default, Table.get_fill_default⟩
    next => cases h
  next => cases h

namespace Consistent

theorem create {address sourceCount idcCount : Nat}
    (h : EmulatedDomain.create address sourceCount idcCount = .ok d) : d.Consistent := by
  obtain ⟨hsource, hidc⟩ := registers_of_create h
  refine ⟨fun s _ => hsource s, fun s _ f => ?_, fun s => ?_, fun i _ => hidc i⟩
  · rw [hsource]
    cases f <;> rfl
  · rw [hsource]
    rfl

/-- A change that needs the source to exist does not reach one that the domain lacks. -/
theorem absent_perform (hd : d.Consistent) (x : DomainAction) {s : Nat}
    (h : d.hasSource s = false) : (d.perform x).source s = Source.reset := by
  have hreset := hd.absent s h
  have heffect := d.sourceEffect x s
  generalize (d.perform x).source s = after at heffect ⊢
  cases heffect with
  | kept => exact hreset
  | flag q hq hn ha => exact absurd (hasSource_of_acceptsFlag ha) (by simp [h])
  | mode word m hx hm hs => exact absurd hs (by simp [h])
  | target word hx hs => exact absurd hs (by simp [h])
  | claimed i c hx hi ht hc => rw [hreset]; rfl

theorem inactive_perform (hd : d.Consistent) (x : DomainAction) {s : Nat}
    (h : ((d.perform x).source s).mode = .inactive) (f : SourceFlag) :
    ((d.perform x).source s).flag f = false := by
  have heffect := d.sourceEffect x s
  generalize (d.perform x).source s = after at heffect h ⊢
  cases heffect with
  | kept => exact hd.inactive s h f
  | flag q hq hn ha =>
    rw [Source.mode_withFlag] at h
    rw [Source.flag_withFlag]
    split
    · cases hv : q.value with
      | false => rfl
      | true =>
        rw [hv] at ha
        have hactive := isActive_of_acceptsFlag ha
        rw [h] at hactive
        cases hactive
    · exact hd.inactive s h f
  | mode word m hx hm hs =>
    rw [Source.mode_withMode] at h
    rw [Source.flag_withMode, h]
    rfl
  | target word hx hs =>
    rw [Source.flag_withTarget]
    exact hd.inactive s h f
  | claimed i c hx hi ht hc =>
    rw [Source.mode_withFlag] at h
    rw [Source.flag_withFlag]
    split
    · rfl
    · exact hd.inactive s h f

theorem gap_perform (hd : d.Consistent) (x : DomainAction) (s : Nat) :
    ((d.perform x).source s).target.getLsbD 11 = false := by
  have hgap := hd.gap s
  have heffect := d.sourceEffect x s
  generalize (d.perform x).source s = after at heffect ⊢
  cases heffect with
  | kept => exact hgap
  | flag q hq hn ha => rw [Source.target_withFlag]; exact hgap
  | mode word m hx hm hs => rw [Source.target_withMode]; exact hgap
  | target word hx hs => exact Target.getLsbD_stored_gap d.config.delivery word
  | claimed i c hx hi ht hc => rw [Source.target_withFlag]; exact hgap

theorem spare_perform (hd : d.Consistent) (x : DomainAction) {i : Nat} (h : d.idcCount ≤ i) :
    (d.perform x).idc i = IdcState.reset := by
  have heffect := d.idcEffect x i
  generalize (d.perform x).idc i = after at heffect ⊢
  cases heffect with
  | kept => exact hd.spare i h
  | written r value hx hi => omega
  | unforced hx hi ht => omega

/-- No action makes a consistent domain inconsistent. -/
theorem perform (hd : d.Consistent) (x : DomainAction) : (d.perform x).Consistent where
  absent s h := hd.absent_perform x (by rwa [hasSource_perform] at h)
  inactive _ h := hd.inactive_perform x h
  gap := hd.gap_perform x
  spare i h := hd.spare_perform x (by rwa [idcCount_perform] at h)

end Consistent

/-- Every reachable domain is consistent. -/
theorem Reachable.consistent (h : d.Reachable) : d.Consistent := by
  induction h with
  | new hnew => exact Consistent.create hnew
  | step _ access ih => exact after_induction _ ih access fun x => ih.perform x

/-- A flag of a consistent domain belongs to a source that exists and is active. -/
theorem Consistent.of_flag (hd : d.Consistent) {f : SourceFlag} {s : Nat}
    (h : (d.source s).flag f = true) :
    d.hasSource s = true ∧ (d.source s).mode ≠ .inactive := by
  constructor
  · cases hs : d.hasSource s with
    | true => rfl
    | false =>
      rw [hd.absent s hs] at h
      cases f <;> cases h
  · intro hm
    rw [hd.inactive s hm f] at h
    cases h

/-- What the registers of a domain hold, as words of the register map. -/
structure LegalRegisters (d : EmulatedDomain) : Prop where
  /-- Only an existing and active source is pending or enabled. -/
  flags (f : SourceFlag) (s : Nat) (h : (d.source s).flag f = true) :
    (1 ≤ s ∧ s < d.sourceCount) ∧ (d.source s).mode.toWord ≠ SourceMode.inactive.toWord
  /-- Source configurations are the codes of the modes, and never the reserved 2 and 3. -/
  modes (s : Nat) : (d.source s).mode.toWord ∈ ([0, 1, 4, 5, 6, 7] : List Word)
  /-- The slots without a source are zero. -/
  absent (s : Nat) (h : s = 0 ∨ d.sourceCount ≤ s) :
    (d.source s).mode.toWord = 0 ∧ (d.source s).target = 0
  /-- Bit 11 of a target belongs to no field. -/
  gap (s : Nat) : (d.source s).target.getLsbD 11 = false
  /-- The domain configuration has the bits BE, DM and IE only. -/
  config (bit : Nat) (h : d.config.toWord.getLsbD bit = true) : bit = 0 ∨ bit = 2 ∨ bit = 8
  /-- Delivery and force are single flags, and thresholds are priorities. -/
  idcs (i : Nat) : Word.ofFlag (d.idc i).delivery ≤ 1 ∧ Word.ofFlag (d.idc i).force ≤ 1 ∧
    (d.idc i).threshold.setWidth 32 ≤ BitVec.ofNat 32 maxPriority
  /-- The slots without a delivery structure are zero. -/
  spare (i : Nat) (h : d.idcCount ≤ i) : Word.ofFlag (d.idc i).delivery = 0 ∧
    Word.ofFlag (d.idc i).force = 0 ∧ (d.idc i).threshold.setWidth 32 = (0 : Word)

theorem mode_toWord_mem (mode : SourceMode) : mode.toWord ∈ ([0, 1, 4, 5, 6, 7] : List Word) := by
  cases mode <;> decide

theorem Consistent.legalRegisters (hd : d.Consistent) : d.LegalRegisters where
  flags f s h := by
    obtain ⟨hs, hm⟩ := hd.of_flag h
    rw [hasSource_iff] at hs
    refine ⟨hs, fun he => hm ?_⟩
    have hcode := congrArg SourceMode.ofWord he
    simpa using hcode
  modes s := mode_toWord_mem _
  absent s h := by
    have hs : d.hasSource s = false := by
      rw [hasSource, decide_eq_false_iff_not]
      omega
    rw [hd.absent s hs]
    exact ⟨rfl, rfl⟩
  gap := hd.gap
  config bit h := by
    simp only [DomainConfig.toWord, Word.getLsbD_ofBits, Bool.and_eq_true, Bool.or_eq_true,
      beq_iff_eq] at h
    omega
  idcs i := by
    have hflag (on : Bool) : Word.ofFlag on ≤ 1 := by cases on <;> decide
    refine ⟨hflag _, hflag _, ?_⟩
    have hlt := (d.idc i).threshold.isLt
    rw [BitVec.le_def, BitVec.toNat_setWidth, BitVec.toNat_ofNat, maxPriority]
    omega
  spare i h := by
    rw [hd.spare i h]
    exact ⟨rfl, rfl, rfl⟩

/-- Whatever is done to a new domain, its registers hold legal words. -/
theorem legalRegisters_of_reachable (h : d.Reachable) : d.LegalRegisters :=
  h.consistent.legalRegisters

/-- A new domain with seven sources and two delivery structures. -/
def sample : EmulatedDomain :=
  ⟨0xd000000, 8, 2, .reset, .fill _ .reset, .fill _ .reset, by decide, by decide⟩

theorem sample_reachable : sample.Reachable :=
  Reachable.new (show create 0xd000000 8 2 = .ok sample from rfl)

/-- Sources 5 and 3 of a sample domain become active, enabled and pending at the first delivery
structure, with the second one more urgent. -/
def sampleAccesses : List EmulatedAccess :=
  [.windowWrite (Register.sourceConfig 5).offset 1, .windowWrite (Register.target 5).offset 7,
    .windowWrite (Register.sourceConfig 3).offset 4, .windowWrite (Register.target 3).offset 2,
    .windowWrite (Register.setEnable 0).offset 0x28, .inject 5, .inject 3]

theorem legalRegisters_of_sampleAccesses :
    (sample.afterAll sampleAccesses).Reachable ∧
      ((sample.afterAll sampleAccesses).source 3).pending = true ∧
      (sample.afterAll sampleAccesses).LegalRegisters :=
  ⟨sample_reachable.afterAll _, by decide,
    legalRegisters_of_reachable (sample_reachable.afterAll _)⟩

end EmulatedDomain

end AdvancedInterrupts
