import AdvancedInterrupts.Proofs.CheckedDriver
import AdvancedInterrupts.Proofs.Interleaving
import AdvancedInterrupts.Proofs.SourceRefinement

/-!
# Safety of drivers

Whatever a window answers, a handle stays inside the registers that it was told
of. It names its own sources only, configures them with modes only, and no
computation on the way to an access faults. The guards are far from the
computations that rely on them, so both are followed together: a checked program
is sound for a program if it never faults and every access is safe.
-/
namespace AdvancedInterrupts

open CheckedProgram

namespace Register

theorem offset_mod_four (r : Register) : r.offset % 4 = 0 := by
  cases r with
  | idc i x =>
    have hx : x.offset % 4 = 0 := by cases x <;> rfl
    simp only [offset, idcBase, idcStride]
    omega
  | sourceConfig source | target source =>
    simp only [offset, sourceConfigBase, targetBase]
    omega
  | setPending word | clearPending word | setEnable word | clearEnable word =>
    simp only [offset, setPendingBase, clearPendingBase, setEnableBase, clearEnableBase]
    omega
  | _ => rfl

end Register

/-- An access that reaches no register. -/
def WindowAccess.IsReport : WindowAccess → Prop
  | report _ => True
  | read _ | write _ _ => False

namespace Aplic

variable (a : Aplic)

/-! ### Safe accesses -/

/-- The registers that belong to a handle: those of its sources, the bit arrays, those of its
delivery structures, and the single registers of the domain. -/
def Owns : Register → Prop
  | .sourceConfig source | .target source => 1 ≤ source ∧ source < a.sources
  | .setPending word | .clearPending word | .setEnable word | .clearEnable word => word < bitWords
  | .idc index _ => index < a.idcs
  | _ => True

/-- What a handle may write to a register: the number of one of its sources where the register
takes numbers, and the code of a mode where it configures a source. -/
def MayWrite (value : Word) : Register → Prop
  | .setPendingNumber | .clearPendingNumber | .setEnableNumber | .clearEnableNumber =>
    1 ≤ value.toNat ∧ value.toNat < a.sources
  | .sourceConfig _ => value ∈ ([0, 1, 4, 5, 6, 7] : List Word)
  | _ => True

/-- An offset at which a handle reaches a register of the map. -/
structure Reaches (offset : Nat) (r : Register) : Prop where
  offset_eq : offset = r.offset
  published : r.Published
  owned : a.Owns r
  aligned : offset % 4 = 0
  inside : offset < Register.idcBase + a.idcs * Register.idcStride

/-- The accesses that a handle may make. -/
def Safe : WindowAccess → Prop
  | .read offset => ∃ r, a.Reaches offset r
  | .write offset value => ∃ r, a.Reaches offset r ∧ a.MayWrite value r
  | .report _ => True

/-- A checked program that never faults and makes the accesses of a program, which are all safe. -/
structure Sound {α : Type} (checked : CheckedProgram α) (p : Program window α) : Prop where
  faultless : checked = act p
  safe : p.Asks a.Safe

variable {a} {r : Register} {s hart : Nat}

theorem owns_of_hasSource (h : a.hasSource s = true) :
    a.Owns (.sourceConfig s) ∧ a.Owns (.target s) := by
  rw [hasSource_iff] at h
  exact ⟨h, h⟩

theorem published_of_owns (h : a.Owns r) : r.Published := by
  have hsources := a.sources_range.2
  cases r with
  | sourceConfig s | target s => exact ⟨h.1, Nat.lt_of_lt_of_le h.2 hsources⟩
  | setPending word | clearPending word | setEnable word | clearEnable word => exact h
  | _ => trivial

theorem reaches_of_owns (h : a.Owns r) : a.Reaches r.offset r where
  offset_eq := rfl
  published := published_of_owns h
  owned := h
  aligned := r.offset_mod_four
  inside := by
    by_cases hidc : ∃ i x, r = .idc i x
    · obtain ⟨i, x, rfl⟩ := hidc
      exact Register.offset_idc_lt h x
    · have hlt := Register.offset_lt_idcBase (published_of_owns h)
        fun i x he => hidc ⟨i, x, he⟩
      omega

theorem Reaches.offset_lt_addressSpace {offset : Nat} (h : a.Reaches offset r) :
    offset < addressSpace := by
  have hinside := h.inside
  have hidcs : a.idcs ≤ 16384 := a.idcs_range.2
  simp only [Register.idcBase, Register.idcStride] at hinside
  rw [addressSpace]
  omega

theorem checkedOffset_of_owns (h : a.Owns r) : r.checkedOffset = pure r.offset := by
  refine Register.checkedOffset_eq (published_of_owns h) fun i x he => ?_
  subst he
  exact le_max_of_lt_idcs h

theorem mayWrite_number (h : a.hasSource s = true) :
    1 ≤ (BitVec.ofNat 32 s).toNat ∧ (BitVec.ofNat 32 s).toNat < a.sources := by
  rw [toNat_sourceNumber (a.lt_sourceSlots_of_hasSource h)]
  exact (a.hasSource_iff s).mp h

/-! ### Sound programs -/

namespace Sound

variable {α β : Type} {checked : CheckedProgram α} {p : Program window α}
  {k : α → CheckedProgram β} {q : α → Program window β}

protected theorem pure (x : α) : a.Sound (pure x) (pure x) := ⟨(act_pure x).symm, trivial⟩

theorem bind (hp : a.Sound checked p) (hk : ∀ x, a.Sound (k x) (q x)) :
    a.Sound (checked >>= k) (p >>= q) where
  faultless := by
    rw [hp.faultless, act_bind]
    exact congrArg (act p >>= ·) (funext fun x => (hk x).faultless)
  safe := hp.safe.bind fun x => (hk x).safe

theorem report (notice : Notice) : a.Sound (act notice.report) notice.report :=
  ⟨rfl, trivial, fun _ => trivial⟩

theorem read (h : a.Owns r) : a.Sound r.checkedRead r.read where
  faultless := check_bind (checkedOffset_of_owns h) _
  safe := ⟨⟨r, reaches_of_owns h⟩, fun _ => trivial⟩

theorem write {value : Word} (h : a.Owns r) (hvalue : a.MayWrite value r) :
    a.Sound (r.checkedWrite value) (r.write value) where
  faultless := check_bind (checkedOffset_of_owns h) _
  safe := ⟨⟨r, reaches_of_owns h, hvalue⟩, fun _ => trivial⟩

/-- A computation that succeeds is passed over. -/
theorem check {c : Except Fault α} {x : α} {p : Program window β} (h : c = pure x)
    (hk : a.Sound (k x) p) : a.Sound (CheckedProgram.check c >>= k) p := by
  rwa [check_bind h]

theorem answer {c : Except Fault α} {x : α} (h : c = pure x) :
    a.Sound (CheckedProgram.check c) (pure x) := by
  rw [h]
  exact Sound.pure x

theorem forM {ι : Type} {f : ι → CheckedProgram PUnit} {g : ι → Program window PUnit}
    {xs : List ι} (h : ∀ x ∈ xs, a.Sound (f x) (g x)) : a.Sound (xs.forM f) (xs.forM g) := by
  induction xs with
  | nil => exact Sound.pure _
  | cons x rest ih =>
    exact (h x List.mem_cons_self).bind fun _ => ih fun y hy => h y (List.mem_cons_of_mem x hy)

end Sound

/-! ### Harts -/

namespace Finds

variable {α β : Type} {x : α} {p : Program window α} {q : α → Program window β}

theorem sound {k : α → CheckedProgram β} (h : Finds x p) (hk : a.Sound (k x) (q x)) :
    a.Sound (act p >>= k) (p >>= q) := by
  cases h with
  | silent => exact hk
  | reported notice =>
    rw [act_bind, bind_assoc, bind_assoc]
    refine (Sound.report notice).bind fun _ => ?_
    rw [act_pure, pure_bind, pure_bind]
    exact hk

theorem asks (h : Finds x p) (hq : (q x).Asks WindowAccess.IsReport) :
    (p >>= q).Asks WindowAccess.IsReport := by
  cases h with
  | silent => exact hq
  | reported notice => exact ⟨trivial, fun _ => hq⟩

end Finds

/-- A program that uses the delivery structure of a hart, if it has one. -/
theorem sound_idc {α : Type} {k : Option Idc → CheckedProgram α}
    {q : Option Idc → Program window α} (hart : Nat) (hnone : a.Sound (k none) (q none))
    (hsome : ∀ i < a.idcs, a.Sound (k (some ⟨i⟩)) (q (some ⟨i⟩))) :
    a.Sound (act (a.idc hart) >>= k) (a.idc hart >>= q) := by
  refine (a.finds_idc hart).sound ?_
  cases hindex : a.idcIndex? hart with
  | none => exact hnone
  | some i => exact hsome i (lt_of_idcIndex? hindex)

/-! ### Operations -/

theorem sound_setSourceConfig (s : Nat) (config : Word) :
    a.Sound (a.checkedSetSourceConfig s config) (a.setSourceConfig s config) := by
  unfold checkedSetSourceConfig setSourceConfig
  split
  next hs =>
    cases SourceMode.ofWord config with
    | ok mode => exact .write (owns_of_hasSource hs).1 (EmulatedDomain.mode_toWord_mem mode)
    | error e => cases e <;> exact .report _
  next => exact .report _

theorem sound_sourceConfig (s : Nat) : a.Sound (a.checkedSourceConfig s) (a.sourceConfig s) := by
  unfold checkedSourceConfig sourceConfig
  split
  next hs => exact .read (owns_of_hasSource hs).1
  next => exact .pure _

theorem sound_mode (s : Nat) : a.Sound (a.checkedMode s) (a.mode s) := by
  unfold checkedMode mode
  split
  next => exact (sound_sourceConfig s).bind fun config => .pure _
  next => exact .pure _

/-- The registers that take the number of a source. -/
theorem sound_writeNumber (hr : a.Owns r)
    (hvalue : a.hasSource s = true → a.MayWrite (BitVec.ofNat 32 s) r) :
    a.Sound (a.checkedWriteNumber r s) (a.writeNumber r s) := by
  unfold checkedWriteNumber writeNumber
  split
  next hs => exact .write hr (hvalue hs)
  next => exact .pure _

theorem sound_readBit {array : Nat → Register}
    (harray : ∀ word < bitWords, a.Owns (array word)) :
    a.Sound (a.checkedReadBit array s) (a.readBit array s) := by
  unfold checkedReadBit readBit
  split
  next hs =>
    have hword := word_lt_bitWords (a.lt_sourceSlots_of_hasSource hs)
    have hbit : s % 32 < 32 := Nat.mod_lt _ (by decide)
    refine .check (checkedBitPosition_eq s) ((Sound.read (harray _ hword)).bind fun value => ?_)
    have hvalue : decide (value &&& Word.single (s % 32) ≠ 0) = value.getLsbD (s % 32) := by
      simp only [Word.and_single_ne_zero hbit, Bool.decide_eq_true]
    rw [hvalue]
    exact .pure _
  next => exact .pure _

theorem sound_target (s : Nat) : a.Sound (a.checkedTarget s) (a.target s) := by
  unfold checkedTarget target
  split
  next hs => exact .read (owns_of_hasSource hs).2
  next => exact .pure _

theorem sound_setTarget (s hart priority : Nat) :
    a.Sound (a.checkedSetTarget s hart priority) (a.setTarget s hart priority) := by
  unfold checkedSetTarget setTarget
  cases a.delivery with
  | msi => exact .report _
  | direct =>
    refine (a.finds_hartField hart).sound ?_
    cases hroute : a.route? hart with
    | none => exact .report _
    | some i =>
      dsimp only
      split
      next h =>
        exact .check (Target.checkedWord_eq (le_max_of_lt_idcs (lt_of_route? hroute)) _)
          (.write (owns_of_hasSource h.1).2 trivial)
      next => exact .report _

theorem sound_setPriority (s priority : Nat) :
    a.Sound (a.checkedSetPriority s priority) (a.setPriority s priority) := by
  unfold checkedSetPriority setPriority
  split
  next h =>
    have howns := (owns_of_hasSource h.1).2
    cases a.delivery with
    | direct => exact (Sound.read howns).bind fun word => .write howns trivial
    | msi => exact .pure _
  next => exact .report _

theorem sound_setHart (s hart : Nat) :
    a.Sound (a.checkedSetHart s hart) (a.setHart s hart) := by
  refine (a.finds_hartField hart).sound ?_
  cases hroute : a.route? hart with
  | none => exact .report _
  | some i =>
    dsimp only
    split
    next hs =>
      have howns := (owns_of_hasSource hs).2
      refine (Sound.read howns).bind fun word => ?_
      exact .check (Target.checkedWithHart_eq (le_max_of_lt_idcs (lt_of_route? hroute)) word)
        (.write howns trivial)
    next => exact .report _

theorem sound_setMsiTarget (s hart guest identity : Nat) :
    a.Sound (a.checkedSetMsiTarget s hart guest identity)
      (a.setMsiTarget s hart guest identity) := by
  unfold checkedSetMsiTarget setMsiTarget
  split
  next h =>
    split
    next =>
      cases a.delivery with
      | msi =>
        exact .check (Target.checkedWord_eq (le_max_of_lt_idcs h.2.1) identity)
          (.write (owns_of_hasSource h.1).2 trivial)
      | direct => exact .report _
    next => exact .report _
  next => exact .report _

theorem sound_configure (s : Nat) (wiring : Wiring) :
    a.Sound (a.checkedConfigure s wiring) (a.configure s wiring) := by
  have hroute : a.Sound (a.checkedRoute s wiring) (a.route s wiring) := by
    unfold checkedRoute route
    cases a.delivery with
    | direct => exact sound_setTarget _ _ _
    | msi => exact sound_setMsiTarget _ _ _ _
  exact (sound_setSourceConfig s wiring.mode.toWord).bind fun _ => hroute.bind fun _ =>
    sound_writeNumber trivial mayWrite_number

theorem sound_reset : a.Sound a.checkedReset a.reset := by
  have hsetting (enabled : Bool) : a.Sound (Register.domainConfig.checkedWrite
      (a.domainSetting enabled)) (Register.domainConfig.write (a.domainSetting enabled)) :=
    .write trivial trivial
  have hclear : a.Sound _ clearArrays := Sound.forM fun word hword =>
    have hword := List.mem_range.mp hword
    Sound.bind (.write (r := .clearPending word) hword trivial) fun _ => .write hword trivial
  have hsource : ∀ s ∈ a.sourceNumbers, a.Sound (a.checkedClearSource s) (a.clearSource s) := by
    intro s hs
    obtain ⟨hconfig, htarget⟩ := owns_of_hasSource ((a.mem_sourceNumbers s).mp hs)
    refine (Sound.write hconfig (EmulatedDomain.mode_toWord_mem _)).bind fun _ => ?_
    cases a.delivery with
    | direct => exact .write htarget trivial
    | msi => exact .pure _
  have hcount : Checked.sub a.sources 1 = pure (a.sources - 1) :=
    Checked.sub_eq (Nat.le_trans (by decide) a.sources_range.1)
  exact (hsetting false).bind fun _ => hclear.bind fun _ => (Sound.forM hsource).bind fun _ =>
    (hsetting true).bind fun _ => .check hcount (.report _)

/-- What a probe writes back is what it saved, and it saves inactive sources only. -/
theorem sound_probeSource (hs : a.hasSource s = true) :
    a.Sound (a.checkedProbeSource s) (a.probeSource s) := by
  have hconfig := (owns_of_hasSource hs).1
  have henabled : a.Sound (a.checkedReadBit .setEnable s) (a.isEnabled s) :=
    sound_readBit fun _ hword => hword
  refine (Sound.read hconfig).bind fun saved => ?_
  split
  next hsaved =>
    have hmode : saved ∈ ([0, 1, 4, 5, 6, 7] : List Word) := by
      rw [hsaved]
      exact EmulatedDomain.mode_toWord_mem _
    refine henabled.bind fun wasEnabled => ?_
    refine (Sound.write hconfig (EmulatedDomain.mode_toWord_mem _)).bind fun _ => ?_
    refine Sound.bind (.write trivial (mayWrite_number hs)) fun _ => ?_
    refine henabled.bind fun implemented => ?_
    refine Sound.bind ?_ fun _ => (Sound.write hconfig hmode).bind fun _ => .pure _
    unfold restoreEnable
    split
    · exact .pure _
    · exact .write trivial (mayWrite_number hs)
  next => exact .pure _

theorem sound_probeSources (found : List Nat) {sources : List Nat}
    (h : ∀ s ∈ sources, a.hasSource s = true) :
    a.Sound (a.checkedProbeSources found sources) (a.probeSources found sources) := by
  induction sources generalizing found with
  | nil => exact .pure _
  | cons s rest ih =>
    have hs := h s List.mem_cons_self
    have hrest (found : List Nat) := ih found fun t ht => h t (List.mem_cons_of_mem s ht)
    refine (sound_probeSource hs).bind fun implemented => ?_
    cases implemented with
    | false => exact hrest found
    | true =>
      exact .check (Checked.index_eq (a.lt_sourceSlots_of_hasSource hs)) (hrest (s :: found))

theorem sound_probe : a.Sound a.checkedProbe a.probe :=
  (sound_probeSources [] fun s hs => (a.mem_sourceNumbers s).mp hs).bind fun _ =>
    (Sound.report _).bind fun _ => .pure _

theorem sound_resetIdc {i : Nat} (hi : i < a.idcs) :
    a.Sound (Idc.mk i).checkedReset (Idc.mk i).reset :=
  Sound.bind (.write hi trivial) fun _ => Sound.bind (.write hi trivial) fun _ =>
    .write hi trivial

theorem sound_idcProgram {i : Nat} (hi : i < a.idcs) (op : IdcOperation) :
    a.Sound (op.checkedProgram ⟨i⟩) (op.program ⟨i⟩) := by
  cases op with
  | reset => exact sound_resetIdc hi
  | setDelivery on | setForce on => exact .write hi trivial
  | setThreshold value =>
    simp only [IdcOperation.checkedProgram, IdcOperation.program, Idc.setThreshold]
    split
    · exact .write hi trivial
    · exact .report _
  | delivery | force | threshold => exact Sound.bind (.read hi) fun value => .pure _
  | top | claim =>
    exact Sound.bind (.read hi) fun value => .answer (Claim.checkedOfWord_eq value)

/-- No operation of a handle faults, and none makes an unsafe access. -/
theorem sound_program (a : Aplic) (op : AplicOperation) :
    a.Sound (op.checkedProgram a) (op.program a) := by
  cases op with
  | reset => exact sound_reset
  | setUpHart hart =>
    exact sound_idc hart (.report _) fun i hi => (sound_resetIdc hi).bind fun _ => .report _
  | setDomainConfig word => exact .write trivial trivial
  | domainConfig => exact .read trivial
  | isForwarding => exact Sound.bind (.read trivial) fun _ => .pure _
  | setSourceConfig s word => exact sound_setSourceConfig s word
  | sourceConfig s => exact sound_sourceConfig s
  | setMode s m => exact sound_setSourceConfig s m.toWord
  | mode s => exact sound_mode s
  | enable s | disable s | setPending s | clearPending s =>
    exact sound_writeNumber trivial mayWrite_number
  | isEnabled s | isPending s | inputLevel s => exact sound_readBit fun _ hword => hword
  | target s => exact sound_target s
  | setTarget s hart priority => exact sound_setTarget s hart priority
  | setPriority s priority => exact sound_setPriority s priority
  | priority s =>
    refine (sound_target s).bind fun word => ?_
    rw [Word.toNat_and_max word rfl (by decide)]
    exact .pure _
  | setHart s hart => exact sound_setHart s hart
  | hart s =>
    exact (sound_target s).bind fun word =>
      .answer (Word.checkedField_eq word (by decide) (by decide))
  | setMsiTarget s hart guest identity => exact sound_setMsiTarget s hart guest identity
  | probe => exact sound_probe
  | configure s wiring => exact sound_configure s wiring
  | claim hart => exact sound_idc hart (.pure _) fun i hi => sound_idcProgram hi .claim
  | idcIndex hart =>
    have hfinds := (a.finds_idcIndex hart).sound (k := pure) (q := pure) (.pure (a := a) _)
    rwa [bind_pure, bind_pure] at hfinds
  | idc hart op =>
    exact sound_idc hart (.pure _) fun i hi => (sound_idcProgram hi op).bind fun _ => .pure _

end Aplic

/-! ### Rejected operations -/

/-- Whether an operation on a delivery structure takes its argument. -/
def IdcOperation.Accepted : IdcOperation → Prop
  | setThreshold value => value ≤ maxPriority
  | _ => True

/-- Whether a handle takes the arguments of an operation, which for a target is also a question of
how the domain delivers. A reset, a probe, the wiring of a source and a write of the domain
configuration are not rejected as a whole. -/
def AplicOperation.Accepted (a : Aplic) : AplicOperation → Prop
  | reset | probe | configure _ _ | setDomainConfig _ | domainConfig | isForwarding => True
  | setUpHart h | claim h | idcIndex h => (a.idcIndex? h).isSome
  | idc h op => (a.idcIndex? h).isSome ∧ op.Accepted
  | setSourceConfig s config => a.hasSource s ∧ config.getLsbD delegationBit = false ∧
    config.field SourceMode.field ∈ [0, 1, 4, 5, 6, 7]
  | setMode s _ | sourceConfig s | mode s | enable s | disable s | isEnabled s | setPending s
  | clearPending s | isPending s | inputLevel s | target s | priority s | hart s => a.hasSource s
  | setTarget s h p =>
    a.delivery = .direct ∧ a.hasSource s ∧ (a.idcIndex? h).isSome ∧ p ≤ maxPriority
  | setPriority s p => a.delivery = .direct ∧ a.hasSource s ∧ 1 ≤ p ∧ p ≤ maxPriority
  | setHart s h => a.hasSource s ∧ (a.route? h).isSome
  | setMsiTarget s h guest identity => a.delivery = .msi ∧ a.hasSource s ∧ h < a.idcs ∧
    guest = 0 ∧ identity ≤ Target.identityField.max

namespace SourceMode

theorem code_of_ofCode? {n : Nat} {mode : SourceMode} (h : ofCode? n = some mode) :
    mode.code = n := by
  unfold ofCode? at h
  split at h <;> cases h <;> rfl

theorem code_mem (mode : SourceMode) : mode.code ∈ [0, 1, 4, 5, 6, 7] := by
  cases mode <;> decide

/-- A word that asks for a mode has the code of a mode, and does not delegate the source. -/
theorem accepted_of_ofWord {w : Word} {mode : SourceMode} (h : ofWord w = .ok mode) :
    w.getLsbD delegationBit = false ∧ w.field field ∈ [0, 1, 4, 5, 6, 7] := by
  rw [ofWord] at h
  split at h
  next => cases h
  next hbit =>
    refine ⟨Bool.eq_false_iff.mpr hbit, ?_⟩
    cases hcode : ofCode? (w.field field) with
    | none =>
      rw [hcode] at h
      cases h
    | some mode =>
      rw [← code_of_ofCode? hcode]
      exact code_mem mode

end SourceMode

namespace Aplic

variable {a : Aplic} {s hart : Nat}

theorem asks_report (notice : Notice) : notice.report.Asks WindowAccess.IsReport :=
  ⟨trivial, fun _ => trivial⟩

/-- A program that needs the delivery structure of a hart makes no access if there is none. -/
theorem asks_idc {α : Type} {q : Option Idc → Program window α}
    (hnone : ¬ (a.idcIndex? hart).isSome) (hq : (q none).Asks WindowAccess.IsReport) :
    (a.idc hart >>= q).Asks WindowAccess.IsReport := by
  refine (a.finds_idc hart).asks ?_
  rwa [Option.not_isSome_iff_eq_none.mp hnone]

theorem asks_setSourceConfig {config : Word}
    (h : ¬ (AplicOperation.setSourceConfig s config).Accepted a) :
    (a.setSourceConfig s config).Asks WindowAccess.IsReport := by
  unfold setSourceConfig
  split
  next hs =>
    cases hmode : SourceMode.ofWord config with
    | error e => cases e <;> exact asks_report _
    | ok mode => exact absurd ⟨hs, SourceMode.accepted_of_ofWord hmode⟩ h
  next => exact asks_report _

theorem asks_setTarget {priority : Nat}
    (h : ¬ (AplicOperation.setTarget s hart priority).Accepted a) :
    (a.setTarget s hart priority).Asks WindowAccess.IsReport := by
  unfold setTarget
  cases hdelivery : a.delivery with
  | msi => exact asks_report _
  | direct =>
    refine (a.finds_hartField hart).asks ?_
    have hroute : a.route? hart = a.idcIndex? hart := by rw [route?, hdelivery]
    rw [hroute]
    cases hindex : a.idcIndex? hart with
    | none => exact asks_report _
    | some i =>
      have hreject : ¬ (a.hasSource s = true ∧ priority ≤ maxPriority) := fun hboth =>
        h ⟨hdelivery, hboth.1, by rw [hindex, Option.isSome_some], hboth.2⟩
      simp only [if_neg hreject]
      exact asks_report _

theorem asks_setPriority {priority : Nat}
    (h : ¬ (AplicOperation.setPriority s priority).Accepted a) :
    (a.setPriority s priority).Asks WindowAccess.IsReport := by
  unfold setPriority
  split
  next hboth =>
    cases hdelivery : a.delivery with
    | direct => exact absurd ⟨hdelivery, hboth⟩ h
    | msi => trivial
  next => exact asks_report _

theorem asks_setHart (h : ¬ (AplicOperation.setHart s hart).Accepted a) :
    (a.setHart s hart).Asks WindowAccess.IsReport := by
  refine (a.finds_hartField hart).asks ?_
  cases hroute : a.route? hart with
  | none => exact asks_report _
  | some i =>
    have hreject : ¬ a.hasSource s = true := fun hs => h ⟨hs, by rw [hroute, Option.isSome_some]⟩
    simp only [if_neg hreject]
    exact asks_report _

theorem asks_setMsiTarget {guest identity : Nat}
    (h : ¬ (AplicOperation.setMsiTarget s hart guest identity).Accepted a) :
    (a.setMsiTarget s hart guest identity).Asks WindowAccess.IsReport := by
  unfold setMsiTarget
  split
  next hall =>
    split
    next hguest =>
      cases hdelivery : a.delivery with
      | msi => exact absurd ⟨hdelivery, hall.1, hall.2.1, hguest, hall.2.2⟩ h
      | direct => exact asks_report _
    next => exact asks_report _
  next => exact asks_report _

theorem asks_idcProgram {op : IdcOperation} (h : ¬ op.Accepted) (i : Idc) :
    (op.program i).Asks WindowAccess.IsReport := by
  cases op with
  | setThreshold value =>
    have hvalue : ¬ value ≤ maxPriority := h
    simp only [IdcOperation.program, Idc.setThreshold, if_neg hvalue]
    exact asks_report _
  | _ => exact absurd trivial h

/-- An operation that is rejected makes no access. -/
theorem asks_of_not_accepted {op : AplicOperation} (h : ¬ op.Accepted a) :
    (op.program a).Asks WindowAccess.IsReport := by
  cases op with
  | reset | probe | configure _ _ | setDomainConfig _ | domainConfig | isForwarding =>
    exact absurd trivial h
  | setUpHart hart => exact asks_idc h (asks_report _)
  | claim hart => exact asks_idc h trivial
  | idcIndex hart =>
    have hfinds := (a.finds_idcIndex hart).asks (q := pure) trivial
    rwa [bind_pure] at hfinds
  | idc hart op =>
    by_cases hindex : (a.idcIndex? hart).isSome = true
    · have hop : ¬ op.Accepted := fun hop => h ⟨hindex, hop⟩
      obtain ⟨i, hi⟩ := Option.isSome_iff_exists.mp hindex
      refine (a.finds_idc hart).asks ?_
      rw [hi]
      exact (asks_idcProgram hop ⟨i⟩).bind fun _ => trivial
    · exact asks_idc hindex trivial
  | setSourceConfig s config => exact asks_setSourceConfig h
  | setMode s m => exact asks_setSourceConfig fun haccepted => h haccepted.1
  | setTarget s hart priority => exact asks_setTarget h
  | setPriority s priority => exact asks_setPriority h
  | setHart s hart => exact asks_setHart h
  | setMsiTarget s hart guest identity => exact asks_setMsiTarget h
  | sourceConfig s | mode s | enable s | disable s | isEnabled s | setPending s | clearPending s
  | isPending s | inputLevel s | target s | priority s | hart s =>
    have hs : a.hasSource s = false := Bool.eq_false_iff.mpr h
    simp [AplicOperation.program, sourceConfig, mode, enable, disable, isEnabled, setPending,
      clearPending, isPending, inputLevel, target, priority, Aplic.hart, writeNumber, readBit, hs,
      Program.Asks]

/-- Drivers are safe over any window. Whatever the reads answer, no computation of an operation
faults, every access is in order, and an operation that rejects its arguments makes none. -/
theorem operations_safe (a : Aplic) (op : AplicOperation) :
    (op.checkedProgram a).run = Except.ok <$> op.program a ∧ (op.program a).Asks a.Safe ∧
      Register.idcBase + a.idcs * Register.idcStride ≤ 0x84000 ∧
      (¬ op.Accepted a → (op.program a).Asks WindowAccess.IsReport) := by
  have hsound := a.sound_program op
  have hidcs : a.idcs ≤ 16384 := a.idcs_range.2
  refine ⟨?_, hsound.safe, ?_, asks_of_not_accepted⟩
  · rw [hsound.faultless]
    exact ExceptT.run_lift _
  · simp only [Register.idcBase, Register.idcStride]
    omega

/-- A platform that maps harts to later delivery structures leaves some without one. -/
theorem operations_safe_shiftedHarts :
    let a : Aplic :=
      ⟨{ AplicConfig.standard with idcOfHart := fun hart => some (hart + 6) }, by decide, by decide⟩
    let op : AplicOperation := .setTarget 3 2 5
    ¬ op.Accepted a ∧ (op.program a).Asks WindowAccess.IsReport := by
  intro a op
  have hindex : ¬ (a.idcIndex? 2).isSome := by decide
  have hreject : ¬ op.Accepted a := fun haccepted => hindex haccepted.2.2.1
  exact ⟨hreject, (a.operations_safe op).2.2.2 hreject⟩

end Aplic

end AdvancedInterrupts
