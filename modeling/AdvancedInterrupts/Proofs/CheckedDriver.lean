import AdvancedInterrupts.Aplic.Operation
import AdvancedInterrupts.Proofs.CheckedArithmetic

/-!
# Checked drivers

A driver computes the address of a register, the bit of a source and the fields
of target words and claims. The programs below do what a handle does, with a
check at each of these computations, and stop with a fault when one fails. The
rest of a handle compares numbers and copies words.
-/
namespace AdvancedInterrupts

/-- A driver whose computations are checked. -/
abbrev CheckedProgram (α : Type) : Type := ExceptT Fault (Program window) α

namespace CheckedProgram

variable {α β : Type}

/-- A computation between two accesses. -/
def check (c : Except Fault α) : CheckedProgram α := ExceptT.mk (pure c)

/-- A part of a driver that computes nothing. -/
def act (p : Program window α) : CheckedProgram α := ExceptT.lift p

theorem act_pure (x : α) : act (pure x) = pure x := ExceptT.lift_pure x

theorem act_bind (p : Program window α) (k : α → Program window β) :
    act (p >>= k) = act p >>= fun x => act (k x) := ExceptT.lift_bind p k

theorem check_bind {c : Except Fault α} {x : α} (h : c = pure x) (k : α → CheckedProgram β) :
    check c >>= k = k x := by
  rw [h]
  exact pure_bind x k

end CheckedProgram

open CheckedProgram

namespace Register

/-- The offset of a word of an array. -/
def checkedElementOffset (base i : Nat) : Except Fault Nat := do
  let relative ← Checked.mul i 4
  Checked.add base relative

/-- The offset of a register of a source. The arrays of sources begin with source 1. -/
def checkedSourceOffset (base source : Nat) : Except Fault Nat := do
  let i ← Checked.sub source 1
  checkedElementOffset base i

def checkedOffset : Register → Except Fault Nat
  | sourceConfig source => checkedSourceOffset sourceConfigBase source
  | setPending word => checkedElementOffset setPendingBase word
  | clearPending word => checkedElementOffset clearPendingBase word
  | setEnable word => checkedElementOffset setEnableBase word
  | clearEnable word => checkedElementOffset clearEnableBase word
  | target source => checkedSourceOffset targetBase source
  | idc index register => do
    let relative ← Checked.mul index idcStride
    let start ← Checked.add idcBase relative
    Checked.add start register.offset
  | domainConfig => pure domainConfigBase
  | machineMsiAddress => pure machineMsiAddressBase
  | machineMsiAddressHigh => pure machineMsiAddressHighBase
  | supervisorMsiAddress => pure supervisorMsiAddressBase
  | supervisorMsiAddressHigh => pure supervisorMsiAddressHighBase
  | setPendingNumber => pure setPendingNumberBase
  | clearPendingNumber => pure clearPendingNumberBase
  | setEnableNumber => pure setEnableNumberBase
  | clearEnableNumber => pure clearEnableNumberBase
  | setPendingNumberLittle => pure setPendingNumberLittleBase
  | setPendingNumberBig => pure setPendingNumberBigBase
  | generateMsi => pure generateMsiBase

def checkedRead (r : Register) : CheckedProgram Word := do
  let offset ← check r.checkedOffset
  act (.ask (WindowAccess.read offset) .done)

def checkedWrite (r : Register) (value : Word) : CheckedProgram Unit := do
  let offset ← check r.checkedOffset
  act (.ask (WindowAccess.write offset value) .done)

theorem checkedElementOffset_eq {base i : Nat} (hbase : base < idcBase) (hi : i < sourceSlots) :
    checkedElementOffset base i = pure (base + i * 4) := by
  rw [idcBase] at hbase
  rw [sourceSlots] at hi
  rw [checkedElementOffset, Checked.mul_eq (by rw [addressSpace]; omega), pure_bind,
    Checked.add_eq (by rw [addressSpace]; omega)]

theorem checkedSourceOffset_eq {base source : Nat} (hbase : base < idcBase)
    (h : 1 ≤ source ∧ source < sourceSlots) :
    checkedSourceOffset base source = pure (base + (source - 1) * 4) := by
  rw [checkedSourceOffset, Checked.sub_eq h.1, pure_bind]
  exact checkedElementOffset_eq hbase (by omega)

/-- The address of a register of the map is a machine number, and so is every number on the way
there. -/
theorem checkedOffset_eq {r : Register} (hr : r.Published)
    (hidc : ∀ i x, r = .idc i x → i ≤ Target.hartField.max) :
    r.checkedOffset = pure r.offset := by
  have hwords : bitWords ≤ sourceSlots := by decide
  cases r with
  | sourceConfig source | target source => exact checkedSourceOffset_eq (by decide) hr
  | setPending word | clearPending word | setEnable word | clearEnable word =>
    exact checkedElementOffset_eq (by decide) (Nat.lt_of_lt_of_le hr hwords)
  | idc i x =>
    have hi : i ≤ 16383 := hidc i x rfl
    have hx : x.offset < idcStride := by cases x <;> decide
    have hspace : idcBase + i * idcStride + idcStride < addressSpace := by
      simp only [idcBase, idcStride, addressSpace]
      omega
    rw [checkedOffset, Checked.mul_eq (by omega), pure_bind, Checked.add_eq (by omega), pure_bind,
      Checked.add_eq (by omega), offset]
  | _ => rfl

end Register

/-- The word that holds the bit of a source, and the mask of the bit. -/
def checkedBitPosition (source : Nat) : Except Fault (Nat × Word) := do
  let mask ← Checked.shiftLeft 1 (source % 32)
  pure (source / 32, mask)

theorem checkedBitPosition_eq (source : Nat) :
    checkedBitPosition source = pure (source / 32, Word.single (source % 32)) := by
  have hbit : source % 32 < 32 := Nat.mod_lt _ (by decide)
  rw [checkedBitPosition, Checked.shiftLeft_eq _ hbit, pure_bind, Word.single, BitVec.twoPow_eq]
  rfl

namespace Target

def checkedWord (hart value : Nat) : Except Fault Word := do
  let place ← hartField.checkedPlace hart
  pure (place ||| BitVec.ofNat 32 value)

def checkedWithHart (w : Word) (hart : Nat) : Except Fault Word := do
  let mask ← hartField.checkedPlace hartField.max
  let place ← hartField.checkedPlace hart
  pure (w &&& ~~~mask ||| place)

variable {hart : Nat} (h : hart ≤ hartField.max)

include h

theorem checkedWord_eq (value : Nat) : checkedWord hart value = pure (word hart value) := by
  rw [checkedWord, BitField.checkedPlace_eq (by decide) h, pure_bind, word]

theorem checkedWithHart_eq (w : Word) : checkedWithHart w hart = pure (withHart w hart) := by
  rw [checkedWithHart, BitField.checkedPlace_eq (by decide) (Nat.le_refl _), pure_bind,
    BitField.checkedPlace_eq (by decide) h, pure_bind, withHart, BitField.mask]

end Target

namespace Claim

def checkedOfWord (w : Word) : Except Fault Claim := do
  let identity ← w.checkedField identityField
  pure ⟨identity, (w &&& BitVec.ofNat 32 priorityField.max).toNat⟩

theorem checkedOfWord_eq (w : Word) : checkedOfWord w = pure (ofWord w) := by
  rw [checkedOfWord, Word.checkedField_eq w (by decide) (by decide), pure_bind,
    Word.toNat_and_max w rfl (by decide), ofWord]

end Claim

namespace Aplic

variable (a : Aplic)

/-! ### Sources -/

def checkedSetSourceConfig (source : Nat) (config : Word) : CheckedProgram Unit :=
  if a.hasSource source then
    match SourceMode.ofWord config with
    | .error .delegated => act (Notice.sourceConfigDelegated source config).report
    | .error .reservedMode => act (Notice.sourceConfigReserved source config).report
    | .ok mode => (Register.sourceConfig source).checkedWrite mode.toWord
  else act (Notice.sourceConfigInvalid source).report

def checkedSourceConfig (source : Nat) : CheckedProgram Word :=
  if a.hasSource source then (Register.sourceConfig source).checkedRead else pure 0

def checkedMode (source : Nat) : CheckedProgram (Option SourceMode) :=
  if a.hasSource source then do
    let config ← a.checkedSourceConfig source
    pure (SourceMode.ofCode? (config.field SourceMode.field))
  else pure none

def checkedWriteNumber (register : Register) (source : Nat) : CheckedProgram Unit :=
  if a.hasSource source then register.checkedWrite (BitVec.ofNat 32 source) else pure ()

def checkedReadBit (array : Nat → Register) (source : Nat) : CheckedProgram Bool :=
  if a.hasSource source then do
    let position ← check (checkedBitPosition source)
    let value ← (array position.1).checkedRead
    pure (decide (value &&& position.2 ≠ 0))
  else pure false

def checkedTarget (source : Nat) : CheckedProgram Word :=
  if a.hasSource source then (Register.target source).checkedRead else pure 0

def checkedSetTarget (source hart priority : Nat) : CheckedProgram Unit :=
  match a.delivery with
  | .msi => act Notice.priorityTargetUnderMsi.report
  | .direct => do
    match ← act (a.hartField hart) with
    | some field =>
      if a.hasSource source ∧ priority ≤ maxPriority then do
        let word ← check (Target.checkedWord field (max priority 1))
        (Register.target source).checkedWrite word
      else act (Notice.targetDropped source hart priority).report
    | none => act (Notice.targetDropped source hart priority).report

/-- Changes the priority of a source. The priority is the lowest field, so nothing is shifted. -/
def checkedSetPriority (source priority : Nat) : CheckedProgram Unit :=
  if a.hasSource source ∧ 1 ≤ priority ∧ priority ≤ maxPriority then
    match a.delivery with
    | .direct => do
      let word ← (Register.target source).checkedRead
      (Register.target source).checkedWrite (Target.withPriority word priority)
    | .msi => pure ()
  else act (Notice.priorityDropped source priority).report

def checkedPriority (source : Nat) : CheckedProgram Nat := do
  let word ← a.checkedTarget source
  pure (word &&& BitVec.ofNat 32 Target.priorityField.max).toNat

def checkedSetHart (source hart : Nat) : CheckedProgram Unit := do
  match ← act (a.hartField hart) with
  | some field =>
    if a.hasSource source then do
      let word ← (Register.target source).checkedRead
      let changed ← check (Target.checkedWithHart word field)
      (Register.target source).checkedWrite changed
    else act (Notice.hartDropped source hart).report
  | none => act (Notice.hartDropped source hart).report

def checkedHart (source : Nat) : CheckedProgram Nat := do
  let word ← a.checkedTarget source
  check (word.checkedField Target.hartField)

def checkedSetMsiTarget (source hart guest identity : Nat) : CheckedProgram Unit :=
  if a.hasSource source ∧ hart < a.idcs ∧ identity ≤ Target.identityField.max then
    if guest = 0 then
      match a.delivery with
      | .msi => do
        let word ← check (Target.checkedWord hart identity)
        (Register.target source).checkedWrite word
      | .direct => act Notice.msiTargetUnderDirect.report
    else act (Notice.guestTargetDropped source guest).report
  else act (Notice.msiTargetDropped source hart identity).report

def checkedRoute (source : Nat) (wiring : Wiring) : CheckedProgram Unit :=
  match a.delivery with
  | .direct => a.checkedSetTarget source wiring.hart wiring.priority
  | .msi => a.checkedSetMsiTarget source wiring.hart 0 wiring.priority

def checkedConfigure (source : Nat) (wiring : Wiring) : CheckedProgram Unit := do
  a.checkedSetSourceConfig source wiring.mode.toWord
  a.checkedRoute source wiring
  a.checkedWriteNumber .setEnableNumber source

/-! ### Bringing the domain up -/

def checkedClearSource (source : Nat) : CheckedProgram Unit := do
  (Register.sourceConfig source).checkedWrite SourceMode.inactive.toWord
  match a.delivery with
  | .direct => (Register.target source).checkedWrite (BitVec.ofNat 32 defaultPriority)
  | .msi => pure ()

def checkedReset : CheckedProgram Unit := do
  Register.domainConfig.checkedWrite (a.domainSetting false)
  (List.range bitWords).forM fun word => do
    (Register.clearPending word).checkedWrite (BitVec.allOnes 32)
    (Register.clearEnable word).checkedWrite (BitVec.allOnes 32)
  a.sourceNumbers.forM a.checkedClearSource
  Register.domainConfig.checkedWrite (a.domainSetting true)
  let count ← check (Checked.sub a.sources 1)
  act (Notice.domainInitialized count a.delivery).report

def checkedProbeSource (source : Nat) : CheckedProgram Bool := do
  let saved ← (Register.sourceConfig source).checkedRead
  if saved = SourceMode.inactive.toWord then do
    let wasEnabled ← a.checkedReadBit .setEnable source
    (Register.sourceConfig source).checkedWrite SourceMode.detached.toWord
    Register.setEnableNumber.checkedWrite (BitVec.ofNat 32 source)
    let implemented ← a.checkedReadBit .setEnable source
    (if wasEnabled then pure ()
      else Register.clearEnableNumber.checkedWrite (BitVec.ofNat 32 source))
    (Register.sourceConfig source).checkedWrite saved
    pure implemented
  else pure true

/-- The sources found so far, in reverse, with those of a list that the domain implements. Each is
recorded in its slot. -/
def checkedProbeSources (found : List Nat) : List Nat → CheckedProgram (List Nat)
  | [] => pure found.reverse
  | source :: rest => do
    let implemented ← a.checkedProbeSource source
    if implemented then do
      let slot ← check (Checked.index sourceSlots source)
      checkedProbeSources (slot :: found) rest
    else checkedProbeSources found rest

def checkedProbe : CheckedProgram (List Nat) := do
  let found ← a.checkedProbeSources [] a.sourceNumbers
  act (Notice.sourcesImplemented found.length).report
  pure found

end Aplic

/-! ### Operations -/

def Idc.checkedReset (i : Idc) : CheckedProgram Unit := do
  (i.register .threshold).checkedWrite 0
  (i.register .force).checkedWrite 0
  (i.register .delivery).checkedWrite 1

def IdcOperation.checkedProgram (i : Idc) : (op : IdcOperation) → CheckedProgram op.Answer
  | reset => i.checkedReset
  | setDelivery on => (i.register .delivery).checkedWrite (Word.ofFlag on)
  | delivery => do
    let value ← (i.register .delivery).checkedRead
    pure (value.getLsbD 0)
  | setForce on => (i.register .force).checkedWrite (Word.ofFlag on)
  | force => do
    let value ← (i.register .force).checkedRead
    pure (value.getLsbD 0)
  | setThreshold value =>
    if value ≤ maxPriority then (i.register .threshold).checkedWrite (BitVec.ofNat 32 value)
    else act (Notice.idcThresholdDropped i.index value).report
  | threshold => do
    let value ← (i.register .threshold).checkedRead
    pure value.toNat
  | top => do
    let value ← (i.register .top).checkedRead
    check (Claim.checkedOfWord value)
  | claim => do
    let value ← (i.register .claim).checkedRead
    check (Claim.checkedOfWord value)

namespace AplicOperation

def checkedProgram (a : Aplic) : (op : AplicOperation) → CheckedProgram op.Answer
  | reset => a.checkedReset
  | setUpHart h => do
    match ← act (a.idc h) with
    | some i => do
      i.checkedReset
      act (Notice.idcInitialized h i.index).report
    | none => act (Notice.hartWithoutIdc h).report
  | setDomainConfig word => Register.domainConfig.checkedWrite word
  | domainConfig => Register.domainConfig.checkedRead
  | isForwarding => do
    let config ← Register.domainConfig.checkedRead
    pure (DomainConfig.ofWord config).enabled
  | setSourceConfig source word => a.checkedSetSourceConfig source word
  | sourceConfig source => a.checkedSourceConfig source
  | setMode source m => a.checkedSetSourceConfig source m.toWord
  | mode source => a.checkedMode source
  | enable source => a.checkedWriteNumber .setEnableNumber source
  | disable source => a.checkedWriteNumber .clearEnableNumber source
  | isEnabled source => a.checkedReadBit .setEnable source
  | setPending source => a.checkedWriteNumber .setPendingNumber source
  | clearPending source => a.checkedWriteNumber .clearPendingNumber source
  | isPending source => a.checkedReadBit .setPending source
  | inputLevel source => a.checkedReadBit .clearPending source
  | target source => a.checkedTarget source
  | setTarget source h p => a.checkedSetTarget source h p
  | setPriority source p => a.checkedSetPriority source p
  | priority source => a.checkedPriority source
  | setHart source h => a.checkedSetHart source h
  | hart source => a.checkedHart source
  | setMsiTarget source h guest identity => a.checkedSetMsiTarget source h guest identity
  | probe => a.checkedProbe
  | configure source wiring => a.checkedConfigure source wiring
  | claim h => do
    match ← act (a.idc h) with
    | some i => IdcOperation.claim.checkedProgram i
    | none => pure Claim.spurious
  | idcIndex h => act (a.idcIndex h)
  | idc h op => do
    match ← act (a.idc h) with
    | some i => do
      let answer ← op.checkedProgram i
      pure (some answer)
    | none => pure none

end AplicOperation

end AdvancedInterrupts
