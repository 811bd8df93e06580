/-!
# The register map of an interrupt domain

The published layout of the memory-mapped window of an APLIC domain. Sources
are numbered from one, so the arrays of source registers start at source 1;
bit arrays hold the bit of source `n` at position `n % 32` of word `n / 32`.
Every hart has an interrupt delivery control (IDC) structure behind the domain
registers.
-/
namespace AdvancedInterrupts

/-- Slots for sources, the reserved source 0 included. -/
def sourceSlots : Nat := 1024

/-- Words in an array with one bit per source. -/
def bitWords : Nat := sourceSlots / 32

/-- The largest priority number, which is the least urgent. -/
def maxPriority : Nat := 0xFF

/-- The priority of every source after a reset of the domain. -/
def defaultPriority : Nat := 1

/-- A register of an IDC structure. -/
inductive IdcRegister where
  | delivery
  | force
  | threshold
  | top
  | claim
deriving DecidableEq, Repr

namespace IdcRegister

/-- The byte offset inside the IDC structure. -/
def offset : IdcRegister → Nat
  | delivery => 0x00
  | force => 0x04
  | threshold => 0x08
  | top => 0x18
  | claim => 0x1C

/-- The register at a byte offset inside an IDC structure, if it is the first byte of one. -/
def ofOffset? (offset : Nat) : Option IdcRegister :=
  match offset with
  | 0x00 => some delivery
  | 0x04 => some force
  | 0x08 => some threshold
  | 0x18 => some top
  | 0x1C => some claim
  | _ => none

@[simp] theorem ofOffset?_offset (r : IdcRegister) : ofOffset? r.offset = some r := by
  cases r <;> rfl

end IdcRegister

/-- A register of the domain window. -/
inductive Register where
  | domainConfig
  | sourceConfig (source : Nat)
  | machineMsiAddress
  | machineMsiAddressHigh
  | supervisorMsiAddress
  | supervisorMsiAddressHigh
  | setPending (word : Nat)
  | setPendingNumber
  | clearPending (word : Nat)
  | clearPendingNumber
  | setEnable (word : Nat)
  | setEnableNumber
  | clearEnable (word : Nat)
  | clearEnableNumber
  | setPendingNumberLittle
  | setPendingNumberBig
  | generateMsi
  | target (source : Nat)
  | idc (index : Nat) (register : IdcRegister)
deriving DecidableEq, Repr

namespace Register

def domainConfigBase : Nat := 0x0000
def sourceConfigBase : Nat := 0x0004
def machineMsiAddressBase : Nat := 0x1BC0
def machineMsiAddressHighBase : Nat := 0x1BC4
def supervisorMsiAddressBase : Nat := 0x1BC8
def supervisorMsiAddressHighBase : Nat := 0x1BCC
def setPendingBase : Nat := 0x1C00
def setPendingNumberBase : Nat := 0x1CDC
def clearPendingBase : Nat := 0x1D00
def clearPendingNumberBase : Nat := 0x1DDC
def setEnableBase : Nat := 0x1E00
def setEnableNumberBase : Nat := 0x1EDC
def clearEnableBase : Nat := 0x1F00
def clearEnableNumberBase : Nat := 0x1FDC
def setPendingNumberLittleBase : Nat := 0x2000
def setPendingNumberBigBase : Nat := 0x2004
def generateMsiBase : Nat := 0x3000
def targetBase : Nat := 0x3004

/-- Where the IDC structures start, which is the size of the domain registers. -/
def idcBase : Nat := 0x4000

/-- The distance between two IDC structures. -/
def idcStride : Nat := 0x20

/-- The byte offset of a register in the window. -/
def offset : Register → Nat
  | domainConfig => domainConfigBase
  | sourceConfig source => sourceConfigBase + (source - 1) * 4
  | machineMsiAddress => machineMsiAddressBase
  | machineMsiAddressHigh => machineMsiAddressHighBase
  | supervisorMsiAddress => supervisorMsiAddressBase
  | supervisorMsiAddressHigh => supervisorMsiAddressHighBase
  | setPending word => setPendingBase + word * 4
  | setPendingNumber => setPendingNumberBase
  | clearPending word => clearPendingBase + word * 4
  | clearPendingNumber => clearPendingNumberBase
  | setEnable word => setEnableBase + word * 4
  | setEnableNumber => setEnableNumberBase
  | clearEnable word => clearEnableBase + word * 4
  | clearEnableNumber => clearEnableNumberBase
  | setPendingNumberLittle => setPendingNumberLittleBase
  | setPendingNumberBig => setPendingNumberBigBase
  | generateMsi => generateMsiBase
  | target source => targetBase + (source - 1) * 4
  | idc index register => idcBase + index * idcStride + register.offset

/-- Whether the map has this register: a source that exists, a word of a bit array, or any
IDC structure. -/
def Published : Register → Prop
  | sourceConfig source | target source => 1 ≤ source ∧ source < sourceSlots
  | setPending word | clearPending word | setEnable word | clearEnable word => word < bitWords
  | _ => True

/-- The position of `offset` in an array of `length` words that starts at `base`. -/
def element? (base length offset : Nat) : Option Nat :=
  if base ≤ offset ∧ offset < base + length * 4 then some ((offset - base) / 4) else none

theorem element?_add {base length i : Nat} (h : i < length) :
    element? base length (base + i * 4) = some i := by
  have : base ≤ base + i * 4 ∧ base + i * 4 < base + length * 4 := by omega
  simp [element?, this]

theorem element?_eq_none {base length offset : Nat}
    (h : offset < base ∨ base + length * 4 ≤ offset) : element? base length offset = none := by
  have : ¬ (base ≤ offset ∧ offset < base + length * 4) := by omega
  simp [element?, this]

/-- The register that an access at a byte offset reaches. An access inside an array of words
reaches the word that holds its first byte; every other register answers at its own offset only,
and reserved space holds none. -/
def ofOffset? (offset : Nat) : Option Register :=
  if idcBase ≤ offset then
    (IdcRegister.ofOffset? ((offset - idcBase) % idcStride)).map
      (idc ((offset - idcBase) / idcStride))
  else if let some i := element? sourceConfigBase (sourceSlots - 1) offset then
    some (sourceConfig (i + 1))
  else if let some i := element? targetBase (sourceSlots - 1) offset then some (target (i + 1))
  else if let some i := element? setPendingBase bitWords offset then some (setPending i)
  else if let some i := element? clearPendingBase bitWords offset then some (clearPending i)
  else if let some i := element? setEnableBase bitWords offset then some (setEnable i)
  else if let some i := element? clearEnableBase bitWords offset then some (clearEnable i)
  else [domainConfig, machineMsiAddress, machineMsiAddressHigh, supervisorMsiAddress,
    supervisorMsiAddressHigh, setPendingNumber, clearPendingNumber, setEnableNumber,
    clearEnableNumber, setPendingNumberLittle, setPendingNumberBig, generateMsi].find?
    fun register => register.offset == offset

/-- Every register of the map is reached at its own offset, so no two of them share one. -/
theorem ofOffset?_offset {r : Register} (h : r.Published) : ofOffset? r.offset = some r := by
  cases r with
  | idc index register =>
    have h1 : idcBase ≤ (idc index register).offset := by simp only [offset]; omega
    have h2 : register.offset < idcStride := by cases register <;> decide
    have h3 : (idc index register).offset - idcBase = idcStride * index + register.offset := by
      simp only [offset, Nat.mul_comm]; omega
    have h4 : (idcStride * index + register.offset) / idcStride = index := by
      rw [Nat.mul_add_div (by decide), Nat.div_eq_of_lt h2, Nat.add_zero]
    have h5 : (idcStride * index + register.offset) % idcStride = register.offset := by
      rw [Nat.mul_add_mod, Nat.mod_eq_of_lt h2]
    simp [ofOffset?, h1, h3, h4, h5]
  | sourceConfig source =>
    simp only [Published, sourceSlots] at h
    have h1 : ¬ idcBase ≤ sourceConfigBase + (source - 1) * 4 := by
      simp only [idcBase, sourceConfigBase]; omega
    have h2 : element? sourceConfigBase (sourceSlots - 1) (sourceConfigBase + (source - 1) * 4) =
        some (source - 1) := element?_add (by simp only [sourceSlots]; omega)
    simp only [ofOffset?, offset, h1, h2, if_false]
    congr 2
    omega
  | target source =>
    simp only [Published, sourceSlots] at h
    have h1 : ¬ idcBase ≤ targetBase + (source - 1) * 4 := by
      simp only [idcBase, targetBase]; omega
    have h2 : element? sourceConfigBase (sourceSlots - 1) (targetBase + (source - 1) * 4) =
        none := element?_eq_none (by simp only [sourceConfigBase, targetBase, sourceSlots]; omega)
    have h3 : element? targetBase (sourceSlots - 1) (targetBase + (source - 1) * 4) =
        some (source - 1) := element?_add (by simp only [sourceSlots]; omega)
    simp only [ofOffset?, offset, h1, h2, h3, if_false]
    congr 2
    omega
  | setPending word | clearPending word | setEnable word | clearEnable word =>
    simp only [Published, bitWords, sourceSlots] at h
    simp (disch := omega) [ofOffset?, offset, idcBase, sourceConfigBase, targetBase,
      setPendingBase, clearPendingBase, setEnableBase, clearEnableBase, sourceSlots, bitWords,
      element?_eq_none, element?_add]
    try omega
  | _ => decide

end Register

/-- The word and the bit inside it that belong to a source in an array with one bit per source. -/
def bitPosition (source : Nat) : Nat × Nat := (source / 32, source % 32)

end AdvancedInterrupts
