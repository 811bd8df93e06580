import AdvancedInterrupts.Register.Map

/-!
# Register blocks

A block lists its registers in memory order, reserved space included, so that
the offset of each follows from the sizes of those before it. The two blocks
below describe the domain registers and one IDC structure; `layoutAgrees`
compares the offsets that follow from them with the published map. As drivers and
domains use the map only, `Register.blockOffset_eq` derives the offset of every
register in it from the blocks.
-/
namespace AdvancedInterrupts

/-- Consecutive words of a block: a named register or array, or reserved space. -/
structure BlockField where
  name : Option String
  words : Nat

namespace BlockField

def one (name : String) : BlockField := ⟨some name, 1⟩

def array (name : String) (words : Nat) : BlockField := ⟨some name, words⟩

/-- Space that holds no register. -/
def reserved (words : Nat) : BlockField := ⟨none, words⟩

end BlockField

/-- Registers in memory order. -/
abbrev Block : Type := List BlockField

namespace Block

def size (b : Block) : Nat := b.foldl (fun n f => n + f.words * 4) 0

/-- The named fields of a block that starts at `base`, each with its byte offset. -/
def offsetsFrom (base : Nat) : Block → List (String × Nat)
  | [] => []
  | f :: rest =>
    let later := offsetsFrom (base + f.words * 4) rest
    match f.name with
    | some name => (name, base) :: later
    | none => later

/-- The named fields of a block, each with its byte offset. -/
def offsets (b : Block) : List (String × Nat) := b.offsetsFrom 0

/-- The domain-wide registers. -/
def domain : Block :=
  let sources := sourceSlots - 1
  [.one "domaincfg", .array "sourcecfg" sources, .reserved 752,
    .one "mmsiaddrcfg", .one "mmsiaddrcfgh", .one "smsiaddrcfg", .one "smsiaddrcfgh",
    .reserved 12,
    .array "setip" bitWords, .reserved 23, .one "setipnum", .reserved 8,
    .array "in_clrip" bitWords, .reserved 23, .one "clripnum", .reserved 8,
    .array "setie" bitWords, .reserved 23, .one "setienum", .reserved 8,
    .array "clrie" bitWords, .reserved 23, .one "clrienum", .reserved 8,
    .one "setipnum_le", .one "setipnum_be", .reserved 1022,
    .one "genmsi", .array "target" sources]

/-- The registers of one IDC structure. -/
def idc : Block :=
  [.one "idelivery", .one "iforce", .one "ithreshold", .reserved 3, .one "topi", .one "claimi"]

/-- The byte offset of a named field of a block. -/
def offsetOf (b : Block) (name : String) : Option Nat := b.offsets.lookup name

/-- The first register of every field of the domain block, in memory order. -/
def domainRegisters : List Register :=
  [.domainConfig, .sourceConfig 1, .machineMsiAddress, .machineMsiAddressHigh,
    .supervisorMsiAddress, .supervisorMsiAddressHigh, .setPending 0, .setPendingNumber,
    .clearPending 0, .clearPendingNumber, .setEnable 0, .setEnableNumber, .clearEnable 0,
    .clearEnableNumber, .setPendingNumberLittle, .setPendingNumberBig, .generateMsi, .target 1]

/-- The registers of the IDC block, in memory order. -/
def idcRegisters : List IdcRegister := [.delivery, .force, .threshold, .top, .claim]

/-- Whether both blocks put every register where the published map has it. -/
def layoutAgrees : Bool :=
  domain.offsets.map Prod.snd == domainRegisters.map Register.offset &&
    idc.offsets.map Prod.snd == idcRegisters.map IdcRegister.offset &&
    domain.size == Register.idcBase && idc.size == Register.idcStride

theorem layoutAgrees_eq_true : layoutAgrees = true := by decide

end Block

namespace IdcRegister

def fieldName : IdcRegister → String
  | delivery => "idelivery"
  | force => "iforce"
  | threshold => "ithreshold"
  | top => "topi"
  | claim => "claimi"

end IdcRegister

namespace Register

/-- The byte offset of a register that follows from the blocks: a field of the domain block, with a
position inside it for an array, or a field of an IDC block behind it. -/
def blockOffset : Register → Option Nat
  | domainConfig => Block.domain.offsetOf "domaincfg"
  | sourceConfig source => (Block.domain.offsetOf "sourcecfg").map (· + (source - 1) * 4)
  | machineMsiAddress => Block.domain.offsetOf "mmsiaddrcfg"
  | machineMsiAddressHigh => Block.domain.offsetOf "mmsiaddrcfgh"
  | supervisorMsiAddress => Block.domain.offsetOf "smsiaddrcfg"
  | supervisorMsiAddressHigh => Block.domain.offsetOf "smsiaddrcfgh"
  | setPending word => (Block.domain.offsetOf "setip").map (· + word * 4)
  | setPendingNumber => Block.domain.offsetOf "setipnum"
  | clearPending word => (Block.domain.offsetOf "in_clrip").map (· + word * 4)
  | clearPendingNumber => Block.domain.offsetOf "clripnum"
  | setEnable word => (Block.domain.offsetOf "setie").map (· + word * 4)
  | setEnableNumber => Block.domain.offsetOf "setienum"
  | clearEnable word => (Block.domain.offsetOf "clrie").map (· + word * 4)
  | clearEnableNumber => Block.domain.offsetOf "clrienum"
  | setPendingNumberLittle => Block.domain.offsetOf "setipnum_le"
  | setPendingNumberBig => Block.domain.offsetOf "setipnum_be"
  | generateMsi => Block.domain.offsetOf "genmsi"
  | target source => (Block.domain.offsetOf "target").map (· + (source - 1) * 4)
  | idc index register =>
    (Block.idc.offsetOf register.fieldName).map
      (Block.domain.size + index * Block.idc.size + ·)

/-- Every register is where the blocks have it. -/
theorem blockOffset_eq (r : Register) : r.blockOffset = some r.offset := by
  cases r with
  | idc index register => cases register <;> rfl
  | _ => rfl

end Register

end AdvancedInterrupts
