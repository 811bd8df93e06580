import AdvancedInterrupts.AddressRange
import AdvancedInterrupts.Aplic.Window
import AdvancedInterrupts.Emulated.Top

/-!
# Accesses to an emulated domain

The window of an emulated domain: what each register reads as, what a write to
it changes, and which accesses of a guest are accepted. Reads have no effect,
apart from the one that claims an interrupt.
-/
namespace AdvancedInterrupts

namespace EmulatedDomain

variable (d : EmulatedDomain)

/-- What a register of a delivery structure reads as, and the domain after the read. -/
def readIdc (index : Nat) : IdcRegister → Word × EmulatedDomain
  | .delivery => (Word.ofFlag (d.idc index).delivery, d)
  | .force => (Word.ofFlag (d.idc index).force, d)
  | .threshold => ((d.idc index).threshold.setWidth 32, d)
  | .top => (d.topWord index, d)
  | .claim => (d.topWord index, d.afterClaim index)

/-- The domain after a write to a register of a delivery structure. -/
def writeIdc (index : Nat) (register : IdcRegister) (value : Word) : EmulatedDomain :=
  match register with
  | .delivery => d.modifyIdc index fun i => { i with delivery := value.getLsbD 0 }
  | .force => d.modifyIdc index fun i => { i with force := value.getLsbD 0 }
  | .threshold => d.modifyIdc index fun i => { i with threshold := value.setWidth 8 }
  | .top => d
  | .claim => d

/-- What a register reads as, and the domain after the read. -/
def readRegister : Register → Word × EmulatedDomain
  | .domainConfig => (d.config.register, d)
  | .sourceConfig source =>
    (if d.hasSource source then (d.source source).mode.toWord else 0, d)
  | .setPending word => (d.flagWord .pending word, d)
  | .setEnable word => (d.flagWord .enabled word, d)
  | .target source => (if d.hasSource source then (d.source source).target else 0, d)
  | .idc index register => if index < d.idcCount then d.readIdc index register else (0, d)
  | _ => (0, d)

/-- The domain after a write to a register. -/
def writeRegister (register : Register) (value : Word) : EmulatedDomain :=
  match register with
  | .domainConfig => { d with config := .ofWord value }
  | .sourceConfig source => if d.hasSource source then d.configureSource source value else d
  | .setPending word => d.setFlags .pending true word value
  | .setPendingNumber | .setPendingNumberLittle => d.setFlag .pending true value.toNat
  | .setPendingNumberBig => d.setFlag .pending true value.swapBytes.toNat
  | .clearPending word => d.setFlags .pending false word value
  | .clearPendingNumber => d.setFlag .pending false value.toNat
  | .setEnable word => d.setFlags .enabled true word value
  | .setEnableNumber => d.setFlag .enabled true value.toNat
  | .clearEnable word => d.setFlags .enabled false word value
  | .clearEnableNumber => d.setFlag .enabled false value.toNat
  | .target source =>
    if d.hasSource source then
      d.modifySource source fun s => s.withTarget d.config.delivery value
    else d
  | .idc index register => if index < d.idcCount then d.writeIdc index register value else d
  | _ => d

/-- A read at an offset of the window; reserved space reads as zero. -/
def readAt (offset : Nat) : Word × EmulatedDomain :=
  match Register.ofOffset? offset with
  | some register => d.readRegister register
  | none => (0, d)

/-- A write at an offset of the window; reserved space ignores it. -/
def writeAt (offset : Nat) (value : Word) : EmulatedDomain :=
  match Register.ofOffset? offset with
  | some register => d.writeRegister register value
  | none => d

/-- Whether an access is accepted: it is 32 bits wide and starts inside the window. -/
def accepts (address : Nat) (width : AccessWidth) : Bool :=
  decide (width = .dword ∧ d.address ≤ address ∧ address - d.address < d.size)

/-- A read by the guest, or the reason why it was refused. -/
def guestRead (address : Nat) (width : AccessWidth) : Except Notice (Word × EmulatedDomain) :=
  if d.accepts address width then .ok (d.readAt (address - d.address))
  else .error (.badRead address width)

/-- A write by the guest, or the reason why it was refused. The upper half of the value is
ignored. -/
def guestWrite (address : Nat) (width : AccessWidth) (value : BitVec 64) :
    Except Notice EmulatedDomain :=
  if d.accepts address width then .ok (d.writeAt (address - d.address) (value.setWidth 32))
  else .error (.badWrite address width)

/-- The addresses under which the window is offered to the guest. -/
def addressRange : Except AddressRange.Overflow AddressRange :=
  AddressRange.ofSize d.address d.size

/-- The address of an offset of the window, in the arithmetic of the address space. In a window that
fits the address space the sum does not overflow, so that a check for overflow makes no
difference. -/
def addressOf (offset : Nat) : Nat := (d.address + offset) % addressSpace

/-- A driver's read of the window, which is a read of the guest's address. A refused read gives
zero. -/
def windowRead (offset : Nat) : Word × EmulatedDomain :=
  let address := d.addressOf offset
  if d.accepts address .dword then d.readAt (address - d.address) else (0, d)

/-- A driver's write to the window, which is a write to the guest's address. A refused write has
no effect. -/
def windowWrite (offset : Nat) (value : Word) : EmulatedDomain :=
  let address := d.addressOf offset
  if d.accepts address .dword then d.writeAt (address - d.address) value else d

/-- An offset inside the window is reached as it is, if the window fits the address space. -/
theorem accepts_addressOf {offset : Nat} (hd : d.address + d.size ≤ addressSpace)
    (h : offset < d.size) :
    d.accepts (d.addressOf offset) .dword = true ∧ d.addressOf offset - d.address = offset := by
  have ha : d.addressOf offset = d.address + offset := Nat.mod_eq_of_lt (by omega)
  rw [ha, accepts, decide_eq_true_eq]
  exact ⟨⟨rfl, by omega, by omega⟩, by omega⟩

theorem windowRead_of_lt {offset : Nat} (hd : d.address + d.size ≤ addressSpace)
    (h : offset < d.size) : d.windowRead offset = d.readAt offset := by
  obtain ⟨h1, h2⟩ := d.accepts_addressOf hd h
  simp [windowRead, h1, h2]

theorem windowWrite_of_lt {offset : Nat} (hd : d.address + d.size ≤ addressSpace)
    (h : offset < d.size) (value : Word) : d.windowWrite offset value = d.writeAt offset value := by
  obtain ⟨h1, h2⟩ := d.accepts_addressOf hd h
  simp [windowWrite, h1, h2]

/-- The domain as the device behind a driver's window. -/
def service : Service window EmulatedDomain
  | .read offset, d => d.windowRead offset
  | .write offset value, d => ((), d.windowWrite offset value)
  | .report _, d => ((), d)

end EmulatedDomain

/-- Anything that can act on an emulated domain from outside. -/
inductive EmulatedAccess where
  | windowRead (offset : Nat)
  | windowWrite (offset : Nat) (value : Word)
  | guestRead (address : Nat) (width : AccessWidth)
  | guestWrite (address : Nat) (width : AccessWidth) (value : BitVec 64)
  | inject (source : Nat)
deriving DecidableEq, Repr

namespace EmulatedDomain

def after (d : EmulatedDomain) : EmulatedAccess → EmulatedDomain
  | .windowRead offset => (d.windowRead offset).2
  | .windowWrite offset value => d.windowWrite offset value
  | .guestRead address width =>
    match d.guestRead address width with
    | .ok answered => answered.2
    | .error _ => d
  | .guestWrite address width value =>
    match d.guestWrite address width value with
    | .ok after => after
    | .error _ => d
  | .inject source => d.inject source

/-- The states that a new domain can reach by any accesses. -/
inductive Reachable : EmulatedDomain → Prop where
  | new {address sourceCount idcCount : Nat} {d : EmulatedDomain}
      (h : create address sourceCount idcCount = .ok d) : Reachable d
  | step {d : EmulatedDomain} (h : Reachable d) (access : EmulatedAccess) :
      Reachable (d.after access)

end EmulatedDomain

end AdvancedInterrupts
