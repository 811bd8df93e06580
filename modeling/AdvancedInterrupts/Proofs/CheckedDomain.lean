import AdvancedInterrupts.Emulated.Access
import AdvancedInterrupts.Proofs.CheckedArithmetic
import AdvancedInterrupts.Proofs.UrgencyOrder

/-!
# Accesses that never fault

An emulated domain computes indices, masks and differences from what its guest
writes. The functions below compute them with a check at every step: each slot is
fetched from its table, bit masks are shifted along, and an offset is taken only
if the difference exists. They agree with the domain on every access, so no check
ever fails, whatever the guest does.
-/
namespace AdvancedInterrupts

/-- A report is the identity shifted up, beside the priority. -/
theorem Claim.toWord_eq {c : Claim} (hpriority : c.priority < 2 ^ 16) :
    c.toWord = BitVec.ofNat 32 c.identity <<< 16 ||| BitVec.ofNat 32 c.priority := by
  have hsum : c.identity * 0x10000 + c.priority = c.identity <<< 16 ||| c.priority := by
    rw [← Nat.shiftLeft_add_eq_or_of_lt hpriority, Nat.shiftLeft_eq]
  apply BitVec.eq_of_getLsbD_eq
  intro bit hbit
  rw [Claim.toWord, hsum, BitVec.getLsbD_ofNat, BitVec.getLsbD_or, BitVec.getLsbD_shiftLeft,
    BitVec.getLsbD_ofNat, BitVec.getLsbD_ofNat, Nat.testBit_or, Nat.testBit_shiftLeft]
  by_cases hlow : bit < 16
  · simp [hbit, hlow, Nat.not_le_of_lt hlow]
  · have hsub : bit - 16 < 32 := by omega
    simp [hbit, hlow, hsub, Nat.le_of_not_lt hlow]

namespace Target

/-- What a domain keeps of a word written to a target register, under masks shifted into place. -/
def checkedStored (delivery : DeliveryMode) (w : Word) : Except Fault Word :=
  match delivery with
  | .direct => do
    let hart ← hartField.checkedPlace hartField.max
    let priority := w &&& BitVec.ofNat 32 priorityField.max
    pure (w &&& hart ||| if priority = 0 then 1 else priority)
  | .msi => do
    let hart ← hartField.checkedPlace hartField.max
    let guest ← guestField.checkedPlace guestField.max
    pure (w &&& (hart ||| guest ||| BitVec.ofNat 32 identityField.max))

theorem checkedStored_eq (delivery : DeliveryMode) (w : Word) :
    checkedStored delivery w = pure (stored delivery w) := by
  cases delivery with
  | direct =>
    have hpriority : BitVec.ofNat 32 priorityField.max = priorityField.mask := by decide
    rw [checkedStored, BitField.checkedPlace_eq (by decide) (Nat.le_refl _), pure_bind, hpriority]
    rfl
  | msi =>
    have hidentity : BitVec.ofNat 32 identityField.max = identityField.mask := by decide
    rw [checkedStored, BitField.checkedPlace_eq (by decide) (Nat.le_refl _), pure_bind,
      BitField.checkedPlace_eq (by decide) (Nat.le_refl _), pure_bind, hidentity]
    rfl

end Target

namespace Register

/-- The position of an offset in an array of registers. -/
def checkedElement? (base length offset : Nat) : Except Fault (Option Nat) :=
  if base ≤ offset ∧ offset < base + length * 4 then do
    let relative ← Checked.sub offset base
    pure (some (relative / 4))
  else pure none

/-- The register at an offset. Arrays of sources begin with source 1. -/
def checkedOfOffset? (offset : Nat) : Except Fault (Option Register) := do
  if idcBase ≤ offset then
    let relative ← Checked.sub offset idcBase
    return (IdcRegister.ofOffset? (relative % idcStride)).map (idc (relative / idcStride))
  if let some i ← checkedElement? sourceConfigBase (sourceSlots - 1) offset then
    let source ← Checked.add i 1
    return some (sourceConfig source)
  if let some i ← checkedElement? targetBase (sourceSlots - 1) offset then
    let source ← Checked.add i 1
    return some (target source)
  if let some i ← checkedElement? setPendingBase bitWords offset then
    return some (setPending i)
  if let some i ← checkedElement? clearPendingBase bitWords offset then
    return some (clearPending i)
  if let some i ← checkedElement? setEnableBase bitWords offset then
    return some (setEnable i)
  if let some i ← checkedElement? clearEnableBase bitWords offset then
    return some (clearEnable i)
  return [domainConfig, machineMsiAddress, machineMsiAddressHigh, supervisorMsiAddress,
    supervisorMsiAddressHigh, setPendingNumber, clearPendingNumber, setEnableNumber,
    clearEnableNumber, setPendingNumberLittle, setPendingNumberBig, generateMsi].find?
    fun register => register.offset == offset

variable {base length offset i : Nat}

theorem lt_of_element? (h : element? base length offset = some i) : i < length := by
  simp only [element?, Option.ite_none_right_eq_some, Option.some.injEq] at h
  omega

theorem checkedElement?_eq (base length offset : Nat) :
    checkedElement? base length offset = pure (element? base length offset) := by
  rw [checkedElement?, element?]
  split
  next h => rw [Checked.sub_eq h.1, pure_bind]
  next => rfl

theorem checkedOfOffset?_eq (offset : Nat) :
    checkedOfOffset? offset = pure (ofOffset? offset) := by
  have hnext {base i : Nat} (h : element? base (sourceSlots - 1) offset = some i) :
      Checked.add i 1 = pure (i + 1) := by
    have hlt := lt_of_element? h
    refine Checked.add_eq ?_
    rw [sourceSlots] at hlt
    rw [addressSpace]
    omega
  rw [checkedOfOffset?, ofOffset?]
  split
  next h => rw [Checked.sub_eq h, pure_bind]
  next =>
    simp only [checkedElement?_eq, pure_bind]
    cases hconfig : element? sourceConfigBase (sourceSlots - 1) offset with
    | some i => simp only [hnext hconfig, pure_bind]
    | none =>
      cases htarget : element? targetBase (sourceSlots - 1) offset with
      | some i => simp only [hnext htarget, pure_bind]
      | none =>
        cases element? setPendingBase bitWords offset with
        | some i => rfl
        | none =>
          cases element? clearPendingBase bitWords offset with
          | some i => rfl
          | none =>
            cases element? setEnableBase bitWords offset with
            | some i => rfl
            | none => cases element? clearEnableBase bitWords offset <;> rfl

/-- A register is found in an array, or later in the map. -/
theorem published_of_element? {f : Nat → Register} {later : Option Register} {r : Register}
    (hf : ∀ i < length, (f i).Published) (hlater : later = some r → r.Published)
    (h : (if let some i := element? base length offset then some (f i) else later) = some r) :
    r.Published := by
  split at h
  next i hi =>
    cases h
    exact hf i (lt_of_element? hi)
  next => exact hlater h

/-- Only registers of the map are reached. -/
theorem published_of_ofOffset? {r : Register} (h : ofOffset? offset = some r) : r.Published := by
  rw [ofOffset?] at h
  split at h
  next =>
    obtain ⟨x, -, rfl⟩ := Option.map_eq_some_iff.mp h
    trivial
  next =>
    have hsource (i : Nat) (hi : i < sourceSlots - 1) : 1 ≤ i + 1 ∧ i + 1 < sourceSlots := by omega
    refine published_of_element? hsource (published_of_element? hsource ?_) h
    refine published_of_element? (fun _ hi => hi) (published_of_element? (fun _ hi => hi) ?_)
    refine published_of_element? (fun _ hi => hi) (published_of_element? (fun _ hi => hi) ?_)
    intro hsingle
    have hmem := List.mem_of_find?_eq_some hsingle
    simp only [List.mem_cons, List.not_mem_nil, or_false] at hmem
    rcases hmem with rfl | rfl | rfl | rfl | rfl | rfl | rfl | rfl | rfl | rfl | rfl | rfl <;>
      trivial

end Register

namespace EmulatedDomain

variable (d : EmulatedDomain)

/-! ### Slots and flags -/

def checkedModifySource (source : Nat) (f : Source → Source) : Except Fault EmulatedDomain := do
  let sources ← d.sources.alter source f
  pure { d with sources }

def checkedModifyIdc (index : Nat) (f : IdcState → IdcState) : Except Fault EmulatedDomain := do
  let idcs ← d.idcs.alter index f
  pure { d with idcs }

/-- Whether a flag of a source takes a value. The slot of the source is looked at only if the source
exists and the flag is to be set. -/
def checkedAcceptsFlag (source : Nat) (value : Bool) : Except Fault Bool :=
  if d.hasSource source then
    if value then do
      let s ← d.sources.fetch source
      pure s.mode.isActive
    else pure true
  else pure false

def checkedSetFlag (f : SourceFlag) (value : Bool) (source : Nat) :
    Except Fault EmulatedDomain := do
  let accepted ← d.checkedAcceptsFlag source value
  if accepted then d.checkedModifySource source fun s => s.withFlag f value else pure d

def checkedInject (source : Nat) : Except Fault EmulatedDomain :=
  d.checkedSetFlag .pending true source

/-- One round of the loop that collects a word: the word so far, and the mask of the next bit. -/
def flagWordRound (f : SourceFlag) (start : Nat) (state : Word × Word) (i : Nat) :
    Except Fault (Word × Word) := do
  let bit ← Checked.add start i
  let s ← d.sources.fetch bit
  let collected := if s.flag f then state.1 ||| state.2 else state.1
  let mask ← Checked.shiftLeft state.2 1
  pure (collected, mask)

def checkedFlagWord (f : SourceFlag) (word : Nat) : Except Fault Word := do
  let start ← Checked.mul word 32
  let state ← (List.range 32).foldlM (d.flagWordRound f start) (0, 1)
  pure state.1

/-- Sets or clears a flag of the source with a bit in a word. -/
def checkedSetBit (f : SourceFlag) (value : Bool) (word i : Nat) : Except Fault EmulatedDomain := do
  let start ← Checked.mul word 32
  let source ← Checked.add start i
  d.checkedSetFlag f value source

/-- One round of the loop over the bits of a written word: the domain so far, and the mask of the
next bit. -/
def setFlagsRound (f : SourceFlag) (value : Bool) (word : Nat) (written : Word)
    (state : EmulatedDomain × Word) (i : Nat) : Except Fault (EmulatedDomain × Word) := do
  let after ← (if written &&& state.2 ≠ 0 then state.1.checkedSetBit f value word i
    else pure state.1)
  let mask ← Checked.shiftLeft state.2 1
  pure (after, mask)

/-- Sets or clears a flag of every source whose bit is set in a written word. -/
def checkedSetFlags (f : SourceFlag) (value : Bool) (word : Nat) (written : Word) :
    Except Fault EmulatedDomain := do
  let state ← (List.range 32).foldlM (setFlagsRound f value word written) (d, 1)
  pure state.1

section

variable {d} {source word : Nat}

theorem checkedModifySource_eq (h : source < sourceSlots) (f : Source → Source) :
    d.checkedModifySource source f = pure (d.modifySource source f) := by
  rw [checkedModifySource, Table.alter_eq _ h, pure_bind]
  rfl

theorem checkedModifyIdc_eq {index : Nat} (h : index < maxEmulatedIdcs) (f : IdcState → IdcState) :
    d.checkedModifyIdc index f = pure (d.modifyIdc index f) := by
  rw [checkedModifyIdc, Table.alter_eq _ h, pure_bind]
  rfl

theorem checkedAcceptsFlag_eq (d : EmulatedDomain) (source : Nat) (value : Bool) :
    d.checkedAcceptsFlag source value = pure (d.acceptsFlag source value) := by
  rw [checkedAcceptsFlag, acceptsFlag]
  cases hknown : d.hasSource source with
  | false => rfl
  | true =>
    cases value with
    | false => rfl
    | true =>
      have hslot := d.lt_sourceSlots_of_hasSource hknown
      rw [if_pos rfl, if_pos rfl, Table.fetch_eq _ hslot, pure_bind]
      rfl

theorem checkedSetFlag_eq (d : EmulatedDomain) (f : SourceFlag) (value : Bool) (source : Nat) :
    d.checkedSetFlag f value source = pure (d.setFlag f value source) := by
  rw [checkedSetFlag, setFlag, checkedAcceptsFlag_eq, pure_bind]
  split
  next h =>
    have hknown : d.hasSource source = true := by
      rw [acceptsFlag, Bool.and_eq_true] at h
      exact h.1
    exact checkedModifySource_eq (d.lt_sourceSlots_of_hasSource hknown) _
  next => rfl

/-- The words of an array lie inside the slots, and their bit numbers are machine numbers. -/
theorem slots_of_word (h : word < bitWords) : word * 32 + 32 ≤ sourceSlots := by
  simp only [bitWords, sourceSlots] at h ⊢
  omega

theorem add_bit_eq (h : word < bitWords) {i : Nat} (hi : i < 32) :
    Checked.mul word 32 = pure (word * 32) ∧
      Checked.add (word * 32) i = pure (word * 32 + i) := by
  have hslots := slots_of_word h
  have hspace : sourceSlots < addressSpace := by decide
  exact ⟨Checked.mul_eq (by omega), Checked.add_eq (by omega)⟩

theorem checkedFlagWord_eq (h : word < bitWords) (f : SourceFlag) :
    d.checkedFlagWord f word = pure (d.flagWord f word) := by
  let bit (i : Nat) : Bool := (d.source (word * 32 + i)).flag f
  have hslots := slots_of_word h
  have hround : ∀ i < 32, d.flagWordRound f (word * 32) (Word.ofBitsBelow bit i, Word.single i) i =
      pure (Word.ofBitsBelow bit (i + 1), Word.single (i + 1)) := by
    intro i hi
    rw [flagWordRound, (add_bit_eq h hi).2, pure_bind, Table.fetch_eq _ (by omega), pure_bind,
      Checked.shiftLeft_eq _ (by decide), pure_bind, Word.single_shiftLeft]
    rfl
  have hloop := Checked.foldlM_range hround
  rw [checkedFlagWord, (add_bit_eq h (by decide : 0 < 32)).1, pure_bind]
  exact congrArg (· >>= fun state => pure state.1) hloop

theorem checkedSetBit_eq (h : word < bitWords) (d : EmulatedDomain) (f : SourceFlag) (value : Bool)
    {i : Nat} (hi : i < 32) :
    d.checkedSetBit f value word i = pure (d.setFlag f value (word * 32 + i)) := by
  rw [checkedSetBit, (add_bit_eq h hi).1, pure_bind, (add_bit_eq h hi).2, pure_bind,
    checkedSetFlag_eq]

theorem checkedSetFlags_eq (h : word < bitWords) (f : SourceFlag) (value : Bool) (written : Word) :
    d.checkedSetFlags f value word written = pure (d.setFlags f value word written) := by
  let after (i : Nat) : EmulatedDomain :=
    ((List.range i).filter fun bit => written.getLsbD bit).foldl
      (fun d bit => d.setFlag f value (word * 32 + bit)) d
  have hround : ∀ i < 32, setFlagsRound f value word written (after i, Word.single i) i =
      pure (after (i + 1), Word.single (i + 1)) := by
    intro i hi
    have hnext : after (i + 1) = if written.getLsbD i = true then
        (after i).setFlag f value (word * 32 + i) else after i := by
      simp only [after, List.range_succ, List.filter_append, List.foldl_append]
      cases hbit : written.getLsbD i <;> simp [hbit]
    rw [setFlagsRound, checkedSetBit_eq h _ f value hi, Checked.shiftLeft_eq _ (by decide),
      Word.single_shiftLeft, hnext]
    simp only [Word.and_single_ne_zero hi]
    split <;> rfl
  have hloop := Checked.foldlM_range hround
  exact congrArg (· >>= fun state => pure state.1) hloop

end

/-! ### Delivery structures -/

/-- One round of the scan for the top interrupt of a delivery structure with registers `i`. -/
def topRound (index : Nat) (i : IdcState) (best : Option Claim) (source : Nat) :
    Except Fault (Option Claim) :=
  if d.hasSource source then do
    let s ← d.sources.fetch source
    if s.enabled then do
      let hart ← s.target.checkedField Target.hartField
      let priority := (s.target &&& BitVec.ofNat 32 Target.priorityField.max).toNat
      if hart = index ∧ i.admits priority = true then
        pure (Claim.moreUrgent best ⟨source, priority⟩)
      else pure best
    else pure best
  else pure best

/-- The interrupt that a delivery structure reports, found among the pending slots. -/
def checkedTop (index : Nat) : Except Fault (Option Claim) :=
  match d.config.delivery with
  | .msi => pure none
  | .direct => do
    let i ← d.idcs.fetch index
    ((List.range sourceSlots).filter fun s => (d.source s).pending).foldlM (d.topRound index i) none

def checkedTopWord : Option Claim → Except Fault Word
  | none => pure 0
  | some c => do
    let identity ← Checked.shiftLeft (BitVec.ofNat 32 c.identity) Claim.identityField.low
    pure (identity ||| BitVec.ofNat 32 c.priority)

def checkedReadIdc (index : Nat) : IdcRegister → Except Fault (Word × EmulatedDomain)
  | .delivery => do
    let i ← d.idcs.fetch index
    pure (Word.ofFlag i.delivery, d)
  | .force => do
    let i ← d.idcs.fetch index
    pure (Word.ofFlag i.force, d)
  | .threshold => do
    let i ← d.idcs.fetch index
    pure (i.threshold.setWidth 32, d)
  | .top => do
    let top ← d.checkedTop index
    let word ← checkedTopWord top
    pure (word, d)
  | .claim => do
    let top ← d.checkedTop index
    let after ← (match top with
      | some c => d.checkedModifySource c.identity fun s => s.withFlag .pending false
      | none => d.checkedModifyIdc index fun i => { i with force := false })
    let word ← checkedTopWord top
    pure (word, after)

def checkedWriteIdc (index : Nat) (register : IdcRegister) (value : Word) :
    Except Fault EmulatedDomain :=
  match register with
  | .delivery => d.checkedModifyIdc index fun i => { i with delivery := value.getLsbD 0 }
  | .force => d.checkedModifyIdc index fun i => { i with force := value.getLsbD 0 }
  | .threshold => d.checkedModifyIdc index fun i => { i with threshold := value.setWidth 8 }
  | .top | .claim => pure d

section

variable {d} {index : Nat}

theorem topRound_eq {i : IdcState} (hi : i = d.idc index) {source : Nat}
    (hpending : (d.source source).pending = true) (best : Option Claim) :
    d.topRound index i best source = pure (if d.waitsAt index source = true then
      Claim.moreUrgent best (d.claimOf source) else best) := by
  subst hi
  cases hknown : d.hasSource source with
  | false => simp [topRound, waitsAt, hknown]
  | true =>
    have hslot := d.lt_sourceSlots_of_hasSource hknown
    have hhart : (d.source source).target.checkedField Target.hartField =
        pure (Target.hart (d.source source).target) :=
      Word.checkedField_eq _ (by decide) (by decide)
    have hpriority : ((d.source source).target &&& BitVec.ofNat 32 Target.priorityField.max).toNat =
        Target.priority (d.source source).target :=
      Word.toNat_and_max _ rfl (by decide)
    have hfetch : d.sources.fetch source = pure (d.source source) := Table.fetch_eq _ hslot
    rw [topRound, hknown, if_pos rfl, hfetch, pure_bind, waitsAt, hknown, hpending]
    cases (d.source source).enabled with
    | false => simp
    | true =>
      rw [if_pos rfl, hhart, pure_bind]
      simp only [hpriority, claimOf, Bool.true_and, Bool.and_eq_true, beq_iff_eq]
      split <;> rfl

/-- Only numbers of sources can wait. -/
theorem filter_waitsAt (d : EmulatedDomain) (index : Nat) :
    (List.range sourceSlots).filter (d.waitsAt index) =
      (List.range d.sourceCount).filter (d.waitsAt index) := by
  have hcount := d.sourceCount_range.2
  have hnone : ((List.range (sourceSlots - d.sourceCount)).map (d.sourceCount + ·)).filter
      (d.waitsAt index) = [] := by
    refine List.filter_eq_nil_iff.mpr fun s hs hwaits => ?_
    obtain ⟨k, -, rfl⟩ := List.mem_map.mp hs
    simp only [waitsAt, Bool.and_eq_true, hasSource_iff] at hwaits
    omega
  have hsplit : sourceSlots = d.sourceCount + (sourceSlots - d.sourceCount) := by omega
  rw [hsplit, List.range_add, List.filter_append, hnone, List.append_nil]

theorem checkedTop_eq (h : index < maxEmulatedIdcs) :
    d.checkedTop index = pure (d.top index) := by
  rw [checkedTop, top]
  cases d.config.delivery with
  | msi => rfl
  | direct =>
    have hround : ∀ s ∈ (List.range sourceSlots).filter fun s => (d.source s).pending, ∀ best,
        d.topRound index (d.idc index) best s = pure (if d.waitsAt index s = true then
          Claim.moreUrgent best (d.claimOf s) else best) :=
      fun s hs best => topRound_eq rfl (List.mem_filter.mp hs).2 best
    have hscan := Checked.foldlM_eq hround none
    have hboth : ((List.range sourceSlots).filter fun s => (d.source s).pending).filter
        (d.waitsAt index) = (List.range d.sourceCount).filter (d.waitsAt index) := by
      rw [List.filter_filter, ← filter_waitsAt]
      refine List.filter_congr fun s _ => ?_
      cases hpending : (d.source s).pending <;> simp [waitsAt, hpending]
    rw [← List.foldl_filter, hboth, ← List.foldl_map] at hscan
    rw [Table.fetch_eq _ h, pure_bind]
    exact hscan

theorem checkedTopWord_eq (d : EmulatedDomain) (index : Nat) :
    checkedTopWord (d.top index) = pure (d.topWord index) := by
  rw [topWord]
  cases htop : d.top index with
  | none => rfl
  | some c =>
    obtain ⟨hc, -, -⟩ := top_eq_some htop
    have hpriority : c.priority < 2 ^ 16 := by
      have hle : c.priority ≤ Target.priorityField.max := by
        rw [hc]
        exact Word.field_le _ _
      exact Nat.lt_of_le_of_lt hle (by decide)
    rw [checkedTopWord, Checked.shiftLeft_eq _ (by decide), pure_bind]
    exact congrArg pure (Claim.toWord_eq hpriority).symm

theorem checkedReadIdc_eq (h : index < maxEmulatedIdcs) (register : IdcRegister) :
    d.checkedReadIdc index register = pure (d.readIdc index register) := by
  have hfetch : d.idcs.fetch index = pure (d.idc index) := Table.fetch_eq _ h
  cases register with
  | delivery | force | threshold => rw [checkedReadIdc, hfetch, pure_bind, readIdc]
  | top =>
    rw [checkedReadIdc, checkedTop_eq h, pure_bind, checkedTopWord_eq, pure_bind, readIdc]
  | claim =>
    rw [checkedReadIdc, checkedTop_eq h, pure_bind, checkedTopWord_eq, readIdc, afterClaim]
    cases htop : d.top index with
    | none => simp only [checkedModifyIdc_eq h, pure_bind]
    | some c =>
      have hknown := (top_eq_some htop).2.1
      simp only [eligible, waitsAt, Bool.and_eq_true] at hknown
      simp only [checkedModifySource_eq (d.lt_sourceSlots_of_hasSource hknown.2.1.1.1.1), pure_bind]

theorem checkedWriteIdc_eq (h : index < maxEmulatedIdcs) (register : IdcRegister) (value : Word) :
    d.checkedWriteIdc index register value = pure (d.writeIdc index register value) := by
  cases register with
  | delivery | force | threshold => exact checkedModifyIdc_eq h _
  | top | claim => rfl

end

/-! ### Registers and accesses -/

/-- Writes a source configuration register. The flags of a source that becomes inactive are cleared
one after the other. -/
def checkedConfigureSource (source : Nat) (config : Word) : Except Fault EmulatedDomain :=
  match SourceMode.ofWord config with
  | .error _ => pure d
  | .ok mode => do
    let after ← d.checkedModifySource source fun s => { s with mode }
    if mode.isActive then pure after
    else do
      let after ← after.checkedModifySource source fun s => s.withFlag .pending false
      after.checkedModifySource source fun s => s.withFlag .enabled false

def checkedReadRegister : Register → Except Fault (Word × EmulatedDomain)
  | .domainConfig => pure (d.config.register, d)
  | .sourceConfig source =>
    if d.hasSource source then do
      let s ← d.sources.fetch source
      pure (s.mode.toWord, d)
    else pure (0, d)
  | .setPending word => do
    let value ← d.checkedFlagWord .pending word
    pure (value, d)
  | .setEnable word => do
    let value ← d.checkedFlagWord .enabled word
    pure (value, d)
  | .target source =>
    if d.hasSource source then do
      let s ← d.sources.fetch source
      pure (s.target, d)
    else pure (0, d)
  | .idc index register =>
    if index < d.idcCount then d.checkedReadIdc index register else pure (0, d)
  | _ => pure (0, d)

def checkedWriteRegister (register : Register) (value : Word) : Except Fault EmulatedDomain :=
  match register with
  | .domainConfig => pure { d with config := .ofWord value }
  | .sourceConfig source =>
    if d.hasSource source then d.checkedConfigureSource source value else pure d
  | .setPending word => d.checkedSetFlags .pending true word value
  | .setPendingNumber | .setPendingNumberLittle => d.checkedSetFlag .pending true value.toNat
  | .setPendingNumberBig => d.checkedSetFlag .pending true value.swapBytes.toNat
  | .clearPending word => d.checkedSetFlags .pending false word value
  | .clearPendingNumber => d.checkedSetFlag .pending false value.toNat
  | .setEnable word => d.checkedSetFlags .enabled true word value
  | .setEnableNumber => d.checkedSetFlag .enabled true value.toNat
  | .clearEnable word => d.checkedSetFlags .enabled false word value
  | .clearEnableNumber => d.checkedSetFlag .enabled false value.toNat
  | .target source =>
    if d.hasSource source then do
      let target ← Target.checkedStored d.config.delivery value
      d.checkedModifySource source fun s => { s with target }
    else pure d
  | .idc index register =>
    if index < d.idcCount then d.checkedWriteIdc index register value else pure d
  | _ => pure d

/-- Whether an access is accepted. The offset is computed only for an address that is not below the
window. -/
def checkedAccepts (address : Nat) (width : AccessWidth) : Except Fault Bool :=
  if width ≠ .dword ∨ address < d.address then pure false
  else do
    let offset ← Checked.sub address d.address
    pure (decide (offset < d.size))

def checkedGuestRead (address : Nat) (width : AccessWidth) :
    Except Fault (Except Notice (Word × EmulatedDomain)) := do
  let accepted ← d.checkedAccepts address width
  if accepted then do
    let offset ← Checked.sub address d.address
    let reached ← Register.checkedOfOffset? offset
    let answered ← (match reached with
      | some register => d.checkedReadRegister register
      | none => pure (0, d))
    pure (.ok answered)
  else pure (.error (.badRead address width))

def checkedGuestWrite (address : Nat) (width : AccessWidth) (value : BitVec 64) :
    Except Fault (Except Notice EmulatedDomain) := do
  let accepted ← d.checkedAccepts address width
  if accepted then do
    let offset ← Checked.sub address d.address
    let reached ← Register.checkedOfOffset? offset
    let after ← (match reached with
      | some register => d.checkedWriteRegister register (value.setWidth 32)
      | none => pure d)
    pure (.ok after)
  else pure (.error (.badWrite address width))

section

variable {d} {r : Register}

theorem checkedConfigureSource_eq {source : Nat} (h : source < sourceSlots) (config : Word) :
    d.checkedConfigureSource source config = pure (d.configureSource source config) := by
  rw [checkedConfigureSource, configureSource]
  cases SourceMode.ofWord config with
  | error e => rfl
  | ok mode =>
    simp only [checkedModifySource_eq h, pure_bind, modifySource_modifySource]
    cases hactive : mode.isActive <;> simp [Source.withMode, Source.withFlag, hactive]

theorem checkedReadRegister_eq (hr : r.Published) :
    d.checkedReadRegister r = pure (d.readRegister r) := by
  have hrange := d.idcCount_range.2
  have hfetch {source : Nat} (hs : d.hasSource source = true) :
      d.sources.fetch source = pure (d.source source) :=
    Table.fetch_eq _ (d.lt_sourceSlots_of_hasSource hs)
  cases r with
  | sourceConfig source | target source =>
    simp only [checkedReadRegister, readRegister]
    split
    next hs => rw [hfetch hs, pure_bind]
    next => rfl
  | setPending word | setEnable word =>
    rw [checkedReadRegister, checkedFlagWord_eq hr, pure_bind, readRegister]
  | idc index register =>
    simp only [checkedReadRegister, readRegister]
    split
    next hi => exact checkedReadIdc_eq (by omega) register
    next => rfl
  | _ => rfl

theorem checkedWriteRegister_eq (hr : r.Published) (value : Word) :
    d.checkedWriteRegister r value = pure (d.writeRegister r value) := by
  have hrange := d.idcCount_range.2
  cases r with
  | sourceConfig source =>
    simp only [checkedWriteRegister, writeRegister]
    split
    next hs => exact checkedConfigureSource_eq (d.lt_sourceSlots_of_hasSource hs) value
    next => rfl
  | target source =>
    simp only [checkedWriteRegister, writeRegister]
    split
    next hs =>
      rw [Target.checkedStored_eq, pure_bind]
      exact checkedModifySource_eq (d.lt_sourceSlots_of_hasSource hs) _
    next => rfl
  | setPending word | clearPending word | setEnable word | clearEnable word =>
    exact checkedSetFlags_eq hr _ _ value
  | setPendingNumber | setPendingNumberLittle | setPendingNumberBig | clearPendingNumber
  | setEnableNumber | clearEnableNumber => exact checkedSetFlag_eq d _ _ _
  | idc index register =>
    simp only [checkedWriteRegister, writeRegister]
    split
    next hi => exact checkedWriteIdc_eq (by omega) register value
    next => rfl
  | _ => rfl

theorem checkedAccepts_eq (d : EmulatedDomain) (address : Nat) (width : AccessWidth) :
    d.checkedAccepts address width = pure (d.accepts address width) := by
  rw [checkedAccepts, accepts]
  by_cases hrefused : width ≠ .dword ∨ address < d.address
  · have hnot : ¬ (width = .dword ∧ d.address ≤ address ∧ address - d.address < d.size) := by
      rintro ⟨hwidth, hle, -⟩
      rcases hrefused with hne | hlt
      · exact hne hwidth
      · omega
    rw [if_pos hrefused, decide_eq_false hnot]
  · obtain ⟨hwidth, hle⟩ := not_or.mp hrefused
    have hle' : d.address ≤ address := Nat.le_of_not_lt hle
    rw [if_neg hrefused, Checked.sub_eq hle', pure_bind]
    simp [Decidable.not_not.mp hwidth, hle']

end

/-- Whatever a guest accesses, and whatever is injected, no step of an emulated domain faults: the
checked functions always succeed, with what the domain does. -/
theorem accesses_never_fault (d : EmulatedDomain) :
    (∀ address width, d.checkedGuestRead address width = .ok (d.guestRead address width)) ∧
      (∀ address width value,
        d.checkedGuestWrite address width value = .ok (d.guestWrite address width value)) ∧
      ∀ source, d.checkedInject source = .ok (d.inject source) := by
  have hsub {address : Nat} {width : AccessWidth} (h : d.accepts address width = true) :
      Checked.sub address d.address = pure (address - d.address) := by
    rw [accepts, decide_eq_true_eq] at h
    exact Checked.sub_eq h.2.1
  refine ⟨fun address width => ?_, fun address width value => ?_, fun source => ?_⟩
  · rw [checkedGuestRead, checkedAccepts_eq, pure_bind, guestRead]
    cases haccepts : d.accepts address width with
    | false => rfl
    | true =>
      rw [if_pos rfl, if_pos rfl, hsub haccepts, pure_bind, Register.checkedOfOffset?_eq, pure_bind,
        readAt]
      cases hreached : Register.ofOffset? (address - d.address) with
      | none => rfl
      | some r =>
        simp only [checkedReadRegister_eq (Register.published_of_ofOffset? hreached)]
        rfl
  · rw [checkedGuestWrite, checkedAccepts_eq, pure_bind, guestWrite]
    cases haccepts : d.accepts address width with
    | false => rfl
    | true =>
      rw [if_pos rfl, if_pos rfl, hsub haccepts, pure_bind, Register.checkedOfOffset?_eq, pure_bind,
        writeAt]
      cases hreached : Register.ofOffset? (address - d.address) with
      | none => rfl
      | some r =>
        simp only [checkedWriteRegister_eq (Register.published_of_ofOffset? hreached)]
        rfl
  · exact checkedSetFlag_eq d .pending true source

end EmulatedDomain

end AdvancedInterrupts
