import AdvancedInterrupts.Proofs.CheckedDomain
import AdvancedInterrupts.Proofs.DomainReset
import AdvancedInterrupts.Proofs.DriverSafety

/-!
# What an access leaves alone

An access of the guest is accepted if it is 32 bits wide and starts inside the
window, and it is refused without a trace otherwise. An accepted write changes
only the parts of the domain that the register at its offset names, and an
accepted read only claims. Offsets that hold no register of this domain read as
zero and keep nothing, also where the map has one for a source that is missing.
-/
namespace AdvancedInterrupts

/-- A part of the state of a domain that a register can name. -/
inductive DomainPart where
  | config
  | mode (source : Nat)
  | target (source : Nat)
  | flag (flag : SourceFlag) (source : Nat)
  | delivery (index : Nat)
  | force (index : Nat)
  | threshold (index : Nat)
deriving DecidableEq, Repr

theorem IdcRegister.offset_of_ofOffset? {offset : Nat} {x : IdcRegister}
    (h : ofOffset? offset = some x) : x.offset = offset := by
  unfold ofOffset? at h
  split at h <;> cases h <;> rfl

namespace Register

/-- The parts of a domain that a word written to a register may change. Both flags of a source
belong to its configuration register only while it is made inactive. -/
def Names (value : Word) : Register → DomainPart → Prop
  | domainConfig, part => part = .config
  | sourceConfig s, part =>
    part = .mode s ∨ SourceMode.ofWord value = .ok .inactive ∧ ∃ f, part = .flag f s
  | target s, part => part = .target s
  | setPending word, part | clearPending word, part =>
    ∃ bit, value.getLsbD bit = true ∧ part = .flag .pending (word * 32 + bit)
  | setPendingNumber, part | setPendingNumberLittle, part | clearPendingNumber, part =>
    part = .flag .pending value.toNat
  | setPendingNumberBig, part => part = .flag .pending value.swapBytes.toNat
  | setEnable word, part | clearEnable word, part =>
    ∃ bit, value.getLsbD bit = true ∧ part = .flag .enabled (word * 32 + bit)
  | setEnableNumber, part | clearEnableNumber, part => part = .flag .enabled value.toNat
  | idc i .delivery, part => part = .delivery i
  | idc i .force, part => part = .force i
  | idc i .threshold, part => part = .threshold i
  | _, _ => False

variable {offset : Nat} {r : Register}

/-- A register of a delivery structure is reached at its own offset only. -/
theorem offset_of_idcBase_le (h : ofOffset? offset = some r) (hle : idcBase ≤ offset) :
    r.offset = offset := by
  rw [ofOffset?, if_pos hle] at h
  obtain ⟨x, hx, rfl⟩ := Option.map_eq_some_iff.mp h
  have hoffset := IdcRegister.offset_of_ofOffset? hx
  have hsplit := Nat.mod_add_div (offset - idcBase) idcStride
  simp only [Register.offset, hoffset, idcBase, idcStride] at hle hsplit ⊢
  omega

/-- The word of an array that is found holds the offset, unless the register is found later. -/
theorem bounds_of_element? {base length : Nat} {f : Nat → Register} {later : Option Register}
    (hf : ∀ i, (f i).offset = base + i * 4)
    (hlater : later = some r → r.offset ≤ offset ∧ offset < r.offset + 4)
    (h : (if let some i := element? base length offset then some (f i) else later) = some r) :
    r.offset ≤ offset ∧ offset < r.offset + 4 := by
  split at h
  next i hi =>
    cases h
    simp only [element?, Option.ite_none_right_eq_some, Option.some.injEq] at hi
    rw [hf]
    omega
  next => exact hlater h

/-- An access reaches the register that holds its first byte. -/
theorem bounds_of_ofOffset? (h : ofOffset? offset = some r) :
    r.offset ≤ offset ∧ offset < r.offset + 4 := by
  by_cases hle : idcBase ≤ offset
  · have hoffset := offset_of_idcBase_le h hle
    omega
  · rw [ofOffset?, if_neg hle] at h
    have hconfig (i : Nat) : (sourceConfig (i + 1)).offset = sourceConfigBase + i * 4 := by
      simp only [Register.offset, Nat.add_sub_cancel]
    have htarget (i : Nat) : (target (i + 1)).offset = targetBase + i * 4 := by
      simp only [Register.offset, Nat.add_sub_cancel]
    refine bounds_of_element? hconfig (bounds_of_element? htarget ?_) h
    refine bounds_of_element? (fun _ => rfl) (bounds_of_element? (fun _ => rfl) ?_)
    refine bounds_of_element? (fun _ => rfl) (bounds_of_element? (fun _ => rfl) ?_)
    intro hsingle
    have hbeq := List.find?_some hsingle
    have hoffset : r.offset = offset := eq_of_beq hbeq
    omega

theorem offset_of_ofOffset? (h : ofOffset? offset = some r) (haligned : offset % 4 = 0) :
    r.offset = offset := by
  have hbounds := bounds_of_ofOffset? h
  have hregister := r.offset_mod_four
  omega

theorem offset_of_ofOffset?_idc {i : Nat} {x : IdcRegister}
    (h : ofOffset? offset = some (idc i x)) : (idc i x).offset = offset := by
  have hbase : idcBase ≤ (idc i x).offset := by
    rw [Register.offset, Nat.add_assoc]
    exact Nat.le_add_right _ _
  exact offset_of_idcBase_le h (Nat.le_trans hbase (bounds_of_ofOffset? h).1)

end Register

namespace EmulatedDomain

variable {d e : EmulatedDomain} {names : DomainPart → Prop}

/-- Whether two domains have the same value in a part. -/
def Agrees (d e : EmulatedDomain) : DomainPart → Prop
  | .config => e.config = d.config
  | .mode s => (e.source s).mode = (d.source s).mode
  | .target s => (e.source s).target = (d.source s).target
  | .flag f s => (e.source s).flag f = (d.source s).flag f
  | .delivery i => (e.idc i).delivery = (d.idc i).delivery
  | .force i => (e.idc i).force = (d.idc i).force
  | .threshold i => (e.idc i).threshold = (d.idc i).threshold

/-- A domain differs from another one in the named parts at most. -/
structure ModifiesOnly (names : DomainPart → Prop) (d e : EmulatedDomain) : Prop where
  shape : e.shape = d.shape
  agrees : ∀ part, ¬ names part → d.Agrees e part

/-- A domain is the same if no part of it may differ. -/
theorem ModifiesOnly.eq (h : d.ModifiesOnly names e) (hnone : ∀ part, ¬ names part) : e = d := by
  have hpart (part : DomainPart) : d.Agrees e part := h.agrees part (hnone part)
  refine ext_registers h.shape (hpart .config) (fun i => ?_) fun s => ?_
  · have hdelivery : (e.idc i).delivery = (d.idc i).delivery := hpart (.delivery i)
    have hforce : (e.idc i).force = (d.idc i).force := hpart (.force i)
    have hthreshold : (e.idc i).threshold = (d.idc i).threshold := hpart (.threshold i)
    cases he : e.idc i
    cases hd : d.idc i
    simp_all only
  · exact Source.ext_flag (hpart (.mode s)) (hpart (.target s)) fun f => hpart (.flag f s)

/-- Only a write to its register changes the configuration of a domain. -/
theorem config_perform {x : DomainAction} (h : ∀ value, x ≠ .write .domainConfig value) :
    (d.perform x).config = d.config := by
  cases x with
  | inject s => simp only [perform, inject, config_setFlag]
  | read r =>
    by_cases hr : ∃ i, i < d.idcCount ∧ r = .idc i .claim
    · obtain ⟨i, hi, rfl⟩ := hr
      rw [perform_claim d hi, afterClaim]
      split <;> rfl
    · rw [perform_read d fun i hi he => hr ⟨i, hi, he⟩]
  | write r value =>
    cases r with
    | domainConfig => exact absurd rfl (h value)
    | sourceConfig s =>
      simp only [perform, writeRegister, configureSource]
      split
      · split <;> rfl
      · rfl
    | target s =>
      simp only [perform, writeRegister]
      split <;> rfl
    | idc i register =>
      simp only [perform, writeRegister]
      split
      · cases register <;> rfl
      · rfl
    | _ => simp only [perform, writeRegister, config_setFlag, config_setFlags]

/-- A register names the flags that a word written to it asks to change. -/
theorem names_of_flagRequest {r : Register} {value : Word} {q : FlagRequest} {s : Nat}
    (h : (DomainAction.write r value).flagRequest? = some q) (hs : q.names s = true) :
    r.Names value (.flag q.flag s) := by
  have hword {f : SourceFlag} {on : Bool} {word : Nat}
      (hs : (FlagRequest.ofWord f on word value).names s = true) :
      ∃ bit, value.getLsbD bit = true ∧ DomainPart.flag f s = .flag f (word * 32 + bit) := by
    simp only [FlagRequest.ofWord, Bool.and_eq_true, beq_iff_eq] at hs
    refine ⟨s % 32, hs.2, ?_⟩
    congr 1
    omega
  have hnumber {f : SourceFlag} {on : Bool} {number : Nat}
      (hs : (FlagRequest.ofNumber f on number).names s = true) :
      DomainPart.flag f s = .flag f number := by
    rw [eq_of_beq hs]
  cases r <;> cases h <;> first | exact hword hs | exact hnumber hs

variable {r : Register} {value : Word}

/-- A write changes of a source only what its register names. -/
theorem SourceEffect.unnamed {s : Nat} {x : Source} (h : d.SourceEffect (.write r value) s x) :
    (¬ r.Names value (.mode s) → x.mode = (d.source s).mode) ∧
      (¬ r.Names value (.target s) → x.target = (d.source s).target) ∧
      ∀ f, ¬ r.Names value (.flag f s) → x.flag f = (d.source s).flag f := by
  cases h with
  | kept => exact ⟨fun _ => rfl, fun _ => rfl, fun _ _ => rfl⟩
  | flag q hq hn ha =>
    refine ⟨fun _ => Source.mode_withFlag _ _ _, fun _ => Source.target_withFlag _ _ _, ?_⟩
    intro f hf
    have hne : f ≠ q.flag := by
      rintro rfl
      exact hf (names_of_flagRequest hq hn)
    rw [Source.flag_withFlag, if_neg hne]
  | mode word m hx hm hs =>
    cases hx
    refine ⟨fun h => absurd (.inl rfl) h, fun _ => Source.target_withMode _ _, ?_⟩
    intro f hf
    have hactive : m.isActive = true := by
      rw [SourceMode.isActive, bne_iff_ne]
      rintro rfl
      exact hf (.inr ⟨hm, f, rfl⟩)
    rw [Source.flag_withMode, hactive, Bool.true_and]
  | target word hx hs =>
    cases hx
    exact ⟨fun _ => rfl, fun h => absurd rfl h, fun f _ => Source.flag_withTarget f _ _ _⟩
  | claimed i c hx hi ht hc => cases hx

/-- A write changes of a delivery structure only the register that is written. -/
theorem IdcEffect.unnamed {i : Nat} {x : IdcState} (h : d.IdcEffect (.write r value) i x) :
    (¬ r.Names value (.delivery i) → x.delivery = (d.idc i).delivery) ∧
      (¬ r.Names value (.force i) → x.force = (d.idc i).force) ∧
      (¬ r.Names value (.threshold i) → x.threshold = (d.idc i).threshold) := by
  cases h with
  | kept => exact ⟨fun _ => rfl, fun _ => rfl, fun _ => rfl⟩
  | written register word hx hi =>
    cases hx
    cases register with
    | delivery =>
      rw [writeIdc, idc_modifyIdc]
      refine ⟨fun h => absurd rfl h, fun _ => ?_, fun _ => ?_⟩ <;> split <;> rfl
    | force =>
      rw [writeIdc, idc_modifyIdc]
      refine ⟨fun _ => ?_, fun h => absurd rfl h, fun _ => ?_⟩ <;> split <;> rfl
    | threshold =>
      rw [writeIdc, idc_modifyIdc]
      refine ⟨fun _ => ?_, fun _ => ?_, fun h => absurd rfl h⟩ <;> split <;> rfl
    | top | claim => exact ⟨fun _ => rfl, fun _ => rfl, fun _ => rfl⟩
  | unforced hx hi ht => cases hx

/-- A write to a register changes only what the register names. -/
theorem modifiesOnly_writeRegister (d : EmulatedDomain) (r : Register) (value : Word) :
    d.ModifiesOnly (r.Names value) (d.writeRegister r value) where
  shape := d.shape_perform (.write r value)
  agrees := by
    intro part hpart
    have hsource (s : Nat) := (d.sourceEffect (.write r value) s).unnamed
    have hidc (i : Nat) := (d.idcEffect (.write r value) i).unnamed
    cases part with
    | config =>
      refine config_perform (x := .write r value) fun word he => hpart ?_
      cases he
      exact rfl
    | mode s => exact (hsource s).1 hpart
    | target s => exact (hsource s).2.1 hpart
    | flag f s => exact (hsource s).2.2 f hpart
    | delivery i => exact (hidc i).1 hpart
    | force i => exact (hidc i).2.1 hpart
    | threshold i => exact (hidc i).2.2 hpart

/-- Whether a domain implements a register of the map. A source or a delivery structure must
exist, and there is nothing behind the registers of outgoing messages. -/
def Implements (d : EmulatedDomain) : Register → Prop
  | .sourceConfig s | .target s => d.hasSource s = true
  | .setPending word | .clearPending word | .setEnable word | .clearEnable word => word < bitWords
  | .machineMsiAddress | .machineMsiAddressHigh | .supervisorMsiAddress
  | .supervisorMsiAddressHigh | .generateMsi => False
  | .idc i _ => i < d.idcCount
  | _ => True

theorem Implements.hasRegister (h : d.Implements r) : d.HasRegister r := by
  cases r with
  | sourceConfig s => exact .of_published (published_of_hasSource h).1 fun _ _ => by simp
  | target s => exact .of_published (published_of_hasSource h).2 fun _ _ => by simp
  | setPending word | clearPending word | setEnable word | clearEnable word =>
    exact .of_published h fun _ _ => by simp
  | idc i x => exact hasRegister_idc h x
  | _ => first | exact h.elim | exact .of_published trivial fun _ _ => by simp

/-- A register that the domain does not implement reads as zero. -/
theorem readRegister_of_not_implements (h : ¬ d.Implements r) (hr : r.Published) :
    d.readRegister r = (0, d) := by
  cases r with
  | sourceConfig s | target s => exact congrArg (·, d) (if_neg h)
  | setPending word | setEnable word => exact absurd hr h
  | idc i x => exact if_neg h
  | domainConfig => exact absurd trivial h
  | _ => rfl

/-- A register that the domain does not implement ignores what is written. -/
theorem writeRegister_of_not_implements (h : ¬ d.Implements r) (hr : r.Published) (value : Word) :
    d.writeRegister r value = d := by
  cases r with
  | sourceConfig s | target s | idc i x => exact if_neg h
  | setPending word | clearPending word | setEnable word | clearEnable word => exact absurd hr h
  | machineMsiAddress | machineMsiAddressHigh | supervisorMsiAddress | supervisorMsiAddressHigh
  | generateMsi => rfl
  | _ => exact absurd trivial h

/-- An offset that starts no register of the domain reads as zero and keeps nothing. -/
theorem reserved_of_not_implements {offset : Nat} (haligned : offset % 4 = 0)
    (h : ∀ r, d.Implements r → r.offset ≠ offset) (value : Word) :
    d.readAt offset = (0, d) ∧ d.writeAt offset value = d := by
  rw [readAt, writeAt]
  cases hreached : Register.ofOffset? offset with
  | none => exact ⟨rfl, rfl⟩
  | some r =>
    have hnot : ¬ d.Implements r := fun hr =>
      h r hr (Register.offset_of_ofOffset? hreached haligned)
    have hpublished := Register.published_of_ofOffset? hreached
    exact ⟨readRegister_of_not_implements hnot hpublished,
      writeRegister_of_not_implements hnot hpublished value⟩

/-- A read changes the domain only if it claims at an existing delivery structure. -/
theorem exists_claim_of_readAt {offset : Nat} (h : (d.readAt offset).2 ≠ d) :
    ∃ i < d.idcCount, (Register.idc i .claim).offset = offset := by
  rw [readAt] at h
  cases hreached : Register.ofOffset? offset with
  | none =>
    rw [hreached] at h
    exact absurd rfl h
  | some r =>
    rw [hreached] at h
    by_contra hnone
    refine h (perform_read d fun i hi he => hnone ⟨i, hi, ?_⟩)
    subst he
    exact Register.offset_of_ofOffset?_idc hreached

theorem accepts_iff {address : Nat} {width : AccessWidth} :
    d.accepts address width = true ↔
      width = .dword ∧ d.address ≤ address ∧ address < d.address + d.size := by
  rw [accepts, decide_eq_true_eq]
  constructor
  · rintro ⟨hwidth, hle, hlt⟩
    exact ⟨hwidth, hle, by omega⟩
  · rintro ⟨hwidth, hle, hlt⟩
    exact ⟨hwidth, hle, by omega⟩

/-- Every register of the domain is accessed at its own address. -/
theorem HasRegister.accepts (h : d.HasRegister r) :
    d.accepts (d.address + r.offset) .dword = true := by
  have hlt := h.offset_lt_size
  exact accepts_iff.mpr ⟨rfl, by omega, by omega⟩

/-- What a guest can rely on when it reads an address, or writes a value to it. -/
structure AccessFrame (d : EmulatedDomain) (address : Nat) (width : AccessWidth)
    (value : BitVec 64) : Prop where
  /-- A read succeeds exactly if it is 32 bits wide and starts inside the window. -/
  read_ok_iff : (∃ answer, d.guestRead address width = .ok answer) ↔
    width = .dword ∧ d.address ≤ address ∧ address < d.address + d.size
  /-- So does a write. -/
  write_ok_iff : (∃ after, d.guestWrite address width value = .ok after) ↔
    width = .dword ∧ d.address ≤ address ∧ address < d.address + d.size
  /-- An access that fails names its address and its width, and leaves the domain as it is. -/
  failed : ¬ (width = .dword ∧ d.address ≤ address ∧ address < d.address + d.size) →
    (d.guestRead address width = .error (.badRead address width) ∧
      d.after (.guestRead address width) = d) ∧
    d.guestWrite address width value = .error (.badWrite address width) ∧
      d.after (.guestWrite address width value) = d
  /-- A read that changes the domain claims at an existing delivery structure. -/
  read_frame : ∀ word after, d.guestRead address width = .ok (word, after) → after ≠ d →
    ∃ i < d.idcCount, address = d.address + (Register.idc i .claim).offset
  /-- A write to a register changes only what the register names. -/
  write_frame : ∀ r after, d.Implements r → address = d.address + r.offset →
    d.guestWrite address width value = .ok after →
      d.ModifiesOnly (r.Names (value.setWidth 32)) after
  /-- A write to a report, or to the register that claims, changes nothing. -/
  report_frame : ∀ i x after, x = .top ∨ x = .claim →
    address = d.address + (Register.idc i x).offset →
      d.guestWrite address width value = .ok after → after = d
  /-- The registers of a source that the domain does not have read as zero and keep nothing. -/
  missing_source : ∀ s, d.sourceCount ≤ s → s < sourceSlots →
    address = d.address + (Register.sourceConfig s).offset ∨
      address = d.address + (Register.target s).offset →
    (∀ word after, d.guestRead address width = .ok (word, after) → word = 0 ∧ after = d) ∧
      ∀ after, d.guestWrite address width value = .ok after → after = d
  /-- So does every other word of the window where no register of the domain starts. -/
  reserved : (address - d.address) % 4 = 0 →
    (∀ r, d.Implements r → address ≠ d.address + r.offset) →
    (∀ word after, d.guestRead address width = .ok (word, after) → word = 0 ∧ after = d) ∧
      ∀ after, d.guestWrite address width value = .ok after → after = d

/-- A successful read answers what stands at the offset of its address. -/
theorem readAt_of_guestRead {address : Nat} {width : AccessWidth} {answer : Word × EmulatedDomain}
    (h : d.guestRead address width = .ok answer) :
    (d.address ≤ address ∧ address < d.address + d.size) ∧
      d.readAt (address - d.address) = answer := by
  rw [guestRead] at h
  split at h
  next haccepts =>
    cases h
    exact ⟨(accepts_iff.mp haccepts).2, rfl⟩
  next => cases h

/-- A successful write reaches the offset of its address. -/
theorem writeAt_of_guestWrite {address : Nat} {width : AccessWidth} {value : BitVec 64}
    (h : d.guestWrite address width value = .ok e) :
    (d.address ≤ address ∧ address < d.address + d.size) ∧
      d.writeAt (address - d.address) (value.setWidth 32) = e := by
  rw [guestWrite] at h
  split at h
  next haccepts =>
    cases h
    exact ⟨(accepts_iff.mp haccepts).2, rfl⟩
  next => cases h

/-- A successful write to the address of a register writes the register. -/
theorem writeRegister_of_guestWrite {width : AccessWidth} {value : BitVec 64} (hr : r.Published)
    (h : d.guestWrite (d.address + r.offset) width value = .ok e) :
    d.writeRegister r (value.setWidth 32) = e := by
  have hwrite := (writeAt_of_guestWrite h).2
  rwa [Nat.add_sub_cancel_left, writeAt, Register.ofOffset?_offset hr] at hwrite

/-- A successful read of the address of a register reads the register. -/
theorem readRegister_of_guestRead {width : AccessWidth} {answer : Word × EmulatedDomain}
    (hr : r.Published) (h : d.guestRead (d.address + r.offset) width = .ok answer) :
    d.readRegister r = answer := by
  have hread := (readAt_of_guestRead h).2
  rwa [Nat.add_sub_cancel_left, readAt, Register.ofOffset?_offset hr] at hread

/-- An access that is not accepted fails without a trace. -/
theorem fails_of_not_accepts {address : Nat} {width : AccessWidth}
    (h : ¬ d.accepts address width = true) (value : BitVec 64) :
    (d.guestRead address width = .error (.badRead address width) ∧
      d.after (.guestRead address width) = d) ∧
    d.guestWrite address width value = .error (.badWrite address width) ∧
      d.after (.guestWrite address width value) = d := by
  have hread : d.guestRead address width = .error (.badRead address width) := if_neg h
  have hwrite : d.guestWrite address width value = .error (.badWrite address width) := if_neg h
  refine ⟨⟨hread, ?_⟩, hwrite, ?_⟩
  · rw [after, hread]
  · rw [after, hwrite]

/-- A register of the map that the domain does not implement reads as zero and keeps nothing. -/
theorem unimplemented {width : AccessWidth} {value : BitVec 64} (h : ¬ d.Implements r)
    (hr : r.Published) :
    (∀ word after, d.guestRead (d.address + r.offset) width = .ok (word, after) →
      word = 0 ∧ after = d) ∧
    ∀ after, d.guestWrite (d.address + r.offset) width value = .ok after → after = d := by
  refine ⟨fun word after hread => ?_, fun after hwrite => ?_⟩
  · have hanswer := readRegister_of_guestRead hr hread
    rw [readRegister_of_not_implements h hr, Prod.mk.injEq] at hanswer
    exact ⟨hanswer.1.symm, hanswer.2.symm⟩
  · rw [← writeRegister_of_guestWrite hr hwrite]
    exact writeRegister_of_not_implements h hr _

/-- What every access of a guest changes is known from its address, in every state of a domain, so
in particular in those that accesses can reach. -/
theorem access_frame (d : EmulatedDomain) (address : Nat) (width : AccessWidth)
    (value : BitVec 64) : d.AccessFrame address width value where
  read_ok_iff := by
    rw [← accepts_iff, guestRead]
    split
    next h => exact iff_of_true ⟨_, rfl⟩ h
    next h =>
      refine iff_of_false ?_ h
      rintro ⟨answer, hanswer⟩
      cases hanswer
  write_ok_iff := by
    rw [← accepts_iff, guestWrite]
    split
    next h => exact iff_of_true ⟨_, rfl⟩ h
    next h =>
      refine iff_of_false ?_ h
      rintro ⟨after, hafter⟩
      cases hafter
  failed := by
    intro h
    exact fails_of_not_accepts (fun haccepts => h (accepts_iff.mp haccepts)) value
  read_frame := by
    intro word after h hne
    obtain ⟨hinside, hread⟩ := readAt_of_guestRead h
    obtain ⟨i, hi, hoffset⟩ := exists_claim_of_readAt (d := d) (by rwa [hread])
    exact ⟨i, hi, by omega⟩
  write_frame := by
    rintro r after hr rfl h
    rw [← writeRegister_of_guestWrite hr.hasRegister.1 h]
    exact d.modifiesOnly_writeRegister r _
  report_frame := by
    rintro i x after hx rfl h
    have hpublished : (Register.idc i x).Published := trivial
    rw [← writeRegister_of_guestWrite hpublished h]
    refine (d.modifiesOnly_writeRegister _ _).eq fun part => ?_
    rcases hx with rfl | rfl <;> exact id
  missing_source := by
    intro s hle hs haddress
    have hsource : ¬ d.hasSource s = true := by
      rw [hasSource_iff]
      omega
    have hcount := d.sourceCount_range.1
    have hpublished : 1 ≤ s ∧ s < sourceSlots := ⟨by omega, hs⟩
    rcases haddress with rfl | rfl
    · exact unimplemented (r := .sourceConfig s) hsource hpublished
    · exact unimplemented (r := .target s) hsource hpublished
  reserved := by
    intro haligned hfree
    have hreserved (hle : d.address ≤ address) :=
      reserved_of_not_implements haligned (fun r hr he => hfree r hr (by omega))
    refine ⟨fun word after h => ?_, fun after h => ?_⟩
    · obtain ⟨hinside, hread⟩ := readAt_of_guestRead h
      rw [(hreserved hinside.1 0).1, Prod.mk.injEq] at hread
      exact ⟨hread.1.symm, hread.2.symm⟩
    · obtain ⟨hinside, hwrite⟩ := writeAt_of_guestWrite h
      rw [← hwrite]
      exact (hreserved hinside.1 _).2

/-- A guest makes source 3 inactive, which takes its flags and those of no other source. -/
theorem access_frame_sampleAccesses :
    (∃ after, (sample.afterAll sampleAccesses).guestWrite 0xd00000c .dword 0 = .ok after ∧
      (after.source 3).pending = false ∧ (after.source 5).pending = true) ∧
    (sample.afterAll sampleAccesses).AccessFrame 0xd00000c .dword 0 :=
  ⟨⟨_, rfl, by decide, by decide⟩, access_frame _ _ _ _⟩

end EmulatedDomain

end AdvancedInterrupts
