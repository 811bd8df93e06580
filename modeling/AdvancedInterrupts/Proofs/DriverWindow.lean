import AdvancedInterrupts.Proofs.DomainAction

/-!
# Drivers of an emulated domain

A driver that runs on an emulated domain reads and writes its registers, as long
as the window fits the address space. So the program of a driver can be followed
register by register, without offsets and addresses.
-/
namespace AdvancedInterrupts

namespace Register

/-- Only the delivery structures lie behind the domain registers. -/
theorem offset_lt_idcBase {r : Register} (h : r.Published) (hr : ∀ i x, r ≠ .idc i x) :
    r.offset < idcBase := by
  cases r with
  | idc i x => exact absurd rfl (hr i x)
  | sourceConfig source | target source =>
    simp only [Published, sourceSlots] at h
    simp only [offset, sourceConfigBase, targetBase, idcBase]
    omega
  | setPending word | clearPending word | setEnable word | clearEnable word =>
    simp only [Published, bitWords, sourceSlots] at h
    simp only [offset, setPendingBase, clearPendingBase, setEnableBase, clearEnableBase, idcBase]
    omega
  | _ => decide

theorem offset_lt_addressSpace {r : Register} (h : r.Published) (hr : ∀ i x, r ≠ .idc i x) :
    r.offset < addressSpace :=
  Nat.lt_trans (offset_lt_idcBase h hr) (by decide)

theorem offset_idc_lt {i n : Nat} (h : i < n) (x : IdcRegister) :
    (idc i x).offset < idcBase + n * idcStride := by
  have hx : x.offset < idcStride := by cases x <;> decide
  simp only [offset, idcStride] at hx ⊢
  omega

end Register

/-- A register holds the number of any source. -/
theorem toNat_sourceNumber {s : Nat} (h : s < sourceSlots) : (BitVec.ofNat 32 s).toNat = s := by
  rw [sourceSlots] at h
  rw [BitVec.toNat_ofNat]
  omega

/-- Every source has a word in the arrays with one bit per source. -/
theorem word_lt_bitWords {s : Nat} (h : s < sourceSlots) : s / 32 < bitWords := by
  simp only [bitWords, sourceSlots] at h ⊢
  omega

namespace EmulatedDomain

/-- An access of a driver is accepted only if it lies in the window, which it then reaches at its
own offset. -/
theorem offset_of_accepts {d : EmulatedDomain} {offset : Nat} (hspace : offset < addressSpace)
    (h : d.accepts (d.addressOf offset) .dword = true) :
    d.addressOf offset - d.address = offset ∧ offset < d.size := by
  rw [accepts, decide_eq_true_eq] at h
  obtain ⟨-, hle, hlt⟩ := h
  have hoffset : d.addressOf offset - d.address = offset := by
    simp only [addressOf, addressSpace] at *
    omega
  exact ⟨hoffset, hoffset ▸ hlt⟩

/-- A driver reads a register, or is refused and reads zero. -/
theorem service_read {r : Register} (hr : r.Published) (hspace : r.offset < addressSpace)
    (d : EmulatedDomain) :
    service (.read r.offset) d =
      if d.accepts (d.addressOf r.offset) .dword then d.readRegister r else (0, d) := by
  change d.windowRead r.offset = _
  rw [windowRead]
  split
  next h =>
    rw [(offset_of_accepts hspace h).1, readAt, Register.ofOffset?_offset hr]
  next => rfl

/-- A driver writes a register, or is refused. -/
theorem service_write {r : Register} (hr : r.Published) (hspace : r.offset < addressSpace)
    (value : Word) (d : EmulatedDomain) :
    service (.write r.offset value) d =
      ((), if d.accepts (d.addressOf r.offset) .dword then d.writeRegister r value else d) := by
  change ((), d.windowWrite r.offset value) = _
  rw [windowWrite]
  split
  next h => rw [(offset_of_accepts hspace h).1, writeAt, Register.ofOffset?_offset hr]
  next => rfl

/-- A register of the map that lies in the window of the domain. -/
def HasRegister (d : EmulatedDomain) (r : Register) : Prop :=
  r.Published ∧ ∀ i x, r = .idc i x → i < d.idcCount

variable {d : EmulatedDomain} {r : Register}

theorem HasRegister.offset_lt_size (h : d.HasRegister r) : r.offset < d.size := by
  by_cases hidc : ∃ i x, r = .idc i x
  · obtain ⟨i, x, rfl⟩ := hidc
    exact Register.offset_idc_lt (h.2 i x rfl) x
  · have hlt := Register.offset_lt_idcBase h.1 fun i x he => hidc ⟨i, x, he⟩
    rw [size]
    omega

theorem windowRead_register (hfits : d.address + d.size ≤ addressSpace) (h : d.HasRegister r) :
    d.windowRead r.offset = d.readRegister r := by
  have hreach := Register.ofOffset?_offset h.1
  rw [d.windowRead_of_lt hfits h.offset_lt_size, readAt, hreach]

theorem windowWrite_register (hfits : d.address + d.size ≤ addressSpace) (h : d.HasRegister r)
    (value : Word) : d.windowWrite r.offset value = d.writeRegister r value := by
  have hreach := Register.ofOffset?_offset h.1
  rw [d.windowWrite_of_lt hfits h.offset_lt_size, writeAt, hreach]

theorem run_read (hfits : d.address + d.size ≤ addressSpace) (h : d.HasRegister r) :
    r.read.run service d = d.readRegister r :=
  windowRead_register hfits h

theorem run_write (hfits : d.address + d.size ≤ addressSpace) (h : d.HasRegister r)
    (value : Word) : (r.write value).run service d = ((), d.writeRegister r value) :=
  congrArg (Prod.mk ()) (windowWrite_register hfits h value)

@[simp] theorem run_report (d : EmulatedDomain) (notice : Notice) :
    notice.report.run service d = ((), d) := rfl

/-- The window of a domain with the same shape lies in the same place. -/
theorem fits_of_shape {e : EmulatedDomain} (h : e.shape = d.shape)
    (hfits : d.address + d.size ≤ addressSpace) : e.address + e.size ≤ addressSpace := by
  simp only [shape, Prod.mk.injEq] at h
  simpa only [size, h.1, h.2.2] using hfits

theorem fits_writeRegister (hfits : d.address + d.size ≤ addressSpace) (r : Register)
    (value : Word) :
    (d.writeRegister r value).address + (d.writeRegister r value).size ≤ addressSpace :=
  fits_of_shape (d.shape_perform (.write r value)) hfits

/-- The configuration register of a source that exists takes every mode. -/
theorem writeRegister_sourceConfig (d : EmulatedDomain) (s : Nat) (mode : SourceMode) :
    d.writeRegister (.sourceConfig s) mode.toWord =
      if d.hasSource s then d.modifySource s fun x => x.withMode mode else d := by
  simp only [writeRegister, configureSource, SourceMode.ofWord_toWord]

/-- Whatever a driver does, the domain stays in the states that accesses can reach. -/
theorem Reachable.run {α : Type} (hd : d.Reachable) (p : Program window α) :
    (p.run service d).2.Reachable := by
  induction p generalizing d with
  | done a => exact hd
  | ask access next ih =>
    refine ih _ ?_
    cases access with
    | read offset => exact hd.step (.windowRead offset)
    | write offset value => exact hd.step (.windowWrite offset value)
    | report notice => exact hd

theorem HasRegister.of_published (h : r.Published) (hr : ∀ i x, r ≠ .idc i x) :
    d.HasRegister r :=
  ⟨h, fun i x he => absurd he (hr i x)⟩

/-- Every register of a delivery structure that the domain has lies in the window. -/
theorem hasRegister_idc {i : Nat} (hi : i < d.idcCount) (x : IdcRegister) :
    d.HasRegister (.idc i x) := by
  refine ⟨trivial, fun j y he => ?_⟩
  cases he
  exact hi

theorem windowRead_top {i : Nat} (hfits : d.address + d.size ≤ addressSpace)
    (hi : i < d.idcCount) : d.windowRead (Register.idc i .top).offset = (d.topWord i, d) := by
  rw [windowRead_register hfits (hasRegister_idc hi .top), readRegister, if_pos hi, readIdc]

theorem windowRead_claim {i : Nat} (hfits : d.address + d.size ≤ addressSpace)
    (hi : i < d.idcCount) :
    d.windowRead (Register.idc i .claim).offset = (d.topWord i, d.afterClaim i) := by
  rw [windowRead_register hfits (hasRegister_idc hi .claim), readRegister, if_pos hi, readIdc]

theorem published_of_hasSource {s : Nat} (h : d.hasSource s = true) :
    (Register.sourceConfig s).Published ∧ (Register.target s).Published := by
  have hslots := d.lt_sourceSlots_of_hasSource h
  rw [hasSource_iff] at h
  exact ⟨⟨h.1, hslots⟩, ⟨h.1, hslots⟩⟩

end EmulatedDomain

end AdvancedInterrupts
