import AdvancedInterrupts.Proofs.RegisterFrame

/-!
# The advertised range

A domain tells where its window is by a range of addresses, and decides about
every single access by itself. The range is computed by an addition, and there
is one only if its end is an address too. An access is compared by a difference,
which always exists. So the two agree for every window that ends below the end
of the address space. A window that reaches this end is served all the same, but
no range of addresses describes it, and a domain is created wherever its window
is to be.
-/
namespace AdvancedInterrupts

namespace AddressRange

instance : Membership Nat AddressRange where
  mem range address := range.first ≤ address ∧ address < range.stop

end AddressRange

namespace EmulatedDomain

variable {d : EmulatedDomain} {address : Nat}

/-- Whether a 32-bit read of an address succeeds. -/
def ServesAt (d : EmulatedDomain) (address : Nat) : Prop :=
  ∃ answer, d.guestRead address .dword = .ok answer

theorem servesAt_iff :
    d.ServesAt address ↔ d.address ≤ address ∧ address < d.address + d.size := by
  have haccepts : d.ServesAt address ↔ d.accepts address .dword = true := by
    rw [ServesAt, guestRead]
    split
    next h => exact iff_of_true ⟨_, rfl⟩ h
    next h => simp [h]
  rw [haccepts, accepts_iff, and_iff_right rfl]

/-- There is a range, and of all addresses exactly those in it are served. -/
def AdvertisesServed (d : EmulatedDomain) : Prop :=
  ∃ range, d.addressRange = .ok range ∧
    ∀ address < addressSpace, address ∈ range ↔ d.ServesAt address

/-- No range of addresses has exactly the served addresses, since the last of them is served and
none is behind it. -/
theorem not_described (hstart : d.address < addressSpace)
    (hend : addressSpace ≤ d.address + d.size) {range : AddressRange}
    (hrange : range.stop < addressSpace) :
    ¬ ∀ address < addressSpace, address ∈ range ↔ d.ServesAt address := by
  intro hserved
  have hlast : d.ServesAt (addressSpace - 1) := servesAt_iff.mpr ⟨by omega, by omega⟩
  have hin := ((hserved _ (by omega)).mpr hlast).2
  omega

theorem advertisesServed_iff_lt : d.AdvertisesServed ↔ d.address + d.size < addressSpace := by
  constructor
  · rintro ⟨range, hrange, -⟩
    rw [addressRange, AddressRange.ofSize] at hrange
    split at hrange
    next hfits => exact hfits
    next => cases hrange
  · intro hfits
    exact ⟨⟨d.address, d.address + d.size⟩, if_pos hfits, fun _ _ => servesAt_iff.symm⟩

/-- What a domain tells about its window and what it serves, wherever the window is. -/
structure RangeRules (d : EmulatedDomain) : Prop where
  /-- The served addresses are those of the window. -/
  served (address : Nat) :
    d.ServesAt address ↔ d.address ≤ address ∧ address < d.address + d.size
  /-- A window that ends below the end of the address space has a range, with the served
  addresses. -/
  advertised (h : d.address + d.size < addressSpace) :
    d.addressRange = .ok ⟨d.address, d.address + d.size⟩ ∧
      ∀ address, address ∈ (⟨d.address, d.address + d.size⟩ : AddressRange) ↔ d.ServesAt address
  /-- Any other window has none. -/
  overflows (h : addressSpace ≤ d.address + d.size) :
    d.addressRange = .error ⟨d.address, d.size⟩
  /-- No other range could be told in this case, since the last address is served. -/
  undescribed (hstart : d.address < addressSpace) (hend : addressSpace ≤ d.address + d.size)
    (range : AddressRange) (hrange : range.stop < addressSpace) :
    ¬ ∀ address < addressSpace, address ∈ range ↔ d.ServesAt address

theorem rangeRules (d : EmulatedDomain) : d.RangeRules where
  served _ := servesAt_iff
  advertised h := ⟨if_pos h, fun _ => servesAt_iff.symm⟩
  overflows h := if_neg (Nat.not_lt.mpr h)
  undescribed hstart hend _ hrange := not_described hstart hend hrange

theorem create_eq_ok_iff {sourceCount idcCount : Nat} :
    (∃ d, create address sourceCount idcCount = .ok d) ↔
      (2 ≤ sourceCount ∧ sourceCount ≤ sourceSlots) ∧
        1 ≤ idcCount ∧ idcCount ≤ maxEmulatedIdcs := by
  rw [create]
  split
  next hs =>
    split
    next hi => exact iff_of_true ⟨_, rfl⟩ ⟨hs, hi⟩
    next hi => simp [hi]
  next hs => simp [hs]

theorem window_of_create {sourceCount idcCount : Nat}
    (h : create address sourceCount idcCount = .ok d) :
    d.address = address ∧ d.size = Register.idcBase + idcCount * Register.idcStride := by
  rw [create] at h
  split at h
  next =>
    split at h
    next =>
      cases h
      exact ⟨rfl, rfl⟩
    next => cases h
  next => cases h

/-- Whatever was done to a domain since it was created, the range that it advertises is what it
serves exactly if the window ends below the end of the address space. Where the window is to be has
no part in whether the domain is created. -/
theorem advertisesServed_iff {sourceCount idcCount : Nat}
    (h : create address sourceCount idcCount = .ok d) (history : List EmulatedAccess) :
    ((d.afterAll history).AdvertisesServed ↔
      address + (Register.idcBase + idcCount * Register.idcStride) < addressSpace) ∧
    ((d.afterAll history).address = address ∧
      (d.afterAll history).size = Register.idcBase + idcCount * Register.idcStride) ∧
    (d.afterAll history).RangeRules ∧
    ∀ elsewhere, ∃ e, create elsewhere sourceCount idcCount = .ok e := by
  obtain ⟨haddress, hsize⟩ := window_of_create h
  have hshape := d.shape_afterAll history
  rw [← address_of_shape hshape] at haddress
  rw [← size_of_shape hshape] at hsize
  refine ⟨?_, ⟨haddress, hsize⟩, rangeRules _, fun elsewhere => ?_⟩
  · rw [advertisesServed_iff_lt, haddress, hsize]
  · exact create_eq_ok_iff.mpr (create_eq_ok_iff.mp ⟨d, h⟩)

/-- The sample domain has the range of its window, after some accesses. -/
theorem advertisesServed_iff_sampleAccesses :
    create 0xd000000 8 2 = .ok sample ∧ (sample.afterAll sampleAccesses).AdvertisesServed := by
  have hcreate : create 0xd000000 8 2 = .ok sample := rfl
  exact ⟨hcreate, (advertisesServed_iff hcreate sampleAccesses).1.mpr (by decide)⟩

/-- A domain whose window takes the last bytes of the address space. -/
def topmost : EmulatedDomain := { sample with address := 0xffffffffffffbfc0 }

/-- The domain is created and serves its whole window, but has no range. -/
theorem topmost_not_advertisesServed :
    create 0xffffffffffffbfc0 8 2 = .ok topmost ∧
      (topmost.ServesAt 0xffffffffffffbfc0 ∧ topmost.ServesAt 0xfffffffffffffffc) ∧
      topmost.addressRange = .error ⟨0xffffffffffffbfc0, 0x4040⟩ ∧ ¬ topmost.AdvertisesServed := by
  refine ⟨rfl, ⟨?_, ?_⟩, rfl, ?_⟩
  · rw [servesAt_iff]
    decide
  · rw [servesAt_iff]
    decide
  · rw [advertisesServed_iff_lt]
    decide

end EmulatedDomain

end AdvancedInterrupts
