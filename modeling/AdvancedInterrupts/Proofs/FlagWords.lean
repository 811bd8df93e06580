import AdvancedInterrupts.Proofs.RegisterFrame

/-!
# Words of flags and single numbers

A flag of a source can be set or cleared in two ways. A word of an array names
up to 32 sources by its bits, and a number register names one source by its
number. A word does the same as the numbers of its bits, one after the other in
any order, since each of them changes the flag of its own source only and asks
no more than whether that source exists and is active, which no flag decides.
Sources also become pending by an injection, and by a number in either order of
its bytes.
-/
namespace AdvancedInterrupts

namespace Word

/-- The bytes of a word, the lowest one first. -/
def bytes (v : Word) : List (BitVec 8) :=
  [v.extractLsb' 0 8, v.extractLsb' 8 8, v.extractLsb' 16 8, v.extractLsb' 24 8]

theorem append_bytes (v : Word) :
    v.extractLsb' 24 8 ++ v.extractLsb' 16 8 ++ v.extractLsb' 8 8 ++ v.extractLsb' 0 8 = v := by
  have hhigh : v.extractLsb' 24 8 ++ v.extractLsb' 16 8 = v.extractLsb' 16 16 :=
    BitVec.extractLsb'_append_extractLsb'_eq_extractLsb' rfl
  have hmiddle : v.extractLsb' 16 16 ++ v.extractLsb' 8 8 = v.extractLsb' 8 24 :=
    BitVec.extractLsb'_append_extractLsb'_eq_extractLsb' rfl
  have hlow : v.extractLsb' 8 24 ++ v.extractLsb' 0 8 = v.extractLsb' 0 32 :=
    BitVec.extractLsb'_append_extractLsb'_eq_extractLsb' rfl
  rw [hhigh, hmiddle, hlow, BitVec.extractLsb'_eq_self]

theorem bytes_append (b₃ b₂ b₁ b₀ : BitVec 8) :
    bytes (b₃ ++ b₂ ++ b₁ ++ b₀) = [b₀, b₁, b₂, b₃] := by
  have hskip {n m : Nat} (x : BitVec n) (y : BitVec m) (k : Nat) :
      (x ++ y).extractLsb' (m + k) 8 = x.extractLsb' k 8 := by
    rw [BitVec.extractLsb'_append_eq_of_le (Nat.le_add_right m k), Nat.add_sub_cancel_left]
  have h₀ : (b₃ ++ b₂ ++ b₁ ++ b₀).extractLsb' 0 8 = b₀ := BitVec.extractLsb'_append_eq_right
  have h₁ : (b₃ ++ b₂ ++ b₁ ++ b₀).extractLsb' 8 8 = b₁ :=
    (hskip _ _ 0).trans BitVec.extractLsb'_append_eq_right
  have h₂ : (b₃ ++ b₂ ++ b₁ ++ b₀).extractLsb' 16 8 = b₂ :=
    (hskip _ _ 8).trans ((hskip _ _ 0).trans BitVec.extractLsb'_append_eq_right)
  have h₃ : (b₃ ++ b₂ ++ b₁ ++ b₀).extractLsb' 24 8 = b₃ :=
    (hskip _ _ 16).trans ((hskip _ _ 8).trans BitVec.extractLsb'_append_eq_left)
  simp only [bytes, List.cons.injEq]
  exact ⟨h₀, h₁, h₂, h₃, trivial⟩

theorem bytes_swapBytes (v : Word) : v.swapBytes.bytes = v.bytes.reverse := bytes_append _ _ _ _

/-- A word is known by its bytes. -/
theorem bytes_injective {u v : Word} (h : u.bytes = v.bytes) : u = v := by
  simp only [bytes, List.cons.injEq] at h
  obtain ⟨h₀, h₁, h₂, h₃, -⟩ := h
  rw [← append_bytes u, h₀, h₁, h₂, h₃, append_bytes]

theorem swapBytes_swapBytes (v : Word) : v.swapBytes.swapBytes = v :=
  bytes_injective (by rw [bytes_swapBytes, bytes_swapBytes, List.reverse_reverse])

end Word

namespace SourceFlag

/-- The array of words that sets or clears a flag. -/
def array : SourceFlag → Bool → Nat → Register
  | pending, true => .setPending
  | pending, false => .clearPending
  | enabled, true => .setEnable
  | enabled, false => .clearEnable

/-- The register that sets or clears a flag of the source whose number is written to it. -/
def numbered : SourceFlag → Bool → Register
  | pending, true => .setPendingNumber
  | pending, false => .clearPendingNumber
  | enabled, true => .setEnableNumber
  | enabled, false => .clearEnableNumber

end SourceFlag

/-- Who accesses the registers of an emulated domain: a driver through its window, or the guest,
which writes 64 bits at the address of a register. -/
inductive RegisterPort where
  | driver
  | guest (high : Word)

namespace RegisterPort

/-- The access that reads a register of the domain at an address. -/
def read (p : RegisterPort) (address : Nat) (r : Register) : EmulatedAccess :=
  match p with
  | driver => .windowRead r.offset
  | guest _ => .guestRead (address + r.offset) .dword

/-- The access that writes a word to a register of the domain at an address. -/
def write (p : RegisterPort) (address : Nat) (r : Register) (value : Word) : EmulatedAccess :=
  match p with
  | driver => .windowWrite r.offset value
  | guest high => .guestWrite (address + r.offset) .dword (high ++ value)

end RegisterPort

namespace EmulatedDomain

variable {d e e' : EmulatedDomain} {r : Register}

/-! ### Ports -/

theorem reached?_register (h : d.HasRegister r) :
    d.reached? (d.address + r.offset) .dword = some r := by
  rw [reached?, if_pos h.accepts, Nat.add_sub_cancel_left, Register.ofOffset?_offset h.1]

theorem addressOf_register (hfits : d.address + d.size ≤ addressSpace) (h : d.HasRegister r) :
    d.addressOf r.offset = d.address + r.offset := by
  have hlt := h.offset_lt_size
  exact Nat.mod_eq_of_lt (by omega)

theorem action?_read (hfits : d.address + d.size ≤ addressSpace) (h : d.HasRegister r)
    (p : RegisterPort) : d.action? (p.read d.address r) = some (.read r) := by
  cases p with
  | driver =>
    simp only [RegisterPort.read, action?, addressOf_register hfits h, reached?_register h,
      Option.map_some]
  | guest high => simp only [RegisterPort.read, action?, reached?_register h, Option.map_some]

theorem action?_write (hfits : d.address + d.size ≤ addressSpace) (h : d.HasRegister r)
    (p : RegisterPort) (value : Word) :
    d.action? (p.write d.address r value) = some (.write r value) := by
  cases p with
  | driver =>
    simp only [RegisterPort.write, action?, addressOf_register hfits h, reached?_register h,
      Option.map_some]
  | guest high =>
    simp only [RegisterPort.write, action?, reached?_register h, Option.map_some,
      BitVec.setWidth_append_eq_right]

/-- Whoever reads a register is answered the word that it reads as. -/
theorem answer?_read (hfits : d.address + d.size ≤ addressSpace) (h : d.HasRegister r)
    (p : RegisterPort) : d.answer? (p.read d.address r) = some (d.readRegister r).1 :=
  d.answer?_of_action? (action?_read hfits h p)

/-- Whoever writes a register changes what the register changes. -/
theorem after_write (hfits : d.address + d.size ≤ addressSpace) (h : d.HasRegister r)
    (p : RegisterPort) (value : Word) :
    d.after (p.write d.address r value) = d.writeRegister r value := by
  rw [after_eq, action?_write hfits h p]
  rfl

/-! ### Registers of flags -/

variable (f : SourceFlag) (on : Bool)

theorem hasRegister_array {w : Nat} (hw : w < bitWords) : d.HasRegister (f.array on w) := by
  cases f <;> cases on <;> exact .of_published hw fun _ _ => by simp [SourceFlag.array]

theorem hasRegister_numbered : d.HasRegister (f.numbered on) := by
  cases f <;> cases on <;> exact .of_published trivial fun _ _ => by simp [SourceFlag.numbered]

theorem readRegister_array (d : EmulatedDomain) (w : Nat) :
    d.readRegister (f.array true w) = (d.flagWord f w, d) := by
  cases f <;> rfl

theorem writeRegister_array (d : EmulatedDomain) (w : Nat) (v : Word) :
    d.writeRegister (f.array on w) v = d.setFlags f on w v := by
  cases f <;> cases on <;> rfl

theorem writeRegister_numbered (d : EmulatedDomain) (v : Word) :
    d.writeRegister (f.numbered on) v = d.setFlag f on v.toNat := by
  cases f <;> cases on <;> rfl

/-- Writes of numbers change one source after the other. -/
theorem afterAll_numbered (hfits : d.address + d.size ≤ addressSpace) (p : RegisterPort)
    {numbers : List Nat} (h : ∀ i ∈ numbers, i < sourceSlots) :
    d.afterAll (numbers.map fun i =>
      p.write d.address (f.numbered on) (BitVec.ofNat 32 i)) =
      numbers.foldl (fun d i => d.setFlag f on i) d := by
  induction numbers generalizing d with
  | nil => rfl
  | cons i rest ih =>
    have hfirst : d.after (p.write d.address (f.numbered on) (BitVec.ofNat 32 i)) =
        d.setFlag f on i := by
      rw [after_write hfits (hasRegister_numbered f on) p, writeRegister_numbered,
        toNat_sourceNumber (h i List.mem_cons_self)]
    have hshape := d.shape_setFlag f on i
    have hrest := ih (d := d.setFlag f on i) (fits_of_shape hshape hfits) fun later hlater =>
      h later (List.mem_cons_of_mem i hlater)
    rw [address_of_shape hshape] at hrest
    rw [List.map_cons, afterAll, List.foldl_cons, hfirst]
    exact hrest

/-! ### Any order -/

/-- Changes by the same rule come to the same. -/
theorem Changes.unique {change : Nat → Source → Source} (h : Changes change d e)
    (h' : Changes change d e') : e' = e :=
  ext_registers (h'.shape.trans h.shape.symm) (h'.config.trans h.config.symm)
    (fun i => (h'.idc i).trans (h.idc i).symm) fun s => (h'.source s).trans (h.source s).symm

/-- The sources in a list are changed in no particular order, and not twice. -/
theorem changes_foldl_setFlag (d : EmulatedDomain) (numbers : List Nat) :
    Changes (fun s x => if s ∈ numbers ∧ d.acceptsFlag s on = true then x.withFlag f on else x) d
      (numbers.foldl (fun d i => d.setFlag f on i) d) where
  shape := d.shape_foldl_setFlag f on numbers
  config := d.config_foldl_setFlag f on numbers
  idc := d.idc_foldl_setFlag f on numbers
  source := d.source_foldl_setFlag f on numbers

/-- A word changes what any list of the numbers of its bits changes. -/
theorem setFlags_eq_foldl_of_mem_iff (d : EmulatedDomain) (w : Nat) {v : Word} {bits : List Nat}
    (h : ∀ k, k ∈ bits ↔ v.getLsbD k = true) :
    d.setFlags f on w v =
      (bits.map fun k => w * 32 + k).foldl (fun d i => d.setFlag f on i) d := by
  have hnumbers := changes_foldl_setFlag f on d (bits.map fun k => w * 32 + k)
  simp only [Word.mem_map_position h] at hnumbers
  exact hnumbers.unique (changes_setFlags d f on w v)

/-! ### Words that are read back -/

/-- The bits of the sources of a word that exist and are active. -/
def activeWord (d : EmulatedDomain) (w : Nat) : Word :=
  .ofBits fun k => d.hasSource (w * 32 + k) && (d.source (w * 32 + k)).mode.isActive

theorem flag_setFlags (d : EmulatedDomain) (w : Nat) (v : Word) (g : SourceFlag) (s : Nat) :
    ((d.setFlags f on w v).source s).flag g =
      if g = f ∧ (s / 32 = w ∧ v.getLsbD (s % 32) = true) ∧ d.acceptsFlag s on = true then on
      else (d.source s).flag g := by
  rw [source_setFlags]
  by_cases hg : g = f
  · subst hg
    split <;> simp [*]
  · split <;> simp [hg]

/-- A bit that is set finds an active source, and a bit that is cleared finds any. -/
theorem flagWord_setFlags (hd : d.Consistent) (w : Nat) (v : Word) :
    (d.setFlags f on w v).flagWord f w =
      if on then d.flagWord f w ||| v &&& d.activeWord w else d.flagWord f w &&& ~~~v := by
  refine BitVec.eq_of_getLsbD_eq fun k hk => ?_
  have hword : (w * 32 + k) / 32 = w := by omega
  have hbit : (w * 32 + k) % 32 = k := by omega
  rw [getLsbD_flagWord, flag_setFlags, hword, hbit]
  cases on with
  | true =>
    simp only [acceptsFlag, Bool.not_true, Bool.false_or, if_true, BitVec.getLsbD_or,
      BitVec.getLsbD_and, getLsbD_flagWord, activeWord, Word.getLsbD_ofBits, hk, decide_true,
      Bool.true_and, true_and]
    split
    next h => rw [h.1, h.2, Bool.true_and, Bool.or_true]
    next h =>
      have hoff : (v.getLsbD k && (d.hasSource (w * 32 + k) &&
          (d.source (w * 32 + k)).mode.isActive)) = false := by
        rw [Bool.eq_false_iff, ne_eq, Bool.and_eq_true]
        exact h
      rw [hoff, Bool.or_false]
  | false =>
    simp only [acceptsFlag, Bool.not_false, Bool.true_or, Bool.and_true, Bool.false_eq_true,
      if_false, BitVec.getLsbD_and, BitVec.getLsbD_not, getLsbD_flagWord, hk, decide_true,
      Bool.true_and, true_and]
    cases hknown : d.hasSource (w * 32 + k) with
    | true => cases v.getLsbD k <;> simp
    | false =>
      rw [hd.absent _ hknown]
      cases f <;> simp [Source.flag, Source.reset]

theorem flagWord_setFlags_of_ne (d : EmulatedDomain) {w w' : Nat} (v : Word) {g : SourceFlag}
    (h : g ≠ f ∨ w' ≠ w) : (d.setFlags f on w v).flagWord g w' = d.flagWord g w' := by
  refine BitVec.eq_of_getLsbD_eq fun k hk => ?_
  have hword : (w' * 32 + k) / 32 = w' := by omega
  rw [getLsbD_flagWord, getLsbD_flagWord, flag_setFlags, hword, if_neg]
  rintro ⟨hg, ⟨hw, -⟩, -⟩
  exact h.elim (fun hne => hne hg) fun hne => hne hw

/-! ### Both ways -/

/-- What a word comes to that is written to an array of a flag, through any port. -/
structure WritesFlags (d : EmulatedDomain) (f : SourceFlag) (on : Bool) (w : Nat) (v : Word) :
    Prop where
  /-- It is as good as the numbers of its bits, in any order. -/
  numbers (p q : RegisterPort) (bits : List Nat) (h : ∀ k, k ∈ bits ↔ v.getLsbD k = true) :
    d.after (p.write d.address (f.array on w) v) =
      d.afterAll (bits.map fun k =>
        q.write d.address (f.numbered on) (BitVec.ofNat 32 (w * 32 + k)))
  /-- The word that is read back has gained the bits of active sources, or lost its bits. -/
  word (p q : RegisterPort) : ∃ old,
    d.answer? (q.read d.address (f.array true w)) = some old ∧
      (d.after (p.write d.address (f.array on w) v)).answer?
        (q.read d.address (f.array true w)) =
          some (if on then old ||| v &&& d.activeWord w else old &&& ~~~v)
  /-- Every other word of either flag reads as before. -/
  others (p q : RegisterPort) (g : SourceFlag) (w' : Nat) (hw : w' < bitWords)
    (hne : g ≠ f ∨ w' ≠ w) : ∃ old,
    d.answer? (q.read d.address (g.array true w')) = some old ∧
      (d.after (p.write d.address (f.array on w) v)).answer?
        (q.read d.address (g.array true w')) = some old

/-- All ways to make the source with a number pending. -/
structure PendsNumber (d : EmulatedDomain) (v : Word) : Prop where
  little (p q : RegisterPort) :
    d.after (q.write d.address .setPendingNumberLittle v) =
      d.after (p.write d.address .setPendingNumber v)
  big (p q : RegisterPort) :
    d.after (q.write d.address .setPendingNumberBig v.swapBytes) =
      d.after (p.write d.address .setPendingNumber v)
  injection (p : RegisterPort) :
    d.after (.inject v.toNat) = d.after (p.write d.address .setPendingNumber v)

theorem writesFlags (hd : d.Consistent) (hfits : d.address + d.size ≤ addressSpace) {w : Nat}
    (hw : w < bitWords) (v : Word) : d.WritesFlags f on w v := by
  have hwrite (p : RegisterPort) :
      d.after (p.write d.address (f.array on w) v) = d.setFlags f on w v := by
    rw [after_write hfits (hasRegister_array f on hw) p, writeRegister_array]
  have hread (q : RegisterPort) (g : SourceFlag) {w' : Nat} (hw : w' < bitWords) :
      d.answer? (q.read d.address (g.array true w')) = some (d.flagWord g w') := by
    rw [answer?_read hfits (hasRegister_array g true hw) q, readRegister_array]
  have hreadBack (q : RegisterPort) (g : SourceFlag) {w' : Nat} (hw : w' < bitWords) :
      (d.setFlags f on w v).answer? (q.read d.address (g.array true w')) =
        some ((d.setFlags f on w v).flagWord g w') := by
    have hshape := d.shape_setFlags f on w v
    rw [← address_of_shape hshape, answer?_read (fits_of_shape hshape hfits)
      (hasRegister_array g true hw) q, readRegister_array]
  refine ⟨fun p q bits h => ?_, fun p q => ?_, fun p q g w' hw' hne => ?_⟩
  · have hslots : ∀ i ∈ bits.map (fun k => w * 32 + k), i < sourceSlots := by
      intro i hi
      have hword := ((Word.mem_map_position h w i).mp hi).1
      simp only [bitWords, sourceSlots] at hw ⊢
      omega
    have hnumbers := afterAll_numbered f on hfits q hslots
    rw [List.map_map] at hnumbers
    rw [hwrite, setFlags_eq_foldl_of_mem_iff f on d w h, ← hnumbers]
    rfl
  · refine ⟨_, hread q f hw, ?_⟩
    rw [hwrite, hreadBack q f hw, flagWord_setFlags f on hd]
  · refine ⟨_, hread q g hw', ?_⟩
    rw [hwrite, hreadBack q g hw', flagWord_setFlags_of_ne f on d v hne]

theorem pendsNumber (hfits : d.address + d.size ≤ addressSpace) (v : Word) : d.PendsNumber v := by
  have hnumber : d.HasRegister .setPendingNumber := .of_published trivial fun _ _ => by simp
  have hlittle : d.HasRegister .setPendingNumberLittle := .of_published trivial fun _ _ => by simp
  have hbig : d.HasRegister .setPendingNumberBig := .of_published trivial fun _ _ => by simp
  refine ⟨fun p q => ?_, fun p q => ?_, fun p => ?_⟩
  · rw [after_write hfits hlittle, after_write hfits hnumber]
    rfl
  · rw [after_write hfits hbig, after_write hfits hnumber, writeRegister, writeRegister,
      Word.swapBytes_swapBytes]
  · rw [after_write hfits hnumber]
    rfl

/-- Words and numbers agree, in every state that a domain can reach. -/
theorem words_agree_with_numbers (hd : d.Reachable) (hfits : d.address + d.size ≤ addressSpace) :
    (∀ (f : SourceFlag) (on : Bool) (w : Nat) (v : Word), w < bitWords → d.WritesFlags f on w v) ∧
      ∀ v, d.PendsNumber v :=
  ⟨fun f on _ v hw => writesFlags f on hd.consistent hfits hw v, fun v => pendsNumber hfits v⟩

/-- A word names the reserved source 0, the inactive source 1, the active source 3 and two sources
that the domain does not have. Source 5 is already pending. -/
theorem words_agree_with_numbers_sampleAccesses :
    let d := sample.afterAll sampleAccesses.dropLast
    d.Reachable ∧ d.address + d.size ≤ addressSpace ∧ d.flagWord .pending 0 = 0x20 ∧
      d.activeWord 0 = 0x28 ∧ (d.setFlags .pending true 0 0x8000010B).flagWord .pending 0 = 0x28 ∧
      d.WritesFlags .pending true 0 0x8000010B ∧ d.PendsNumber 3 := by
  intro d
  have hd : d.Reachable := sample_reachable.afterAll _
  have hfits : d.address + d.size ≤ addressSpace := by decide
  obtain ⟨hwords, hnumbers⟩ := words_agree_with_numbers hd hfits
  exact ⟨hd, hfits, by decide, by decide, by decide, hwords _ _ _ _ (by decide), hnumbers 3⟩

end EmulatedDomain

end AdvancedInterrupts
