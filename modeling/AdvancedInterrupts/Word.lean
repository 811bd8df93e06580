/-!
# Register words

Registers are 32 bits wide and hold numbers in bit fields or one flag per bit.
Words are built from a predicate on bit positions, and taken apart into the
ascending list of positions that are set.
-/
namespace AdvancedInterrupts

/-- The contents of a 32-bit register. -/
abbrev Word : Type := BitVec 32

/-- A number inside a register: its lowest bit and how many bits it takes. -/
structure BitField where
  low : Nat
  width : Nat
deriving DecidableEq, Repr

namespace BitField

/-- The largest number that fits the field. -/
def max (f : BitField) : Nat := 1 <<< f.width - 1

/-- A number in the place of the field. -/
def place (f : BitField) (value : Nat) : Word := BitVec.ofNat 32 value <<< f.low

/-- The bits of the field. -/
def mask (f : BitField) : Word := f.place f.max

end BitField

namespace Word

/-- The number in a field of the word. -/
def field (w : Word) (f : BitField) : Nat := (w.extractLsb' f.low f.width).toNat

theorem field_eq (w : Word) (f : BitField) :
    field w f = w.toNat >>> f.low % (f.max + 1) := by
  have hmax : f.max + 1 = 1 <<< f.width := by
    have hpos := Nat.two_pow_pos f.width
    rw [BitField.max, Nat.one_shiftLeft]
    omega
  rw [field, BitVec.extractLsb'_toNat, hmax, Nat.one_shiftLeft]

theorem field_le (w : Word) (f : BitField) : field w f ≤ f.max := by
  rw [field_eq]
  exact Nat.le_of_lt_succ (Nat.mod_lt _ (Nat.succ_pos _))

/-- The word of a register that holds one flag. -/
def ofFlag (on : Bool) : Word := if on then 1 else 0

/-- The word with exactly bit `i` set. -/
def single (i : Nat) : Word := BitVec.twoPow 32 i

/-- The word that has bit `i` set when `f i` holds, for every `i` below `n`. -/
def ofBitsBelow (f : Nat → Bool) : Nat → Word
  | 0 => 0
  | n + 1 => if f n then ofBitsBelow f n ||| single n else ofBitsBelow f n

/-- The word whose bit `i` is `f i`. -/
def ofBits (f : Nat → Bool) : Word := ofBitsBelow f 32

theorem getLsbD_ofBitsBelow (f : Nat → Bool) (n i : Nat) :
    (ofBitsBelow f n).getLsbD i = (decide (i < n) && decide (i < 32) && f i) := by
  induction n with
  | zero => simp [ofBitsBelow]
  | succ n ih =>
    by_cases hf : f n <;> by_cases hi : i = n
    · subst hi; simp [ofBitsBelow, hf, ih, single]
    · have : (i < n + 1) = (i < n) := by apply propext; omega
      have hn : ¬ n = i := fun h => hi h.symm
      simp [ofBitsBelow, hf, ih, single, this, hn]
    · subst hi; simp [ofBitsBelow, hf, ih]
    · have : (i < n + 1) = (i < n) := by apply propext; omega
      simp [ofBitsBelow, hf, ih, this]

@[simp] theorem getLsbD_ofBits (f : Nat → Bool) (i : Nat) :
    (ofBits f).getLsbD i = (decide (i < 32) && f i) := by
  simp [ofBits, getLsbD_ofBitsBelow]

@[simp] theorem getElem_ofBits (f : Nat → Bool) {i : Nat} (h : i < 32) :
    (ofBits f)[i] = f i := by
  rw [← BitVec.getLsbD_eq_getElem, getLsbD_ofBits]
  simp [h]

/-- The positions of the bits that are set, in ascending order. -/
def ones (w : Word) : List Nat := (List.range 32).filter fun i => w.getLsbD i

@[simp] theorem mem_ones (w : Word) (i : Nat) : i ∈ ones w ↔ w.getLsbD i = true := by
  simp only [ones, List.mem_filter, List.mem_range, and_iff_right_iff_imp]
  exact fun h => BitVec.lt_of_getLsbD h

/-- A number that is listed for one of the bits of a word is found from its word and its bit. -/
theorem mem_map_position {w : Word} {bits : List Nat} (h : ∀ i, i ∈ bits ↔ w.getLsbD i = true)
    (word number : Nat) :
    number ∈ bits.map (fun bit => word * 32 + bit) ↔
      number / 32 = word ∧ w.getLsbD (number % 32) = true := by
  simp only [List.mem_map, h]
  constructor
  · rintro ⟨bit, hb, rfl⟩
    have hlt : bit < 32 := BitVec.lt_of_getLsbD hb
    have hdiv : (word * 32 + bit) / 32 = word := by omega
    have hmod : (word * 32 + bit) % 32 = bit := by omega
    exact ⟨hdiv, by rwa [hmod]⟩
  · rintro ⟨rfl, hb⟩
    exact ⟨number % 32, hb, by omega⟩

/-- The word with its four bytes in the opposite order. -/
def swapBytes (w : Word) : Word :=
  w.extractLsb' 0 8 ++ w.extractLsb' 8 8 ++ w.extractLsb' 16 8 ++ w.extractLsb' 24 8

end Word

end AdvancedInterrupts
