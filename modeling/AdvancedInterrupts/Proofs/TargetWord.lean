import AdvancedInterrupts.Register.Map
import AdvancedInterrupts.Target
import Mathlib.Algebra.Group.Nat.Defs

/-!
# Fields of target words

A field of a word can be replaced without touching the others. A target word
that is built from a hart index and a number has these two in its fields, and
what a domain keeps of a word is again such a word: under direct delivery the
hart index and the priority, under message delivery everything but the unused
bit.
-/
namespace AdvancedInterrupts

namespace BitField

theorem max_eq (f : BitField) : f.max = 2 ^ f.width - 1 := by
  rw [max, Nat.one_shiftLeft]

theorem lt_two_pow_of_le_max {f : BitField} {value : Nat} (h : value ≤ f.max) :
    value < 2 ^ f.width := by
  have hpos := Nat.two_pow_pos f.width
  rw [max_eq] at h
  omega

theorem getLsbD_place (f : BitField) (value bit : Nat) :
    (f.place value).getLsbD bit =
      (decide (bit < 32) && decide (f.low ≤ bit) && value.testBit (bit - f.low)) := by
  rw [place, BitVec.getLsbD_shiftLeft, BitVec.getLsbD_ofNat]
  by_cases hlow : f.low ≤ bit
  · have hnot : ¬ bit < f.low := by omega
    by_cases hbit : bit < 32
    · have hsub : bit - f.low < 32 := by omega
      simp [hbit, hlow, hnot, hsub]
    · simp [hbit]
  · have hlt : bit < f.low := by omega
    simp [hlow, hlt]

theorem getLsbD_mask {f : BitField} (hf : f.low + f.width ≤ 32) (bit : Nat) :
    f.mask.getLsbD bit = decide (f.low ≤ bit ∧ bit < f.low + f.width) := by
  rw [mask, getLsbD_place, max_eq, Nat.testBit_two_pow_sub_one]
  by_cases h : f.low ≤ bit ∧ bit < f.low + f.width
  · have hbit : bit < 32 := by omega
    have hsub : bit - f.low < f.width := by omega
    simp [h, hbit, hsub]
  · have hnot : ¬ ((bit < 32 ∧ f.low ≤ bit) ∧ bit - f.low < f.width) := by omega
    rw [← Bool.decide_and, ← Bool.decide_and, decide_eq_false hnot, decide_eq_false h]

end BitField

namespace Word

variable (w : Word) {f g : BitField} {value : Nat}

theorem testBit_field (f : BitField) (bit : Nat) :
    (w.field f).testBit bit = (decide (bit < f.width) && w.getLsbD (f.low + bit)) := by
  rw [field, BitVec.testBit_toNat, BitVec.getLsbD_extractLsb']

/-- The bits of a field, taken out of a word in place. -/
theorem and_mask (hf : f.low + f.width ≤ 32) : w &&& f.mask = f.place (w.field f) := by
  apply BitVec.eq_of_getLsbD_eq
  intro bit hbit
  rw [BitVec.getLsbD_and, BitField.getLsbD_mask hf, BitField.getLsbD_place, testBit_field]
  by_cases h : f.low ≤ bit ∧ bit < f.low + f.width
  · have hsub : bit - f.low < f.width := by omega
    have hadd : f.low + (bit - f.low) = bit := by omega
    simp [h, hbit, hsub, hadd]
  · rw [decide_eq_false h, Bool.and_false]
    by_cases hlow : f.low ≤ bit
    · have hsub : ¬ bit - f.low < f.width := by omega
      simp [hsub]
    · simp [hlow]

/-- A word with one field replaced has the bits of the new number there, and its own ones
elsewhere. -/
theorem getLsbD_replace (hf : f.low + f.width ≤ 32) (hvalue : value ≤ f.max) (bit : Nat) :
    (w &&& ~~~f.mask ||| f.place value).getLsbD bit =
      if f.low ≤ bit ∧ bit < f.low + f.width then value.testBit (bit - f.low)
      else w.getLsbD bit := by
  rw [BitVec.getLsbD_or, BitVec.getLsbD_and, BitVec.getLsbD_not, BitField.getLsbD_mask hf,
    BitField.getLsbD_place]
  by_cases h : f.low ≤ bit ∧ bit < f.low + f.width
  · have hbit : bit < 32 := by omega
    simp [h, hbit]
  · -- Outside the field neither the mask nor the number has a bit.
    have hnone : (decide (f.low ≤ bit) && value.testBit (bit - f.low)) = false := by
      by_cases hlow : f.low ≤ bit
      · have hpow : 2 ^ f.width ≤ 2 ^ (bit - f.low) := Nat.pow_le_pow_right (by decide) (by omega)
        have hlt := BitField.lt_two_pow_of_le_max hvalue
        rw [Nat.testBit_lt_two_pow (Nat.lt_of_lt_of_le hlt hpow), Bool.and_false]
      · rw [decide_eq_false hlow, Bool.false_and]
    rw [if_neg h, decide_eq_false h, Bool.and_assoc, hnone]
    by_cases hbit : bit < 32
    · simp [hbit]
    · simp [BitVec.getLsbD_of_ge w bit (by omega)]

theorem field_replace_self (hf : f.low + f.width ≤ 32) (hvalue : value ≤ f.max) :
    (w &&& ~~~f.mask ||| f.place value).field f = value := by
  apply Nat.eq_of_testBit_eq
  intro bit
  rw [testBit_field, getLsbD_replace w hf hvalue]
  by_cases h : bit < f.width
  · have hin : f.low ≤ f.low + bit ∧ f.low + bit < f.low + f.width := by omega
    rw [if_pos hin, decide_eq_true h, Bool.true_and, Nat.add_sub_cancel_left]
  · have hpow : 2 ^ f.width ≤ 2 ^ bit := Nat.pow_le_pow_right (by decide) (Nat.le_of_not_lt h)
    have hlt := BitField.lt_two_pow_of_le_max hvalue
    rw [decide_eq_false h, Bool.false_and, Nat.testBit_lt_two_pow (Nat.lt_of_lt_of_le hlt hpow)]

/-- Another field keeps its number when a field is replaced. -/
theorem field_replace_of_disjoint (hf : f.low + f.width ≤ 32) (hvalue : value ≤ f.max)
    (hdisjoint : f.low + f.width ≤ g.low ∨ g.low + g.width ≤ f.low) :
    (w &&& ~~~f.mask ||| f.place value).field g = w.field g := by
  apply Nat.eq_of_testBit_eq
  intro bit
  rw [testBit_field, testBit_field, getLsbD_replace w hf hvalue]
  by_cases h : bit < g.width
  · rw [if_neg (by omega)]
  · rw [decide_eq_false h, Bool.false_and, Bool.false_and]

end Word

namespace Target

variable {hart priority : Nat} (w : Word)

theorem getLsbD_word (hart value bit : Nat) :
    (word hart value).getLsbD bit = (decide (bit < 32) &&
      (decide (18 ≤ bit) && hart.testBit (bit - 18) || value.testBit bit)) := by
  have hlow : hartField.low = 18 := rfl
  rw [word, BitVec.getLsbD_or, BitField.getLsbD_place, BitVec.getLsbD_ofNat, hlow]
  cases decide (bit < 32) <;> rfl

theorem toNat_word (hhart : hart ≤ hartField.max) (hpriority : priority < 2 ^ 18) :
    (word hart priority).toNat = hart * 2 ^ 18 + priority := by
  have hmax : hartField.max = 2 ^ 14 - 1 := rfl
  have hlow : hartField.low = 18 := rfl
  have hplace : (hartField.place hart).toNat = hart <<< 18 := by
    rw [BitField.place, BitVec.toNat_shiftLeft, BitVec.toNat_ofNat, hlow,
      Nat.mod_eq_of_lt (show hart < 2 ^ 32 by omega), Nat.shiftLeft_eq]
    omega
  have hnumber : (BitVec.ofNat 32 priority).toNat = priority := by
    rw [BitVec.toNat_ofNat]
    omega
  rw [word, BitVec.toNat_or, hplace, hnumber, ← Nat.shiftLeft_add_eq_or_of_lt hpriority,
    Nat.shiftLeft_eq]

/-- A number of at most 18 bits does not reach into the hart index. -/
theorem hart_word_of_lt {value : Nat} (hhart : hart ≤ hartField.max) (hvalue : value < 2 ^ 18) :
    Target.hart (word hart value) = hart := by
  have hmax : hartField.max = 2 ^ 14 - 1 := rfl
  have hlow : hartField.low = 18 := rfl
  rw [Target.hart, Word.field_eq, toNat_word hhart hvalue, Nat.shiftRight_eq_div_pow, hmax, hlow]
  omega

theorem hart_word (hhart : hart ≤ hartField.max) (hpriority : priority ≤ maxPriority) :
    Target.hart (word hart priority) = hart := by
  rw [maxPriority] at hpriority
  exact hart_word_of_lt hhart (by omega)

theorem priority_word (hhart : hart ≤ hartField.max) (hpriority : priority ≤ maxPriority) :
    Target.priority (word hart priority) = priority := by
  have hmax : priorityField.max = 2 ^ 8 - 1 := rfl
  have hlow : priorityField.low = 0 := rfl
  rw [maxPriority] at hpriority
  rw [Target.priority, Word.field_eq, toNat_word hhart (by omega), Nat.shiftRight_eq_div_pow, hmax,
    hlow]
  omega

/-- A domain with direct delivery keeps the hart index and the priority of a word, and a priority
of zero as one. -/
theorem stored_direct : stored .direct w = word (Target.hart w) (max (Target.priority w) 1) := by
  have hhart : w &&& hartField.mask = hartField.place (Target.hart w) := w.and_mask (by decide)
  have hpriority : w &&& priorityField.mask = BitVec.ofNat 32 (Target.priority w) := by
    have hplace : priorityField.place (Target.priority w) = BitVec.ofNat 32 (Target.priority w) :=
      BitVec.shiftLeft_zero _
    rw [← hplace]
    exact w.and_mask (by decide)
  have hle : Target.priority w ≤ maxPriority := Word.field_le w priorityField
  rw [maxPriority] at hle
  have hzero : BitVec.ofNat 32 (Target.priority w) = 0 ↔ Target.priority w = 0 := by
    rw [← BitVec.toNat_inj, BitVec.toNat_ofNat, Nat.mod_eq_of_lt (by omega)]
    rfl
  simp only [stored, hhart, hpriority, hzero, word]
  split
  next h => rw [h]; rfl
  next h => rw [Nat.max_eq_left (by omega)]

/-- A domain with direct delivery keeps a word with a hart index and a priority as it is. -/
theorem stored_word (hhart : hart ≤ hartField.max) (hone : 1 ≤ priority)
    (hpriority : priority ≤ maxPriority) :
    stored .direct (word hart priority) = word hart priority := by
  rw [stored_direct, hart_word hhart hpriority, priority_word hhart hpriority,
    Nat.max_eq_left hone]

/-- A priority that is replaced is the only thing that a domain with direct delivery sees
change. -/
theorem stored_withPriority (hone : 1 ≤ priority) (hpriority : priority ≤ maxPriority) :
    stored .direct (withPriority w priority) = word (Target.hart w) priority := by
  have hhart : Target.hart (withPriority w priority) = Target.hart w :=
    w.field_replace_of_disjoint (by decide) hpriority (by decide)
  have hself : Target.priority (withPriority w priority) = priority :=
    w.field_replace_self (by decide) hpriority
  rw [stored_direct, hhart, hself, Nat.max_eq_left hone]

theorem stored_withHart (hhart : hart ≤ hartField.max) :
    stored .direct (withHart w hart) = word hart (max (Target.priority w) 1) := by
  have hself : Target.hart (withHart w hart) = hart := w.field_replace_self (by decide) hhart
  have hpriority : Target.priority (withHart w hart) = Target.priority w :=
    w.field_replace_of_disjoint (by decide) hhart (by decide)
  rw [stored_direct, hself, hpriority]

/-- A domain with message delivery keeps every bit but the one between the guest file and the
identity. -/
theorem getLsbD_stored_msi (bit : Nat) :
    (stored .msi w).getLsbD bit = (decide (bit ≠ 11) && w.getLsbD bit) := by
  have hmask : (hartField.mask ||| guestField.mask ||| identityField.mask).getLsbD bit =
      (decide (bit < 32) && decide (bit ≠ 11)) := by
    rw [BitVec.getLsbD_or, BitVec.getLsbD_or, BitField.getLsbD_mask (by decide),
      BitField.getLsbD_mask (by decide), BitField.getLsbD_mask (by decide)]
    rw [Bool.eq_iff_iff]
    simp only [Bool.or_eq_true, Bool.and_eq_true, decide_eq_true_eq]
    simp only [hartField, guestField, identityField]
    omega
  rw [stored, BitVec.getLsbD_and, hmask]
  by_cases hbit : bit < 32
  · simp [hbit, Bool.and_comm]
  · simp [BitVec.getLsbD_of_ge w bit (by omega)]

/-- A domain with message delivery keeps the number in every field without this bit. -/
theorem field_stored_msi {f : BitField} (hf : f.low + f.width ≤ 11 ∨ 11 < f.low) :
    (stored .msi w).field f = w.field f := by
  apply Nat.eq_of_testBit_eq
  intro bit
  rw [Word.testBit_field, Word.testBit_field, getLsbD_stored_msi]
  by_cases hbit : bit < f.width
  · have hgap : f.low + bit ≠ 11 := by omega
    rw [decide_eq_true hgap, Bool.true_and]
  · rw [decide_eq_false hbit, Bool.false_and, Bool.false_and]

/-- A domain with message delivery keeps a word with a hart index and an identity as it is. -/
theorem stored_msi_word {identity : Nat} (hidentity : identity ≤ identityField.max) :
    stored .msi (word hart identity) = word hart identity := by
  apply BitVec.eq_of_getLsbD_eq
  intro bit _
  rw [getLsbD_stored_msi]
  by_cases h : bit = 11
  · subst h
    have hlt : identity < 2 ^ 11 := BitField.lt_two_pow_of_le_max hidentity
    rw [getLsbD_word, Nat.testBit_lt_two_pow hlt]
    rfl
  · rw [decide_eq_true h, Bool.true_and]

/-- A hart index that is replaced is the only thing that a domain with message delivery sees
change. -/
theorem stored_msi_withHart (hhart : hart ≤ hartField.max) (hgap : w.getLsbD 11 = false) :
    stored .msi (withHart w hart) = word hart (w.setWidth 18).toNat := by
  have hlow : hartField.low = 18 := rfl
  have hwidth : hartField.width = 14 := rfl
  apply BitVec.eq_of_getLsbD_eq
  intro bit hbit
  rw [getLsbD_stored_msi, withHart, Word.getLsbD_replace w (by decide) hhart, getLsbD_word,
    BitVec.testBit_toNat, BitVec.getLsbD_setWidth, hlow, hwidth, decide_eq_true hbit]
  by_cases hin : 18 ≤ bit
  · have hne : bit ≠ 11 := by omega
    have hnot : ¬ bit < 18 := by omega
    simp [hin, hne, hnot, hbit]
  · by_cases hne : bit = 11
    · subst hne
      rw [hgap]
      simp
    · have hlt : bit < 18 := by omega
      simp [hin, hne, hlt]

end Target

end AdvancedInterrupts
