import AdvancedInterrupts.Proofs.DispatchIdentity
import Mathlib.Data.Finset.Card

/-!
# An interrupt file

What the driver relies on of the file of the running hart: which identities are
pending, the bits that enable them, and the threshold. The top interrupt is the
lowest identity that is pending and let through. Reading it claims it, in one
step, and its word has the identity twice, so a claim decodes it without loss.
-/
namespace AdvancedInterrupts

/-- The state of a file, with the enable bits in words as their registers have them. -/
structure InterruptFile where
  threshold : BitVec 64
  enable : Nat → BitVec 64
  pending : Nat → Bool

namespace InterruptFile

variable (f : InterruptFile)

/-- The enable bit of an identity. -/
def enabled (e : Nat) : Bool :=
  (f.enable (e / FileRegister.enableBits)).getLsbD (e % FileRegister.enableBits)

/-- Whether the threshold lets an identity through; zero lets every one through. -/
def admits (e : Nat) : Bool := f.threshold == 0 || decide (e < f.threshold.toNat)

/-- Whether an identity waits to be claimed. -/
def claimable (e : Nat) : Bool :=
  decide (1 ≤ e ∧ e ≤ maxFileIdentity) && (f.pending e && (f.enabled e && f.admits e))

/-- The lowest identity that waits to be claimed. -/
def top? : Option Nat := (List.range (maxFileIdentity + 1)).find? f.claimable

/-- The word that reports an identity, which stands in both of its halves. -/
def word (e : Nat) : BitVec 64 := BitVec.ofNat 64 e <<< 16 ||| BitVec.ofNat 64 e

/-- The word that reports the top interrupt, which is zero when there is none. -/
def topWord : BitVec 64 := f.top?.elim 0 word

/-- The file with an identity no longer pending. -/
def withdraw (e : Nat) : InterruptFile := { f with pending := fun x => x != e && f.pending x }

/-- The file after its top interrupt was claimed. -/
def afterClaim : InterruptFile := f.top?.elim f f.withdraw

/-- The file after a write to an indirect register. Delivery from the file, and whatever else it
has, plays no part in which interrupts can be claimed. -/
def write (register : Nat) (value : BitVec 64) : InterruptFile :=
  { f with
    threshold := if register = FileRegister.threshold then value else f.threshold
    enable := fun word => if register = FileRegister.enableWord word then value else f.enable word }

theorem claimable_iff (e : Nat) : f.claimable e = true ↔
    (1 ≤ e ∧ e ≤ maxFileIdentity) ∧ f.pending e = true ∧ f.enabled e = true ∧
      f.admits e = true := by
  simp only [claimable, Bool.and_eq_true, decide_eq_true_eq]

variable {f} {e : Nat}

theorem le_of_claimable (h : f.claimable e = true) : 1 ≤ e ∧ e ≤ maxFileIdentity :=
  ((f.claimable_iff e).mp h).1

/-- The top interrupt is the lowest one that waits. -/
theorem top?_eq_some_iff :
    f.top? = some e ↔ f.claimable e = true ∧ ∀ x < e, f.claimable x = false := by
  simp only [top?, List.find?_range_eq_some, Bool.not_eq_eq_eq_not, Bool.not_true, List.mem_range]
  refine and_congr_right fun h => and_iff_right ?_
  have hle := (le_of_claimable h).2
  omega

theorem top?_eq_none_iff : f.top? = none ↔ ∀ e, f.claimable e = false := by
  simp only [top?, List.find?_range_eq_none, Bool.not_eq_eq_eq_not, Bool.not_true]
  refine ⟨fun h e => ?_, fun h e _ => h e⟩
  rw [Bool.eq_false_iff]
  intro he
  have hle := (le_of_claimable he).2
  have hnot := h e (by omega)
  rw [he] at hnot
  cases hnot

theorem toNat_word_div {e : Nat} (he : e ≤ maxFileIdentity) :
    ((word e).setWidth 32).toNat / 2 ^ 16 = e := by
  rw [maxFileIdentity] at he
  have hmax : e < 2 ^ 16 := by omega
  have hsum : e <<< 16 ||| e = e * 2 ^ 16 + e := by
    rw [← Nat.shiftLeft_add_eq_or_of_lt hmax, Nat.shiftLeft_eq]
  have hlow : e % 2 ^ 64 = e := Nat.mod_eq_of_lt (by omega)
  have hhigh : e <<< 16 % 2 ^ 64 = e <<< 16 := by
    rw [Nat.shiftLeft_eq]
    exact Nat.mod_eq_of_lt (by omega)
  rw [word, BitVec.toNat_setWidth, BitVec.toNat_or, BitVec.toNat_shiftLeft, BitVec.toNat_ofNat,
    hlow, hhigh, hsum, Nat.mod_eq_of_lt (by omega)]
  omega

/-- A claim decodes the top interrupt; it is spurious exactly when there is none. -/
theorem identity_topWord (f : InterruptFile) :
    (Claim.ofFileWord (f.topWord.setWidth 32)).identity = f.top?.getD 0 := by
  unfold topWord
  cases htop : f.top? with
  | none => rfl
  | some e =>
    have hle := (le_of_claimable (top?_eq_some_iff.mp htop).1).2
    exact Claim.identity_ofFileWord (toNat_word_div hle) hle

theorem isSpurious_topWord (f : InterruptFile) :
    (Claim.ofFileWord (f.topWord.setWidth 32)).isSpurious = f.top?.isNone := by
  rw [Claim.isSpurious, identity_topWord]
  cases htop : f.top? with
  | none => rfl
  | some e =>
    have hpos := (le_of_claimable (top?_eq_some_iff.mp htop).1).1
    exact beq_false_of_ne (by rw [Option.getD_some]; omega)

/-- Claiming an identity takes nothing but this one from those that wait. -/
theorem claimable_withdraw (f : InterruptFile) (e x : Nat) :
    (f.withdraw e).claimable x = (x != e && f.claimable x) := by
  have henabled : (f.withdraw e).enabled x = f.enabled x := rfl
  have hadmits : (f.withdraw e).admits x = f.admits x := rfl
  have hpending : (f.withdraw e).pending x = (x != e && f.pending x) := rfl
  rw [claimable, claimable, henabled, hadmits, hpending, Bool.and_assoc, Bool.and_left_comm]

/-- The identities that wait. -/
def waiting (f : InterruptFile) : Finset Nat :=
  (Finset.range (maxFileIdentity + 1)).filter fun e => f.claimable e = true

theorem card_waiting_withdraw (h : f.claimable e = true) :
    (f.withdraw e).waiting.card < f.waiting.card := by
  have hle := (le_of_claimable h).2
  refine Finset.card_lt_card (Finset.ssubset_iff_of_subset ?_ |>.mpr ⟨e, ?_, ?_⟩)
  · intro x hx
    simp only [waiting, Finset.mem_filter, claimable_withdraw, Bool.and_eq_true] at hx ⊢
    exact ⟨hx.1, hx.2.2⟩
  · simp only [waiting, Finset.mem_filter, Finset.mem_range]
    exact ⟨by omega, h⟩
  · simp [waiting, claimable_withdraw]

/-- What was claimed of a file, and all that this has changed. -/
structure Drained (ids : List Nat) (f g : InterruptFile) : Prop where
  /-- Exactly what could be claimed has been claimed. -/
  mem_iff (e : Nat) : e ∈ ids ↔ f.claimable e = true
  /-- Lower identities were claimed before higher ones, and none twice. -/
  ascending : ids.Pairwise (· < ·)
  threshold : g.threshold = f.threshold
  enable : g.enable = f.enable
  /-- What was claimed is no longer pending. -/
  pending (e : Nat) : g.pending e = (f.pending e && !decide (e ∈ ids))

theorem afterClaim_of_none (h : f.top? = none) : f.afterClaim = f := by
  rw [afterClaim, h, Option.elim_none]

theorem afterClaim_of_some (h : f.top? = some e) : f.afterClaim = f.withdraw e := by
  rw [afterClaim, h, Option.elim_some]

theorem Drained.nil (h : f.top? = none) : Drained [] f f where
  mem_iff e := by
    rw [top?_eq_none_iff.mp h e]
    simp
  ascending := .nil
  threshold := rfl
  enable := rfl
  pending e := by simp

/-- The top interrupt is claimed before everything that can be claimed after it. -/
theorem Drained.cons {ids : List Nat} {g : InterruptFile} (htop : f.top? = some e)
    (h : Drained ids (f.withdraw e) g) : Drained (e :: ids) f g := by
  obtain ⟨hclaimable, hlowest⟩ := top?_eq_some_iff.mp htop
  have hrest (x : Nat) : x ∈ ids ↔ x ≠ e ∧ f.claimable x = true := by
    rw [h.mem_iff, claimable_withdraw, Bool.and_eq_true, bne_iff_ne]
  refine ⟨fun x => ?_, List.pairwise_cons.mpr ⟨fun x hx => ?_, h.ascending⟩, h.threshold, h.enable,
    fun x => ?_⟩
  · rw [List.mem_cons, hrest]
    by_cases hx : x = e
    · subst hx
      simp [hclaimable]
    · simp [hx]
  · obtain ⟨hne, hx⟩ := (hrest x).mp hx
    by_contra hnot
    have hlow := hlowest x (by omega)
    rw [hx] at hlow
    cases hlow
  · have hpending : (f.withdraw e).pending x = (x != e && f.pending x) := rfl
    rw [h.pending, hpending]
    by_cases hx : x = e
    · simp [hx]
    · simp [hx, bne_iff_ne.mpr hx]

end InterruptFile

end AdvancedInterrupts
