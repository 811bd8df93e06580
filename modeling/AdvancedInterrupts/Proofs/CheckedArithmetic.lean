import AdvancedInterrupts.AddressRange
import AdvancedInterrupts.Proofs.TargetWord
import AdvancedInterrupts.Table

/-!
# Checked arithmetic

Machine arithmetic and array accesses that fail where a machine would: an index
past the end, a difference below zero, a result that is no machine number, or a
shift by a whole word. Each operation comes with the condition under which it
succeeds, and a loop succeeds if every round does.
-/
namespace AdvancedInterrupts

/-- Why a computation on machine numbers and arrays fails. -/
inductive Fault where
  /-- An index past the end of an array. -/
  | index
  /-- A difference below zero. -/
  | underflow
  /-- A result that is no machine number. -/
  | overflow
  /-- A shift by as many bits as a word has, or more. -/
  | shift
deriving DecidableEq, Repr

namespace Checked

/-- An index of an array. -/
def index (length i : Nat) : Except Fault Nat := if i < length then pure i else throw .index

def sub (a b : Nat) : Except Fault Nat := if b ≤ a then pure (a - b) else throw .underflow

def add (a b : Nat) : Except Fault Nat :=
  if a + b < addressSpace then pure (a + b) else throw .overflow

def mul (a b : Nat) : Except Fault Nat :=
  if a * b < addressSpace then pure (a * b) else throw .overflow

def shiftLeft (w : Word) (amount : Nat) : Except Fault Word :=
  if amount < 32 then pure (w <<< amount) else throw .shift

def shiftRight (w : Word) (amount : Nat) : Except Fault Word :=
  if amount < 32 then pure (w >>> amount) else throw .shift

variable {a b amount : Nat}

theorem index_eq (h : a < b) : index b a = pure a := if_pos h

theorem sub_eq (h : b ≤ a) : sub a b = pure (a - b) := if_pos h

theorem add_eq (h : a + b < addressSpace) : add a b = pure (a + b) := if_pos h

theorem mul_eq (h : a * b < addressSpace) : mul a b = pure (a * b) := if_pos h

theorem shiftLeft_eq (w : Word) (h : amount < 32) : shiftLeft w amount = pure (w <<< amount) :=
  if_pos h

theorem shiftRight_eq (w : Word) (h : amount < 32) : shiftRight w amount = pure (w >>> amount) :=
  if_pos h

/-- A loop over the numbers below `n` goes through known states if every round does its part. -/
theorem foldlM_range {β : Type} {round : β → Nat → Except Fault β} {state : Nat → β} {n : Nat}
    (h : ∀ i < n, round (state i) i = pure (state (i + 1))) :
    (List.range n).foldlM round (state 0) = pure (state n) := by
  induction n with
  | zero => rfl
  | succ n ih =>
    rw [List.range_succ, List.foldlM_append, ih fun i hi => h i (by omega), pure_bind,
      List.foldlM_cons, h n (by omega), pure_bind, List.foldlM_nil]

/-- A loop succeeds if every round does. -/
theorem foldlM_eq {α β : Type} {round : β → α → Except Fault β} {f : β → α → β} {xs : List α}
    (h : ∀ x ∈ xs, ∀ s, round s x = pure (f s x)) (s : β) :
    xs.foldlM round s = pure (xs.foldl f s) := by
  induction xs generalizing s with
  | nil => rfl
  | cons x rest ih =>
    rw [List.foldlM_cons, h x List.mem_cons_self, pure_bind, List.foldl_cons]
    exact ih (fun y hy => h y (List.mem_cons_of_mem x hy)) _

end Checked

namespace BitField

/-- A number that has to fit the field, shifted into its place. -/
def checkedPlace (f : BitField) (value : Nat) : Except Fault Word :=
  if value ≤ f.max then Checked.shiftLeft (BitVec.ofNat 32 value) f.low else throw .overflow

theorem checkedPlace_eq {f : BitField} {value : Nat} (hlow : f.low < 32) (hfit : value ≤ f.max) :
    f.checkedPlace value = pure (f.place value) := by
  rw [checkedPlace, if_pos hfit]
  exact Checked.shiftLeft_eq _ hlow

end BitField

namespace Word

/-- The number in a field: the word shifted down and masked. -/
def checkedField (w : Word) (f : BitField) : Except Fault Nat := do
  let shifted ← Checked.shiftRight w f.low
  pure (shifted &&& BitVec.ofNat 32 f.max).toNat

theorem single_shiftLeft (i : Nat) : single i <<< 1 = single (i + 1) := by
  rw [single, single, BitVec.twoPow_eq, BitVec.twoPow_eq, ← BitVec.shiftLeft_add]

theorem and_single_ne_zero {w : Word} {i : Nat} (h : i < 32) :
    w &&& single i ≠ 0 ↔ w.getLsbD i = true := by
  rw [single, BitVec.and_twoPow]
  cases w.getLsbD i with
  | false => simp
  | true =>
    have hbit : (BitVec.twoPow 32 i).getLsbD i = true := by simp [h]
    rw [if_pos rfl]
    refine ⟨fun _ => rfl, fun _ hzero => ?_⟩
    rw [hzero] at hbit
    simp at hbit

/-- A field is what a shift down and a mask leave. -/
theorem toNat_shiftRight_and (w : Word) {f : BitField} (hf : f.width ≤ 32) :
    (w >>> f.low &&& BitVec.ofNat 32 f.max).toNat = w.field f := by
  have hpos := Nat.two_pow_pos f.width
  have hpow : 2 ^ f.width ≤ 2 ^ 32 := Nat.pow_le_pow_right (by decide) hf
  have hmax : f.max < 2 ^ 32 := by
    rw [BitField.max_eq]
    omega
  rw [BitVec.toNat_and, BitVec.toNat_ushiftRight, BitVec.toNat_ofNat, Nat.mod_eq_of_lt hmax,
    field_eq, BitField.max_eq, Nat.and_two_pow_sub_one_eq_mod, Nat.sub_add_cancel hpos]

/-- The lowest field needs no shift. -/
theorem toNat_and_max (w : Word) {f : BitField} (hlow : f.low = 0) (hf : f.width ≤ 32) :
    (w &&& BitVec.ofNat 32 f.max).toNat = w.field f := by
  rw [← toNat_shiftRight_and w hf, hlow, BitVec.ushiftRight_zero]

theorem checkedField_eq (w : Word) {f : BitField} (hlow : f.low < 32) (hf : f.width ≤ 32) :
    w.checkedField f = pure (w.field f) := by
  rw [checkedField, Checked.shiftRight_eq _ hlow, pure_bind, toNat_shiftRight_and w hf]

end Word

namespace Table

variable {n i : Nat} {α : Type} (t : Table n α)

/-- The entry at an index of the table. -/
def fetch (i : Nat) : Except Fault α := if h : i < n then pure t.cells[i] else throw .index

/-- The table with the entry at one of its indices changed. -/
def alter (i : Nat) (f : α → α) : Except Fault (Table n α) :=
  if i < n then pure (t.modify i f) else throw .index

theorem fetch_eq [Inhabited α] (h : i < n) : t.fetch i = pure (t.get i) := by
  rw [fetch, dif_pos h, get, Vector.getElem?_eq_getElem h, Option.getD_some]

theorem alter_eq (h : i < n) (f : α → α) : t.alter i f = pure (t.modify i f) := if_pos h

end Table

end AdvancedInterrupts
