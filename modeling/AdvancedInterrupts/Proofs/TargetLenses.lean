import AdvancedInterrupts.Proofs.SourceRefinement
import Mathlib.Logic.Function.Basic

/-!
# The fields of a target as lenses

A driver changes the priority or the hart of a source by reading the target word
of the source and writing it back with one field replaced. Over registers that
read back what was written to them this makes each of the two fields a lens: a
write is read back, a second write replaces the first, writing what is there does
nothing, and neither field is touched through the other, whatever the word held
before. Under message delivery the whole word can be written at once, and every
hart that a handle may know fits its field.
-/
namespace AdvancedInterrupts

namespace Word

variable (w : Word) {f g : BitField} {u v : Nat}

/-- The word with the number in one field replaced. -/
def withField (w : Word) (f : BitField) (value : Nat) : Word := w &&& ~~~f.mask ||| f.place value

theorem withField_field (hf : f.low + f.width ≤ 32) : w.withField f (w.field f) = w := by
  apply BitVec.eq_of_getLsbD_eq
  intro bit _
  rw [withField, getLsbD_replace w hf (w.field_le f), testBit_field]
  split
  next h =>
    have hsub : bit - f.low < f.width := by omega
    rw [decide_eq_true hsub, Bool.true_and, Nat.add_sub_cancel' h.1]
  next => rfl

theorem withField_withField (hf : f.low + f.width ≤ 32) (hu : u ≤ f.max) (hv : v ≤ f.max) :
    (w.withField f u).withField f v = w.withField f v := by
  apply BitVec.eq_of_getLsbD_eq
  intro bit _
  simp only [withField, getLsbD_replace _ hf hu, getLsbD_replace _ hf hv]
  split <;> rfl

/-- Fields without a common bit are replaced in any order. -/
theorem withField_comm (hf : f.low + f.width ≤ 32) (hg : g.low + g.width ≤ 32) (hu : u ≤ f.max)
    (hv : v ≤ g.max) (hdisjoint : f.low + f.width ≤ g.low ∨ g.low + g.width ≤ f.low) :
    (w.withField f u).withField g v = (w.withField g v).withField f u := by
  apply BitVec.eq_of_getLsbD_eq
  intro bit _
  simp only [withField, getLsbD_replace _ hf hu, getLsbD_replace _ hg hv]
  by_cases h : f.low ≤ bit ∧ bit < f.low + f.width
  · have hother : ¬ (g.low ≤ bit ∧ bit < g.low + g.width) := by omega
    rw [if_neg hother, if_pos h, if_pos h]
  · rw [if_neg h, if_neg h]

end Word

/-! ### Registers that read back what was written -/

/-- Every register of a window reads as what was last written to it, and neither a read nor a notice
changes any. -/
structure PlainWindow {σ : Type} (device : Service window σ) (words : σ → Nat → Word) : Prop where
  read (offset : Nat) (w : σ) : (device (.read offset) w).1 = words w offset
  afterRead (offset : Nat) (w : σ) : words (device (.read offset) w).2 = words w
  afterWrite (offset : Nat) (value : Word) (w : σ) :
    words (device (.write offset value) w).2 = Function.update (words w) offset value
  afterReport (notice : Notice) (w : σ) : words (device (.report notice) w).2 = words w

/-- Registers after a number was put in a field of one of them, if there is one to put. -/
def setField (registers : Nat → Word) (offset : Nat) (f : BitField) : Option Nat → Nat → Word
  | some value => Function.update registers offset ((registers offset).withField f value)
  | none => registers

/-- A number that a driver keeps in one field of a register, with the operation that reads it and
the one that writes it. The writer takes the arguments for which there is a number to store. -/
structure LawfulField {σ : Type} (device : Service window σ) (words : σ → Nat → Word)
    (offset : Nat) (f : BitField) (number? : Nat → Option Nat) (get : Program window Nat)
    (set : Nat → Program window Unit) : Prop where
  /-- The field is read without a change of any register. -/
  read (w : σ) : (get.run device w).1 = (words w offset).field f ∧
    words (get.run device w).2 = words w
  /-- No other register is written. -/
  elsewhere (w : σ) (x : Nat) {other : Nat} (h : other ≠ offset) :
    words ((set x).run device w).2 other = words w other
  /-- No bit outside the field changes. -/
  outside (w : σ) (x : Nat) {bit : Nat} (h : ¬ (f.low ≤ bit ∧ bit < f.low + f.width)) :
    (words ((set x).run device w).2 offset).getLsbD bit = (words w offset).getLsbD bit
  /-- What is written is read back. -/
  readBack (w : σ) {x number : Nat} (h : number? x = some number) :
    (get.run device ((set x).run device w).2).1 = number
  /-- The second of two writes wins. -/
  overrides (w : σ) (x : Nat) {y number : Nat} (h : number? y = some number) :
    words ((set y).run device ((set x).run device w).2).2 = words ((set y).run device w).2
  /-- Writing what is there changes nothing. -/
  unchanged (w : σ) {x : Nat} (h : number? x = some (get.run device w).1) :
    words ((set x).run device w).2 = words w
  /-- An argument that is not taken changes nothing. -/
  rejected (w : σ) {x : Nat} (h : number? x = none) : words ((set x).run device w).2 = words w

section

variable {σ : Type} {device : Service window σ} {words : σ → Nat → Word} {offset : Nat}
  {f g : BitField} {number? : Nat → Option Nat} {get : Program window Nat}
  {set : Nat → Program window Unit}

/-- An operation that reads a field of a register and one that puts numbers there keep the laws, if
the numbers fit the field. -/
theorem LawfulField.of_setField (hf : f.low + f.width ≤ 32)
    (hfits : ∀ x number, number? x = some number → number ≤ f.max)
    (hget : ∀ w, (get.run device w).1 = (words w offset).field f ∧
      words (get.run device w).2 = words w)
    (hset : ∀ x w, words ((set x).run device w).2 = setField (words w) offset f (number? x)) :
    LawfulField device words offset f number? get set where
  read := hget
  elsewhere w x other h := by
    rw [hset]
    cases number? x with
    | none => rfl
    | some number => exact Function.update_of_ne h _ _
  outside w x bit h := by
    rw [hset]
    cases hx : number? x with
    | none => rfl
    | some number =>
      rw [setField, Function.update_self, Word.withField,
        Word.getLsbD_replace _ hf (hfits x number hx), if_neg h]
  readBack w x number h := by
    rw [(hget _).1, hset, h, setField, Function.update_self]
    exact Word.field_replace_self _ hf (hfits x number h)
  overrides w x y number h := by
    rw [hset, hset, hset, h]
    cases hx : number? x with
    | none => rfl
    | some first =>
      rw [setField, setField, setField, Function.update_self, Function.update_idem,
        Word.withField_withField _ hf (hfits x first hx) (hfits y number h)]
  unchanged w x h := by
    rw [hset, h, (hget w).1, setField, Word.withField_field _ hf, Function.update_eq_self]
  rejected w x h := by
    rw [hset, h, setField]

/-- Numbers are put in fields without a common bit in any order. -/
theorem setField_comm (registers : Nat → Word) (hf : f.low + f.width ≤ 32)
    (hg : g.low + g.width ≤ 32)
    (hdisjoint : f.low + f.width ≤ g.low ∨ g.low + g.width ≤ f.low) {u v : Option Nat}
    (hu : ∀ number, u = some number → number ≤ f.max)
    (hv : ∀ number, v = some number → number ≤ g.max) :
    setField (setField registers offset f u) offset g v =
      setField (setField registers offset g v) offset f u := by
  cases u with
  | none => rfl
  | some first =>
    cases v with
    | none => rfl
    | some second =>
      simp only [setField, Function.update_self, Function.update_idem]
      rw [Word.withField_comm _ hf hg (hu first rfl) (hv second rfl) hdisjoint]

end

namespace Aplic

variable {a : Aplic} {s : Nat}

/-- The priority that a target takes, if it holds one and the number is one. -/
def takenPriority? (a : Aplic) (priority : Nat) : Option Nat :=
  if a.delivery = .direct ∧ 1 ≤ priority ∧ priority ≤ maxPriority then some priority else none

theorem le_max_of_takenPriority? {priority number : Nat}
    (h : a.takenPriority? priority = some number) : number ≤ Target.priorityField.max := by
  rw [takenPriority?] at h
  split at h
  next htaken => exact Option.some.inj h ▸ htaken.2.2
  next => cases h

section

variable {σ : Type} {device : Service window σ} {words : σ → Nat → Word}
  (h : PlainWindow device words)
include h

theorem Finds.run_plain {α : Type} {x : α} {p : Program window α} (hp : Finds x p) (w : σ) :
    (p.run device w).1 = x ∧ words (p.run device w).2 = words w := by
  cases hp with
  | silent => exact ⟨rfl, rfl⟩
  | reported notice => exact ⟨rfl, h.afterReport notice w⟩

theorem run_target_plain (hs : a.hasSource s = true) (w : σ) :
    ((a.target s).run device w).1 = words w (Register.target s).offset ∧
      words ((a.target s).run device w).2 = words w := by
  rw [target, if_pos hs]
  exact ⟨h.read _ w, h.afterRead _ w⟩

theorem run_field_plain (hs : a.hasSource s = true) (f : BitField) (w : σ) :
    let read : Program window Nat := do
      let word ← a.target s
      pure (word.field f)
    (read.run device w).1 = (words w (Register.target s).offset).field f ∧
      words (read.run device w).2 = words w := by
  intro read
  have htarget := run_target_plain h hs w
  rw [Program.run_bind, htarget.1]
  exact ⟨rfl, htarget.2⟩

/-- A register that is read and written back with one number replaced. -/
theorem words_modify (r : Register) (f : BitField) (number : Nat) (w : σ) :
    words ((do
      let word ← r.read
      r.write (word.withField f number) : Program window Unit).run device w).2 =
      setField (words w) r.offset f (some number) := by
  have hrun : (do
      let word ← r.read
      r.write (word.withField f number) : Program window Unit).run device w =
      (r.write ((device (.read r.offset) w).1.withField f number)).run device
        (device (.read r.offset) w).2 := rfl
  rw [hrun, h.read]
  exact (h.afterWrite _ _ _).trans (by rw [h.afterRead, setField])

theorem words_setPriority (hs : a.hasSource s = true) (priority : Nat) (w : σ) :
    words ((a.setPriority s priority).run device w).2 =
      setField (words w) (Register.target s).offset Target.priorityField
        (a.takenPriority? priority) := by
  rw [setPriority, takenPriority?]
  by_cases hrange : 1 ≤ priority ∧ priority ≤ maxPriority
  · rw [if_pos ⟨hs, hrange⟩]
    cases a.delivery with
    | direct =>
      rw [if_pos ⟨rfl, hrange⟩]
      exact words_modify h _ _ priority w
    | msi =>
      rw [if_neg fun htaken => absurd htaken.1 (by decide)]
      rfl
  · rw [if_neg fun htaken => hrange htaken.2, if_neg fun htaken => hrange htaken.2]
    exact h.afterReport _ w

theorem words_setHart (hs : a.hasSource s = true) (hart : Nat) (w : σ) :
    words ((a.setHart s hart).run device w).2 =
      setField (words w) (Register.target s).offset Target.hartField (a.route? hart) := by
  obtain ⟨hroute, hwords⟩ := Finds.run_plain h (a.finds_hartField hart) w
  rw [setHart, Program.run_bind, hroute, ← hwords]
  cases a.route? hart with
  | none => exact h.afterReport _ _
  | some i =>
    simp only [hs, if_true]
    exact words_modify h _ _ i _

theorem words_setMsiTarget (hs : a.hasSource s = true) (ha : a.delivery = .msi)
    {hart identity : Nat} (hhart : hart < a.idcs)
    (hidentity : identity ≤ Target.identityField.max) (w : σ) :
    words ((a.setMsiTarget s hart 0 identity).run device w).2 =
      Function.update (words w) (Register.target s).offset (Target.word hart identity) := by
  rw [setMsiTarget, if_pos ⟨hs, hhart, hidentity⟩, if_pos rfl, ha]
  exact h.afterWrite _ _ w

end

/-- The operations of a handle on the target of a source keep its fields apart. -/
structure LawfulTarget {σ : Type} (a : Aplic) (s : Nat) (device : Service window σ)
    (words : σ → Nat → Word) : Prop where
  /-- The priority is in the low eight bits, under direct delivery. -/
  priority : LawfulField device words (Register.target s).offset ⟨0, 8⟩ a.takenPriority?
    (a.priority s) (a.setPriority s)
  /-- The delivery structure or the hart is in the high fourteen bits, under both modes. -/
  hart : LawfulField device words (Register.target s).offset ⟨18, 14⟩ a.route?
    (a.hart s) (a.setHart s)
  /-- The fields are written in any order. -/
  commute (w : σ) (priority hart : Nat) :
    words ((do a.setPriority s priority; a.setHart s hart : Program window Unit).run device w).2 =
      words ((do a.setHart s hart; a.setPriority s priority : Program window Unit).run device w).2
  /-- A message target is the hart shifted to its field and the identity below it. -/
  message (w : σ) {hart identity : Nat} (ha : a.delivery = .msi) (hhart : hart < a.idcs)
    (hidentity : identity < 2 ^ 11) :
    let after := ((a.setMsiTarget s hart 0 identity).run device w).2
    ((a.target s).run device after).1.toNat = hart <<< 18 ||| identity ∧
      ((a.hart s).run device after).1 = hart ∧
      words after = Function.update (words w) (Register.target s).offset
        ((a.target s).run device after).1

/-- Whatever the registers of a window hold, as long as they are plain, the priority and the hart of
a source that a handle knows are lenses on its target word. -/
theorem lawfulTarget_of_plainWindow {σ : Type} {device : Service window σ}
    {words : σ → Nat → Word} (h : PlainWindow device words) (hs : a.hasSource s = true) :
    a.LawfulTarget s device words := by
  have hhart (hart number : Nat) (hroute : a.route? hart = some number) :
      number ≤ Target.hartField.max := le_max_of_lt_idcs (lt_of_route? hroute)
  constructor
  case priority =>
    exact .of_setField (by decide) (fun _ _ => le_max_of_takenPriority?)
      (run_field_plain h hs Target.priorityField)
      (words_setPriority h hs)
  case hart =>
    exact .of_setField (by decide) hhart (run_field_plain h hs Target.hartField)
      (words_setHart h hs)
  case commute =>
    intro w priority hart
    rw [Program.run_bind, Program.run_bind, words_setHart h hs, words_setPriority h hs,
      words_setPriority h hs, words_setHart h hs]
    exact setField_comm _ (by decide) (by decide) (by decide)
      (fun _ => le_max_of_takenPriority?) (hhart hart)
  case message =>
    intro w hart identity ha hknown hidentity after
    have hmax : hart ≤ Target.hartField.max := le_max_of_lt_idcs hknown
    have hle : identity ≤ Target.identityField.max := Nat.le_of_lt_succ hidentity
    have hlt : identity < 2 ^ 18 := by omega
    have hafter : words after = Function.update (words w) (Register.target s).offset
        (Target.word hart identity) := words_setMsiTarget h hs ha hknown hle w
    have hword : words after (Register.target s).offset = Target.word hart identity := by
      rw [hafter, Function.update_self]
    have hhartNow : ((a.hart s).run device after).1 =
        Target.hart (words after (Register.target s).offset) :=
      (run_field_plain h hs Target.hartField after).1
    rw [(run_target_plain h hs after).1, hhartNow, hword]
    refine ⟨?_, Target.hart_word_of_lt hmax hlt, hafter⟩
    rw [Target.toNat_word hmax hlt, ← Nat.shiftLeft_eq, Nat.shiftLeft_add_eq_or_of_lt hlt]

/-- Words by offset. -/
def plainMemory : Service window (Nat → Word)
  | .read offset, w => (w offset, w)
  | .write offset value, w => ((), Function.update w offset value)
  | .report _, w => ((), w)

theorem plainWindow_plainMemory : PlainWindow plainMemory id :=
  ⟨fun _ _ => rfl, fun _ _ => rfl, fun _ _ _ => rfl, fun _ _ => rfl⟩

/-- The first handle gives the delivery structures to the harts in reverse, the second knows as many
harts as a field can name. Each starts from words with every bit set. -/
theorem lawfulTarget_plainMemory :
    let reversed : Aplic :=
      ⟨{ AplicConfig.standard with idcOfHart := fun hart => some (7 - hart) }, by decide, by decide⟩
    let widest : Aplic := ⟨⟨sourceSlots, 16384, .msi, fun _ => none⟩, by decide, by decide⟩
    let ones : Nat → Word := fun _ => 0xFFFFFFFF
    reversed.hasSource 1023 = true ∧ widest.hasSource 1 = true ∧
      ((do reversed.setHart 1023 1; reversed.target 1023).run plainMemory ones).1 = 0x001BFFFF ∧
      ((do reversed.setPriority 1023 9; reversed.target 1023).run plainMemory ones).1 =
        0xFFFFFF09 ∧
      ((do widest.setMsiTarget 1 16383 0 33; widest.target 1).run plainMemory ones).1 =
        0xFFFC0021 ∧
      reversed.LawfulTarget 1023 plainMemory id ∧ widest.LawfulTarget 1 plainMemory id := by
  intro reversed widest ones
  have hreversed : reversed.hasSource 1023 = true := by decide
  have hwidest : widest.hasSource 1 = true := by decide
  exact ⟨hreversed, hwidest, by decide, by decide, by decide,
    lawfulTarget_of_plainWindow plainWindow_plainMemory hreversed,
    lawfulTarget_of_plainWindow plainWindow_plainMemory hwidest⟩

end Aplic

end AdvancedInterrupts
