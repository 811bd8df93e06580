import AdvancedInterrupts.Proofs.EnabledIdentities
import Mathlib.Order.Interval.Set.Defs

/-!
# Windows of messages

The file of every hart takes one page of the message window, and a message for
the hart is a write at the start of this page. Pages of different harts do not
overlap, since the files are at least a page apart. But where a page starts is a
product, which is computed in the arithmetic of the address space, and a handle
is accepted whatever the product for its last hart is. So the harts that can be
sent messages are those whose product is an address. For the others it
overflows, and what is left of it may be the page of another hart. The program
of a message checks for this and stops. A build without the check would write to
that page, so what is said about messages that are not sent holds for builds with
the check only; which handles keep their harts apart is the same for both.
-/
namespace AdvancedInterrupts

/-- The page of offsets from a start on. -/
def page (start : Nat) : Set Nat := Set.Ico start (start + minFileStride)

theorem mem_page_self (start : Nat) : start ∈ page start :=
  ⟨Nat.le_refl start, Nat.lt_add_of_pos_right (by decide)⟩

namespace Imsic

variable (m : Imsic) {hart hart' data : Nat}

/-- Where the file of a hart is, as a number without bound. -/
def fileStart (hart : Nat) : Nat := hart * m.stride + FileRegister.setPendingOffset

/-- Where the file of a hart is, as the arithmetic of the address space computes it. -/
def fileStartWord (hart : Nat) : BitVec 64 :=
  BitVec.ofNat 64 hart * BitVec.ofNat 64 m.stride + BitVec.ofNat 64 FileRegister.setPendingOffset

theorem toNat_fileStartWord (hart : Nat) :
    (m.fileStartWord hart).toNat = m.fileStart hart % addressSpace := by
  rw [fileStartWord, ← BitVec.ofNat_mul, ← BitVec.ofNat_add, BitVec.toNat_ofNat]
  rfl

theorem toNat_fileStartWord_eq_iff :
    (m.fileStartWord hart).toNat = m.fileStart hart ↔ m.fileStart hart < addressSpace := by
  have hpos : 0 < addressSpace := by decide
  rw [toNat_fileStartWord, Nat.mod_eq_iff_lt (Nat.ne_of_gt hpos)]

theorem fileOffset?_eq (hart : Nat) :
    m.fileOffset? hart =
      if m.fileStart hart < addressSpace then some (m.fileStart hart) else none := rfl

/-- The pages of different harts do not overlap. -/
theorem not_mem_page {offset : Nat} (hne : hart ≠ hart') (h : offset ∈ page (m.fileStart hart)) :
    offset ∉ page (m.fileStart hart') := by
  have hstride := m.layout_range.2
  have hnext {a b : Nat} (hlt : a < b) : m.fileStart a + minFileStride ≤ m.fileStart b := by
    have hproduct : (a + 1) * m.stride ≤ b * m.stride := Nat.mul_le_mul_right _ hlt
    rw [Nat.add_mul, Nat.one_mul] at hproduct
    simp only [fileStart]
    omega
  obtain ⟨hle, hlt⟩ := h
  rintro ⟨hle', hlt'⟩
  rcases Nat.lt_or_gt_of_ne hne with hbefore | hafter
  · have := hnext hbefore
    omega
  · have := hnext hafter
    omega

/-- All files have addresses if the last one has. -/
theorem fileStart_lt_iff :
    (∀ hart < m.harts, m.fileStart hart < addressSpace) ↔
      (m.harts - 1) * m.stride < addressSpace := by
  have hharts := m.layout_range.1
  constructor
  · exact fun h => h (m.harts - 1) (by omega)
  · intro h hart hhart
    have hle : hart * m.stride ≤ (m.harts - 1) * m.stride := Nat.mul_le_mul_right _ (by omega)
    exact Nat.lt_of_le_of_lt hle h

/-! ### Messages -/

/-- A message is one write at the start of the page of its hart, if that is an address. -/
theorem issues_sendMessage (hhart : hart < m.harts) (hfits : m.fileStart hart < addressSpace) :
    (m.sendMessage hart data).Issues
      [.writeMessage (m.fileStart hart) (BitVec.ofNat 32 data)] := by
  rw [sendMessage, if_pos hhart, fileOffset?_eq, if_pos hfits]
  exact .ask _ fun _ => .done _

theorem sendMessage_unaddressable (hhart : hart < m.harts)
    (hoverflow : ¬ m.fileStart hart < addressSpace) :
    m.sendMessage hart data = pure .unaddressable := by
  rw [sendMessage, if_pos hhart, fileOffset?_eq, if_neg hoverflow]

theorem issues_sendMessage_of_le (hhart : m.harts ≤ hart) :
    (m.sendMessage hart data).Issues [.report (.messageDropped hart)] := by
  rw [sendMessage, if_neg (Nat.not_lt.mpr hhart)]
  exact .ask _ fun _ => .done _

/-- A write of a message that was asked for, in the page of its hart and in that of no other one. -/
structure Lands (hart data offset : Nat) (value : Word) : Prop where
  known : hart < m.harts
  value_eq : value = BitVec.ofNat 32 data
  own : offset ∈ page (m.fileStart hart)
  foreign (hart' : Nat) (hne : hart' ≠ hart) : offset ∉ page (m.fileStart hart')

theorem lands_fileStart (hhart : hart < m.harts) :
    m.Lands hart data (m.fileStart hart) (BitVec.ofNat 32 data) where
  known := hhart
  value_eq := rfl
  own := mem_page_self _
  foreign _ hne := m.not_mem_page hne.symm (mem_page_self _)

/-- The accesses that some operations may make: every message that is sent was asked for, and lands
where it belongs. -/
def SendsHome (ops : List ImsicOperation) : FileAccess → Prop
  | .writeMessage offset value =>
    ∃ op ∈ ops, ∃ hart data, op.message? = some (hart, data) ∧ m.Lands hart data offset value
  | _ => True

theorem sendsHome_program {ops : List ImsicOperation} {op : ImsicOperation} (hop : op ∈ ops) :
    (op.program m).Asks (m.SendsHome ops) := by
  have hpermits : m.Permits (m.SendsHome ops) :=
    ⟨fun _ _ => trivial, fun _ _ _ => trivial, fun _ => trivial, trivial, fun _ => trivial⟩
  refine asks_program hpermits fun hart data offset hmessage hhart hoffset => ?_
  rw [fileOffset?_eq, Option.ite_none_right_eq_some, Option.some.injEq] at hoffset
  obtain ⟨-, rfl⟩ := hoffset
  exact ⟨op, hop, hart, data, hmessage, m.lands_fileStart hhart⟩

/-- What would hold if the offsets of all files were addresses. -/
structure KeepsApart (m : Imsic) : Prop where
  /-- No offset overflows. -/
  computed (hart : Nat) (h : hart < m.harts) :
    (m.fileStartWord hart).toNat = m.fileStart hart
  /-- The pages that start at the offsets do not overlap. -/
  apart (hart hart' : Nat) (h : hart < m.harts) (h' : hart' < m.harts) (hne : hart ≠ hart') :
    ∀ offset ∈ page (m.fileStartWord hart).toNat, offset ∉ page (m.fileStartWord hart').toNat
  /-- A message is one write at the offset, in the page of its hart and of no other one. -/
  delivered (hart data : Nat) (h : hart < m.harts) :
    (m.sendMessage hart data).Issues
        [.writeMessage (m.fileStartWord hart).toNat (BitVec.ofNat 32 data)] ∧
      m.Lands hart data (m.fileStartWord hart).toNat (BitVec.ofNat 32 data)

theorem keepsApart_of_last (h : (m.harts - 1) * m.stride < addressSpace) : m.KeepsApart := by
  have hcomputed (hart : Nat) (hhart : hart < m.harts) :
      (m.fileStartWord hart).toNat = m.fileStart hart :=
    m.toNat_fileStartWord_eq_iff.mpr (m.fileStart_lt_iff.mpr h hart hhart)
  refine ⟨hcomputed, fun hart hart' hhart hhart' hne => ?_, fun hart data hhart => ?_⟩
  · rw [hcomputed hart hhart, hcomputed hart' hhart']
    exact fun offset hoffset => m.not_mem_page hne hoffset
  · rw [hcomputed hart hhart]
    exact ⟨m.issues_sendMessage hhart (m.fileStart_lt_iff.mpr h hart hhart),
      m.lands_fileStart hhart⟩

/-- What holds for every handle, in a build that checks for overflow. Only `unsent` and `home` need
the check. -/
structure MessageRules (m : Imsic) : Prop where
  /-- The pages of different harts do not overlap, before any overflow. -/
  apart (hart hart' : Nat) (hne : hart ≠ hart') :
    ∀ offset ∈ page (m.fileStart hart), offset ∉ page (m.fileStart hart')
  /-- A hart whose offset does not overflow is sent its messages. -/
  sent (hart data : Nat) (h : hart < m.harts)
    (hcomputed : (m.fileStartWord hart).toNat = m.fileStart hart) :
    (m.sendMessage hart data).Issues
      [.writeMessage (m.fileStart hart) (BitVec.ofNat 32 data)]
  /-- A hart whose offset overflows is sent nothing, as the check stops the message. -/
  unsent (hart data : Nat) (h : hart < m.harts)
    (hoverflow : (m.fileStartWord hart).toNat ≠ m.fileStart hart) :
    m.sendMessage hart data = pure .unaddressable
  /-- Nor is a hart without a file, and this is reported. -/
  dropped (hart data : Nat) (h : m.harts ≤ hart) :
    (m.sendMessage hart data).Issues [.report (.messageDropped hart)]
  /-- Whatever is asked of the handle, and whatever the files answer, no message that passes the
  check reaches the page of a hart that it was not meant for. -/
  home (ops : List ImsicOperation) :
    (Program.inTurn (ImsicOperation.program m) ops).Asks (m.SendsHome ops)

/-- A handle keeps the messages of all harts apart exactly if the offset of the last file is an
address, whether a build checks for overflow or wraps around. In a build that checks, no message
ever reaches a hart that it was not meant for, but a hart whose offset overflows is never reached;
in one that wraps, its messages go to another offset. -/
theorem keepsApart_iff (m : Imsic) :
    (m.KeepsApart ↔ (m.harts - 1) * m.stride < addressSpace) ∧ m.MessageRules := by
  refine ⟨⟨fun h => ?_, m.keepsApart_of_last⟩, ?_⟩
  · exact m.fileStart_lt_iff.mp fun hart hhart =>
      m.toNat_fileStartWord_eq_iff.mp (h.computed hart hhart)
  · constructor
    case apart => exact fun hart hart' hne offset hoffset => m.not_mem_page hne hoffset
    case sent =>
      exact fun hart data h hcomputed =>
        m.issues_sendMessage h (m.toNat_fileStartWord_eq_iff.mp hcomputed)
    case unsent =>
      exact fun hart data h hoverflow =>
        m.sendMessage_unaddressable h fun hfits =>
          hoverflow (m.toNat_fileStartWord_eq_iff.mpr hfits)
    case dropped => exact fun hart data h => m.issues_sendMessage_of_le h
    case home => exact fun ops => Program.Asks.inTurn fun op hop => m.sendsHome_program hop

/-- Three files with half of the address space between each two of them. -/
def farFiles : Imsic := ⟨⟨3, 0x8000000000000000, 255, false⟩, by decide, by decide⟩

/-- The files are accepted, and the offset for hart 2 comes out as that of hart 0. -/
theorem farFiles_not_keepsApart :
    create ⟨3, 0x8000000000000000, 255, false⟩ = .ok farFiles ∧
      farFiles.fileStartWord 2 = farFiles.fileStartWord 0 ∧
      farFiles.sendMessage 2 5 = pure .unaddressable ∧ ¬ farFiles.KeepsApart := by
  have hsame : farFiles.fileStartWord 2 = farFiles.fileStartWord 0 := by decide
  refine ⟨rfl, hsame, rfl, fun h => ?_⟩
  have hpages := h.apart 2 0 (by decide) (by decide) (by decide)
  rw [hsame] at hpages
  exact hpages _ (mem_page_self _) (mem_page_self _)

end Imsic

end AdvancedInterrupts
