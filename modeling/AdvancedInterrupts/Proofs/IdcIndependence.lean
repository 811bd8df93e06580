import AdvancedInterrupts.Aplic.Delivery
import AdvancedInterrupts.Proofs.DriverWindow
import AdvancedInterrupts.Proofs.Interleaving
import AdvancedInterrupts.Proofs.UrgencyOrder

/-!
# Independence of delivery structures

All delivery structures of a domain scan the same sources, and a claim takes a
pending bit away from one of them. But a source is routed to one delivery
structure only, so a claim at one is not seen at another. Whoever uses different
delivery structures at the same time gets the answers that each would get alone,
and all orders of their accesses leave the same domain.
-/
namespace AdvancedInterrupts

open Program

namespace EmulatedDomain

/-- What the use of a delivery structure does to a domain: its registers change, or a source is
claimed. -/
inductive DeliveryChange where
  | registers (index : Nat) (f : IdcState → IdcState)
  | claimed (source : Nat)

namespace DeliveryChange

/-- The domain after a change. -/
def apply : DeliveryChange → EmulatedDomain → EmulatedDomain
  | registers i f, d => d.modifyIdc i f
  | claimed s, d => d.modifySource s fun x => x.withFlag .pending false

/-- A change is one of a delivery structure: of its registers, or of a source that is routed to
it. -/
def IsOf (i : Nat) (d : EmulatedDomain) : DeliveryChange → Prop
  | registers j _ => j = i
  | claimed s => Target.hart (d.source s).target = i

/-- The change that a claim makes, by what is reported. -/
def ofTop (i : Nat) : Option Claim → DeliveryChange
  | some c => claimed c.identity
  | none => registers i fun x => { x with force := false }

variable {d : EmulatedDomain} {i j : Nat} {c c' : DeliveryChange}

theorem afterClaim_eq (d : EmulatedDomain) (i : Nat) :
    d.afterClaim i = (ofTop i (d.top i)).apply d := by
  unfold afterClaim
  cases d.top i <;> rfl

/-- A source is claimed where it is routed to. -/
theorem isOf_ofTop (d : EmulatedDomain) (i : Nat) : (ofTop i (d.top i)).IsOf i d := by
  cases htop : d.top i with
  | none => rfl
  | some c =>
    obtain ⟨-, heligible, -⟩ := top_eq_some htop
    simp only [eligible, waitsAt, Bool.and_eq_true, beq_iff_eq] at heligible
    exact heligible.2.1.2

theorem IsOf.not_isOf (h : c.IsOf j d) (hij : i ≠ j) : ¬ c.IsOf i d := by
  cases c with
  | registers k f => exact fun hi => hij (hi.symm.trans h)
  | claimed s => exact fun hi => hij (hi.symm.trans h)

/-- A change of one delivery structure and one of another can be made in either order. -/
theorem apply_comm (h : c.IsOf i d) (h' : ¬ c'.IsOf i d) :
    c.apply (c'.apply d) = c'.apply (c.apply d) := by
  cases c with
  | registers k f =>
    cases c' with
    | registers k' f' =>
      have hne : k' ≠ k := fun he => h' (he.trans h)
      exact d.modifyIdc_comm hne f' f
    | claimed s' => rfl
  | claimed s =>
    cases c' with
    | registers k' f' => rfl
    | claimed s' =>
      have hne : s' ≠ s := by
        rintro rfl
        exact h' h
      exact d.modifySource_comm hne _ _

/-- A delivery structure reports what it would without a change of another one. -/
theorem top_apply (h : ¬ c.IsOf i d) : (c.apply d).top i = d.top i := by
  cases c with
  | registers j f => exact top_modifyIdc h f
  | claimed s =>
    have hwaits : d.waitsAt i s = false := by
      have hroute : (Target.hart (d.source s).target == i) = false := beq_eq_false_iff_ne.mpr h
      simp only [waitsAt, hroute, Bool.and_false, Bool.false_and]
    refine top_modifySource hwaits ?_
    rw [waitsAt, source_modifySource]
    split
    · simp [Source.withFlag]
    · exact hwaits

theorem afterClaim_apply (h : ¬ c.IsOf i d) :
    (c.apply d).afterClaim i = c.apply (d.afterClaim i) := by
  rw [afterClaim_eq, top_apply h, apply_comm (isOf_ofTop d i) h, ← afterClaim_eq]

theorem idc_apply (h : ¬ c.IsOf i d) : (c.apply d).idc i = d.idc i := by
  cases c with
  | registers j f =>
    have hne : j ≠ i := h
    simp [apply, idc_modifyIdc, hne]
  | claimed s => rfl

/-- A register of a delivery structure reads as it would without a change of another one, and the
read does the same. -/
theorem readIdc_apply (h : ¬ c.IsOf i d) (r : IdcRegister) :
    (c.apply d).readIdc i r = ((d.readIdc i r).1, c.apply (d.readIdc i r).2) := by
  cases r with
  | delivery | force | threshold => simp only [readIdc, idc_apply h]
  | top => simp only [readIdc, topWord, top_apply h]
  | claim => simp only [readIdc, topWord, top_apply h, afterClaim_apply h]

end DeliveryChange

open DeliveryChange

/-- A write to a register of a delivery structure changes its registers, in a way that does not
depend on the domain. -/
theorem exists_writeIdc_eq (i : Nat) (r : IdcRegister) (value : Word) :
    ∃ f, ∀ d : EmulatedDomain, d.writeIdc i r value = (registers i f).apply d := by
  cases r with
  | delivery | force | threshold => exact ⟨_, fun d => rfl⟩
  | top | claim => exact ⟨id, fun d => (d.modifyIdc_eq_self rfl).symm⟩

/-- The accesses of a driver that uses one delivery structure. -/
inductive AtIdc (i : Nat) : WindowAccess → Prop where
  | read (r : IdcRegister) : AtIdc i (.read (Register.idc i r).offset)
  | write (r : IdcRegister) (value : Word) : AtIdc i (.write (Register.idc i r).offset value)
  | report (notice : Notice) : AtIdc i (.report notice)

variable {d : EmulatedDomain} {i j : Nat} {access access' : WindowAccess}

theorem offset_idc_lt_addressSpace (hi : i < maxEmulatedIdcs) (r : IdcRegister) :
    (Register.idc i r).offset < addressSpace := by
  have hlt := Register.offset_idc_lt hi r
  simp only [Register.idcBase, Register.idcStride, maxEmulatedIdcs] at hlt
  rw [addressSpace]
  omega

/-- An offset of a delivery structure that lies in the window is one of a delivery structure that
the domain has. -/
theorem lt_idcCount_of_accepts (hi : i < maxEmulatedIdcs) {r : IdcRegister}
    (h : d.accepts (d.addressOf (Register.idc i r).offset) .dword = true) : i < d.idcCount := by
  have hlt := (offset_of_accepts (offset_idc_lt_addressSpace hi r) h).2
  simp only [size, Register.offset, Register.idcStride] at hlt
  omega

theorem service_read_idc (hi : i < maxEmulatedIdcs) (r : IdcRegister) (d : EmulatedDomain) :
    service (.read (Register.idc i r).offset) d =
      if d.accepts (d.addressOf (Register.idc i r).offset) .dword then d.readIdc i r
      else (0, d) := by
  rw [service_read (r := .idc i r) trivial (offset_idc_lt_addressSpace hi r)]
  split
  next h => exact if_pos (lt_idcCount_of_accepts hi h)
  next => rfl

theorem service_write_idc (hi : i < maxEmulatedIdcs) (r : IdcRegister) (value : Word)
    (d : EmulatedDomain) :
    service (.write (Register.idc i r).offset value) d =
      ((), if d.accepts (d.addressOf (Register.idc i r).offset) .dword then d.writeIdc i r value
        else d) := by
  rw [service_write (r := .idc i r) trivial (offset_idc_lt_addressSpace hi r)]
  split
  next h => exact congrArg (Prod.mk ()) (if_pos (lt_idcCount_of_accepts hi h))
  next => rfl

namespace AtIdc

/-- Each access to a delivery structure makes one change, and that is one of this structure. -/
theorem exists_change (h : AtIdc i access) (hi : i < maxEmulatedIdcs) (d : EmulatedDomain) :
    ∃ c : DeliveryChange, c.IsOf i d ∧ (service access d).2 = c.apply d := by
  have hnothing : d = (registers i id).apply d := (d.modifyIdc_eq_self rfl).symm
  cases h with
  | report notice => exact ⟨registers i id, rfl, hnothing⟩
  | write r value =>
    rw [service_write_idc hi]
    split
    · obtain ⟨f, hf⟩ := exists_writeIdc_eq i r value
      exact ⟨registers i f, rfl, hf d⟩
    · exact ⟨registers i id, rfl, hnothing⟩
  | read r =>
    rw [service_read_idc hi]
    split
    · cases r with
      | claim => exact ⟨ofTop i (d.top i), isOf_ofTop d i, afterClaim_eq d i⟩
      | _ => exact ⟨registers i id, rfl, hnothing⟩
    · exact ⟨registers i id, rfl, hnothing⟩

/-- An access to a delivery structure answers and acts as it would without a change of another
one. -/
theorem service_apply (h : AtIdc i access) (hi : i < maxEmulatedIdcs) {c : DeliveryChange}
    (hc : ¬ c.IsOf i d) :
    service access (c.apply d) = ((service access d).1, c.apply (service access d).2) := by
  have haccepts (offset : Nat) : (c.apply d).accepts ((c.apply d).addressOf offset) .dword =
      d.accepts (d.addressOf offset) .dword := by cases c <;> rfl
  cases h with
  | report notice => rfl
  | read r =>
    rw [service_read_idc hi, service_read_idc hi, haccepts]
    split
    · exact readIdc_apply hc r
    · rfl
  | write r value =>
    rw [service_write_idc hi, service_write_idc hi, haccepts]
    split
    · obtain ⟨f, hf⟩ := exists_writeIdc_eq i r value
      rw [hf, hf]
      exact congrArg (Prod.mk ()) (apply_comm rfl hc)
    · rfl

/-- Accesses to two delivery structures answer and act the same in either order. -/
theorem service_comm (h : AtIdc i access) (h' : AtIdc j access') (hi : i < maxEmulatedIdcs)
    (hj : j < maxEmulatedIdcs) (hij : i ≠ j) (d : EmulatedDomain) :
    service access (service access' d).2 =
      ((service access d).1, (service access' (service access d).2).2) := by
  obtain ⟨c, hc, hafter⟩ := h.exists_change hi d
  obtain ⟨c', hc', hafter'⟩ := h'.exists_change hj d
  have hforeign := hc'.not_isOf hij
  rw [hafter', h.service_apply hi hforeign, hafter, h'.service_apply hj (hc.not_isOf hij.symm),
    hafter', apply_comm hc hforeign]

end AtIdc

theorem asks_atIdc (i : Nat) (op : IdcOperation) :
    (op.program ⟨i⟩).Asks (AtIdc i) := by
  have hread (r : IdcRegister) : AtIdc i (.read (Register.idc i r).offset) := .read r
  have hwrite (r : IdcRegister) (value : Word) :
      AtIdc i (.write (Register.idc i r).offset value) := .write r value
  cases op with
  | reset => exact ⟨hwrite _ _, fun _ => ⟨hwrite _ _, fun _ => ⟨hwrite _ _, fun _ => trivial⟩⟩⟩
  | setDelivery on => exact ⟨hwrite _ _, fun _ => trivial⟩
  | setForce on => exact ⟨hwrite _ _, fun _ => trivial⟩
  | setThreshold value =>
    simp only [IdcOperation.program, Idc.setThreshold]
    split
    · exact ⟨hwrite _ _, fun _ => trivial⟩
    · exact ⟨.report _, fun _ => trivial⟩
  | delivery => exact ⟨hread _, fun _ => trivial⟩
  | force => exact ⟨hread _, fun _ => trivial⟩
  | threshold => exact ⟨hread _, fun _ => trivial⟩
  | top => exact ⟨hread _, fun _ => trivial⟩
  | claim => exact ⟨hread _, fun _ => trivial⟩

/-- Users of two delivery structures ignore each other. -/
theorem independent_idcs (hi : i < maxEmulatedIdcs) (hj : j < maxEmulatedIdcs) (hij : i ≠ j)
    (left right : List IdcOperation) :
    Independent service (inTurn (IdcOperation.program ⟨i⟩) left)
      (inTurn (IdcOperation.program ⟨j⟩) right) := by
  have hleft : (inTurn (IdcOperation.program ⟨i⟩) left).Asks (AtIdc i) :=
    Asks.inTurn fun op _ => asks_atIdc i op
  have hright : (inTurn (IdcOperation.program ⟨j⟩) right).Asks (AtIdc j) :=
    Asks.inTurn fun op _ => asks_atIdc j op
  constructor
  · exact hleft.mono fun access h => Asks.ignores <| hright.mono fun access' h' d =>
      h'.service_comm h hj hi hij.symm d
  · exact hright.mono fun access' h' => Asks.ignores <| hleft.mono fun access h d =>
      h.service_comm h' hi hj hij d

/-- However the accesses of two sequences of operations on different delivery structures are
ordered, each sequence is answered as if it ran alone, and the domain is left as if one ran after
the other. -/
theorem interleaved_idcs (hi : i < d.idcCount) (hj : j < d.idcCount) (hij : i ≠ j)
    (left right : List IdcOperation)
    (answers : List (Sigma IdcOperation.Answer) × List (Sigma IdcOperation.Answer))
    (after : EmulatedDomain) :
    let first := inTurn (IdcOperation.program ⟨i⟩) left
    let second := inTurn (IdcOperation.program ⟨j⟩) right
    Interleaves service first second d answers after ↔
      answers = ((first.run service d).1, (second.run service d).1) ∧
        after = (second.run service (first.run service d).2).2 := by
  intro first second
  have hrange := d.idcCount_range
  have hindependent : Independent service first second :=
    independent_idcs (by omega) (by omega) hij left right
  rw [hindependent.interleaves_iff, hindependent.run_second]

/-- Next to the sources of the sample accesses, source 6 waits at the second delivery structure. -/
def sampleShared : EmulatedDomain :=
  sample.afterAll <| sampleAccesses ++
    [.windowWrite (Register.sourceConfig 6).offset 1,
      .windowWrite (Register.target 6).offset (Target.word 1 4),
      .windowWrite (Register.setEnable 0).offset 0x40, .inject 6]

/-- Two harts take turns, and the second one begins. -/
theorem interleaved_idcs_sampleShared :
    let first := inTurn (IdcOperation.program ⟨0⟩) [.claim, .top]
    let second := inTurn (IdcOperation.program ⟨1⟩) [.claim, .claim]
    let answers : List (Sigma IdcOperation.Answer) × List (Sigma IdcOperation.Answer) :=
      ([⟨.claim, ⟨3, 2⟩⟩, ⟨.top, ⟨5, 7⟩⟩], [⟨.claim, ⟨6, 4⟩⟩, ⟨.claim, .spurious⟩])
    0 < sampleShared.idcCount ∧ 1 < sampleShared.idcCount ∧
      (∃ after, Interleaves service first second sampleShared answers after) ∧
      answers = ((first.run service sampleShared).1, (second.run service sampleShared).1) := by
  intro first second answers
  have hfirst : 0 < sampleShared.idcCount := by decide
  have hsecond : 1 < sampleShared.idcCount := by decide
  have hturns : ∃ after, Interleaves service first second sampleShared answers after :=
    ⟨_, .right (.left (.right (.left (.done _ _ _))))⟩
  obtain ⟨after, hafter⟩ := hturns
  obtain ⟨hanswers, -⟩ := (interleaved_idcs hfirst hsecond (by decide) _ _ _ _).mp hafter
  exact ⟨hfirst, hsecond, ⟨after, hafter⟩, hanswers⟩

end EmulatedDomain

end AdvancedInterrupts
