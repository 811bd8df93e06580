import AdvancedInterrupts.Aplic.Operation
import AdvancedInterrupts.Proofs.DriverWindow
import AdvancedInterrupts.Proofs.Interleaving
import AdvancedInterrupts.Proofs.LegalRegisters
import Mathlib.Data.Set.Insert

/-!
# Independence of sources

The drivers of two sources share registers: 32 sources have their bits in one
word, and all of them are named in the same number registers. Still an access
for one source changes no other source, and of a word that is read only the bit
of the own source is looked at. So drivers that work on different sources need
no lock, though their operations are sequences of reads and writes: all orders
of their accesses come to the same as one driver after the other.
-/
namespace AdvancedInterrupts

/-- The source that an operation is about, for the operations on single sources. -/
def AplicOperation.source? : AplicOperation → Option Nat
  | setSourceConfig s _ | sourceConfig s | setMode s _ | mode s | enable s | disable s
  | isEnabled s | setPending s | clearPending s | isPending s | inputLevel s | target s
  | setTarget s _ _ | setPriority s _ | priority s | setHart s _ | hart s | setMsiTarget s _ _ _
  | configure s _ => some s
  | reset | setUpHart _ | setDomainConfig _ | domainConfig | isForwarding | probe | claim _
  | idcIndex _ | idc _ _ => none

namespace EmulatedDomain

/-- The window stays where it is. -/
theorem accepts_modifySource (d : EmulatedDomain) (s : Nat) (f : Source → Source) (offset : Nat) :
    (d.modifySource s f).accepts ((d.modifySource s f).addressOf offset) .dword =
      d.accepts (d.addressOf offset) .dword := rfl

/-- An access changes a single source, and changes it the same way whatever the other sources
are. -/
structure ActsOn (s : Nat) (access : WindowAccess) : Prop where
  change (d : EmulatedDomain) : ∃ f, (service access d).2 = d.modifySource s f
  blind (d : EmulatedDomain) {s' : Nat} (h : s' ≠ s) (f : Source → Source) :
    (service access (d.modifySource s' f)).2 = (service access d).2.modifySource s' f

namespace ActsOn

variable {s : Nat} {r : Register}

/-- An access without effect acts on any source. -/
theorem of_unchanged {access : WindowAccess} (h : ∀ d, (service access d).2 = d) :
    ActsOn s access where
  change d := ⟨id, (h d).trans (d.modifySource_eq_self rfl).symm⟩
  blind d s' _ f := by rw [h, h]

theorem report (notice : Notice) : ActsOn s (.report notice) := of_unchanged fun _ => rfl

/-- Domain registers are read without effect. -/
theorem read (hr : r.Published) (hidc : ∀ i x, r ≠ .idc i x) : ActsOn s (.read r.offset) := by
  refine of_unchanged fun d => ?_
  rw [service_read hr (Register.offset_lt_addressSpace hr hidc)]
  split
  · cases r with
    | idc i x => exact absurd rfl (hidc i x)
    | _ => rfl
  · rfl

/-- A write acts on a source if it changes that source by a rule that asks no more of the domain
than whether the source exists and how interrupts are delivered. -/
theorem write {value : Word} (hr : r.Published) (hidc : ∀ i x, r ≠ .idc i x)
    (rule : Bool → DeliveryMode → Source → Source)
    (h : ∀ d : EmulatedDomain,
      d.writeRegister r value = d.modifySource s (rule (d.hasSource s) d.config.delivery)) :
    ActsOn s (.write r.offset value) := by
  have hspace := Register.offset_lt_addressSpace hr hidc
  constructor
  · intro d
    rw [service_write hr hspace]
    split
    · exact ⟨_, h d⟩
    · exact ⟨id, (d.modifySource_eq_self rfl).symm⟩
  · intro d s' hs f
    rw [service_write hr hspace, service_write hr hspace, accepts_modifySource]
    dsimp only
    split
    · simp only [h]
      exact d.modifySource_comm hs f _
    · rfl

theorem write_sourceConfig (h : (Register.sourceConfig s).Published) (word : Word) :
    ActsOn s (.write (Register.sourceConfig s).offset word) := by
  cases hword : SourceMode.ofWord word with
  | ok mode =>
    refine write h (by simp) (fun known _ x => if known then x.withMode mode else x) fun d => ?_
    simp only [writeRegister, configureSource, hword]
    exact (d.modifySource_ite s _ _).symm
  | error e =>
    refine write h (by simp) (fun _ _ => id) fun d => ?_
    simp only [writeRegister, configureSource, hword]
    exact (ite_self d).trans (d.modifySource_eq_self rfl).symm

theorem write_target (h : (Register.target s).Published) (word : Word) :
    ActsOn s (.write (Register.target s).offset word) := by
  refine write h (by simp) (fun known delivery x =>
    if known then x.withTarget delivery word else x) fun d => ?_
  exact (d.modifySource_ite s _ _).symm

/-- A write that names a source by its number changes a flag of that source. -/
theorem write_number (hs : s < sourceSlots) (hr : r.Published) (hidc : ∀ i x, r ≠ .idc i x)
    {f : SourceFlag} {value : Bool}
    (h : ∀ (d : EmulatedDomain) (number : Word),
      d.writeRegister r number = d.setFlag f value number.toNat) :
    ActsOn s (.write r.offset (BitVec.ofNat 32 s)) := by
  refine write hr hidc (fun known _ x =>
    if known && (!value || x.mode.isActive) then x.withFlag f value else x) fun d => ?_
  rw [h, toNat_sourceNumber hs, setFlag]
  by_cases haccepts : d.acceptsFlag s value = true
  · rw [if_pos haccepts]
    exact d.modifySource_congr (if_pos haccepts).symm
  · rw [if_neg haccepts]
    symm
    exact d.modifySource_eq_self (if_neg haccepts)

/-- Of the accesses for two sources, either one may be the first. -/
theorem service_comm {s' : Nat} {access access' : WindowAccess} (h : ActsOn s access)
    (h' : ActsOn s' access') (hs : s ≠ s') (d : EmulatedDomain) :
    (service access (service access' d).2).2 = (service access' (service access d).2).2 := by
  obtain ⟨f, hf⟩ := h.change d
  obtain ⟨f', hf'⟩ := h'.change d
  rw [hf', h.blind d hs.symm, hf, h'.blind d hs, hf']
  exact d.modifySource_comm hs f f'

end ActsOn

/-- A program makes accesses for some sources only. After each of them it goes on in a way that
depends on no other source than the one that the access was for. -/
def Concerns {α : Type} (sources : Set Nat) : Program window α → Prop
  | .done _ => True
  | .ask access next =>
    (∃ s ∈ sources, ActsOn s access ∧ ∀ (d : EmulatedDomain) (s' : Nat) (f : Source → Source),
      s' ≠ s → next (service access (d.modifySource s' f)).1 = next (service access d).1) ∧
    ∀ answer, Concerns sources (next answer)

namespace Concerns

variable {α β : Type} {A B : Set Nat} {s : Nat} {r : Register} {p : Program window α}
  {q : Program window β}

theorem bind {k : α → Program window β} (hp : Concerns A p) (hk : ∀ a, Concerns A (k a)) :
    Concerns A (p >>= k) := by
  induction p with
  | done a => exact hk a
  | ask access next ih =>
    obtain ⟨⟨s, hs, hacts, hnext⟩, hlater⟩ := hp
    refine ⟨⟨s, hs, hacts, fun d s' f hne => ?_⟩, fun answer => ih answer (hlater answer)⟩
    exact congrArg (· >>= k) (hnext d s' f hne)

theorem inTurn {ι : Type} {Answer : ι → Type} {program : (x : ι) → Program window (Answer x)}
    {requests : List ι} (h : ∀ x ∈ requests, Concerns A (program x)) :
    Concerns A (Program.inTurn program requests) := by
  induction requests with
  | nil => trivial
  | cons x rest ih =>
    have hrest := ih fun y hy => h y (List.mem_cons_of_mem x hy)
    exact (h x List.mem_cons_self).bind fun answer => hrest.bind fun answers => trivial

theorem asks (h : Concerns A p) : p.Asks fun access => ∃ s ∈ A, ActsOn s access := by
  induction p with
  | done a => trivial
  | ask access next ih =>
    obtain ⟨⟨s, hs, hacts, -⟩, hlater⟩ := h
    exact ⟨⟨s, hs, hacts⟩, fun answer => ih answer (hlater answer)⟩

/-- An access for a source that a program is not concerned with is ignored by it. -/
theorem ignores {access : WindowAccess} (h : Concerns A p) (hacts : ActsOn s access)
    (hs : s ∉ A) : p.Ignores service fun d => (service access d).2 := by
  induction p with
  | done a => trivial
  | ask access' next ih =>
    obtain ⟨⟨s', hs', hacts', hnext⟩, hlater⟩ := h
    have hne : s ≠ s' := fun he => hs (he ▸ hs')
    refine ⟨fun d => ⟨?_, hacts'.service_comm hacts hne.symm d⟩,
      fun answer => ih answer (hlater answer)⟩
    obtain ⟨f, hf⟩ := hacts.change d
    dsimp only
    rw [hf]
    exact hnext d s f hne

/-- Programs that are concerned with different sources ignore each other. -/
theorem independent (hp : Concerns A p) (hq : Concerns B q) (hdisjoint : ∀ s ∈ A, s ∉ B) :
    Program.Independent service p q where
  left := hp.asks.mono fun _ ⟨s, hs, hacts⟩ => hq.ignores hacts (hdisjoint s hs)
  right := hq.asks.mono fun _ ⟨s, hs, hacts⟩ => hp.ignores hacts fun hs' => hdisjoint s hs' hs

/-- A register is read for a source if no other one has a part in how the program goes on. -/
theorem read {next : Word → Program window α} (hs : s ∈ A) (hr : r.Published)
    (hidc : ∀ i x, r ≠ .idc i x)
    (hnext : ∀ (d : EmulatedDomain) (s' : Nat) (f : Source → Source), s' ≠ s →
      next ((d.modifySource s' f).readRegister r).1 = next (d.readRegister r).1)
    (hlater : ∀ word, Concerns A (next word)) : Concerns A (r.read >>= next) := by
  refine ⟨⟨s, hs, .read hr hidc, fun d s' f hne => ?_⟩, hlater⟩
  have hspace := Register.offset_lt_addressSpace hr hidc
  rw [service_read hr hspace, service_read hr hspace, accepts_modifySource]
  split
  · exact hnext d s' f hne
  · rfl

theorem write {value : Word} (hs : s ∈ A) (h : ActsOn s (.write r.offset value)) :
    Concerns A (r.write value) :=
  ⟨⟨s, hs, h, fun _ _ _ _ => rfl⟩, fun _ => trivial⟩

theorem report (hs : s ∈ A) (notice : Notice) : Concerns A notice.report :=
  ⟨⟨s, hs, .report notice, fun _ _ _ _ => rfl⟩, fun _ => trivial⟩

end Concerns

variable {A B : Set Nat} {s : Nat} {r : Register} {d : EmulatedDomain} (a b : Aplic)

theorem getLsbD_flagWord_modifySource (d : EmulatedDomain) (flag : SourceFlag) {s' : Nat}
    (f : Source → Source) (hne : s' ≠ s) :
    ((d.modifySource s' f).flagWord flag (s / 32)).getLsbD (s % 32) =
      (d.flagWord flag (s / 32)).getLsbD (s % 32) := by
  rw [getLsbD_flagWord_source, getLsbD_flagWord_source, source_modifySource_ne d hne]

section Steps

variable (hs : s ∈ A)

include hs

theorem concerns_read_sourceConfig {α : Type} {next : Word → Program window α}
    (h : (Register.sourceConfig s).Published) (hlater : ∀ word, Concerns A (next word)) :
    Concerns A ((Register.sourceConfig s).read >>= next) := by
  refine .read hs h (by simp) (fun d s' f hne => ?_) hlater
  simp only [readRegister, source_modifySource_ne d hne]
  rfl

theorem concerns_read_target {α : Type} {next : Word → Program window α}
    (h : (Register.target s).Published) (hlater : ∀ word, Concerns A (next word)) :
    Concerns A ((Register.target s).read >>= next) := by
  refine .read hs h (by simp) (fun d s' f hne => ?_) hlater
  simp only [readRegister, source_modifySource_ne d hne]
  rfl

/-- Of the word that holds the bit of a source, the program looks at this bit only. -/
theorem concerns_readBit {array : Nat → Register}
    (hr : ∀ word < bitWords, (array word).Published) (hidc : ∀ word i x, array word ≠ .idc i x)
    (hbit : ∀ (d : EmulatedDomain) (s' : Nat) (f : Source → Source), s' ≠ s →
      ((d.modifySource s' f).readRegister (array (s / 32))).1.getLsbD (s % 32) =
        (d.readRegister (array (s / 32))).1.getLsbD (s % 32)) :
    Concerns A (a.readBit array s) := by
  unfold Aplic.readBit
  split
  next hsource =>
    have hword := word_lt_bitWords (a.lt_sourceSlots_of_hasSource hsource)
    exact .read hs (hr _ hword) (hidc _)
      (fun d s' f hne => congrArg Program.done (hbit d s' f hne)) fun word => trivial
  next => trivial

theorem concerns_writeNumber (hr : r.Published) (hidc : ∀ i x, r ≠ .idc i x) {f : SourceFlag}
    {value : Bool} (h : ∀ (d : EmulatedDomain) (number : Word),
      d.writeRegister r number = d.setFlag f value number.toNat) :
    Concerns A (a.writeNumber r s) := by
  unfold Aplic.writeNumber
  split
  next hsource => exact .write hs (.write_number (a.lt_sourceSlots_of_hasSource hsource) hr hidc h)
  next => trivial

theorem concerns_hartField (hart : Nat) : Concerns A (a.hartField hart) := by
  have hindex : Concerns A (a.idcIndex hart) := by
    unfold Aplic.idcIndex
    split
    · trivial
    · split
      · trivial
      · exact (Concerns.report hs _).bind fun _ => trivial
  unfold Aplic.hartField
  split
  · exact hindex
  · trivial

theorem concerns_setSourceConfig (config : Word) : Concerns A (a.setSourceConfig s config) := by
  unfold Aplic.setSourceConfig
  split
  next hsource =>
    split
    · exact .report hs _
    · exact .report hs _
    · exact .write hs (.write_sourceConfig (a.published_of_hasSource hsource).1 _)
  next => exact .report hs _

theorem concerns_sourceConfig : Concerns A (a.sourceConfig s) := by
  unfold Aplic.sourceConfig
  split
  next hsource =>
    exact concerns_read_sourceConfig hs (a.published_of_hasSource hsource).1 fun _ => trivial
  next => trivial

theorem concerns_target : Concerns A (a.target s) := by
  unfold Aplic.target
  split
  next hsource =>
    exact concerns_read_target hs (a.published_of_hasSource hsource).2 fun _ => trivial
  next => trivial

theorem concerns_setTarget (hart priority : Nat) : Concerns A (a.setTarget s hart priority) := by
  unfold Aplic.setTarget
  split
  · exact .report hs _
  · refine (concerns_hartField a hs hart).bind fun field => ?_
    split
    · split
      next h => exact .write hs (.write_target (a.published_of_hasSource h.1).2 _)
      next => exact .report hs _
    · exact .report hs _

theorem concerns_setPriority (priority : Nat) : Concerns A (a.setPriority s priority) := by
  unfold Aplic.setPriority
  split
  next h =>
    have hpublished := (a.published_of_hasSource h.1).2
    split
    · exact concerns_read_target hs hpublished fun word => .write hs (.write_target hpublished _)
    · trivial
  next => exact .report hs _

theorem concerns_setHart (hart : Nat) : Concerns A (a.setHart s hart) := by
  refine (concerns_hartField a hs hart).bind fun field => ?_
  split
  · split
    next hsource =>
      have hpublished := (a.published_of_hasSource hsource).2
      exact concerns_read_target hs hpublished fun word => .write hs (.write_target hpublished _)
    next => exact .report hs _
  · exact .report hs _

theorem concerns_setMsiTarget (hart guest identity : Nat) :
    Concerns A (a.setMsiTarget s hart guest identity) := by
  unfold Aplic.setMsiTarget
  split
  next h =>
    split
    · split
      · exact .write hs (.write_target (a.published_of_hasSource h.1).2 _)
      · exact .report hs _
    · exact .report hs _
  next => exact .report hs _

theorem concerns_enable : Concerns A (a.enable s) :=
  concerns_writeNumber a hs trivial (by simp) fun _ _ => rfl

theorem concerns_configure (wiring : Wiring) : Concerns A (a.configure s wiring) := by
  refine (concerns_setSourceConfig a hs wiring.mode.toWord).bind fun _ => ?_
  refine Concerns.bind ?_ fun _ => concerns_enable a hs
  unfold Aplic.route
  split
  · exact concerns_setTarget a hs _ _
  · exact concerns_setMsiTarget a hs _ _ _

/-- An operation on a source is concerned with this source. -/
theorem concerns_program {op : AplicOperation} (h : op.source? = some s) :
    Concerns A (op.program a) := by
  cases op with
  | reset | setUpHart _ | setDomainConfig _ | domainConfig | isForwarding | probe | claim _
  | idcIndex _ | idc _ _ => cases h
  | setSourceConfig i config => cases h; exact concerns_setSourceConfig a hs config
  | sourceConfig i => cases h; exact concerns_sourceConfig a hs
  | setMode i mode => cases h; exact concerns_setSourceConfig a hs mode.toWord
  | mode i =>
    cases h
    simp only [AplicOperation.program, Aplic.mode]
    split
    · exact (concerns_sourceConfig a hs).bind fun _ => trivial
    · trivial
  | enable i => cases h; exact concerns_enable a hs
  | disable i =>
    cases h
    exact concerns_writeNumber a hs trivial (by simp) fun _ _ => rfl
  | isEnabled i =>
    cases h
    exact concerns_readBit a hs (fun _ hword => hword) (by simp)
      fun d s' f hne => getLsbD_flagWord_modifySource d .enabled f hne
  | setPending i =>
    cases h
    exact concerns_writeNumber a hs trivial (by simp) fun _ _ => rfl
  | clearPending i =>
    cases h
    exact concerns_writeNumber a hs trivial (by simp) fun _ _ => rfl
  | isPending i =>
    cases h
    exact concerns_readBit a hs (fun _ hword => hword) (by simp)
      fun d s' f hne => getLsbD_flagWord_modifySource d .pending f hne
  | inputLevel i =>
    cases h
    exact concerns_readBit a hs (fun _ hword => hword) (by simp) fun _ _ _ _ => rfl
  | target i => cases h; exact concerns_target a hs
  | setTarget i hart priority => cases h; exact concerns_setTarget a hs hart priority
  | setPriority i priority => cases h; exact concerns_setPriority a hs priority
  | priority i => cases h; exact (concerns_target a hs).bind fun _ => trivial
  | setHart i hart => cases h; exact concerns_setHart a hs hart
  | hart i => cases h; exact (concerns_target a hs).bind fun _ => trivial
  | setMsiTarget i hart guest identity =>
    cases h
    exact concerns_setMsiTarget a hs hart guest identity
  | configure i wiring => cases h; exact concerns_configure a hs wiring

end Steps

/-- However the accesses of two sequences of operations on different sources are ordered, they
answer and leave the domain as if one sequence ran after the other. The handles may differ in what
they were told about the domain. -/
theorem interleaved_sources (hdisjoint : ∀ s ∈ A, s ∉ B) {left right : List AplicOperation}
    (hleft : ∀ op ∈ left, ∃ s ∈ A, op.source? = some s)
    (hright : ∀ op ∈ right, ∃ s ∈ B, op.source? = some s) (d : EmulatedDomain)
    (answers : List (Sigma AplicOperation.Answer) × List (Sigma AplicOperation.Answer))
    (after : EmulatedDomain) :
    let first := Program.inTurn (AplicOperation.program a) left
    let second := Program.inTurn (AplicOperation.program b) right
    Program.Interleaves service first second d answers after ↔
      answers = ((first.run service d).1, (second.run service (first.run service d).2).1) ∧
        after = (second.run service (first.run service d).2).2 := by
  intro first second
  have hfirst : Concerns A first := Concerns.inTurn fun op hop => by
    obtain ⟨s, hs, hsource⟩ := hleft op hop
    exact concerns_program a hs hsource
  have hsecond : Concerns B second := Concerns.inTurn fun op hop => by
    obtain ⟨s, hs, hsource⟩ := hright op hop
    exact concerns_program b hs hsource
  exact (hfirst.independent hsecond hdisjoint).interleaves_iff

/-- Two handles change the targets of sources 3 and 5 at the same time. Both targets are read before
one of them is written. -/
theorem interleaved_sources_samplePriorities :
    let a : Aplic := ⟨.standard, by decide, by decide⟩
    let b : Aplic := ⟨{ AplicConfig.standard with sources := 6 }, by decide, by decide⟩
    let left : List AplicOperation := [.setPriority 3 9, .isPending 3]
    let right : List AplicOperation := [.setPriority 5 4, .disable 5, .isEnabled 5]
    let first := Program.inTurn (AplicOperation.program a) left
    let second := Program.inTurn (AplicOperation.program b) right
    let answers : List (Sigma AplicOperation.Answer) × List (Sigma AplicOperation.Answer) :=
      ([⟨.setPriority 3 9, ()⟩, ⟨.isPending 3, true⟩],
        [⟨.setPriority 5 4, ()⟩, ⟨.disable 5, ()⟩, ⟨.isEnabled 5, false⟩])
    let one := first.run service (sample.afterAll sampleAccesses)
    let both := second.run service one.2
    (∀ s ∈ ({3} : Set Nat), s ∉ ({5} : Set Nat)) ∧
      (∀ op ∈ left, ∃ s ∈ ({3} : Set Nat), op.source? = some s) ∧
      (∀ op ∈ right, ∃ s ∈ ({5} : Set Nat), op.source? = some s) ∧
      ∃ after, Program.Interleaves service first second (sample.afterAll sampleAccesses) answers
        after ∧ answers = (one.1, both.1) ∧ after = both.2 := by
  intro a b left right first second answers one both
  have hdisjoint : ∀ s ∈ ({3} : Set Nat), s ∉ ({5} : Set Nat) := by simp
  have hleft : ∀ op ∈ left, ∃ s ∈ ({3} : Set Nat), op.source? = some s := by
    simp [left, AplicOperation.source?]
  have hright : ∀ op ∈ right, ∃ s ∈ ({5} : Set Nat), op.source? = some s := by
    simp [right, AplicOperation.source?]
  have hturns : ∃ after, Program.Interleaves service first second
      (sample.afterAll sampleAccesses) answers after :=
    ⟨_, .left (.right (.left (.right (.right (.left (.right (.done _ _ _)))))))⟩
  obtain ⟨after, hafter⟩ := hturns
  exact ⟨hdisjoint, hleft, hright, after, hafter,
    (interleaved_sources a b hdisjoint hleft hright _ _ _).mp hafter⟩

end EmulatedDomain

end AdvancedInterrupts
