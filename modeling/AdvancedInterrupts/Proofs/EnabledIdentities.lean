import AdvancedInterrupts.Imsic.Operation
import AdvancedInterrupts.Proofs.FileDrain
import AdvancedInterrupts.Proofs.Interleaving
import Mathlib.Order.Interval.Finset.Nat

/-!
# The set of enabled identities

To its user the file of the running hart is a set of enabled identities and a
threshold. The file itself holds the set in words of 64 bits, at every other
register number, and the driver reads and writes whole words. If registers read
as what was written to them, every operation comes down to one change of the
set, of the threshold, or of neither, and no operation reaches a register that
the file does not have.
-/
namespace AdvancedInterrupts

/-- Every indirect register reads as what was last written to it, and a driver that asks for the
running hart or reports a notice changes none. -/
structure PlainRegisters {σ : Type} (files : Service interruptFiles σ)
    (registers : σ → Nat → BitVec 64) : Prop where
  read (register : Nat) (w : σ) : (files (.readIndirect register) w).1 = registers w register
  afterRead (register : Nat) (w : σ) :
    registers (files (.readIndirect register) w).2 = registers w
  afterWrite (register : Nat) (value : BitVec 64) (w : σ) :
    registers (files (.writeIndirect register value) w).2 =
      Function.update (registers w) register value
  afterHart (w : σ) : registers (files .currentHart w).2 = registers w
  afterReport (notice : Notice) (w : σ) : registers (files (.report notice) w).2 = registers w

namespace InterruptFile

/-- The threshold and the enable bits in some registers, of a file in which nothing is pending. -/
def ofRegisters (registers : Nat → BitVec 64) : InterruptFile where
  threshold := registers FileRegister.threshold
  enable word := registers (FileRegister.enableWord word)
  pending _ := false

end InterruptFile

/-- What a driver makes of the local file: the identities that it has enabled, and the
threshold. -/
@[ext]
structure FileSetting where
  enabled : Finset Nat
  threshold : Nat

namespace FileSetting

variable (m : Imsic)

/-- The setting that a file holds, among the identities that the driver knows of. -/
def ofFile (f : InterruptFile) : FileSetting where
  enabled := (Finset.Icc 1 m.identities).filter fun e => f.enabled e = true
  threshold := (f.threshold.setWidth 32).toNat

@[simp] theorem mem_enabled_ofFile (f : InterruptFile) (e : Nat) :
    e ∈ (ofFile m f).enabled ↔ m.hasIdentity e = true ∧ f.enabled e = true := by
  simp [ofFile]

/-- The setting with an identity enabled, if there is one with this number. -/
def enable (s : FileSetting) (e : Nat) : FileSetting :=
  if m.hasIdentity e then { s with enabled := insert e s.enabled } else s

/-- The setting with an identity disabled, if there is one with this number. -/
def disable (s : FileSetting) (e : Nat) : FileSetting :=
  if m.hasIdentity e then { s with enabled := s.enabled.erase e } else s

/-- The setting after an operation that was called on a hart. -/
def after (s : FileSetting) (running : Nat) : ImsicOperation → FileSetting
  | .setUpLocal | .setUpHart _ => ⟨Finset.Icc 1 m.identities, 0⟩
  | .enable e => s.enable m e
  | .disable e => s.disable m e
  | .setThreshold value => if value ≤ m.identities then { s with threshold := value } else s
  | .configure e wiring =>
    if m.knowsHart = true ∧ running ≠ wiring.hart then s else s.enable m e
  | _ => s

/-- The setting after some operations, each with the hart that it was called on. -/
def afterAll (s : FileSetting) (calls : List (ImsicOperation × Nat)) : FileSetting :=
  calls.foldl (fun s call => s.after m call.2 call.1) s

variable {m}

theorem threshold_after_le {s : FileSetting} (h : s.threshold ≤ m.identities) (running : Nat)
    (op : ImsicOperation) : (s.after m running op).threshold ≤ m.identities := by
  have henable (e : Nat) : (s.enable m e).threshold = s.threshold := by
    unfold enable
    split <;> rfl
  have hdisable (e : Nat) : (s.disable m e).threshold = s.threshold := by
    unfold disable
    split <;> rfl
  cases op with
  | setUpLocal => exact Nat.zero_le _
  | setUpHart hart => exact Nat.zero_le _
  | enable e => rwa [after, henable]
  | disable e => rwa [after, hdisable]
  | setThreshold value =>
    rw [after]
    split
    next hvalue => exact hvalue
    next => exact h
  | configure e wiring =>
    rw [after]
    split
    next => exact h
    next => rwa [henable]
  | _ => exact h

theorem threshold_afterAll_le {s : FileSetting} (h : s.threshold ≤ m.identities)
    (calls : List (ImsicOperation × Nat)) : (s.afterAll m calls).threshold ≤ m.identities := by
  induction calls generalizing s with
  | nil => exact h
  | cons call rest ih => exact ih (threshold_after_le h call.2 call.1)

end FileSetting

/-- Whether an operation uses no more than the registers of the local file. The others claim
interrupts or send messages. -/
def ImsicOperation.UsesRegisters : ImsicOperation → Prop
  | claimLocal | sendMessage _ _ | sendIpi _ => False
  | _ => True

/-- The hart and the data of the message that an operation is asked to send. -/
def ImsicOperation.message? : ImsicOperation → Option (Nat × Nat)
  | sendMessage hart data => some (hart, data)
  | sendIpi hart => some (hart, ipiIdentity)
  | _ => none

namespace Imsic

variable {σ : Type} {files : Service interruptFiles σ} {registers : σ → Nat → BitVec 64}
  {view : σ → InterruptFile} {m : Imsic}

/-! ### Registers -/

/-- The indirect registers of a handle: delivery, the threshold, and one word for every 64
identities. -/
def Owns (m : Imsic) (register : Nat) : Prop :=
  register = 0x70 ∨ register = 0x72 ∨ ∃ word < (m.identities + 1) / 64, register = 0xC0 + 2 * word

/-- The accesses that a handle may make: it reaches no indirect register of anything else. -/
def Safe (m : Imsic) : FileAccess → Prop
  | .readIndirect register | .writeIndirect register _ => m.Owns register
  | _ => True

/-- All registers of a handle exist. -/
theorem Owns.even {register : Nat} (h : m.Owns register) : register % 2 = 0 ∧ register ≤ 0xFE := by
  have hrange := m.identities_range.2.1
  rw [maxFileIdentity] at hrange
  obtain rfl | rfl | ⟨word, hword, rfl⟩ := h
  · decide
  · decide
  · omega

theorem owns_enableWord {word : Nat} (h : word < m.enableWords) :
    m.Owns (FileRegister.enableWord word) := by
  refine .inr (.inr ⟨word, h, ?_⟩)
  rw [FileRegister.enableWord, FileRegister.enableBase, Nat.mul_comm]

theorem max_enableWords (m : Imsic) : max m.enableWords 1 = m.enableWords := by
  have hrange := m.identities_range
  simp only [enableWords, FileRegister.enableBits]
  omega

theorem owns_enablePosition {e : Nat} (h : m.hasIdentity e = true) :
    m.Owns (FileRegister.enablePosition e).1 := by
  refine owns_enableWord ?_
  rw [← m.max_enableWords, lt_enableWords_iff]
  exact ((m.hasIdentity_iff e).mp h).2

/-- A rule for accesses that allows everything but messages, with the registers of a handle. -/
structure Permits (m : Imsic) (ok : FileAccess → Prop) : Prop where
  read (register : Nat) (h : m.Owns register) : ok (.readIndirect register)
  write (register : Nat) (value : BitVec 64) (h : m.Owns register) :
    ok (.writeIndirect register value)
  swapTop (value : BitVec 64) : ok (.swapTop value)
  currentHart : ok .currentHart
  report (notice : Notice) : ok (.report notice)

theorem permits_safe (m : Imsic) : m.Permits m.Safe :=
  ⟨fun _ h => h, fun _ _ h => h, fun _ => trivial, trivial, fun _ => trivial⟩

section

variable {ok : FileAccess → Prop} (hok : m.Permits ok)
include hok

theorem asks_setUpLocal : m.setUpLocal.Asks ok := by
  have hcheck (value : BitVec 64) : (checkDelivery value).Asks ok := by
    unfold checkDelivery
    split
    · trivial
    · exact ⟨hok.report _, fun _ => trivial⟩
  refine ⟨hok.write _ _ (.inl rfl), fun _ => ⟨hok.read _ (.inl rfl), fun value => ?_⟩⟩
  refine (hcheck value).bind fun _ => ⟨hok.write _ _ (.inr (.inl rfl)), fun _ => ?_⟩
  refine Program.Asks.forM fun word hword =>
    ⟨hok.write _ _ (owns_enableWord ?_), fun _ => trivial⟩
  rwa [List.mem_range, max_enableWords] at hword

theorem asks_setEnabled (on : Bool) (e : Nat) : (m.setEnabled on e).Asks ok := by
  unfold setEnabled
  split
  next he =>
    have howns := owns_enablePosition he
    exact ⟨hok.read _ howns, fun _ => ⟨hok.write _ _ howns, fun _ => trivial⟩⟩
  next => trivial

theorem asks_configure (e : Nat) (w : Wiring) : (m.configure e w).Asks ok := by
  have hlocal : (configure.enableLocal m e w).Asks ok :=
    ⟨hok.report _, fun _ => asks_setEnabled hok true e⟩
  unfold configure
  split
  · refine ⟨hok.currentHart, fun running => ?_⟩
    dsimp only
    split
    · exact hlocal
    · exact ⟨hok.report _, fun _ => trivial⟩
  · exact hlocal

/-- A message is one write, at the offset of the file that it is for. -/
theorem asks_sendMessage {hart data : Nat} (hmessage : ∀ offset, hart < m.harts →
    m.fileOffset? hart = some offset → ok (.writeMessage offset (BitVec.ofNat 32 data))) :
    (m.sendMessage hart data).Asks ok := by
  unfold sendMessage
  split
  next hhart =>
    cases hoffset : m.fileOffset? hart with
    | none => trivial
    | some offset => exact ⟨hmessage offset hhart hoffset, fun _ => trivial⟩
  next => exact ⟨hok.report _, fun _ => trivial⟩

/-- An operation keeps to such a rule if the message does that it may be asked to send. -/
theorem asks_program {op : ImsicOperation} (hmessage : ∀ hart data offset,
    op.message? = some (hart, data) → hart < m.harts → m.fileOffset? hart = some offset →
      ok (.writeMessage offset (BitVec.ofNat 32 data))) :
    (op.program m).Asks ok := by
  cases op with
  | setUp => exact ⟨hok.report _, fun _ => trivial⟩
  | setUpHart hart => exact (asks_setUpLocal hok).bind fun _ => ⟨hok.report _, fun _ => trivial⟩
  | setUpLocal => exact asks_setUpLocal hok
  | enable e => exact asks_setEnabled hok true e
  | disable e => exact asks_setEnabled hok false e
  | isEnabled e =>
    simp only [ImsicOperation.program, isEnabled]
    split
    next he => exact ⟨hok.read _ (owns_enablePosition he), fun _ => trivial⟩
    next => trivial
  | setThreshold value =>
    simp only [ImsicOperation.program, setThreshold]
    split
    · exact ⟨hok.write _ _ (.inr (.inl rfl)), fun _ => trivial⟩
    · exact ⟨hok.report _, fun _ => trivial⟩
  | threshold => exact ⟨hok.read _ (.inr (.inl rfl)), fun _ => trivial⟩
  | claimLocal => exact ⟨hok.swapTop 0, fun _ => trivial⟩
  | sendMessage hart data => exact asks_sendMessage hok fun offset => hmessage hart data offset rfl
  | sendIpi hart => exact asks_sendMessage hok fun offset => hmessage hart ipiIdentity offset rfl
  | configure e wiring => exact asks_configure hok e wiring

end

/-- No operation reaches a register that the handle does not own, whatever the registers read
as. -/
theorem safe_program (m : Imsic) (op : ImsicOperation) : (op.program m).Asks m.Safe :=
  asks_program m.permits_safe fun _ _ _ _ _ _ => trivial

/-! ### Settings -/

/-- The setting that some registers hold. -/
def setting (m : Imsic) (registers : Nat → BitVec 64) : FileSetting :=
  .ofFile m (.ofRegisters registers)

theorem ofFile_setUp (f : InterruptFile) :
    FileSetting.ofFile m (f.setUp (max m.enableWords 1)) = ⟨Finset.Icc 1 m.identities, 0⟩ := by
  ext e
  · rw [FileSetting.mem_enabled_ofFile, InterruptFile.enabled_setUp, lt_enableWords_iff,
      hasIdentity_iff, Finset.mem_Icc]
    constructor
    · exact fun h => h.1
    · exact fun h => ⟨h, .inl h.2⟩
  · rfl

theorem ofFile_enable (f : InterruptFile) (e : Nat) :
    FileSetting.ofFile m (if m.hasIdentity e then f.withEnabled true e else f) =
      (FileSetting.ofFile m f).enable m e := by
  rw [FileSetting.enable]
  split
  next he =>
    ext x
    · rw [FileSetting.mem_enabled_ofFile, InterruptFile.enabled_withEnabled, Finset.mem_insert,
        FileSetting.mem_enabled_ofFile]
      by_cases hx : x = e
      · subst hx
        simp [he]
      · simp [hx]
    · rw [FileSetting.ofFile, InterruptFile.threshold_withEnabled]
      rfl
  next => rfl

theorem ofFile_disable (f : InterruptFile) (e : Nat) :
    FileSetting.ofFile m (if m.hasIdentity e then f.withEnabled false e else f) =
      (FileSetting.ofFile m f).disable m e := by
  rw [FileSetting.disable]
  split
  next =>
    ext x
    · rw [FileSetting.mem_enabled_ofFile, InterruptFile.enabled_withEnabled, Finset.mem_erase,
        FileSetting.mem_enabled_ofFile]
      by_cases hx : x = e
      · simp [hx]
      · simp [hx]
    · rw [FileSetting.ofFile, InterruptFile.threshold_withEnabled]
      rfl
  next => rfl

end Imsic

namespace PlainRegisters

variable {σ : Type} {files : Service interruptFiles σ} {registers : σ → Nat → BitVec 64}
  {m : Imsic} (h : PlainRegisters files registers)
include h

theorem keepsRegisters : KeepsRegisters files fun w => .ofRegisters (registers w) where
  write register value w := by
    rw [h.afterWrite]
    simp only [InterruptFile.ofRegisters, InterruptFile.write, Function.update_apply, eq_comm]
  read register w := by rw [h.afterRead]
  readEnable word w := h.read _ w
  report notice w := by rw [h.afterReport]

theorem run_isEnabled (e : Nat) (w : σ) :
    (((m.isEnabled e).run files w).1 = true ↔ e ∈ (m.setting (registers w)).enabled) ∧
      registers ((m.isEnabled e).run files w).2 = registers w := by
  rw [Imsic.setting, FileSetting.mem_enabled_ofFile, Imsic.isEnabled]
  split
  next he =>
    refine ⟨?_, h.afterRead _ w⟩
    have hread : (files (.readIndirect (FileRegister.enablePosition e).1) w).1 =
        (InterruptFile.ofRegisters (registers w)).enable (e / FileRegister.enableBits) :=
      h.read _ w
    rw [and_iff_right he, InterruptFile.enabled, ← hread]
    rfl
  next he =>
    refine ⟨?_, rfl⟩
    exact iff_of_false Bool.false_ne_true fun henabled => he henabled.1

theorem run_threshold (w : σ) :
    (Imsic.threshold.run files w).1 = (m.setting (registers w)).threshold ∧
      registers (Imsic.threshold.run files w).2 = registers w := by
  refine ⟨?_, h.afterRead _ w⟩
  exact congrArg (fun value => (value.setWidth 32).toNat) (h.read FileRegister.threshold w)

theorem setting_setUpLocal (w : σ) :
    m.setting (registers (m.setUpLocal.run files w).2) = ⟨Finset.Icc 1 m.identities, 0⟩ := by
  have hview := m.view_setUpLocal h.keepsRegisters w
  rw [Imsic.setting, hview, Imsic.ofFile_setUp]

theorem setting_enable (e : Nat) (w : σ) :
    m.setting (registers ((m.enable e).run files w).2) =
      (m.setting (registers w)).enable m e := by
  have hview := m.view_setEnabled h.keepsRegisters true e w
  rw [Imsic.setting, Imsic.enable, hview, Imsic.ofFile_enable]
  rfl

theorem setting_disable (e : Nat) (w : σ) :
    m.setting (registers ((m.disable e).run files w).2) =
      (m.setting (registers w)).disable m e := by
  have hview := m.view_setEnabled h.keepsRegisters false e w
  rw [Imsic.setting, Imsic.disable, hview, Imsic.ofFile_disable]
  rfl

/-- An accepted threshold fits the register and the number that is read back. -/
theorem setting_setThreshold (value : Nat) (w : σ) :
    m.setting (registers ((m.setThreshold value).run files w).2) =
      (m.setting (registers w)).after m (files .currentHart w).1 (.setThreshold value) := by
  rw [Imsic.setThreshold, FileSetting.after]
  split
  next hvalue =>
    have hrange := m.identities_range.2.1
    rw [maxFileIdentity] at hrange
    have hview := h.keepsRegisters.write FileRegister.threshold (BitVec.ofNat 64 value) w
    have hthreshold : ((BitVec.ofNat 64 value).setWidth 32).toNat = value := by
      rw [BitVec.toNat_setWidth, BitVec.toNat_ofNat]
      omega
    change FileSetting.ofFile m (.ofRegisters (registers (files _ w).2)) = _
    rw [hview, InterruptFile.write_threshold]
    ext
    · rfl
    · exact hthreshold
  next => exact congrArg m.setting (h.afterReport _ w)

theorem setting_configure (e : Nat) (wiring : Wiring) (w : σ) :
    m.setting (registers ((m.configure e wiring).run files w).2) =
      (m.setting (registers w)).after m (files .currentHart w).1 (.configure e wiring) := by
  have hlocal (w : σ) :
      m.setting (registers ((Imsic.configure.enableLocal m e wiring).run files w).2) =
        (m.setting (registers w)).enable m e := by
    have hreport := h.afterReport (.identityConfigured e wiring.hart wiring.mode) w
    rw [← hreport]
    exact h.setting_enable e _
  rw [Imsic.configure, FileSetting.after]
  cases m.knowsHart with
  | false => exact hlocal w
  | true =>
    simp only [if_true, true_and, Program.run_ask]
    by_cases hhart : (files .currentHart w).1 = wiring.hart
    · rw [if_pos hhart, if_neg (not_not_intro hhart), hlocal, h.afterHart]
    · rw [if_neg hhart, if_pos hhart]
      exact congrArg m.setting ((h.afterReport _ _).trans (h.afterHart w))

/-- Every operation changes the setting as it is asked to. -/
theorem setting_run {op : ImsicOperation} (hop : op.UsesRegisters) (w : σ) :
    m.setting (registers ((op.program m).run files w).2) =
      (m.setting (registers w)).after m (files .currentHart w).1 op := by
  cases op with
  | setUp => exact congrArg m.setting (h.afterReport _ w)
  | setUpHart hart =>
    have hreport := h.afterReport (.fileInitialized hart) (m.setUpLocal.run files w).2
    rw [ImsicOperation.program, Imsic.setUpHart, Program.run_bind]
    exact (congrArg m.setting hreport).trans (h.setting_setUpLocal w)
  | setUpLocal => exact h.setting_setUpLocal w
  | enable e => exact h.setting_enable e w
  | disable e => exact h.setting_disable e w
  | isEnabled e => exact congrArg m.setting (h.run_isEnabled e w).2
  | setThreshold value => exact h.setting_setThreshold value w
  | threshold => exact congrArg m.setting (h.run_threshold (m := m) w).2
  | configure e wiring => exact h.setting_configure e wiring w
  | claimLocal | sendMessage hart data | sendIpi hart => exact hop.elim

end PlainRegisters

namespace Imsic

variable {σ : Type} {files : Service interruptFiles σ} {registers : σ → Nat → BitVec 64}

/-- Some operations, each with the hart that the platform says it is called on. -/
def calls (m : Imsic) (files : Service interruptFiles σ) :
    List ImsicOperation → σ → List (ImsicOperation × Nat)
  | [], _ => []
  | op :: rest, w =>
    (op, (files .currentHart w).1) :: calls m files rest ((op.program m).run files w).2

theorem setting_inTurn {m : Imsic} (h : PlainRegisters files registers)
    {ops : List ImsicOperation} (hops : ∀ op ∈ ops, op.UsesRegisters) (w : σ) :
    m.setting (registers ((Program.inTurn (ImsicOperation.program m) ops).run files w).2) =
      (m.setting (registers w)).afterAll m (m.calls files ops w) := by
  induction ops generalizing w with
  | nil => rfl
  | cons op rest ih =>
    rw [Program.run_inTurn_cons, ih fun op hop => hops op (List.mem_cons_of_mem _ hop),
      h.setting_run (hops op List.mem_cons_self)]
    rfl

/-- Over registers that read back what was written to them, a handle is a set of identities and a
threshold, whatever sequence of operations it was asked for and whichever hart called them.
- An identity reads as enabled exactly if it is in the set that the operations lead to from the one
  at the start, which holds no other identities than those of the file.
- The threshold is the one that was accepted last. It stays among the identities of the file, if it
  is there at the start.
- No access reaches an indirect register that the handle does not own, and each of these has an even
  number that is not above 0xFE. -/
theorem setting_of_operations (m : Imsic) (h : PlainRegisters files registers)
    (ops : List ImsicOperation) (hops : ∀ op ∈ ops, op.UsesRegisters) (w : σ) :
    let program := Program.inTurn (ImsicOperation.program m) ops
    let after := (program.run files w).2
    let asked := (m.setting (registers w)).afterAll m (m.calls files ops w)
    (∀ e, ((m.isEnabled e).run files after).1 = true ↔ e ∈ asked.enabled) ∧
    (∀ e ∈ asked.enabled, 1 ≤ e ∧ e ≤ m.identities) ∧
    (threshold.run files after).1 = asked.threshold ∧
    ((threshold.run files w).1 ≤ m.identities →
      (threshold.run files after).1 ≤ m.identities) ∧
    program.Asks m.Safe ∧ ∀ register, m.Owns register → register % 2 = 0 ∧ register ≤ 0xFE := by
  intro program after asked
  have hasked : m.setting (registers after) = asked := setting_inTurn h hops w
  have hthreshold (w : σ) : (threshold.run files w).1 = (m.setting (registers w)).threshold :=
    (h.run_threshold w).1
  refine ⟨fun e => ?_, fun e he => ?_, ?_, fun hle => ?_, ?_, fun register => Owns.even⟩
  · rw [← hasked]
    exact (h.run_isEnabled e after).1
  · rw [← hasked, setting, FileSetting.mem_enabled_ofFile, hasIdentity_iff] at he
    exact he.1
  · rw [hthreshold, hasked]
  · rw [hthreshold] at hle
    rw [hthreshold, hasked]
    exact FileSetting.threshold_afterAll_le hle _
  · exact Program.Asks.inTurn fun op _ => m.safe_program op

/-- Registers and nothing else, on a platform with one hart running. -/
def plainFile (hart : Nat) : Service interruptFiles (Nat → BitVec 64)
  | .readIndirect register, registers => (registers register, registers)
  | .writeIndirect register value, registers => ((), Function.update registers register value)
  | .swapTop _, registers => (0, registers)
  | .writeMessage _ _, registers => ((), registers)
  | .currentHart, registers => (hart, registers)
  | .report _, registers => ((), registers)

theorem plainRegisters_plainFile (hart : Nat) : PlainRegisters (plainFile hart) id :=
  ⟨fun _ _ => rfl, fun _ _ => rfl, fun _ _ _ => rfl, fun _ => rfl, fun _ _ => rfl⟩

/-- A driver of two files with 127 identities that knows on which hart it runs. -/
def twoFiles : Imsic := ⟨⟨2, minFileStride, 127, true⟩, by decide, by decide⟩

/-- Identity 70 is disabled, and stays so when it is configured for another hart. Neither identity
200 nor the threshold 128 fits the file. -/
def sampleOperations : List ImsicOperation :=
  [.setUpHart 0, .disable 70, .configure 70 ⟨.edgeRise, 1, 3⟩, .enable 200, .setThreshold 100,
    .setThreshold 128]

theorem setting_of_operations_twoFiles :
    let after := ((Program.inTurn (ImsicOperation.program twoFiles) sampleOperations).run
      (plainFile 0) fun _ => 0).2
    ((twoFiles.isEnabled 70).run (plainFile 0) after).1 = false ∧
      ((twoFiles.isEnabled 71).run (plainFile 0) after).1 = true ∧
      ((twoFiles.isEnabled 200).run (plainFile 0) after).1 = false ∧
      (threshold.run (plainFile 0) after).1 = 100 := by
  intro after
  obtain ⟨henabled, -, hthreshold, -⟩ := setting_of_operations twoFiles
    (plainRegisters_plainFile 0) sampleOperations (by simp [sampleOperations,
      ImsicOperation.UsesRegisters]) fun _ => 0
  refine ⟨?_, ?_, ?_, hthreshold⟩
  · rw [Bool.eq_false_iff, Ne, henabled]
    decide
  · rw [henabled]
    decide
  · rw [Bool.eq_false_iff, Ne, henabled]
    decide

end Imsic

end AdvancedInterrupts
