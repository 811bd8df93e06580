import AdvancedInterrupts.Proofs.RegisterFrame

/-!
# Words that set a source mode

A word for the configuration of a source is looked at twice. A driver drops the
words that have no effect and passes of the others only the mode on; a domain
looks at the whole word that reaches it, and its guest can write any. Both take
the same words to mean the same mode, so a source that is configured by a driver
ends as one that the guest writes the word to. This is said here by the bits of
the word, for all of them.
-/
namespace AdvancedInterrupts

namespace SourceMode

/-- Whether a source configuration word has an effect: bit 10 does not hand the source to a child
domain, and the low three bits are none of the reserved codes. -/
def TakesEffect (word : Word) : Prop :=
  word.getLsbD 10 = false ∧ word &&& 7 ≠ 2 ∧ word &&& 7 ≠ 3

instance (word : Word) : Decidable (TakesEffect word) := inferInstanceAs (Decidable (_ ∧ _))

theorem and_seven (word : Word) : word &&& 7 = BitVec.ofNat 32 (word.field field) := by
  have hmask : field.mask = 7 := by decide
  rw [← hmask, word.and_mask (by decide)]
  exact BitVec.shiftLeft_zero _

theorem field_lt (word : Word) : word.field field < 8 :=
  Nat.lt_succ_of_le (word.field_le field)

/-- The code that a word has in its low bits. -/
theorem and_seven_eq_iff {word : Word} {code : Nat} (hcode : code < 8) :
    word &&& 7 = BitVec.ofNat 32 code ↔ word.field field = code := by
  have hfield := field_lt word
  rw [and_seven, ← BitVec.toNat_inj, BitVec.toNat_ofNat, BitVec.toNat_ofNat]
  omega

theorem ofCode?_eq_none_iff {code : Nat} (h : code < 8) :
    ofCode? code = none ↔ code = 2 ∨ code = 3 := by
  revert code
  decide

/-- A word that takes effect asks for the mode that its low bits encode. -/
theorem exists_ofWord {word : Word} (h : TakesEffect word) :
    ∃ mode, ofWord word = .ok mode ∧ mode.toWord = word &&& 7 := by
  obtain ⟨hdelegation, htwo, hthree⟩ := h
  have hcode : ofCode? (word.field field) ≠ none := by
    rw [Ne, ofCode?_eq_none_iff (field_lt word)]
    rintro (he | he)
    · exact htwo ((and_seven_eq_iff (by decide)).mpr he)
    · exact hthree ((and_seven_eq_iff (by decide)).mpr he)
  obtain ⟨mode, hmode⟩ := Option.ne_none_iff_exists'.mp hcode
  refine ⟨mode, ?_, ?_⟩
  · rw [ofWord, delegationBit, hdelegation, hmode]
    rfl
  · rw [toWord, code_of_ofCode? hmode, and_seven]

/-- Every other word asks for none. -/
theorem exists_ofWord_error {word : Word} (h : ¬ TakesEffect word) :
    ∃ e, ofWord word = .error e := by
  cases hdelegation : word.getLsbD delegationBit with
  | true => exact ⟨.delegated, by rw [ofWord, if_pos hdelegation]⟩
  | false =>
    refine ⟨.reservedMode, ?_⟩
    have hcode : ofCode? (word.field field) = none := by
      rw [ofCode?_eq_none_iff (field_lt word)]
      by_contra hcode
      rw [not_or] at hcode
      exact h ⟨hdelegation, mt (and_seven_eq_iff (by decide)).mp hcode.1,
        mt (and_seven_eq_iff (by decide)).mp hcode.2⟩
    rw [ofWord, hdelegation, hcode]
    rfl

/-- The mode with code zero is the inactive one. -/
theorem isActive_eq_of_toWord {mode : SourceMode} {code : Word} (h : mode.toWord = code) :
    mode.isActive = decide (code ≠ 0) := by
  rw [← h]
  cases mode <;> decide

end SourceMode

/-- A source with another mode loses its flags exactly if the code of the mode is zero. -/
theorem Source.withMode_eq {mode : SourceMode} {code : Word} (h : mode.toWord = code)
    (x : Source) : x.withMode mode =
      { mode, target := x.target
        pending := x.pending && decide (code ≠ 0)
        enabled := x.enabled && decide (code ≠ 0) } := by
  rw [withMode, SourceMode.isActive_eq_of_toWord h]
  cases decide (code ≠ 0) <;> simp

namespace EmulatedDomain

variable {d : EmulatedDomain} {r : Register}

/-- A guest writes a register at its address. -/
theorem guestWrite_register (h : d.HasRegister r) (value : BitVec 64) :
    d.guestWrite (d.address + r.offset) .dword value =
      .ok (d.writeRegister r (value.setWidth 32)) := by
  rw [guestWrite, if_pos h.accepts, Nat.add_sub_cancel_left, writeAt,
    Register.ofOffset?_offset h.1]

theorem writeRegister_sourceConfig_of_ok {s : Nat} {word : Word} {mode : SourceMode}
    (hs : d.hasSource s = true) (h : SourceMode.ofWord word = .ok mode) :
    d.writeRegister (.sourceConfig s) word = d.modifySource s fun x => x.withMode mode := by
  rw [writeRegister, if_pos hs, configureSource, h]

theorem writeRegister_sourceConfig_of_error {s : Nat} {word : Word} {e : SourceConfigError}
    (h : SourceMode.ofWord word = .error e) : d.writeRegister (.sourceConfig s) word = d := by
  rw [writeRegister, configureSource, h]
  exact ite_self d

end EmulatedDomain

namespace Aplic

open SourceMode

variable {a : Aplic} {d : EmulatedDomain} {s : Nat} {word : Word}

/-- A driver passes the mode of a word that takes effect on. -/
theorem issues_setSourceConfig (hs : a.hasSource s = true) (h : TakesEffect word) :
    (a.setSourceConfig s word).Issues [.write (Register.sourceConfig s).offset (word &&& 7)] := by
  obtain ⟨mode, hmode, hword⟩ := exists_ofWord h
  rw [setSourceConfig, if_pos hs, hmode, ← hword]
  exact Program.issues_perform (I := window) (.write _ _)

/-- It drops every other word with a notice. -/
theorem issues_setSourceConfig_dropped (hs : a.hasSource s = true) (h : ¬ TakesEffect word) :
    ∃ notice, (a.setSourceConfig s word).Issues [.report notice] := by
  obtain ⟨e, he⟩ := exists_ofWord_error h
  rw [setSourceConfig, if_pos hs, he]
  cases e with
  | delegated => exact ⟨_, Program.issues_perform (I := window) (.report _)⟩
  | reservedMode => exact ⟨_, Program.issues_perform (I := window) (.report _)⟩

/-- A domain is configured in the same way by a driver and by its guest: the driver writes what the
word leads to when the guest writes it. -/
theorem run_setSourceConfig_eq (hfits : d.address + d.size ≤ addressSpace)
    (hs : a.hasSource s = true) (word : Word) :
    ((a.setSourceConfig s word).run EmulatedDomain.service d).2 =
      d.writeRegister (.sourceConfig s) word := by
  rw [run_setSourceConfig hfits, EmulatedDomain.writeRegister, EmulatedDomain.configureSource]
  cases ofWord word with
  | error e => exact (ite_self d).symm
  | ok mode =>
    have hswitched : Source.switchedTo mode = fun x => x.withMode mode :=
      funext (Source.switchedTo_eq_withMode mode)
    exact (congrArg (a.change d s) hswitched).trans (change_of_hasSource hs _)

/-- What becomes of a domain when a driver configures a source with a word. -/
structure ConfiguredBy (a : Aplic) (d : EmulatedDomain) (s : Nat) (word : Word)
    (after : EmulatedDomain) : Prop where
  /-- It is left by the driver as by its guest, who can write the word with any upper half. -/
  guest (value : BitVec 64) (h : value.setWidth 32 = word) :
    d.guestWrite (d.address + (Register.sourceConfig s).offset) .dword value = .ok after
  /-- A word without effect changes nothing, and the driver does not pass it on. -/
  dropped (h : ¬ TakesEffect word) :
    after = d ∧ ∃ notice, (a.setSourceConfig s word).Issues [.report notice]
  /-- Of any other word the driver passes the code on, and the register holds it. -/
  written (h : TakesEffect word) :
    (a.setSourceConfig s word).Issues [.write (Register.sourceConfig s).offset (word &&& 7)] ∧
      (after.readRegister (.sourceConfig s)).1 = word &&& 7
  /-- The source has the mode of the code, and loses both flags exactly if the code is zero. -/
  stored (h : TakesEffect word) : ∃ mode, mode.toWord = word &&& 7 ∧
    after = d.modifySource s fun x =>
      { mode, target := x.target
        pending := x.pending && decide (word &&& 7 ≠ 0)
        enabled := x.enabled && decide (word &&& 7 ≠ 0) }

/-- Whatever a handle delivers, and in every state of a domain, a driver and a guest that configure
a source with the same word leave the same domain, and its low bits and bit 10 tell which. -/
theorem configuredBy_setSourceConfig (hfits : d.address + d.size ≤ addressSpace)
    (hs : a.hasSource s = true) (hd : d.hasSource s = true) (word : Word) :
    a.ConfiguredBy d s word ((a.setSourceConfig s word).run EmulatedDomain.service d).2 := by
  have hregister : d.HasRegister (.sourceConfig s) :=
    .of_published (a.published_of_hasSource hs).1 fun _ _ => by simp
  rw [run_setSourceConfig_eq hfits hs]
  constructor
  case guest =>
    rintro value rfl
    exact EmulatedDomain.guestWrite_register hregister value
  case dropped =>
    intro h
    obtain ⟨e, he⟩ := exists_ofWord_error h
    exact ⟨EmulatedDomain.writeRegister_sourceConfig_of_error he,
      issues_setSourceConfig_dropped hs h⟩
  case written =>
    intro h
    obtain ⟨mode, hmode, hword⟩ := exists_ofWord h
    refine ⟨issues_setSourceConfig hs h, ?_⟩
    rw [EmulatedDomain.writeRegister_sourceConfig_of_ok hd hmode, EmulatedDomain.readRegister,
      EmulatedDomain.source_modifySource_self d (a.lt_sourceSlots_of_hasSource hs),
      Source.mode_withMode, hword]
    exact if_pos hd
  case stored =>
    intro h
    obtain ⟨mode, hmode, hword⟩ := exists_ofWord h
    refine ⟨mode, hword, ?_⟩
    rw [EmulatedDomain.writeRegister_sourceConfig_of_ok hd hmode]
    exact d.modifySource_congr (Source.withMode_eq hword _)

/-- In the sample domain source 3 is enabled and pending. A word with bits 31 and 3 set and code
zero makes it inactive, and one that also has bit 10 set does nothing. -/
theorem configuredBy_setSourceConfig_sampleAccesses :
    let a : Aplic := ⟨{ AplicConfig.standard with delivery := .msi }, by decide, by decide⟩
    let d := EmulatedDomain.sample.afterAll EmulatedDomain.sampleAccesses
    let after (word : Word) := ((a.setSourceConfig 3 word).run EmulatedDomain.service d).2
    d.address + d.size ≤ addressSpace ∧ a.hasSource 3 = true ∧ d.hasSource 3 = true ∧
      d.source 3 = ⟨.edgeRise, 2, true, true⟩ ∧
      (after 0x80000008).source 3 = ⟨.inactive, 2, false, false⟩ ∧ after 0x80000408 = d ∧
      ∀ word, a.ConfiguredBy d 3 word (after word) := by
  intro a d after
  have hfits : d.address + d.size ≤ addressSpace := by decide
  have hs : a.hasSource 3 = true := by decide
  have hd : d.hasSource 3 = true := by decide
  have hall := configuredBy_setSourceConfig hfits hs hd
  exact ⟨hfits, hs, hd, by decide, by decide, ((hall 0x80000408).dropped (by decide)).1, hall⟩

end Aplic

end AdvancedInterrupts
