import AdvancedInterrupts.Aplic.BringUp
import AdvancedInterrupts.Proofs.DriverWindow
import AdvancedInterrupts.Proofs.LegalRegisters
import AdvancedInterrupts.Proofs.OwnRequests

/-!
# Reset of a domain

A reset makes the same writes whatever the domain answers. The first one
switches the domain off and sets its delivery mode, the last one switches it on,
and the ones between clear the flags of all sources and then make one source
after the other inactive. Each of them changes the sources that it names and
nothing else, so what a reset leaves can be told source by source, from any
state and also for a handle that knows more or fewer sources than there are.
-/
namespace AdvancedInterrupts

namespace Program

variable {I : Interface} {α ι σ : Type}

theorem Issues.forM {f : ι → Program I PUnit} {ops : ι → List I.Op}
    (h : ∀ x, (f x).Issues (ops x)) (xs : List ι) : (xs.forM f).Issues (xs.flatMap ops) := by
  induction xs with
  | nil => exact .done _
  | cons x rest ih => exact (h x).bind fun _ => ih

/-- A program whose operations are known leaves the state that they leave. -/
theorem Issues.run_eq_foldl {p : Program I α} {ops : List I.Op} (h : p.Issues ops)
    (service : Service I σ) (s : σ) :
    (p.run service s).2 = ops.foldl (fun s op => (service op s).2) s := by
  induction h generalizing s with
  | done a => rfl
  | ask op hnext ih => exact ih _ _

end Program

/-- The access that writes a word to a register. -/
def writeAccess (write : Register × Word) : WindowAccess := .write write.1.offset write.2

theorem issues_write (r : Register) (value : Word) :
    (r.write value).Issues [writeAccess (r, value)] :=
  Program.issues_perform _

namespace Aplic

/-- The writes that withdraw and disable the sources of one word. -/
def clearingWrites (word : Nat) : List (Register × Word) :=
  [(.clearPending word, BitVec.allOnes 32), (.clearEnable word, BitVec.allOnes 32)]

variable (a : Aplic)

/-- The writes that make a source inactive. -/
def sourceWrites (source : Nat) : List (Register × Word) :=
  (.sourceConfig source, SourceMode.inactive.toWord) ::
    match a.delivery with
    | .direct => [(.target source, BitVec.ofNat 32 defaultPriority)]
    | .msi => []

/-- The writes of a reset while the domain is off. -/
def quietWrites : List (Register × Word) :=
  (List.range bitWords).flatMap clearingWrites ++ a.sourceNumbers.flatMap a.sourceWrites

def resetWrites : List (Register × Word) :=
  (.domainConfig, a.domainSetting false) ::
    (a.quietWrites ++ [(.domainConfig, a.domainSetting true)])

theorem issues_reset :
    a.reset.Issues (a.resetWrites.map writeAccess ++
      [.report (.domainInitialized (a.sources - 1) a.delivery)]) := by
  have hclear (word : Nat) : Program.Issues
      (do
        (Register.clearPending word).write (BitVec.allOnes 32)
        (Register.clearEnable word).write (BitVec.allOnes 32))
      ((clearingWrites word).map writeAccess) :=
    (issues_write _ _).bind fun _ => issues_write _ _
  have hsource (source : Nat) :
      (a.clearSource source).Issues ((a.sourceWrites source).map writeAccess) := by
    refine (issues_write _ _).bind fun _ => ?_
    cases a.delivery with
    | direct => exact issues_write _ _
    | msi => exact .done _
  have hreset : a.reset.Issues _ :=
    (issues_write _ _).bind fun _ => (Program.Issues.forM hclear _).bind fun _ =>
      (Program.Issues.forM hsource _).bind fun _ => (issues_write _ _).bind fun _ =>
        Program.issues_perform _
  simpa [resetWrites, quietWrites, List.map_flatMap] using hreset

theorem hasRegister_quietWrites (d : EmulatedDomain) {write : Register × Word}
    (h : write ∈ a.quietWrites) : d.HasRegister write.1 ∧ write.1 ≠ .domainConfig := by
  simp only [quietWrites, List.mem_append, List.mem_flatMap, List.mem_range,
    a.mem_sourceNumbers] at h
  rcases h with ⟨word, hword, h⟩ | ⟨s, hs, h⟩
  · simp only [clearingWrites, List.mem_cons, List.not_mem_nil, or_false] at h
    rcases h with rfl | rfl <;> exact ⟨.of_published hword fun _ _ => by simp, by simp⟩
  · have hpublished := a.published_of_hasSource hs
    cases hdelivery : a.delivery with
    | direct =>
      simp only [sourceWrites, hdelivery, List.mem_cons, List.not_mem_nil, or_false] at h
      rcases h with rfl | rfl
      · exact ⟨.of_published hpublished.1 fun _ _ => by simp, by simp⟩
      · exact ⟨.of_published hpublished.2 fun _ _ => by simp, by simp⟩
    | msi =>
      simp only [sourceWrites, hdelivery, List.mem_cons, List.not_mem_nil, or_false] at h
      subst h
      exact ⟨.of_published hpublished.1 fun _ _ => by simp, by simp⟩

end Aplic

namespace EmulatedDomain

variable {d e e' : EmulatedDomain} (a : Aplic)

/-- The domain after some writes, one after the other. -/
def afterWrites (d : EmulatedDomain) (writes : List (Register × Word)) : EmulatedDomain :=
  writes.foldl (fun d write => d.writeRegister write.1 write.2) d

theorem afterWrites_append (d : EmulatedDomain) (writes later : List (Register × Word)) :
    d.afterWrites (writes ++ later) = (d.afterWrites writes).afterWrites later :=
  List.foldl_append

theorem foldl_service_writes (hfits : d.address + d.size ≤ addressSpace)
    {writes : List (Register × Word)}
    (h : ∀ write ∈ writes, ∀ d : EmulatedDomain, d.HasRegister write.1) :
    (writes.map writeAccess).foldl (fun d access => (service access d).2) d =
      d.afterWrites writes := by
  induction writes generalizing d with
  | nil => rfl
  | cons write rest ih =>
    have hwrite : (service (writeAccess write) d).2 = d.writeRegister write.1 write.2 :=
      windowWrite_register hfits (h write List.mem_cons_self d) write.2
    rw [List.map_cons, List.foldl_cons, hwrite]
    exact ih (fits_writeRegister hfits _ _) fun later hlater =>
      h later (List.mem_cons_of_mem write hlater)

/-- The domain with another configuration. -/
def withConfig (d : EmulatedDomain) (config : DomainConfig) : EmulatedDomain := { d with config }

/-- A reset makes its writes while the domain is off. -/
theorem run_reset (hfits : d.address + d.size ≤ addressSpace) :
    (a.reset.run service d).2 =
      ((d.withConfig ⟨false, a.delivery, false⟩).afterWrites a.quietWrites).withConfig
        ⟨false, a.delivery, true⟩ := by
  have hregisters : ∀ write ∈ a.resetWrites, ∀ d : EmulatedDomain, d.HasRegister write.1 := by
    intro write hwrite d
    simp only [Aplic.resetWrites, List.mem_cons, List.mem_append, List.not_mem_nil, or_false]
      at hwrite
    rcases hwrite with rfl | hwrite | rfl
    · exact .of_published trivial fun _ _ => by simp
    · exact (a.hasRegister_quietWrites d hwrite).1
    · exact .of_published trivial fun _ _ => by simp
  have hsetting (d : EmulatedDomain) (enabled : Bool) :
      d.writeRegister .domainConfig (a.domainSetting enabled) =
        d.withConfig ⟨false, a.delivery, enabled⟩ := by
    rw [writeRegister, Aplic.domainSetting, DomainConfig.ofWord_toWord, withConfig]
  rw [a.issues_reset.run_eq_foldl, List.foldl_append, foldl_service_writes hfits hregisters]
  simp only [Aplic.resetWrites, afterWrites, List.foldl_cons, List.foldl_append, List.foldl_nil,
    hsetting, service]

/-- Only the sources change, each by a rule for its number. -/
structure Changes (change : Nat → Source → Source) (d e : EmulatedDomain) : Prop where
  shape : e.shape = d.shape
  config : e.config = d.config
  idc (i : Nat) : e.idc i = d.idc i
  source (s : Nat) : e.source s = change s (d.source s)

theorem Changes.trans {f g : Nat → Source → Source} (h : Changes f d e) (h' : Changes g e e') :
    Changes (fun s x => g s (f s x)) d e' where
  shape := h'.shape.trans h.shape
  config := h'.config.trans h.config
  idc i := (h'.idc i).trans (h.idc i)
  source s := by rw [h'.source, h.source]

theorem Changes.congr {f g : Nat → Source → Source} (h : Changes f d e)
    (hfg : ∀ s, f s (d.source s) = g s (d.source s)) : Changes g d e :=
  ⟨h.shape, h.config, h.idc, fun s => (h.source s).trans (hfg s)⟩

theorem changes_setFlags (d : EmulatedDomain) (f : SourceFlag) (value : Bool) (word : Nat)
    (mask : Word) : Changes (fun s x =>
      if (s / 32 = word ∧ mask.getLsbD (s % 32) = true) ∧ d.acceptsFlag s value = true then
        x.withFlag f value
      else x) d (d.setFlags f value word mask) where
  shape := d.shape_setFlags f value word mask
  config := d.config_setFlags f value word mask
  idc := d.idc_setFlags f value word mask
  source := d.source_setFlags f value word mask

theorem changes_modifySource (d : EmulatedDomain) (i : Nat) (f : Source → Source) :
    Changes (fun s x => if s = i ∧ d.hasSource s = true then f x else x) d
      (if d.hasSource i then d.modifySource i f else d) := by
  cases hknown : d.hasSource i with
  | false =>
    refine ⟨rfl, rfl, fun _ => rfl, fun s => (if_neg fun h => ?_).symm⟩
    rw [h.1, hknown] at h
    exact absurd h.2 Bool.false_ne_true
  | true =>
    refine ⟨rfl, rfl, fun _ => rfl, fun s => ?_⟩
    rw [if_pos rfl, source_modifySource]
    by_cases hs : i = s
    · have hslots := d.lt_sourceSlots_of_hasSource hknown
      subst hs
      rw [if_pos ⟨rfl, hslots⟩, if_pos ⟨rfl, hknown⟩]
    · rw [if_neg fun he => hs he.1, if_neg fun he => hs he.1.symm]

theorem changes_write_sourceConfig (d : EmulatedDomain) (i : Nat) (mode : SourceMode) :
    Changes (fun s x => if s = i ∧ d.hasSource s = true then x.withMode mode else x) d
      (d.writeRegister (.sourceConfig i) mode.toWord) := by
  rw [writeRegister_sourceConfig]
  exact changes_modifySource d i _

theorem changes_write_target (d : EmulatedDomain) (i : Nat) (word : Word) :
    Changes (fun s x =>
      if s = i ∧ d.hasSource s = true then x.withTarget d.config.delivery word else x) d
      (d.writeRegister (.target i) word) :=
  changes_modifySource d i _

/-- A loop in which every round changes the sources with its key. Making the change twice is the
same as making it once, so the rounds may name a source more than once. -/
theorem Changes.loop (key : Nat → Nat) (writes : Nat → List (Register × Word)) {f : Source → Source}
    (hf : ∀ x, f (f x) = f x) {known : Nat → Bool} {config : DomainConfig}
    (hround : ∀ d : EmulatedDomain, d.hasSource = known → d.config = config → ∀ i,
      Changes (fun s x => if key s = i ∧ known s = true then f x else x) d
        (d.afterWrites (writes i)))
    (rounds : List Nat) (hknown : d.hasSource = known) (hconfig : d.config = config) :
    Changes (fun s x => if key s ∈ rounds ∧ known s = true then f x else x) d
      (d.afterWrites (rounds.flatMap writes)) := by
  induction rounds generalizing d with
  | nil => exact ⟨rfl, rfl, fun _ => rfl, fun s => by simp [afterWrites]⟩
  | cons i rest ih =>
    have hfirst := hround d hknown hconfig i
    have hrest := ih (d := d.afterWrites (writes i))
      ((hasSource_of_shape hfirst.shape).trans hknown) (hfirst.config.trans hconfig)
    rw [List.flatMap_cons, afterWrites_append]
    refine (hfirst.trans hrest).congr fun s => ?_
    by_cases hi : key s = i <;> by_cases hs : known s = true <;> by_cases hmem : key s ∈ rest <;>
      simp [hi, hs, hmem, hf]

end EmulatedDomain

def Source.quiet (x : Source) : Source := { x with pending := false, enabled := false }

/-- A source is known by its mode, its target and its flags. -/
theorem Source.ext_flag {x y : Source} (hmode : x.mode = y.mode) (htarget : x.target = y.target)
    (hflag : ∀ f, x.flag f = y.flag f) : x = y := by
  obtain ⟨mode, target, pending, enabled⟩ := x
  obtain ⟨mode', target', pending', enabled'⟩ := y
  obtain rfl : mode = mode' := hmode
  obtain rfl : target = target' := htarget
  obtain rfl : pending = pending' := hflag .pending
  obtain rfl : enabled = enabled' := hflag .enabled
  rfl

namespace Aplic

variable (a : Aplic)

/-- A source as a reset leaves it. -/
def resetSource (x : Source) : Source :=
  match a.delivery with
  | .direct => (x.withMode .inactive).withTarget .direct (BitVec.ofNat 32 defaultPriority)
  | .msi => x.withMode .inactive

theorem mode_resetSource (x : Source) : (a.resetSource x).mode = .inactive := by
  unfold resetSource
  split <;> simp

theorem flag_resetSource (x : Source) (f : SourceFlag) : (a.resetSource x).flag f = false := by
  unfold resetSource
  split <;> simp [SourceMode.isActive]

theorem target_resetSource (x : Source) :
    (a.resetSource x).target = if a.delivery = .direct then 1 else x.target := by
  have hstored : Target.stored .direct (BitVec.ofNat 32 defaultPriority) = 1 := by decide
  unfold resetSource
  cases a.delivery with
  | direct => exact hstored
  | msi => exact x.target_withMode .inactive

/-- Of a source that is reset, nothing but the target can stay. -/
theorem resetSource_congr {x y : Source} (h : (a.resetSource x).target = (a.resetSource y).target) :
    a.resetSource x = a.resetSource y :=
  Source.ext_flag (by rw [mode_resetSource, mode_resetSource]) h fun f => by
    rw [flag_resetSource, flag_resetSource]

theorem resetSource_resetSource (x : Source) :
    a.resetSource (a.resetSource x) = a.resetSource x := by
  refine a.resetSource_congr ?_
  rw [target_resetSource, target_resetSource]
  split <;> rfl

theorem resetSource_quiet (x : Source) : a.resetSource x.quiet = a.resetSource x := by
  refine a.resetSource_congr ?_
  rw [target_resetSource, target_resetSource]
  rfl

end Aplic

namespace EmulatedDomain

variable {d e : EmulatedDomain} (a : Aplic)

theorem changes_clearingWrites (d : EmulatedDomain) (word : Nat) :
    Changes (fun s x => if s / 32 = word ∧ d.hasSource s = true then x.quiet else x) d
      (d.afterWrites (Aplic.clearingWrites word)) := by
  have hpending := changes_setFlags d .pending false word (BitVec.allOnes 32)
  have henabled := changes_setFlags (d.setFlags .pending false word (BitVec.allOnes 32)) .enabled
    false word (BitVec.allOnes 32)
  simp only [afterWrites, Aplic.clearingWrites, List.foldl_cons, List.foldl_nil, writeRegister]
  refine (hpending.trans henabled).congr fun s => ?_
  have hbit : (BitVec.allOnes 32).getLsbD (s % 32) = true := by
    rw [BitVec.getLsbD_allOnes, decide_eq_true_eq]
    omega
  have hknown : (d.setFlags .pending false word (BitVec.allOnes 32)).hasSource s = d.hasSource s :=
    congrFun (hasSource_of_shape hpending.shape) s
  simp only [acceptsFlag, hknown, hbit, Bool.not_false, Bool.true_or, Bool.and_true, and_true]
  split <;> rfl

theorem changes_sourceWrites (hdelivery : d.config.delivery = a.delivery) (i : Nat) :
    Changes (fun s x => if s = i ∧ d.hasSource s = true then a.resetSource x else x) d
      (d.afterWrites (a.sourceWrites i)) := by
  have hmode := changes_write_sourceConfig d i .inactive
  cases ha : a.delivery with
  | msi =>
    simp only [afterWrites, Aplic.sourceWrites, Aplic.resetSource, ha, List.foldl_cons,
      List.foldl_nil]
    exact hmode
  | direct =>
    have htarget := changes_write_target
      (d.writeRegister (.sourceConfig i) SourceMode.inactive.toWord) i
      (BitVec.ofNat 32 defaultPriority)
    rw [hmode.config, hdelivery, ha, hasSource_of_shape hmode.shape] at htarget
    simp only [afterWrites, Aplic.sourceWrites, Aplic.resetSource, ha, List.foldl_cons,
      List.foldl_nil]
    refine (hmode.trans htarget).congr fun s => ?_
    split <;> rfl

/-- While the domain is off, the sources that the handle knows are made inactive, and the others are
only withdrawn and disabled. -/
theorem changes_quietWrites (hdelivery : d.config.delivery = a.delivery) :
    Changes (fun s x =>
      if d.hasSource s = true then if a.hasSource s = true then a.resetSource x else x.quiet else x)
      d (d.afterWrites a.quietWrites) := by
  have hclearing : Changes (fun s x =>
      if s / 32 ∈ List.range bitWords ∧ d.hasSource s = true then x.quiet else x) d
      (d.afterWrites ((List.range bitWords).flatMap Aplic.clearingWrites)) :=
    Changes.loop (· / 32) Aplic.clearingWrites (f := Source.quiet) (fun _ => rfl)
      (fun e hknown _ word => hknown ▸ changes_clearingWrites e word) _ rfl rfl
  have hsources := Changes.loop id a.sourceWrites (f := a.resetSource)
    a.resetSource_resetSource
    (fun e hknown hconfig i => hknown ▸ changes_sourceWrites a (by rw [hconfig, hdelivery]) i)
    a.sourceNumbers (hasSource_of_shape hclearing.shape) hclearing.config
  rw [Aplic.quietWrites, afterWrites_append]
  refine (hclearing.trans hsources).congr fun s => ?_
  by_cases hknown : d.hasSource s = true
  · have hword : s / 32 ∈ List.range bitWords :=
      List.mem_range.mpr (word_lt_bitWords (d.lt_sourceSlots_of_hasSource hknown))
    simp only [hword, hknown, and_self, if_true, id, a.mem_sourceNumbers, and_true,
      a.resetSource_quiet]
  · rw [if_neg fun h => hknown h.2, if_neg fun h => hknown h.2, if_neg hknown]

end EmulatedDomain

/-- What a reset leaves of a domain: no source is pending or enabled, and the sources that the
handle knows are inactive. The delivery mode is that of the handle, and under direct delivery these
sources go to the first delivery structure with the most urgent priority. -/
structure Aplic.Resets (a : Aplic) (d after : EmulatedDomain) : Prop where
  shape : after.shape = d.shape
  config : after.config = ⟨false, a.delivery, true⟩
  idc (i : Nat) : after.idc i = d.idc i
  flag (s : Nat) (f : SourceFlag) : (after.source s).flag f = false
  mode (s : Nat) : (after.source s).mode =
    if 1 ≤ s ∧ s < min a.sources d.sourceCount then .inactive else (d.source s).mode
  target (s : Nat) : (after.source s).target =
    if a.delivery = .direct ∧ 1 ≤ s ∧ s < min a.sources d.sourceCount then 1
    else (d.source s).target

namespace EmulatedDomain

variable {d after again : EmulatedDomain} {a : Aplic}

theorem resets_run (hd : d.Consistent) (hfits : d.address + d.size ≤ addressSpace) :
    a.Resets d (a.reset.run service d).2 := by
  have hquiet := changes_quietWrites a (d := d.withConfig ⟨false, a.delivery, false⟩) rfl
  rw [run_reset a hfits]
  generalize (d.withConfig ⟨false, a.delivery, false⟩).afterWrites a.quietWrites = off at hquiet ⊢
  have hsource (s : Nat) : (off.withConfig ⟨false, a.delivery, true⟩).source s =
      if d.hasSource s = true then
        if a.hasSource s = true then a.resetSource (d.source s) else (d.source s).quiet
      else d.source s :=
    hquiet.source s
  have hboth (s : Nat) : 1 ≤ s ∧ s < min a.sources d.sourceCount ↔
      d.hasSource s = true ∧ a.hasSource s = true := by
    rw [a.hasSource_iff, d.hasSource_iff]
    omega
  refine ⟨hquiet.shape, rfl, hquiet.idc, fun s f => ?_, fun s => ?_, fun s => ?_⟩
  · rw [hsource]
    cases hknown : d.hasSource s with
    | true =>
      rw [if_pos rfl]
      split
      · exact a.flag_resetSource _ f
      · cases f <;> rfl
    | false =>
      rw [if_neg Bool.false_ne_true, hd.absent s hknown]
      cases f <;> rfl
  · simp only [hsource, hboth]
    cases d.hasSource s <;> cases a.hasSource s
    case true.true => exact a.mode_resetSource _
    all_goals rfl
  · simp only [hsource, hboth]
    cases d.hasSource s <;> cases a.hasSource s
    case true.true => simp only [if_true, and_true, a.target_resetSource]
    all_goals simp [Source.quiet]

/-- Domains with the same registers are equal. -/
theorem ext_registers {d e : EmulatedDomain} (hshape : e.shape = d.shape)
    (hconfig : e.config = d.config) (hidc : ∀ i, e.idc i = d.idc i)
    (hsource : ∀ s, e.source s = d.source s) : e = d := by
  obtain ⟨address, sourceCount, idcCount, config, sources, idcs, _, _⟩ := d
  obtain ⟨address', sourceCount', idcCount', config', sources', idcs', _, _⟩ := e
  simp only [shape, Prod.mk.injEq] at hshape
  obtain ⟨rfl, rfl, rfl⟩ := hshape
  obtain rfl : config' = config := hconfig
  obtain rfl : sources' = sources := Table.ext_get fun s _ => hsource s
  obtain rfl : idcs' = idcs := Table.ext_get fun i _ => hidc i
  rfl

/-- A second reset finds nothing to do. -/
theorem eq_of_resets (h : a.Resets d after) (h' : a.Resets after again) : again = after := by
  have hcount : after.sourceCount = d.sourceCount := sourceCount_of_shape h.shape
  have hmode (s : Nat) : (again.source s).mode = (after.source s).mode := by
    rw [h'.mode, h.mode, hcount]
    split <;> rfl
  have htarget (s : Nat) : (again.source s).target = (after.source s).target := by
    rw [h'.target, h.target, hcount]
    split <;> rfl
  have hflag (s : Nat) (f : SourceFlag) : (again.source s).flag f = (after.source s).flag f := by
    rw [h'.flag, h.flag]
  refine ext_registers h'.shape (by rw [h'.config, h.config]) h'.idc fun s => ?_
  exact Source.ext_flag (hmode s) (htarget s) (hflag s)

/-- What a reset leaves of a domain is known exactly, whatever the domain was used for before, and a
second reset changes none of it. On any device, the domain is first switched off and at last
switched on, and its configuration is not written in between. -/
theorem reset_from_any_state (a : Aplic) :
    (∀ d : EmulatedDomain, d.Reachable → d.address + d.size ≤ addressSpace →
      let after := (a.reset.run service d).2
      a.Resets d after ∧ (a.reset.run service after).2 = after) ∧
    ∃ (off on : Word) (middle : List WindowAccess) (notice : Notice),
      a.reset.Issues (.write Register.domainConfig.offset off ::
        (middle ++ [.write Register.domainConfig.offset on, .report notice])) ∧
      (DomainConfig.ofWord off).enabled = false ∧ (DomainConfig.ofWord on).enabled = true ∧
      ∀ access ∈ middle, ∀ value, access ≠ .write Register.domainConfig.offset value := by
  refine ⟨fun d hd hfits => ?_, a.domainSetting false, a.domainSetting true,
    a.quietWrites.map writeAccess, .domainInitialized (a.sources - 1) a.delivery, ?_, ?_, ?_, ?_⟩
  · intro after
    have hfirst : a.Resets d after := resets_run hd.consistent hfits
    have hsecond : a.Resets after (a.reset.run service after).2 :=
      resets_run (hd.run a.reset).consistent (fits_of_shape hfirst.shape hfits)
    exact ⟨hfirst, eq_of_resets hfirst hsecond⟩
  · simpa [Aplic.resetWrites, writeAccess] using a.issues_reset
  · rw [Aplic.domainSetting, DomainConfig.ofWord_toWord]
  · rw [Aplic.domainSetting, DomainConfig.ofWord_toWord]
  · intro access haccess value hvalue
    obtain ⟨write, hwrite, rfl⟩ := List.mem_map.mp haccess
    obtain ⟨hregister, hne⟩ := a.hasRegister_quietWrites sample hwrite
    have hoffset : write.1.offset = Register.domainConfig.offset := by
      injection hvalue
    have hreached := Register.ofOffset?_offset hregister.1
    rw [hoffset, Register.ofOffset?_offset (r := .domainConfig) trivial] at hreached
    exact hne (Option.some.inj hreached).symm

/-- A handle for message delivery resets a domain that was used for direct delivery. It knows of
some of the sources only. -/
theorem reset_from_any_state_sampleAccesses :
    let a : Aplic :=
      ⟨{ AplicConfig.standard with sources := 5, delivery := .msi }, by decide, by decide⟩
    let d := sample.afterAll sampleAccesses
    let after := (a.reset.run service d).2
    d.Reachable ∧ d.address + d.size ≤ addressSpace ∧ d.top 0 ≠ none ∧ a.Resets d after ∧
      (a.reset.run service after).2 = after := by
  intro a d after
  have hreachable : d.Reachable := sample_reachable.afterAll _
  have hfits : d.address + d.size ≤ addressSpace := by decide
  exact ⟨hreachable, hfits, by decide, (reset_from_any_state a).1 d hreachable hfits⟩

end EmulatedDomain

end AdvancedInterrupts
