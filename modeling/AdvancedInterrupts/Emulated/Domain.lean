import AdvancedInterrupts.Notice
import AdvancedInterrupts.Register.Map
import AdvancedInterrupts.Table
import AdvancedInterrupts.Target

/-!
# An emulated interrupt domain

A domain that exists in software and is offered to a guest at a physical
address. It has no wires: sources become pending by register writes and by
injection. A source keeps its mode, its target and two flags, and a source that
is not active keeps both flags clear.
-/
namespace AdvancedInterrupts

/-- The most delivery structures an emulated domain can have. -/
def maxEmulatedIdcs : Nat := 32

/-- The two flags of a source that are kept in arrays with one bit per source. -/
inductive SourceFlag where
  | pending
  | enabled
deriving DecidableEq, Repr

/-- The registers of one source. -/
structure Source where
  mode : SourceMode
  target : Word
  pending : Bool
  enabled : Bool
deriving DecidableEq, Repr

namespace Source

/-- An inactive source without target. -/
def reset : Source := ⟨.inactive, 0, false, false⟩

instance : Inhabited Source := ⟨reset⟩

def flag : SourceFlag → Source → Bool
  | .pending, s => s.pending
  | .enabled, s => s.enabled

/-- The source with a flag changed. -/
def withFlag (s : Source) (f : SourceFlag) (value : Bool) : Source :=
  match f with
  | .pending => { s with pending := value }
  | .enabled => { s with enabled := value }

@[simp] theorem flag_withFlag (f g : SourceFlag) (value : Bool) (s : Source) :
    (s.withFlag g value).flag f = if f = g then value else s.flag f := by
  cases f <;> cases g <;> rfl

@[simp] theorem mode_withFlag (f : SourceFlag) (value : Bool) (s : Source) :
    (s.withFlag f value).mode = s.mode := by
  cases f <;> rfl

@[simp] theorem target_withFlag (f : SourceFlag) (value : Bool) (s : Source) :
    (s.withFlag f value).target = s.target := by
  cases f <;> rfl

/-- The source in another mode. Both flags are lost when it becomes inactive. -/
def withMode (s : Source) (mode : SourceMode) : Source :=
  if mode.isActive then { s with mode } else { s with mode, pending := false, enabled := false }

@[simp] theorem mode_withMode (mode : SourceMode) (s : Source) : (s.withMode mode).mode = mode := by
  unfold withMode
  split <;> rfl

@[simp] theorem target_withMode (mode : SourceMode) (s : Source) :
    (s.withMode mode).target = s.target := by
  unfold withMode
  split <;> rfl

/-- A source keeps its flags in an active mode only. -/
@[simp] theorem flag_withMode (f : SourceFlag) (mode : SourceMode) (s : Source) :
    (s.withMode mode).flag f = (mode.isActive && s.flag f) := by
  unfold withMode
  cases f <;> cases mode.isActive <;> rfl

/-- The source with a word written to its target register. -/
def withTarget (s : Source) (delivery : DeliveryMode) (word : Word) : Source :=
  { s with target := Target.stored delivery word }

@[simp] theorem mode_withTarget (delivery : DeliveryMode) (word : Word) (s : Source) :
    (s.withTarget delivery word).mode = s.mode := rfl

@[simp] theorem flag_withTarget (f : SourceFlag) (delivery : DeliveryMode) (word : Word)
    (s : Source) : (s.withTarget delivery word).flag f = s.flag f := by
  cases f <;> rfl

end Source

/-- The registers of one delivery structure. -/
structure IdcState where
  delivery : Bool
  force : Bool
  threshold : BitVec 8
deriving DecidableEq, Repr

namespace IdcState

/-- A delivery structure that is off and masks nothing. -/
def reset : IdcState := ⟨false, false, 0⟩

instance : Inhabited IdcState := ⟨reset⟩

end IdcState

/-- An emulated domain. The count of sources includes the reserved source 0. -/
structure EmulatedDomain where
  address : Nat
  sourceCount : Nat
  idcCount : Nat
  config : DomainConfig
  sources : Table sourceSlots Source
  idcs : Table maxEmulatedIdcs IdcState
  sourceCount_range : 2 ≤ sourceCount ∧ sourceCount ≤ sourceSlots
  idcCount_range : 1 ≤ idcCount ∧ idcCount ≤ maxEmulatedIdcs

namespace EmulatedDomain

/-- A domain out of reset, or the first thing that is wrong with its description. -/
def create (address sourceCount idcCount : Nat) : Except Notice EmulatedDomain :=
  if hs : 2 ≤ sourceCount ∧ sourceCount ≤ sourceSlots then
    if hi : 1 ≤ idcCount ∧ idcCount ≤ maxEmulatedIdcs then
      .ok ⟨address, sourceCount, idcCount, .reset, .fill _ .reset, .fill _ .reset, hs, hi⟩
    else .error (.emulatedIdcCount idcCount)
  else .error (.emulatedSourceCount sourceCount)

variable (d : EmulatedDomain)

/-- The bytes that the window takes. -/
def size : Nat := Register.idcBase + d.idcCount * Register.idcStride

/-- Whether the domain has a source with this number. -/
def hasSource (source : Nat) : Bool := decide (source ≠ 0 ∧ source < d.sourceCount)

@[simp] theorem hasSource_iff (source : Nat) :
    d.hasSource source = true ↔ 1 ≤ source ∧ source < d.sourceCount := by
  simp only [hasSource, decide_eq_true_eq]
  omega

def source (source : Nat) : Source := d.sources.get source

def idc (index : Nat) : IdcState := d.idcs.get index

def modifySource (source : Nat) (f : Source → Source) : EmulatedDomain :=
  { d with sources := d.sources.modify source f }

def modifyIdc (index : Nat) (f : IdcState → IdcState) : EmulatedDomain :=
  { d with idcs := d.idcs.modify index f }

theorem source_modifySource (i j : Nat) (f : Source → Source) :
    (d.modifySource i f).source j =
      if i = j ∧ j < sourceSlots then f (d.source j) else d.source j :=
  d.sources.get_modify i j f

theorem source_modifySource_self {i : Nat} (h : i < sourceSlots) (f : Source → Source) :
    (d.modifySource i f).source i = f (d.source i) :=
  d.sources.get_modify_self f h

theorem source_modifySource_ne {i j : Nat} (h : i ≠ j) (f : Source → Source) :
    (d.modifySource i f).source j = d.source j :=
  d.sources.get_modify_ne f h

theorem modifySource_congr {i : Nat} {f g : Source → Source}
    (h : f (d.source i) = g (d.source i)) : d.modifySource i f = d.modifySource i g := by
  rw [modifySource, modifySource, d.sources.modify_congr h]

theorem modifySource_eq_self {i : Nat} {f : Source → Source} (h : f (d.source i) = d.source i) :
    d.modifySource i f = d := by
  rw [modifySource, d.sources.modify_eq_self h]

theorem modifySource_ite (i : Nat) (f : Source → Source) (c : Prop) [Decidable c] :
    (d.modifySource i fun s => if c then f s else s) = if c then d.modifySource i f else d := by
  by_cases hc : c
  · simp only [hc, if_true]
  · simp only [hc, if_false]
    exact d.modifySource_eq_self rfl

theorem modifySource_modifySource (i : Nat) (f g : Source → Source) :
    (d.modifySource i f).modifySource i g = d.modifySource i fun s => g (f s) := by
  simp only [modifySource, Table.modify_modify]

theorem modifySource_comm {i j : Nat} (h : i ≠ j) (f g : Source → Source) :
    (d.modifySource i f).modifySource j g = (d.modifySource j g).modifySource i f := by
  simp only [modifySource, d.sources.modify_comm h]

theorem modifyIdc_comm {i j : Nat} (h : i ≠ j) (f g : IdcState → IdcState) :
    (d.modifyIdc i f).modifyIdc j g = (d.modifyIdc j g).modifyIdc i f := by
  simp only [modifyIdc, d.idcs.modify_comm h]

theorem modifyIdc_eq_self {i : Nat} {f : IdcState → IdcState} (h : f (d.idc i) = d.idc i) :
    d.modifyIdc i f = d := by
  rw [modifyIdc, d.idcs.modify_eq_self h]

@[simp] theorem idc_modifySource (i j : Nat) (f : Source → Source) :
    (d.modifySource i f).idc j = d.idc j := rfl

theorem idc_modifyIdc (i j : Nat) (f : IdcState → IdcState) :
    (d.modifyIdc i f).idc j =
      if i = j ∧ j < maxEmulatedIdcs then f (d.idc j) else d.idc j :=
  d.idcs.get_modify i j f

@[simp] theorem source_modifyIdc (i j : Nat) (f : IdcState → IdcState) :
    (d.modifyIdc i f).source j = d.source j := rfl

/-- Whether a flag of a source takes a value: the source exists, and an inactive one cannot have
a flag set. -/
def acceptsFlag (source : Nat) (value : Bool) : Bool :=
  d.hasSource source && (!value || (d.source source).mode.isActive)

/-- Sets or clears a flag of a source, where that takes effect. -/
def setFlag (f : SourceFlag) (value : Bool) (source : Nat) : EmulatedDomain :=
  if d.acceptsFlag source value then d.modifySource source fun s => s.withFlag f value else d

theorem lt_sourceSlots_of_hasSource {i : Nat} (h : d.hasSource i = true) : i < sourceSlots := by
  have := d.sourceCount_range
  rw [hasSource_iff] at h
  omega

/-- Setting a flag changes that flag of that source, and nothing of any other one. -/
theorem source_setFlag (f : SourceFlag) (value : Bool) (i j : Nat) :
    (d.setFlag f value i).source j =
      if i = j ∧ d.acceptsFlag j value = true then (d.source j).withFlag f value
      else d.source j := by
  unfold setFlag
  by_cases h : d.acceptsFlag i value = true
  · have hi : i < sourceSlots :=
      d.lt_sourceSlots_of_hasSource (by simp only [acceptsFlag, Bool.and_eq_true] at h; exact h.1)
    by_cases hij : i = j
    · subst hij
      simp [h, source_modifySource, hi]
    · simp [h, source_modifySource, hij]
  · by_cases hij : i = j
    · subst hij
      simp [h]
    · simp [h, hij]

@[simp] theorem idc_setFlag (f : SourceFlag) (value : Bool) (i j : Nat) :
    (d.setFlag f value i).idc j = d.idc j := by
  unfold setFlag
  split <;> rfl

@[simp] theorem config_setFlag (f : SourceFlag) (value : Bool) (i : Nat) :
    (d.setFlag f value i).config = d.config := by
  unfold setFlag
  split <;> rfl

/-- One word of the array of a flag. -/
def flagWord (f : SourceFlag) (word : Nat) : Word :=
  .ofBits fun bit => (d.source (word * 32 + bit)).flag f

@[simp] theorem getLsbD_flagWord (f : SourceFlag) (word bit : Nat) :
    (d.flagWord f word).getLsbD bit =
      (decide (bit < 32) && (d.source (word * 32 + bit)).flag f) := by
  simp [flagWord]

/-- The bit of a source in the word of a flag is the flag of this source. -/
theorem getLsbD_flagWord_source (f : SourceFlag) (source : Nat) :
    (d.flagWord f (source / 32)).getLsbD (source % 32) = (d.source source).flag f := by
  have hbit : source % 32 < 32 := Nat.mod_lt _ (by decide)
  have hposition : source / 32 * 32 + source % 32 = source := by omega
  rw [getLsbD_flagWord, hposition, decide_eq_true hbit, Bool.true_and]

/-- Sets or clears a flag of every source whose bit is set in a word of its array. -/
def setFlags (f : SourceFlag) (value : Bool) (word : Nat) (mask : Word) : EmulatedDomain :=
  mask.ones.foldl (fun d bit => d.setFlag f value (word * 32 + bit)) d

@[simp] theorem acceptsFlag_setFlag (f : SourceFlag) (value : Bool) (i j : Nat) (v : Bool) :
    (d.setFlag f value i).acceptsFlag j v = d.acceptsFlag j v := by
  have hc : (d.setFlag f value i).sourceCount = d.sourceCount := by
    unfold setFlag
    split <;> rfl
  have hm : ((d.setFlag f value i).source j).mode = (d.source j).mode := by
    rw [source_setFlag]
    split <;> simp
  simp only [acceptsFlag, hasSource, hc, hm]

/-- Setting a flag of the sources in a list changes that flag of those that accept it. -/
theorem source_foldl_setFlag (f : SourceFlag) (value : Bool) (numbers : List Nat) (j : Nat) :
    (numbers.foldl (fun d i => d.setFlag f value i) d).source j =
      if j ∈ numbers ∧ d.acceptsFlag j value = true then (d.source j).withFlag f value
      else d.source j := by
  induction numbers generalizing d with
  | nil => simp
  | cons i rest ih =>
    rw [List.foldl_cons, ih, acceptsFlag_setFlag, source_setFlag]
    by_cases ha : d.acceptsFlag j value = true
    · by_cases hij : i = j
      · subst hij
        have hw : ((d.source i).withFlag f value).withFlag f value =
            (d.source i).withFlag f value := by cases f <;> rfl
        simp [ha, hw]
      · simp [ha, hij, Ne.symm hij]
    · simp [ha]

@[simp] theorem idc_foldl_setFlag (f : SourceFlag) (value : Bool) (numbers : List Nat) (j : Nat) :
    (numbers.foldl (fun d i => d.setFlag f value i) d).idc j = d.idc j := by
  induction numbers generalizing d with
  | nil => rfl
  | cons i rest ih => rw [List.foldl_cons, ih, idc_setFlag]

@[simp] theorem config_foldl_setFlag (f : SourceFlag) (value : Bool) (numbers : List Nat) :
    (numbers.foldl (fun d i => d.setFlag f value i) d).config = d.config := by
  induction numbers generalizing d with
  | nil => rfl
  | cons i rest ih => rw [List.foldl_cons, ih, config_setFlag]

/-- A write to a word of an array sets the flags of the sources of its bits, one by one. -/
theorem setFlags_eq_foldl (f : SourceFlag) (value : Bool) (word : Nat) (mask : Word) :
    d.setFlags f value word mask =
      (mask.ones.map fun bit => word * 32 + bit).foldl (fun d i => d.setFlag f value i) d := by
  rw [List.foldl_map]
  rfl

/-- A write to a word of an array reaches the sources whose bits are set in it. -/
theorem source_setFlags (f : SourceFlag) (value : Bool) (word : Nat) (mask : Word) (j : Nat) :
    (d.setFlags f value word mask).source j =
      if (j / 32 = word ∧ mask.getLsbD (j % 32) = true) ∧ d.acceptsFlag j value = true then
        (d.source j).withFlag f value
      else d.source j := by
  rw [setFlags_eq_foldl, source_foldl_setFlag]
  simp only [Word.mem_map_position mask.mem_ones]

@[simp] theorem idc_setFlags (f : SourceFlag) (value : Bool) (word : Nat) (mask : Word) (j : Nat) :
    (d.setFlags f value word mask).idc j = d.idc j := by
  rw [setFlags_eq_foldl, idc_foldl_setFlag]

@[simp] theorem config_setFlags (f : SourceFlag) (value : Bool) (word : Nat) (mask : Word) :
    (d.setFlags f value word mask).config = d.config := by
  rw [setFlags_eq_foldl, config_foldl_setFlag]

/-- Marks a source pending, as an edge on its wire would. -/
def inject (source : Nat) : EmulatedDomain := d.setFlag .pending true source

/-- Writes a source configuration register. A word that delegates the source or asks for a
reserved mode has no effect. -/
def configureSource (source : Nat) (config : Word) : EmulatedDomain :=
  match SourceMode.ofWord config with
  | .ok mode => d.modifySource source fun s => s.withMode mode
  | .error _ => d

end EmulatedDomain

end AdvancedInterrupts
