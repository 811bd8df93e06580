import AdvancedInterrupts.Aplic.Operation
import AdvancedInterrupts.Proofs.DriverWindow
import AdvancedInterrupts.Proofs.LegalRegisters
import AdvancedInterrupts.Proofs.TargetWord

/-!
# The sources that a handle shows

To its user a handle is a store of sources. A source that the handle and the
domain both know has its registers in the store; every other number reads as a
source out of reset and takes no change. What an update asks for is a function
of the registers of one source, so the accesses of every operation come down to
one entry of the store.
-/
namespace AdvancedInterrupts

/-- A question about one source. -/
inductive SourceQuery where
  | config
  | mode
  | enabled
  | pending
  | target
  | hart
  | priority
deriving DecidableEq, Repr

namespace SourceQuery

/-- What a question is answered with. -/
abbrev Answer : SourceQuery → Type
  | config | target => Word
  | mode => Option SourceMode
  | enabled | pending => Bool
  | hart | priority => Nat

/-- The operation of a handle that answers the question. -/
def program (a : Aplic) (s : Nat) : (q : SourceQuery) → Program window q.Answer
  | config => a.sourceConfig s
  | mode => a.mode s
  | enabled => a.isEnabled s
  | pending => a.isPending s
  | target => a.target s
  | hart => a.hart s
  | priority => a.priority s

/-- The answer for source `s` with registers `x`. A number that the handle does not know has no
mode. -/
def value (a : Aplic) (s : Nat) (x : Source) : (q : SourceQuery) → q.Answer
  | config => x.mode.toWord
  | mode => if 1 ≤ s ∧ s < a.sources then some x.mode else none
  | enabled => x.enabled
  | pending => x.pending
  | target => x.target
  | hart => Target.hart x.target
  | priority => Target.priority x.target

end SourceQuery

namespace Aplic

/-- The delivery structure of a hart, if it has one that exists. -/
def idcIndex? (a : Aplic) (hart : Nat) : Option Nat :=
  (a.idcOfHart hart).filter fun i => decide (i < a.idcs)

/-- What a target word holds for a hart: its delivery structure, or the hart itself when the domain
sends messages. -/
def route? (a : Aplic) (hart : Nat) : Option Nat :=
  match a.delivery with
  | .direct => a.idcIndex? hart
  | .msi => if hart < a.idcs then some hart else none

theorem lt_of_idcIndex? {a : Aplic} {hart i : Nat} (h : a.idcIndex? hart = some i) :
    i < a.idcs := by
  obtain ⟨-, hi⟩ := Option.filter_eq_some_iff.mp h
  exact of_decide_eq_true hi

theorem lt_of_route? {a : Aplic} {hart i : Nat} (h : a.route? hart = some i) : i < a.idcs := by
  unfold route? at h
  split at h
  next => exact lt_of_idcIndex? h
  next =>
    split at h
    next hi => exact Option.some.inj h ▸ hi
    next => cases h

/-- Every delivery structure of a handle fits the hart field of a target word. -/
theorem le_max_of_lt_idcs {a : Aplic} {i : Nat} (h : i < a.idcs) : i ≤ Target.hartField.max := by
  have := a.idcs_range
  omega

end Aplic

namespace Source

/-- A source in a mode that was asked for: without its flags if the mode is the inactive one. -/
def switchedTo (m : SourceMode) (x : Source) : Source :=
  if m = .inactive then ⟨.inactive, x.target, false, false⟩
  else ⟨m, x.target, x.pending, x.enabled⟩

/-- This is what the mode means to a domain. -/
theorem switchedTo_eq_withMode (m : SourceMode) (x : Source) : x.switchedTo m = x.withMode m := by
  cases m <;> rfl

end Source

/-- A change of one source that is asked for. -/
inductive SourceUpdate where
  | config (word : Word)
  | mode (mode : SourceMode)
  | flag (f : SourceFlag) (value : Bool)
  | target (hart priority : Nat)
  | priority (priority : Nat)
  | hart (hart : Nat)
  | msiTarget (hart guest identity : Nat)
deriving DecidableEq, Repr

namespace SourceUpdate

/-- The operation of a handle that asks for the change. -/
def program (a : Aplic) (s : Nat) : SourceUpdate → Program window Unit
  | config word => a.setSourceConfig s word
  | mode m => a.setMode s m
  | flag .pending true => a.setPending s
  | flag .pending false => a.clearPending s
  | flag .enabled true => a.enable s
  | flag .enabled false => a.disable s
  | target h p => a.setTarget s h p
  | priority p => a.setPriority s p
  | hart h => a.setHart s h
  | msiTarget h guest identity => a.setMsiTarget s h guest identity

/-- What the change makes of the registers of a source, if its arguments are accepted. -/
def effect? (a : Aplic) : SourceUpdate → Option (Source → Source)
  | config word =>
    if word.getLsbD delegationBit then none
    else (SourceMode.ofCode? (word.toNat % 8)).map Source.switchedTo
  | mode m => some (Source.switchedTo m)
  | flag f value => some fun x =>
    if value = true ∧ x.mode = .inactive then x else x.withFlag f value
  | target h p =>
    if a.delivery = .direct ∧ p ≤ maxPriority then
      (a.route? h).map fun i x => { x with target := Target.word i (max p 1) }
    else none
  | priority p =>
    if a.delivery = .direct ∧ 1 ≤ p ∧ p ≤ maxPriority then
      some fun x => { x with target := Target.word (Target.hart x.target) p }
    else none
  | hart h => (a.route? h).map fun i x =>
    { x with target := Target.word i (match a.delivery with
      | .direct => max (Target.priority x.target) 1
      | .msi => (x.target.setWidth 18).toNat) }
  | msiTarget h guest identity =>
    if a.delivery = .msi ∧ h < a.idcs ∧ guest = 0 ∧ identity ≤ Target.identityField.max then
      some fun x => { x with target := Target.word h identity }
    else none

end SourceUpdate

namespace Aplic

variable (a : Aplic) (d : EmulatedDomain) (s : Nat)

/-- The registers that a handle shows for a number. -/
def view : Source := if 1 ≤ s ∧ s < min a.sources d.sourceCount then d.source s else .reset

/-- The domain with a source changed that the handle shows. -/
def change (f : Source → Source) : EmulatedDomain :=
  if 1 ≤ s ∧ s < min a.sources d.sourceCount then d.modifySource s f else d

/-- The domain after an update, which has no effect if its arguments are not accepted. -/
def afterUpdate (u : SourceUpdate) : EmulatedDomain :=
  match u.effect? a with
  | some f => a.change d s f
  | none => d

/-- What is asked for when a source is wired: its mode, its target, and its enable bit. -/
def wiringUpdates (w : Wiring) : List SourceUpdate :=
  [.mode w.mode,
    match a.delivery with
    | .direct => .target w.hart w.priority
    | .msi => .msiTarget w.hart 0 w.priority,
    .flag .enabled true]

theorem shows_iff : 1 ≤ s ∧ s < min a.sources d.sourceCount ↔
    a.hasSource s = true ∧ d.hasSource s = true := by
  rw [a.hasSource_iff, d.hasSource_iff]
  omega

variable {a d s}

theorem view_of_hasSource (hd : d.Consistent) (hs : a.hasSource s = true) :
    a.view d s = d.source s := by
  rw [view]
  split
  next => rfl
  next h =>
    have hknown : d.hasSource s = false :=
      Bool.eq_false_iff.mpr fun hknown => h ((a.shows_iff d s).mpr ⟨hs, hknown⟩)
    rw [hd.absent s hknown]

theorem view_of_not_hasSource (hs : a.hasSource s = false) : a.view d s = .reset :=
  if_neg fun h => Bool.false_ne_true (hs.symm.trans ((a.shows_iff d s).mp h).1)

theorem change_of_hasSource (hs : a.hasSource s = true) (f : Source → Source) :
    a.change d s f = if d.hasSource s then d.modifySource s f else d := by
  simp only [change, shows_iff, hs, true_and]

theorem change_of_not_hasSource (hs : a.hasSource s = false) (f : Source → Source) :
    a.change d s f = d :=
  if_neg fun h => Bool.false_ne_true (hs.symm.trans ((a.shows_iff d s).mp h).1)

theorem afterUpdate_of_not_hasSource (hs : a.hasSource s = false) (u : SourceUpdate) :
    a.afterUpdate d s u = d := by
  rw [afterUpdate]
  cases u.effect? a with
  | none => rfl
  | some f => exact change_of_not_hasSource hs f

@[simp] theorem shape_afterUpdate (u : SourceUpdate) : (a.afterUpdate d s u).shape = d.shape := by
  rw [afterUpdate]
  split
  next => rw [change]; split <;> rfl
  next => rfl

@[simp] theorem config_afterUpdate (u : SourceUpdate) :
    (a.afterUpdate d s u).config = d.config := by
  rw [afterUpdate]
  split
  next => rw [change]; split <;> rfl
  next => rfl

theorem change_congr {f g : Source → Source} (h : f (d.source s) = g (d.source s)) :
    a.change d s f = a.change d s g := by
  rw [change, change, d.modifySource_congr h]

theorem change_id : a.change d s id = d := by
  rw [change]
  split
  next => exact d.modifySource_eq_self rfl
  next => rfl

theorem change_change (f g : Source → Source) :
    a.change (a.change d s f) s g = a.change d s fun x => g (f x) := by
  by_cases h : 1 ≤ s ∧ s < min a.sources d.sourceCount
  · have hafter : 1 ≤ s ∧ s < min a.sources (d.modifySource s f).sourceCount := h
    rw [change, change, change, if_pos h, if_pos h, if_pos hafter, d.modifySource_modifySource]
  · rw [change, change, change, if_neg h, if_neg h, if_neg h]

theorem afterUpdate_eq_change (u : SourceUpdate) :
    a.afterUpdate d s u = a.change d s ((u.effect? a).getD id) := by
  rw [afterUpdate]
  cases u.effect? a with
  | none => exact change_id.symm
  | some f => rfl

/-- Updates of one source change it by their effects, one after the other. -/
theorem foldl_afterUpdate_eq_change (us : List SourceUpdate) :
    us.foldl (fun d u => a.afterUpdate d s u) d =
      a.change d s fun x => us.foldl (fun x u => (u.effect? a).getD id x) x := by
  induction us generalizing d with
  | nil => exact change_id.symm
  | cons u rest ih => rw [List.foldl_cons, ih, afterUpdate_eq_change, change_change]; rfl

/-! ### Queries -/

/-- A source that the domain does not have holds what it came out of reset with. -/
theorem ite_hasSource {β : Type} (hd : d.Consistent) (g : Source → β) :
    (if d.hasSource s = true then g (d.source s) else g .reset) = g (d.source s) := by
  split
  next => rfl
  next h => rw [hd.absent s (Bool.eq_false_iff.mpr h)]

section

variable (hd : d.Consistent) (hfits : d.address + d.size ≤ addressSpace)
include hd hfits

theorem run_sourceConfig :
    (a.sourceConfig s).run EmulatedDomain.service d = ((a.view d s).mode.toWord, d) := by
  cases hs : a.hasSource s with
  | false =>
    rw [sourceConfig, hs, view_of_not_hasSource hs]
    rfl
  | true =>
    have hregister : d.HasRegister (.sourceConfig s) :=
      .of_published (a.published_of_hasSource hs).1 fun _ _ => by simp
    rw [sourceConfig, if_pos hs, EmulatedDomain.run_read hfits hregister, view_of_hasSource hd hs]
    exact congrArg (·, d) (ite_hasSource hd fun x => x.mode.toWord)

theorem run_target :
    (a.target s).run EmulatedDomain.service d = ((a.view d s).target, d) := by
  cases hs : a.hasSource s with
  | false =>
    rw [target, hs, view_of_not_hasSource hs]
    rfl
  | true =>
    have hregister : d.HasRegister (.target s) :=
      .of_published (a.published_of_hasSource hs).2 fun _ _ => by simp
    rw [target, if_pos hs, EmulatedDomain.run_read hfits hregister, view_of_hasSource hd hs]
    exact congrArg (·, d) (ite_hasSource hd fun x => x.target)

theorem run_readBit {f : SourceFlag} {array : Nat → Register}
    (harray : ∀ word < bitWords, d.HasRegister (array word))
    (hread : ∀ word, d.readRegister (array word) = (d.flagWord f word, d)) :
    (a.readBit array s).run EmulatedDomain.service d = ((a.view d s).flag f, d) := by
  cases hs : a.hasSource s with
  | false =>
    rw [readBit, hs, view_of_not_hasSource hs]
    cases f <;> rfl
  | true =>
    have hword := word_lt_bitWords (a.lt_sourceSlots_of_hasSource hs)
    rw [readBit, if_pos hs, Program.run_bind, bitPosition,
      EmulatedDomain.run_read hfits (harray _ hword), hread, view_of_hasSource hd hs,
      ← d.getLsbD_flagWord_source f s]
    rfl

/-- A query answers what the store has, and changes nothing. -/
theorem run_query (q : SourceQuery) :
    (q.program a s).run EmulatedDomain.service d = (q.value a s (a.view d s), d) := by
  cases q with
  | config => exact run_sourceConfig hd hfits
  | mode =>
    change (a.mode s).run _ d = (if 1 ≤ s ∧ s < a.sources then some (a.view d s).mode else none, d)
    rw [mode]
    by_cases hs : a.hasSource s = true
    · have hcode : SourceMode.ofCode? ((a.view d s).mode.toWord.field SourceMode.field) =
          some (a.view d s).mode := by
        cases (a.view d s).mode <;> rfl
      rw [if_pos hs, if_pos ((a.hasSource_iff s).mp hs), Program.run_bind,
        run_sourceConfig hd hfits, ← hcode]
      rfl
    · rw [if_neg hs, if_neg fun h => hs ((a.hasSource_iff s).mpr h)]
      rfl
  | enabled =>
    exact run_readBit hd hfits (f := .enabled)
      (fun _ hword => .of_published hword fun _ _ => by simp) fun _ => rfl
  | pending =>
    exact run_readBit hd hfits (f := .pending)
      (fun _ hword => .of_published hword fun _ _ => by simp) fun _ => rfl
  | target => exact run_target hd hfits
  | hart =>
    change (a.hart s).run _ d = _
    rw [hart, Program.run_bind, run_target hd hfits]
    rfl
  | priority =>
    change (a.priority s).run _ d = _
    rw [priority, Program.run_bind, run_target hd hfits]
    rfl

end

/-! ### Harts -/

/-- A program that finds a value without any register, and reports one notice at most. -/
inductive Finds {α : Type} (x : α) : Program window α → Prop where
  | silent : Finds x (pure x)
  | reported (notice : Notice) : Finds x (notice.report >>= fun _ => pure x)

namespace Finds

variable {α β : Type} {x : α} {p : Program window α}

theorem map (h : Finds x p) (f : α → β) : Finds (f x) (p >>= fun y => pure (f y)) := by
  cases h with
  | silent => exact .silent
  | reported notice => exact .reported notice

theorem run (h : Finds x p) : p.run EmulatedDomain.service d = (x, d) := by
  cases h <;> rfl

end Finds

theorem finds_idcIndex (a : Aplic) (hart : Nat) : Finds (a.idcIndex? hart) (a.idcIndex hart) := by
  rw [idcIndex, idcIndex?]
  cases a.idcOfHart hart with
  | none => exact .silent
  | some i =>
    rw [Option.filter_some]
    by_cases hi : i < a.idcs
    · simp only [hi, if_true, decide_true]
      exact .silent
    · simp only [hi, if_false, decide_false]
      exact .reported _

theorem finds_hartField (a : Aplic) (hart : Nat) : Finds (a.route? hart) (a.hartField hart) := by
  rw [hartField, route?]
  cases a.delivery with
  | direct => exact a.finds_idcIndex hart
  | msi => exact .silent

theorem finds_idc (a : Aplic) (hart : Nat) :
    Finds ((a.idcIndex? hart).map Idc.mk) (a.idc hart) :=
  (a.finds_idcIndex hart).map (Option.map Idc.mk)

/-! ### Updates -/

section

variable (hfits : d.address + d.size ≤ addressSpace)
include hfits

theorem run_writeConfig (hs : a.hasSource s = true) (m : SourceMode) :
    ((Register.sourceConfig s).write m.toWord).run EmulatedDomain.service d =
      ((), a.change d s (Source.switchedTo m)) := by
  have hregister : d.HasRegister (.sourceConfig s) :=
    .of_published (a.published_of_hasSource hs).1 fun _ _ => by simp
  rw [EmulatedDomain.run_write hfits hregister, d.writeRegister_sourceConfig,
    change_of_hasSource hs, funext (Source.switchedTo_eq_withMode m)]

theorem run_writeTarget (hs : a.hasSource s = true) (word : Word) :
    ((Register.target s).write word).run EmulatedDomain.service d =
      ((), a.change d s fun x => x.withTarget d.config.delivery word) := by
  have hregister : d.HasRegister (.target s) :=
    .of_published (a.published_of_hasSource hs).2 fun _ _ => by simp
  rw [EmulatedDomain.run_write hfits hregister, EmulatedDomain.writeRegister,
    change_of_hasSource hs]

/-- Reading a target first tells which word is written to it. -/
theorem run_updateTarget (hs : a.hasSource s = true) (f : Word → Word) :
    (do
      let word ← (Register.target s).read
      (Register.target s).write (f word) : Program window Unit).run EmulatedDomain.service d =
      ((), a.change d s fun x => x.withTarget d.config.delivery (f x.target)) := by
  have hregister : d.HasRegister (.target s) :=
    .of_published (a.published_of_hasSource hs).2 fun _ _ => by simp
  rw [Program.run_bind, EmulatedDomain.run_read hfits hregister, EmulatedDomain.readRegister,
    run_writeTarget hfits hs]
  cases hknown : d.hasSource s with
  | true => exact congrArg (Prod.mk ()) (change_congr rfl)
  | false => simp only [change_of_hasSource hs, hknown, Bool.false_eq_true, if_false]

theorem run_writeNumber {r : Register} {f : SourceFlag} {value : Bool} (hr : d.HasRegister r)
    (hwrite : ∀ word, d.writeRegister r word = d.setFlag f value word.toNat) :
    (a.writeNumber r s).run EmulatedDomain.service d = ((), a.change d s fun x =>
      if value = true ∧ x.mode = .inactive then x else x.withFlag f value) := by
  cases hs : a.hasSource s with
  | false =>
    rw [writeNumber, hs, change_of_not_hasSource hs]
    rfl
  | true =>
    rw [writeNumber, if_pos hs, EmulatedDomain.run_write hfits hr, hwrite,
      toNat_sourceNumber (a.lt_sourceSlots_of_hasSource hs), change_of_hasSource hs,
      EmulatedDomain.setFlag, EmulatedDomain.acceptsFlag]
    cases hknown : d.hasSource s with
    | false => rfl
    | true =>
      by_cases hrefused : value = true ∧ (d.source s).mode = .inactive
      · have hself : d.modifySource s (fun x =>
            if value = true ∧ x.mode = .inactive then x else x.withFlag f value) = d :=
          d.modifySource_eq_self (if_pos hrefused)
        rw [if_pos rfl, hself, hrefused.1, hrefused.2]
        rfl
      · have haccepts : (!value || (d.source s).mode.isActive) = true := by
          cases value with
          | false => rfl
          | true => simpa [SourceMode.isActive] using hrefused
        rw [haccepts]
        exact congrArg (Prod.mk ()) (d.modifySource_congr (if_neg hrefused).symm)

theorem run_setSourceConfig (word : Word) :
    (a.setSourceConfig s word).run EmulatedDomain.service d = ((),
      match SourceMode.ofWord word with
      | .ok m => a.change d s (Source.switchedTo m)
      | .error _ => d) := by
  rw [setSourceConfig]
  cases hs : a.hasSource s with
  | false => cases SourceMode.ofWord word <;> simp [change_of_not_hasSource hs]
  | true =>
    rw [if_pos rfl]
    cases SourceMode.ofWord word with
    | ok m => exact run_writeConfig hfits hs m
    | error e => cases e <;> rfl

variable (hdelivery : a.delivery = d.config.delivery)
include hdelivery

theorem run_setTarget (hart priority : Nat) :
    (a.setTarget s hart priority).run EmulatedDomain.service d =
      ((), a.afterUpdate d s (.target hart priority)) := by
  rw [setTarget]
  cases hs : a.hasSource s with
  | false =>
    rw [afterUpdate_of_not_hasSource hs]
    cases a.delivery with
    | msi => rfl
    | direct =>
      simp only [Program.run_bind, (a.finds_hartField hart).run]
      cases a.route? hart <;> rfl
  | true =>
    rw [afterUpdate, SourceUpdate.effect?]
    cases hmode : a.delivery with
    | msi => rfl
    | direct =>
      simp only [Program.run_bind, (a.finds_hartField hart).run, true_and]
      by_cases hpriority : priority ≤ maxPriority
      · rw [if_pos hpriority]
        cases hroute : a.route? hart with
        | none => rfl
        | some i =>
          have hstored := Target.stored_word (le_max_of_lt_idcs (lt_of_route? hroute))
            (Nat.le_max_right priority 1) (Nat.max_le.mpr ⟨hpriority, by decide⟩)
          simp only [hpriority, if_true, Option.map_some, run_writeTarget hfits hs,
            Source.withTarget, ← hdelivery, hmode, hstored]
      · rw [if_neg hpriority]
        cases a.route? hart with
        | none => rfl
        | some i => simp only [hpriority, if_false, EmulatedDomain.run_report]

theorem run_setPriority (priority : Nat) :
    (a.setPriority s priority).run EmulatedDomain.service d =
      ((), a.afterUpdate d s (.priority priority)) := by
  rw [setPriority]
  cases hs : a.hasSource s with
  | false =>
    rw [if_neg fun h => Bool.false_ne_true h.1, afterUpdate_of_not_hasSource hs]
    rfl
  | true =>
    rw [afterUpdate, SourceUpdate.effect?]
    by_cases hpriority : 1 ≤ priority ∧ priority ≤ maxPriority
    · rw [if_pos ⟨rfl, hpriority⟩]
      cases hmode : a.delivery with
      | msi => rfl
      | direct =>
        simp only [hpriority, and_self, if_true, run_updateTarget hfits hs, Source.withTarget,
          ← hdelivery, hmode, Target.stored_withPriority _ hpriority.1 hpriority.2]
    · rw [if_neg fun h => hpriority h.2, if_neg fun h => hpriority h.2]
      rfl

theorem run_setHart (hd : d.Consistent) (hart : Nat) :
    (a.setHart s hart).run EmulatedDomain.service d =
      ((), a.afterUpdate d s (.hart hart)) := by
  rw [setHart, Program.run_bind, (a.finds_hartField hart).run]
  cases hs : a.hasSource s with
  | false =>
    rw [afterUpdate_of_not_hasSource hs]
    cases a.route? hart <;> rfl
  | true =>
    rw [afterUpdate, SourceUpdate.effect?]
    cases hroute : a.route? hart with
    | none => rfl
    | some i =>
      have hi := le_max_of_lt_idcs (lt_of_route? hroute)
      simp only [if_true, Option.map_some, run_updateTarget hfits hs, Source.withTarget,
        ← hdelivery]
      cases a.delivery with
      | direct => simp only [Target.stored_withHart _ hi]
      | msi =>
        refine congrArg (Prod.mk ()) (change_congr ?_)
        simp only [Target.stored_msi_withHart _ hi (hd.gap s)]

theorem run_setMsiTarget (hart guest identity : Nat) :
    (a.setMsiTarget s hart guest identity).run EmulatedDomain.service d =
      ((), a.afterUpdate d s (.msiTarget hart guest identity)) := by
  rw [setMsiTarget]
  cases hs : a.hasSource s with
  | false =>
    rw [if_neg fun h => Bool.false_ne_true h.1, afterUpdate_of_not_hasSource hs]
    rfl
  | true =>
    rw [afterUpdate, SourceUpdate.effect?]
    by_cases hfield : hart < a.idcs ∧ identity ≤ Target.identityField.max
    · rw [if_pos ⟨rfl, hfield⟩]
      by_cases hguest : guest = 0
      · cases hmode : a.delivery with
        | direct => simp [hguest]
        | msi =>
          simp only [hfield, hguest, and_self, if_true, run_writeTarget hfits hs,
            Source.withTarget, ← hdelivery, hmode, Target.stored_msi_word hfield.2]
      · simp [hguest]
    · rw [if_neg fun h => hfield h.2, if_neg fun h => hfield ⟨h.2.1, h.2.2.2⟩]
      rfl

omit hdelivery in
theorem run_setMode (m : SourceMode) :
    (a.setMode s m).run EmulatedDomain.service d = ((), a.afterUpdate d s (.mode m)) := by
  refine (run_setSourceConfig hfits m.toWord).trans ?_
  rw [SourceMode.ofWord_toWord]
  rfl

omit hdelivery in
theorem run_enable :
    (a.enable s).run EmulatedDomain.service d = ((), a.afterUpdate d s (.flag .enabled true)) :=
  run_writeNumber hfits (.of_published trivial fun _ _ => by simp) fun _ => rfl

/-- A wiring asks for its three updates, one after the other. -/
theorem run_configure (w : Wiring) :
    (a.configure s w).run EmulatedDomain.service d =
      ((), (a.wiringUpdates w).foldl (fun d u => a.afterUpdate d s u) d) := by
  have hfits' := EmulatedDomain.fits_of_shape (shape_afterUpdate (a := a) (s := s) (.mode w.mode))
    hfits
  rw [configure, Program.run_bind, Program.run_bind, run_setMode hfits, wiringUpdates, route]
  cases hmode : a.delivery with
  | direct =>
    rw [run_setTarget hfits' (by rw [hdelivery, config_afterUpdate]), run_enable
      (EmulatedDomain.fits_of_shape (shape_afterUpdate _) hfits')]
    rfl
  | msi =>
    rw [run_setMsiTarget hfits' (by rw [hdelivery, config_afterUpdate]), run_enable
      (EmulatedDomain.fits_of_shape (shape_afterUpdate _) hfits')]
    rfl

/-- An update with accepted arguments changes one source that the handle shows, and every other one
changes nothing. -/
theorem run_update (hd : d.Consistent) (u : SourceUpdate) :
    (u.program a s).run EmulatedDomain.service d = ((), a.afterUpdate d s u) := by
  cases u with
  | config word =>
    have hfield : word.field SourceMode.field = word.toNat % 8 := by
      rw [Word.field_eq]
      rfl
    refine (run_setSourceConfig hfits word).trans ?_
    simp only [afterUpdate, SourceUpdate.effect?, SourceMode.ofWord, hfield]
    cases word.getLsbD delegationBit with
    | true => rfl
    | false => cases SourceMode.ofCode? (word.toNat % 8) <;> rfl
  | mode m => exact run_setMode hfits m
  | flag f value =>
    cases f <;> cases value <;>
      exact run_writeNumber hfits (.of_published trivial fun _ _ => by simp) fun _ => rfl
  | target hart priority => exact run_setTarget hfits hdelivery hart priority
  | priority p => exact run_setPriority hfits hdelivery p
  | hart h => exact run_setHart hfits hdelivery hd h
  | msiTarget h guest identity => exact run_setMsiTarget hfits hdelivery h guest identity

/-- Updates that are asked for one after the other take effect one after the other. -/
theorem run_updates (hd : d.Reachable) (us : List SourceUpdate) :
    (us.forM fun u => u.program a s).run EmulatedDomain.service d =
      ((), us.foldl (fun d u => a.afterUpdate d s u) d) := by
  induction us generalizing d with
  | nil => rfl
  | cons u rest ih =>
    have hfirst := run_update hfits hdelivery hd.consistent (s := s) u
    have hafter : (a.afterUpdate d s u).Reachable := by
      have hrun := hd.run (u.program a s)
      rwa [hfirst] at hrun
    rw [List.forM, Program.run_bind, hfirst]
    exact ih (EmulatedDomain.fits_of_shape (shape_afterUpdate u) hfits)
      (hdelivery.trans (by rw [config_afterUpdate])) hafter

end

/-- A handle that delivers as its domain does is a store of sources. Queries read the entry of their
source, updates with accepted arguments change it and nothing else, and a number that the handle or
the domain does not know reads as a source out of reset and cannot be changed. -/
theorem refines_sources (hd : d.Reachable) (hfits : d.address + d.size ≤ addressSpace)
    (hdelivery : a.delivery = d.config.delivery) (s : Nat) :
    (∀ q : SourceQuery,
      (q.program a s).run EmulatedDomain.service d = (q.value a s (a.view d s), d)) ∧
    ∀ u : SourceUpdate,
      (u.program a s).run EmulatedDomain.service d = ((), a.afterUpdate d s u) :=
  ⟨run_query hd.consistent hfits, run_update hfits hdelivery hd.consistent⟩

/-- A handle that knows five of eight sources shows source 3 and hides source 5. -/
theorem refines_sources_sampleAccesses :
    let a : Aplic := ⟨{ AplicConfig.standard with sources := 5 }, by decide, by decide⟩
    let d := EmulatedDomain.sample.afterAll EmulatedDomain.sampleAccesses
    d.Reachable ∧ d.address + d.size ≤ addressSpace ∧ a.delivery = d.config.delivery ∧
      a.view d 3 = ⟨.edgeRise, 2, true, true⟩ ∧ (d.source 5).pending = true ∧
      a.view d 5 = .reset ∧ ∀ s,
        (∀ q : SourceQuery,
          (q.program a s).run EmulatedDomain.service d = (q.value a s (a.view d s), d)) ∧
        ∀ u : SourceUpdate,
          (u.program a s).run EmulatedDomain.service d = ((), a.afterUpdate d s u) := by
  intro a d
  have hreachable : d.Reachable := EmulatedDomain.sample_reachable.afterAll _
  have hfits : d.address + d.size ≤ addressSpace := by decide
  have hdelivery : a.delivery = d.config.delivery := by decide
  exact ⟨hreachable, hfits, hdelivery, by decide, by decide, by decide,
    refines_sources hreachable hfits hdelivery⟩

end Aplic

end AdvancedInterrupts
