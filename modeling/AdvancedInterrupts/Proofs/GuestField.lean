import AdvancedInterrupts.Proofs.DriverSafety
import AdvancedInterrupts.Proofs.IdcIndependence
import AdvancedInterrupts.Proofs.SourceWiring
import Mathlib.Logic.Relation

/-!
# The guest file of a target

A message can be sent to the file of a guest, but a driver never does so. Under
direct delivery a target register has no guest file, and under message delivery
it keeps whatever is written, also what was written before the delivery mode
changed. Two operations write back what they read, so they name guest file 0
only as long as the register did: each operation relies on what all the others
guarantee. The argument needs no order of the operations, so it holds for any
number of handles that take turns access by access.
-/
namespace AdvancedInterrupts

namespace Program

variable {I : Interface} {α β σ : Type} {service : Service I σ}
  {sure : (op : I.Op) → I.Answer op → Prop} {ok ok' : I.Op → Prop} {p : Program I α}

/-- Every operation that a program asks for is as `ok` says, as long as the answers are as `sure`
says. -/
def Relies (sure : (op : I.Op) → I.Answer op → Prop) (ok : I.Op → Prop) : Program I α → Prop
  | done _ => True
  | ask op next => ok op ∧ ∀ answer, sure op answer → (next answer).Relies sure ok

theorem Asks.relies (h : p.Asks ok) : p.Relies sure ok := by
  induction p with
  | done a => trivial
  | ask op next ih => exact ⟨h.1, fun answer _ => ih answer (h.2 answer)⟩

namespace Relies

theorem bind {k : α → Program I β} (hp : p.Relies sure ok) (hk : ∀ a, (k a).Relies sure ok) :
    (p >>= k).Relies sure ok := by
  induction p with
  | done a => exact hk a
  | ask op next ih => exact ⟨hp.1, fun answer hanswer => ih answer (hp.2 answer hanswer)⟩

theorem and_asks (h : p.Relies sure ok) (h' : p.Asks ok') :
    p.Relies sure fun op => ok op ∧ ok' op := by
  induction p with
  | done a => trivial
  | ask op next ih =>
    exact ⟨⟨h.1, h'.1⟩, fun answer hanswer => ih answer (h.2 answer hanswer) (h'.2 answer)⟩

theorem forM {ι : Type} {f : ι → Program I PUnit} {xs : List ι}
    (h : ∀ x ∈ xs, (f x).Relies sure ok) : (xs.forM f).Relies sure ok := by
  induction xs with
  | nil => trivial
  | cons x rest ih =>
    exact (h x List.mem_cons_self).bind fun _ => ih fun y hy => h y (List.mem_cons_of_mem x hy)

theorem inTurn {ι : Type} {Answer : ι → Type} {program : (x : ι) → Program I (Answer x)}
    (h : ∀ x, (program x).Relies sure ok) (requests : List ι) :
    (Program.inTurn program requests).Relies sure ok := by
  induction requests with
  | nil => trivial
  | cons x rest ih => exact (h x).bind fun answer => ih.bind fun answers => trivial

end Relies

/-- One of several programs on one service asks for its next operation. -/
inductive Turn (service : Service I σ) :
    List (Program I α) × σ → List (Program I α) × σ → Prop where
  | first (op : I.Op) (next : I.Answer op → Program I α) (others : List (Program I α)) (s : σ) :
      Turn service (ask op next :: others, s) (next (service op s).1 :: others, (service op s).2)
  | later (p : Program I α) {others others' : List (Program I α)} {s s' : σ}
      (h : Turn service (others, s) (others', s')) :
      Turn service (p :: others, s) (p :: others', s')

/-- A property of the state that guarantees what the answers have to be like, and is kept by every
operation that the programs may ask for. -/
structure Guarantees (service : Service I σ) (sure : (op : I.Op) → I.Answer op → Prop)
    (ok : I.Op → Prop) (P : σ → Prop) : Prop where
  answer (op : I.Op) (s : σ) (hok : ok op) (hs : P s) : sure op (service op s).1
  after (op : I.Op) (s : σ) (hok : ok op) (hs : P s) : P (service op s).2

namespace Guarantees

variable {P : σ → Prop} (h : Guarantees service sure ok P)

include h

theorem run {s : σ} (hp : p.Relies sure ok) (hs : P s) : P (p.run service s).2 := by
  induction p generalizing s with
  | done a => exact hs
  | ask op next ih =>
    obtain ⟨hok, hnext⟩ := hp
    exact ih _ (hnext _ (h.answer op s hok hs)) (h.after op s hok hs)

theorem turn {pool pool' : List (Program I α)} {s s' : σ}
    (hturn : Turn service (pool, s) (pool', s'))
    (hpool : ∀ p ∈ pool, p.Relies sure ok) (hs : P s) :
    (∀ p ∈ pool', p.Relies sure ok) ∧ P s' := by
  induction pool generalizing pool' with
  | nil => cases hturn
  | cons p rest ih =>
    rw [List.forall_mem_cons] at hpool
    cases hturn with
    | first op next others s =>
      obtain ⟨⟨hok, hnext⟩, hrest⟩ := hpool
      rw [List.forall_mem_cons]
      exact ⟨⟨hnext _ (h.answer op s hok hs), hrest⟩, h.after op s hok hs⟩
    | later p hlater =>
      obtain ⟨hp, hrest⟩ := hpool
      obtain ⟨hrest', hs'⟩ := ih hlater hrest
      rw [List.forall_mem_cons]
      exact ⟨⟨hp, hrest'⟩, hs'⟩

/-- The property holds at every moment, in whatever order the programs take turns. -/
theorem turns {start now : List (Program I α) × σ}
    (hturns : Relation.ReflTransGen (Turn service) start now)
    (hpool : ∀ p ∈ start.1, p.Relies sure ok) (hs : P start.2) :
    (∀ p ∈ now.1, p.Relies sure ok) ∧ P now.2 := by
  induction hturns with
  | refl => exact ⟨hpool, hs⟩
  | tail _ hturn ih => exact h.turn hturn ih.1 ih.2

end Guarantees

end Program

namespace Target

variable {w : Word}

/-- A number of at most 12 bits does not reach into the guest file. -/
theorem guest_word {value : Nat} (hart : Nat) (h : value < 2 ^ 12) :
    guest (word hart value) = 0 := by
  apply Nat.eq_of_testBit_eq
  intro bit
  have hwidth : guestField.width = 6 := rfl
  have hlow : guestField.low = 12 := rfl
  rw [guest, Word.testBit_field, getLsbD_word, hwidth, hlow, Nat.zero_testBit]
  by_cases hbit : bit < 6
  · have hpow : 2 ^ 12 ≤ 2 ^ (12 + bit) := Nat.pow_le_pow_right (by decide) (by omega)
    have hhart : ¬ 18 ≤ 12 + bit := by omega
    rw [Nat.testBit_lt_two_pow (Nat.lt_of_lt_of_le h hpow), decide_eq_false hhart]
    simp
  · rw [decide_eq_false hbit, Bool.false_and]

theorem guest_withPriority {priority : Nat} (w : Word) (h : priority ≤ maxPriority) :
    guest (withPriority w priority) = guest w :=
  w.field_replace_of_disjoint (by decide) h (by decide)

theorem guest_withHart {hart : Nat} (w : Word) (h : hart ≤ hartField.max) :
    guest (withHart w hart) = guest w :=
  w.field_replace_of_disjoint (by decide) h (by decide)

/-- A domain names a guest file only if it was written to. -/
theorem guest_stored (delivery : DeliveryMode) (h : guest w = 0) :
    guest (stored delivery w) = 0 := by
  cases delivery with
  | direct =>
    have hpriority : priority w ≤ maxPriority := Word.field_le w priorityField
    rw [maxPriority] at hpriority
    rw [stored_direct]
    exact guest_word _ (by omega)
  | msi =>
    rw [← h]
    exact field_stored_msi w (.inr (by decide))

end Target

namespace WindowAccess

/-- An access whose offset is an address. -/
def InSpace : WindowAccess → Prop
  | read offset | write offset _ => offset < addressSpace
  | report _ => True

/-- A word at an offset names guest file 0, if the offset holds a target register. -/
def NamesNoGuest (offset : Nat) (word : Word) : Prop :=
  ∀ s, Register.ofOffset? offset = some (.target s) → Target.guest word = 0

/-- An access that routes no source to a guest. -/
def SparesGuests : WindowAccess → Prop
  | write offset word => NamesNoGuest offset word
  | read _ | report _ => True

/-- An answer that shows no source routed to a guest. -/
def ShowsNoGuest : (access : WindowAccess) → access.Answer → Prop
  | read offset, word => NamesNoGuest offset word
  | write _ _, _ | report _, _ => True

theorem namesNoGuest_target {s : Nat} {word : Word} (h : (Register.target s).Published) :
    NamesNoGuest (Register.target s).offset word ↔ Target.guest word = 0 := by
  rw [NamesNoGuest, Register.ofOffset?_offset h]
  exact ⟨fun hword => hword s rfl, fun hword _ _ => hword⟩

theorem namesNoGuest_of_ne {r : Register} {word : Word} (h : r.Published)
    (hr : ∀ s, r ≠ .target s) : NamesNoGuest r.offset word := by
  intro s hs
  rw [Register.ofOffset?_offset h, Option.some.injEq] at hs
  exact absurd hs (hr s)

end WindowAccess

open WindowAccess

namespace EmulatedDomain

/-- Every target register names guest file 0. -/
def GuestFree (d : EmulatedDomain) : Prop := ∀ s, Target.guest (d.source s).target = 0

variable {d : EmulatedDomain}

/-- A new domain routes every source to nobody. -/
theorem guestFree_of_create {address sourceCount idcCount : Nat}
    (h : create address sourceCount idcCount = .ok d) : d.GuestFree := by
  intro s
  rw [(registers_of_create h).1]
  rfl

namespace GuestFree

theorem perform (h : d.GuestFree) {x : DomainAction}
    (hx : ∀ s word, x = .write (.target s) word → Target.guest word = 0) :
    (d.perform x).GuestFree := by
  intro s
  have heffect := d.sourceEffect x s
  generalize (d.perform x).source s = after at heffect ⊢
  cases heffect with
  | kept => exact h s
  | flag q hq hn ha =>
    rw [Source.target_withFlag]
    exact h s
  | mode word m hxm hm hs =>
    rw [Source.target_withMode]
    exact h s
  | target word hxt hs => exact Target.guest_stored d.config.delivery (hx s word hxt)
  | claimed i c hxc hi ht hc =>
    rw [Source.target_withFlag]
    exact h s

theorem writeAt (h : d.GuestFree) {offset : Nat} {word : Word}
    (hword : NamesNoGuest offset word) : (d.writeAt offset word).GuestFree := by
  rw [EmulatedDomain.writeAt]
  cases hreached : Register.ofOffset? offset with
  | none => exact h
  | some r =>
    refine h.perform (x := .write r word) fun s word' he => ?_
    cases he
    exact hword s hreached

theorem readRegister_target (h : d.GuestFree) (s : Nat) :
    Target.guest (d.readRegister (.target s)).1 = 0 := by
  simp only [readRegister]
  split
  · exact h s
  · rfl

theorem readAt (h : d.GuestFree) (offset : Nat) :
    NamesNoGuest offset (d.readAt offset).1 ∧ (d.readAt offset).2.GuestFree := by
  rw [EmulatedDomain.readAt]
  cases hreached : Register.ofOffset? offset with
  | none => exact ⟨fun s hs => by simp [hreached] at hs, h⟩
  | some r =>
    refine ⟨fun s hs => ?_, h.perform (x := .read r) fun s word he => by cases he⟩
    rw [hreached, Option.some.injEq] at hs
    subst hs
    exact h.readRegister_target s

end GuestFree

/-- A domain without guests shows none, and drivers that spare them leave it so. -/
theorem guarantees_guestFree :
    Program.Guarantees service ShowsNoGuest (fun access : WindowAccess => access.SparesGuests ∧ access.InSpace)
      GuestFree where
  answer access d hok hd := by
    cases access with
    | write offset word => trivial
    | report notice => trivial
    | read offset =>
      change NamesNoGuest offset (d.windowRead offset).1
      rw [windowRead]
      split
      next h =>
        rw [(offset_of_accepts hok.2 h).1]
        exact (hd.readAt offset).1
      next => exact fun _ _ => (by decide : Target.guest 0 = 0)
  after access d hok hd := by
    cases access with
    | report notice => exact hd
    | read offset =>
      change (d.windowRead offset).2.GuestFree
      rw [windowRead]
      split
      next => exact (hd.readAt _).2
      next => exact hd
    | write offset word =>
      change (d.windowWrite offset word).GuestFree
      rw [windowWrite]
      split
      next h =>
        rw [(offset_of_accepts hok.2 h).1]
        exact hd.writeAt hok.1
      next => exact hd

end EmulatedDomain

namespace Aplic

open Program

variable {a : Aplic} {s hart : Nat} {r : Register}

/-- Every access keeps within the address space. -/
theorem Safe.inSpace {access : WindowAccess} (h : a.Safe access) : access.InSpace := by
  cases access with
  | read offset =>
    obtain ⟨r, hr⟩ := h
    exact hr.offset_lt_addressSpace
  | write offset value =>
    obtain ⟨r, hr, -⟩ := h
    exact hr.offset_lt_addressSpace
  | report notice => trivial

/-- A program that routes no source to a guest, as long as it finds none there. -/
abbrev Spares {α : Type} (p : Program window α) : Prop := p.Relies ShowsNoGuest SparesGuests

/-! ### Operations that write no target -/

theorem spares_report (notice : Notice) : Spares notice.report := ⟨trivial, fun _ _ => trivial⟩

theorem spares_read (r : Register) : Spares r.read := ⟨trivial, fun _ _ => trivial⟩

theorem spares_write {value : Word} (hr : r.Published) (htarget : ∀ s, r ≠ .target s) :
    Spares (r.write value) :=
  ⟨namesNoGuest_of_ne hr htarget, fun _ _ => trivial⟩

theorem spares_writeTarget {value : Word} (hs : a.hasSource s = true)
    (hvalue : Target.guest value = 0) : Spares ((Register.target s).write value) :=
  ⟨(namesNoGuest_target (a.published_of_hasSource hs).2).mpr hvalue, fun _ _ => trivial⟩

theorem Finds.spares {α β : Type} {x : α} {p : Program window α} {q : α → Program window β}
    (h : Finds x p) (hq : Spares (q x)) : Spares (p >>= q) := by
  cases h with
  | silent => exact hq
  | reported notice => exact ⟨trivial, fun _ _ => hq⟩

theorem spares_writeNumber (hr : r.Published) (htarget : ∀ s, r ≠ .target s) :
    Spares (a.writeNumber r s) := by
  unfold writeNumber
  split
  · exact spares_write hr htarget
  · trivial

theorem spares_readBit (array : Nat → Register) : Spares (a.readBit array s) := by
  unfold readBit
  split
  · exact (spares_read _).bind fun value => trivial
  · trivial

theorem spares_setSourceConfig (config : Word) : Spares (a.setSourceConfig s config) := by
  unfold setSourceConfig
  split
  next hs =>
    cases SourceMode.ofWord config with
    | ok mode => exact spares_write (a.published_of_hasSource hs).1 (by simp)
    | error e => cases e <;> exact spares_report _
  next => exact spares_report _

theorem spares_sourceConfig : Spares (a.sourceConfig s) := by
  unfold sourceConfig
  split
  · exact spares_read _
  · trivial

theorem spares_target : Spares (a.target s) := by
  unfold target
  split
  · exact spares_read _
  · trivial

theorem spares_idcProgram (i : Idc) (op : IdcOperation) : Spares (op.program i) := by
  refine ((EmulatedDomain.asks_atIdc i.index op).mono fun access h => ?_).relies
  cases h with
  | read r => trivial
  | write r value => exact namesNoGuest_of_ne (r := .idc i.index r) trivial (by simp)
  | report notice => trivial

theorem spares_idc {α : Type} {q : Option Idc → Program window α} (hart : Nat)
    (hnone : Spares (q none)) (hsome : ∀ i, Spares (q (some i))) :
    Spares (a.idc hart >>= q) := by
  refine (a.finds_idc hart).spares ?_
  cases a.idcIndex? hart with
  | none => exact hnone
  | some i => exact hsome ⟨i⟩

theorem spares_clearArrays : Spares clearArrays := by
  refine Relies.forM fun word hword => ?_
  have hword : word < bitWords := List.mem_range.mp hword
  refine (spares_write (r := .clearPending word) hword (by simp)).bind fun _ => ?_
  exact spares_write (r := .clearEnable word) hword (by simp)

theorem spares_clearSource (hs : a.hasSource s = true) : Spares (a.clearSource s) := by
  unfold clearSource
  refine (spares_write (a.published_of_hasSource hs).1 (by simp)).bind fun _ => ?_
  split
  · exact spares_writeTarget hs (by decide)
  · trivial

theorem spares_reset : Spares a.reset := by
  have hconfig (word : Word) : Spares (Register.domainConfig.write word) :=
    spares_write trivial (by simp)
  have hsources : Spares (a.sourceNumbers.forM a.clearSource) :=
    Relies.forM fun s hs => spares_clearSource ((a.mem_sourceNumbers s).mp hs)
  exact (hconfig _).bind fun _ => spares_clearArrays.bind fun _ =>
    hsources.bind fun _ => (hconfig _).bind fun _ => spares_report _

theorem spares_probeSource (hs : a.hasSource s = true) : Spares (a.probeSource s) := by
  have hconfig (word : Word) : Spares ((Register.sourceConfig s).write word) :=
    spares_write (a.published_of_hasSource hs).1 (by simp)
  have henable (word : Word) : Spares (Register.setEnableNumber.write word) :=
    spares_write trivial (by simp)
  have hrestore (on : Bool) : Spares (restoreEnable s on) := by
    unfold restoreEnable
    split
    · trivial
    · exact spares_write (r := .clearEnableNumber) trivial (by simp)
  unfold probeSource
  refine (spares_read _).bind fun saved => ?_
  split
  · exact (spares_readBit _).bind fun _ => (hconfig _).bind fun _ => (henable _).bind fun _ =>
      (spares_readBit _).bind fun _ => (hrestore _).bind fun _ => (hconfig _).bind fun _ => trivial
  · trivial

theorem spares_probe : Spares a.probe := by
  have hprobe (sources found : List Nat) (h : ∀ s ∈ sources, a.hasSource s = true) :
      Spares (a.probeSources found sources) := by
    induction sources generalizing found with
    | nil => trivial
    | cons s rest ih =>
      exact (spares_probeSource (h s List.mem_cons_self)).bind fun implemented =>
        ih _ fun s' hs' => h s' (List.mem_cons_of_mem s hs')
  exact (hprobe _ [] fun s hs => (a.mem_sourceNumbers s).mp hs).bind fun found =>
    (spares_report _).bind fun _ => trivial

/-! ### Operations that write a target -/

theorem spares_setTarget (s hart priority : Nat) : Spares (a.setTarget s hart priority) := by
  unfold setTarget
  split
  · exact spares_report _
  · refine (a.finds_hartField hart).spares ?_
    split
    · split
      next h =>
        have hpriority := h.2
        rw [maxPriority] at hpriority
        exact spares_writeTarget h.1 (Target.guest_word _ (by omega))
      next => exact spares_report _
    · exact spares_report _

theorem spares_setMsiTarget (s hart guest identity : Nat) :
    Spares (a.setMsiTarget s hart guest identity) := by
  unfold setMsiTarget
  split
  next h =>
    split
    · split
      · have hidentity : identity < 2 ^ 11 := BitField.lt_two_pow_of_le_max h.2.2
        exact spares_writeTarget h.1 (Target.guest_word _ (by omega))
      · exact spares_report _
    · exact spares_report _
  next => exact spares_report _

theorem spares_configure (s : Nat) (wiring : Wiring) : Spares (a.configure s wiring) := by
  have hroute : Spares (a.route s wiring) := by
    unfold route
    split
    · exact spares_setTarget s _ _
    · exact spares_setMsiTarget s _ _ _
  have henable : Spares (a.enable s) := spares_writeNumber trivial (by simp)
  exact (spares_setSourceConfig _).bind fun _ => hroute.bind fun _ => henable

/-- A target that is written back with its guest file names guest file 0 if the register did. -/
theorem spares_updateTarget (hs : a.hasSource s = true) {f : Word → Word}
    (hf : ∀ word, Target.guest (f word) = Target.guest word) :
    Spares ((Register.target s).read >>= fun word => (Register.target s).write (f word)) := by
  refine ⟨trivial, fun word hword => spares_writeTarget hs ?_⟩
  rw [hf]
  exact (namesNoGuest_target (a.published_of_hasSource hs).2).mp hword

theorem spares_setPriority (s priority : Nat) : Spares (a.setPriority s priority) := by
  unfold setPriority
  split
  next h =>
    split
    · exact spares_updateTarget h.1 fun word => Target.guest_withPriority word h.2.2
    · trivial
  next => exact spares_report _

theorem spares_setHart (s hart : Nat) : Spares (a.setHart s hart) := by
  refine (a.finds_hartField hart).spares ?_
  cases hroute : a.route? hart with
  | none => exact spares_report _
  | some i =>
    have hi : i ≤ Target.hartField.max := le_max_of_lt_idcs (lt_of_route? hroute)
    dsimp only
    split
    next hs => exact spares_updateTarget hs fun word => Target.guest_withHart word hi
    next => exact spares_report _

/-- No operation of a handle routes a source to a guest, as long as it finds none there. -/
theorem spares_program (a : Aplic) (op : AplicOperation) : Spares (op.program a) := by
  cases op with
  | reset => exact spares_reset
  | setUpHart hart =>
    exact spares_idc hart (spares_report _) fun i =>
      (spares_idcProgram i .reset).bind fun _ => spares_report _
  | setDomainConfig word => exact spares_write trivial (by simp)
  | domainConfig => exact spares_read _
  | isForwarding => exact (spares_read _).bind fun config => trivial
  | setSourceConfig s config => exact spares_setSourceConfig config
  | setMode s m => exact spares_setSourceConfig m.toWord
  | sourceConfig s => exact spares_sourceConfig
  | mode s =>
    rw [AplicOperation.program, mode]
    split
    · exact spares_sourceConfig.bind fun config => trivial
    · trivial
  | enable s | disable s | setPending s | clearPending s =>
    exact spares_writeNumber trivial (by simp)
  | isEnabled s | isPending s | inputLevel s => exact spares_readBit _
  | target s => exact spares_target
  | priority s | hart s => exact spares_target.bind fun word => trivial
  | setTarget s hart priority => exact spares_setTarget s hart priority
  | setPriority s priority => exact spares_setPriority s priority
  | setHart s hart => exact spares_setHart s hart
  | setMsiTarget s hart guest identity => exact spares_setMsiTarget s hart guest identity
  | probe => exact spares_probe
  | configure s wiring => exact spares_configure s wiring
  | claim hart => exact spares_idc hart trivial fun i => spares_idcProgram i .claim
  | idcIndex hart =>
    have hfinds := (a.finds_idcIndex hart).spares (q := pure) trivial
    rwa [bind_pure] at hfinds
  | idc hart op =>
    exact spares_idc hart trivial fun i => (spares_idcProgram i op).bind fun answer => trivial

/-- Some operations one after the other, each through the handle that is named with it. -/
def inTurn (uses : List (Aplic × AplicOperation)) :
    Program window (List (Σ use : Aplic × AplicOperation, use.2.Answer)) :=
  Program.inTurn (fun use => use.2.program use.1) uses

theorem spares_inTurn (uses : List (Aplic × AplicOperation)) :
    (inTurn uses).Relies ShowsNoGuest fun access : WindowAccess => access.SparesGuests ∧ access.InSpace :=
  Relies.inTurn (fun use => (spares_program use.1 use.2).and_asks
    ((use.1.sound_program use.2).safe.mono fun _ => Safe.inSpace)) uses

end Aplic

namespace EmulatedDomain

open Program

variable {d : EmulatedDomain}

/-- Whatever handles do to a new domain, in whatever mode they and the domain are, no target
register ever names the file of a guest: not after operations that follow one another, and not at
any moment while several sequences of operations take turns, access by access. -/
theorem guestFree_of_operations {address sourceCount idcCount : Nat}
    (h : create address sourceCount idcCount = .ok d) :
    (∀ uses : List (Aplic × AplicOperation), ((Aplic.inTurn uses).run service d).2.GuestFree) ∧
      ∀ (threads : List (List (Aplic × AplicOperation))) now,
        Relation.ReflTransGen (Turn service) (threads.map Aplic.inTurn, d) now →
          now.2.GuestFree := by
  have hfree := guestFree_of_create h
  refine ⟨fun uses => guarantees_guestFree.run (Aplic.spares_inTurn uses) hfree, ?_⟩
  intro threads now hturns
  have hpool : ∀ p ∈ threads.map Aplic.inTurn,
      p.Relies ShowsNoGuest fun access : WindowAccess => access.SparesGuests ∧ access.InSpace := by
    intro p hp
    obtain ⟨uses, -, rfl⟩ := List.mem_map.mp hp
    exact Aplic.spares_inTurn uses
  exact (guarantees_guestFree.turns hturns hpool hfree).2

/-- The delivery mode changes between the read and the write of a priority. -/
theorem guestFree_of_operations_mixedModes :
    let messages : Aplic :=
      ⟨{ AplicConfig.standard with sources := 8, idcs := 2, delivery := .msi }, by decide, by decide⟩
    let uses : List (Aplic × AplicOperation) :=
      [(messages, .setDomainConfig 4), (messages, .setMsiTarget 3 1 0 0x7FF)]
    let threads : List (List (Aplic × AplicOperation)) :=
      [[(Aplic.sampleHandle, .setPriority 3 0xFF)], uses]
    let after := ((Aplic.inTurn uses).run service sample).2
    create 0xd000000 8 2 = .ok sample ∧ (after.source 3).target = 0x407FF ∧ after.GuestFree ∧
      ∃ now, Relation.ReflTransGen (Turn service) (threads.map Aplic.inTurn, sample) now ∧
        (now.2.source 3).target = 0xFF ∧ now.2.config.delivery = .msi ∧ now.2.GuestFree := by
  intro messages uses threads after
  have hcreate : create 0xd000000 8 2 = .ok sample := rfl
  obtain ⟨hsequence, hthreads⟩ := guestFree_of_operations hcreate
  refine ⟨hcreate, by decide, hsequence uses, ?_⟩
  have hturns : ∃ now, Relation.ReflTransGen (Turn service) (threads.map Aplic.inTurn, sample) now ∧
      (now.2.source 3).target = 0xFF ∧ now.2.config.delivery = .msi :=
    ⟨_, .head (.first _ _ _ _) (.head (.later _ (.first _ _ _ _)) (.single (.first _ _ _ _))),
      by decide, by decide⟩
  obtain ⟨now, hnow, htarget, hmode⟩ := hturns
  exact ⟨now, hnow, htarget, hmode, hthreads threads now hnow⟩

end EmulatedDomain

end AdvancedInterrupts
