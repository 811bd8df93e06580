import AdvancedInterrupts.Aplic.Controller
import AdvancedInterrupts.Imsic.Driver
import AdvancedInterrupts.Proofs.MachineRun
import Mathlib.Algebra.Group.Nat.Defs

/-!
# Identities of handlers

Interrupts of a controller and local interrupts are dispatched through one table
of handlers. The sources of a domain stay below the identities of the local
interrupts. Interrupt files can have more identities than that: those that are not
below the local ones are either shared with a local interrupt or have no slot in
the table, and only the others have a handler of their own.
-/
namespace AdvancedInterrupts

namespace Machine

variable {ι κ σ : Type} {E : Interface} [DecidableEq ι] (p : Platform ι κ E σ)
  {m : Machine ι κ E σ}

/-- A drain that claims an interrupt dispatches its identity. -/
theorem exists_run_claimed {c : ι} {hart : Nat} {w w' : σ} {x : Claim}
    (hclaim : ((p.controller c).claim hart).run p.device w = (x, w')) (hx : x.identity ≠ 0)
    (hs : HandlerTable κ) (t : List (ι × Nat)) (below : List (Frame ι κ E)) :
    ∃ n, run p n (start p (.drain c hart) w hs t below) =
      ⟨w', hs, t, ⟨some (.dispatch x.identity), (Routine.dispatch x.identity).program p⟩ ::
        ⟨some (.drain c hart), .done .again⟩ :: below⟩ := by
  obtain ⟨n, hn, -⟩ := exists_run_onDevices p (m := start p (.drain c hart) w hs t below)
    ((p.controller c).claim hart) _ rfl
  refine ⟨n + 1, ?_⟩
  rw [run_succ_last, hn]
  have hworld : (start p (.drain c hart) w hs t below).world = w := rfl
  rw [hworld, hclaim]
  have hsome : x.isSpurious = false := by simp [Claim.isSpurious, hx]
  simp only [hsome]
  rfl

/-- A registration of an identity without slot leaves the table as it is, and is reported. -/
theorem run_setHandler (e : Nat) (h : κ) (m : Machine ι κ E σ) :
    run p 2 (load (Software.setHandler e h) m) = { m with
      world := if e < handlerSlots then m.world else p.report (.noHandlerSlot e) m.world
      handlers := m.handlers.set e (some h) } := by
  obtain ⟨w, hs, t, stack⟩ := m
  by_cases he : e < handlerSlots
  · simp only [load, Software.setHandler, he, if_true]
    rfl
  · have hkept : hs.set e (some h) = hs := by simp [Table.set, Table.modify, he]
    simp only [load, Software.setHandler, he, if_false, hkept]
    rfl

end Machine

/-- A domain reports its sources in bits 25:16 of the claim word. -/
theorem Claim.identity_ofWord {word : Word} {e : Nat} (hword : word.toNat / 2 ^ 16 = e)
    (he : e < sourceSlots) : (Claim.ofWord word).identity = e := by
  have hmax : identityField.max + 1 = sourceSlots := rfl
  have hlow : identityField.low = 16 := rfl
  rw [ofWord, Word.field_eq, Nat.shiftRight_eq_div_pow, hlow, hmax, hword, Nat.mod_eq_of_lt he]

/-- A file reports its identities in bits 26:16 of the top word. -/
theorem Claim.identity_ofFileWord {word : Word} {e : Nat} (hword : word.toNat / 2 ^ 16 = e)
    (he : e ≤ maxFileIdentity) : (Claim.ofFileWord word).identity = e := by
  have hmax : fileIdentityField.max + 1 = maxFileIdentity + 1 := rfl
  have hlow : fileIdentityField.low = 16 := rfl
  rw [ofFileWord, Word.field_eq, Nat.shiftRight_eq_div_pow, hlow, hmax, hword,
    Nat.mod_eq_of_lt (Nat.lt_succ_of_le he)]

section Identities

variable {ι κ σ : Type} {E : Interface} [DecidableEq ι] (p : Platform ι κ E σ) (c : ι)

/-- A claim of a hart takes an identity that its controller has: the device answers the claim with
a word that has the identity in its upper half. -/
inductive Platform.Reports (hart e : Nat) (w w' : σ) : Prop where
  | domain (a : Aplic) (f : (op : WindowAccess) → Program E op.Answer) (i : Nat) (word : Word)
      (hc : p.controller c = a.controller.expand f) (he : a.hasSource e = true)
      (hmap : a.idcOfHart hart = some i) (hi : i < a.idcs) (hword : word.toNat / 2 ^ 16 = e)
      (hread : (f (.read (Register.idc i .claim).offset)).run p.device w = (word, w'))
  | files (m : Imsic) (f : (op : FileAccess) → Program E op.Answer) (value : BitVec 64)
      (hc : p.controller c = m.controller.expand f) (he : m.hasIdentity e = true)
      (hvalue : (value.setWidth 32).toNat / 2 ^ 16 = e)
      (hread : (f (.swapTop 0)).run p.device w = (value, w'))

omit [DecidableEq ι] in
/-- The fields of the claim words are wide enough for all identities of the controllers. -/
theorem Platform.Reports.exists_claim {p : Platform ι κ E σ} {c : ι} {hart e : Nat} {w w' : σ}
    (h : p.Reports c hart e w w') :
    e ≠ 0 ∧ ∃ x : Claim, x.identity = e ∧
      ((p.controller c).claim hart).run p.device w = (x, w') := by
  cases h with
  | domain a f i word hc he hmap hi hword hread =>
    have hrange := a.sources_range
    have hsource := (a.hasSource_iff e).mp he
    have hexpand : (a.controller.expand f).claim hart = (a.claim hart).expand f := rfl
    refine ⟨by omega, Claim.ofWord word, Claim.identity_ofWord hword (by omega), ?_⟩
    rw [hc, hexpand, Program.run_expand, Aplic.claim_eq hmap hi, Program.run_ask, hread]
    rfl
  | files m f value hc he hvalue hread =>
    have hrange := m.identities_range
    have hidentity := (m.hasIdentity_iff e).mp he
    have hexpand : (m.controller.expand f).claim hart = Imsic.claimLocal.expand f := rfl
    refine ⟨by omega, Claim.ofFileWord (value.setWidth 32),
      Claim.identity_ofFileWord hvalue (by omega), ?_⟩
    rw [hc, hexpand, Program.run_expand, Imsic.claimLocal, Program.run_ask, hread]
    rfl

variable (e : Nat)

open Machine in
/-- An identity has a handler of its own: a claim of it is dispatched under it, the dispatch starts
the handler that was registered for it, and a registration for it changes no handler that a local
interrupt is dispatched to. -/
structure Platform.OwnsHandler : Prop where
  dispatched : ∀ hart w w' hs t below, p.Reports c hart e w w' →
    ∃ n, run p n (start p (.drain c hart) w hs t below) =
      ⟨w', hs, t, ⟨some (.dispatch e), (Routine.dispatch e).program p⟩ ::
        ⟨some (.drain c hart), .done .again⟩ :: below⟩
  registered : ∀ (h : κ) (m : Machine ι κ E σ),
    (run p 2 (load (Software.setHandler e h) m)).handlers.get e = some h
  started : ∀ (h : κ) (m : Machine ι κ E σ) below, m.handlers.get e = some h →
    m.stack = ⟨some (.dispatch e), (Routine.dispatch e).program p⟩ :: below →
      run p 2 m = { m with
        world := p.started h e m.world
        stack := ⟨some (.handler h e), (Routine.handler h e).program p⟩ ::
          ⟨some (.dispatch e), .done .finished⟩ :: below }
  apart : ∀ code i, TrapCause.isExternal code = false → localIdentity? code = some i →
    i ≠ e ∧ ∀ (h : κ) (m : Machine ι κ E σ),
      (run p 2 (load (Software.setHandler e h) m)).handlers.get i = m.handlers.get i

variable {p c e}

theorem le_of_localIdentity? {code i : Nat} (h : localIdentity? code = some i) : localBase ≤ i := by
  unfold localIdentity? at h
  split at h
  · cases h
    exact Nat.le_add_left _ _
  · cases h

/-- Every identity below those of the local interrupts has a handler of its own. -/
theorem Platform.ownsHandler_of_lt (he : e < localBase) : p.OwnsHandler c e where
  dispatched hart w w' hs t below hreports := by
    obtain ⟨hne, x, rfl, hclaim⟩ := hreports.exists_claim
    exact Machine.exists_run_claimed p hclaim hne hs t below
  registered h m := by
    have hslot : e < handlerSlots := Nat.lt_trans he (by decide)
    rw [Machine.run_setHandler]
    simp [Table.get_set, hslot]
  started h m below hh hm := by
    rw [Machine.run_dispatch p e hm, hh]
  apart code i _ hi := by
    have hbase := le_of_localIdentity? hi
    have hne : i ≠ e := by omega
    refine ⟨hne, fun h m => ?_⟩
    rw [Machine.run_setHandler]
    exact Table.get_modify_ne _ _ hne.symm

/-- No identity from those of the local interrupts on has a handler of its own: it is one of them,
or the table has no slot for it. -/
theorem Platform.lt_of_ownsHandler (h : κ) (w : σ) (howns : p.OwnsHandler c e) :
    e < localBase := by
  have hslot : e < handlerSlots := by
    apply Nat.lt_of_not_le
    intro he
    have hregistered := howns.registered h ⟨w, .fill _ none, [], []⟩
    rw [Table.get_of_le _ he] at hregistered
    cases hregistered
  apply Nat.lt_of_not_le
  intro he
  simp only [handlerSlots, localBase] at hslot he
  have hlocal : localIdentity? (e - 1024) = some e := by
    have hsum : e - 1024 + localBase = e := Nat.sub_add_cancel he
    rw [localIdentity?, hsum, if_pos (by omega)]
  have hinternal : TrapCause.isExternal (e - 1024) = false := by
    simp only [TrapCause.isExternal, TrapCause.supervisorExternalCode, TrapCause.userExternalCode,
      Bool.or_eq_false_iff, beq_eq_false_iff_ne]
    omega
  exact (howns.apart _ _ hinternal hlocal).1 rfl

/-- An identity has a handler of its own exactly if it is below those of the local interrupts. All
sources of a domain are, but the identities of interrupt files only if there are not too many. -/
theorem Platform.ownsHandler_iff (p : Platform ι κ E σ) (c : ι) (h : κ) (w : σ) :
    (∀ e, p.OwnsHandler c e ↔ e < localBase) ∧
      (∀ (a : Aplic) (e : Nat), a.hasSource e = true → p.OwnsHandler c e) ∧
      ∀ m : Imsic, (∀ e, m.hasIdentity e = true → p.OwnsHandler c e) ↔
        m.identities < localBase := by
  have hiff : ∀ e, p.OwnsHandler c e ↔ e < localBase :=
    fun e => ⟨lt_of_ownsHandler h w, ownsHandler_of_lt⟩
  refine ⟨hiff, fun a e he => ?_, fun m => ⟨fun hall => ?_, fun hfew e he => ?_⟩⟩
  · have hrange := a.sources_range
    have hsource := (a.hasSource_iff e).mp he
    have hlt : e < localBase := Nat.lt_of_lt_of_le hsource.2 hrange.2
    exact (hiff e).mpr hlt
  · have hrange := m.identities_range
    have hlast : m.hasIdentity m.identities = true :=
      (m.hasIdentity_iff _).mpr ⟨by omega, Nat.le_refl _⟩
    exact (hiff _).mp (hall _ hlast)
  · have hidentity := (m.hasIdentity_iff e).mp he
    exact (hiff e).mpr (Nat.lt_of_le_of_lt hidentity.2 hfew)

end Identities

/-- What a platform with interrupt files has pending and has done. -/
structure FilesLog where
  pending : List Nat
  started : List Nat
  notices : List Notice
deriving DecidableEq

/-- Files with so many identities that the last ones are not below those of the local
interrupts. -/
def wideFiles : Imsic := ⟨⟨1, minFileStride, 1087, false⟩, by decide, by decide⟩

/-- A platform with these files and a single handler. The top interrupt is the software
interrupt. -/
def filesPlatform : Platform Unit Unit interruptFiles FilesLog where
  controller _ := wideFiles.controller.expand Program.perform
  behaviour _ _ := pure ()
  device
    | .readIndirect _, w => (0, w)
    | .writeIndirect _ _, w => ((), w)
    | .swapTop _, w =>
      (BitVec.ofNat 64 (w.pending.headD 0 * 0x10001), { w with pending := w.pending.tail })
    | .writeMessage _ _, w => ((), w)
    | .currentHart, w => (0, w)
    | .report notice, w => ((), { w with notices := w.notices ++ [notice] })
  csr
    | .scause, w => (0, w)
    | .stopi, w => (0x10001#64, w)
    | .clearSoftPending, w => ((), w)
    | .setExternalEnabled _, w => ((), w)
  report notice w := { w with notices := w.notices ++ [notice] }
  started _ e w := { w with started := w.started ++ [e] }

theorem ownsHandler_iff_filesPlatform :
    filesPlatform.OwnsHandler () 255 ∧
      ¬ ∀ e, wideFiles.hasIdentity e = true → filesPlatform.OwnsHandler () e := by
  obtain ⟨-, hdomain, hfiles⟩ := filesPlatform.ownsHandler_iff () () ⟨[], [], []⟩
  have hsource : (⟨.standard, by decide, by decide⟩ : Aplic).hasSource 255 = true := by decide
  exact ⟨hdomain _ 255 hsource, fun hall => absurd ((hfiles wideFiles).mp hall) (by decide)⟩

open Machine in
/-- The software interrupt runs the handler that was registered for identity 1025 of the files, and
a claim of identity 1050 runs none, as nothing can be registered for it. -/
theorem wideFiles_not_ownsHandler :
    Imsic.create wideFiles.toImsicConfig = .ok wideFiles ∧
      (wideFiles.hasIdentity 1025 = true ∧ wideFiles.hasIdentity 1050 = true) ∧
      (¬ filesPlatform.OwnsHandler () 1025 ∧ ¬ filesPlatform.OwnsHandler () 1050) ∧
      (let m := run filesPlatform 2
        (load (Software.setHandler 1025 ()) ⟨⟨[], [], []⟩, .fill _ none, [], []⟩)
      (run filesPlatform 9 (start filesPlatform (.trap () 0) m.world m.handlers [] [])).world =
        ⟨[], [1025], []⟩) ∧
      (let m := run filesPlatform 2
        (load (Software.setHandler 1050 ()) ⟨⟨[1050], [], []⟩, .fill _ none, [], []⟩)
      (run filesPlatform 9 (start filesPlatform (.drain () 0) m.world m.handlers [] [])).world =
        ⟨[], [], [.noHandlerSlot 1050, .unhandled 1050]⟩) := by
  have hnot {e : Nat} (he : localBase ≤ e) : ¬ filesPlatform.OwnsHandler () e :=
    fun howns => Nat.not_lt_of_le he (Platform.lt_of_ownsHandler () ⟨[], [], []⟩ howns)
  refine ⟨rfl, ⟨rfl, rfl⟩, ⟨hnot (by decide), hnot (by decide)⟩, ?_, ?_⟩
  · decide +kernel
  · decide +kernel

end AdvancedInterrupts
