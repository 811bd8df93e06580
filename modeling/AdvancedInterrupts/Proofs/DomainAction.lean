import AdvancedInterrupts.Emulated.Access

/-!
# Actions on an emulated domain

An access to an emulated domain comes down to one action: the read or the write
of a register, or the injection of a source. An access that is refused or that
reaches reserved space comes down to none. What an action can make of a source
is listed once, with one case for each kind of change, and every fact about a
single step of a domain follows from that list.
-/
namespace AdvancedInterrupts

/-- A read or a write of a register that was reached, or an injection. -/
inductive DomainAction where
  | read (register : Register)
  | write (register : Register) (value : Word)
  | inject (source : Nat)
deriving DecidableEq, Repr

/-- A request to give a flag of the named sources a value. -/
structure FlagRequest where
  flag : SourceFlag
  value : Bool
  names : Nat → Bool

namespace FlagRequest

/-- The request for the sources whose bits are set in one word of an array. -/
def ofWord (flag : SourceFlag) (value : Bool) (word : Nat) (mask : Word) : FlagRequest :=
  ⟨flag, value, fun s => s / 32 == word && mask.getLsbD (s % 32)⟩

/-- The request for the source with a number. -/
def ofNumber (flag : SourceFlag) (value : Bool) (number : Nat) : FlagRequest :=
  ⟨flag, value, fun s => number == s⟩

end FlagRequest

/-- What an injection, or a write to a register of the flags, asks for. -/
def DomainAction.flagRequest? : DomainAction → Option FlagRequest
  | .inject source => some (.ofNumber .pending true source)
  | .write (.setPending word) mask => some (.ofWord .pending true word mask)
  | .write .setPendingNumber value => some (.ofNumber .pending true value.toNat)
  | .write .setPendingNumberLittle value => some (.ofNumber .pending true value.toNat)
  | .write .setPendingNumberBig value => some (.ofNumber .pending true value.swapBytes.toNat)
  | .write (.clearPending word) mask => some (.ofWord .pending false word mask)
  | .write .clearPendingNumber value => some (.ofNumber .pending false value.toNat)
  | .write (.setEnable word) mask => some (.ofWord .enabled true word mask)
  | .write .setEnableNumber value => some (.ofNumber .enabled true value.toNat)
  | .write (.clearEnable word) mask => some (.ofWord .enabled false word mask)
  | .write .clearEnableNumber value => some (.ofNumber .enabled false value.toNat)
  | _ => none

namespace EmulatedDomain

variable (d : EmulatedDomain)

/-- The register that an access to an address reaches, if it is accepted and reaches one. -/
def reached? (address : Nat) (width : AccessWidth) : Option Register :=
  if d.accepts address width then Register.ofOffset? (address - d.address) else none

/-- The action that an access comes down to. -/
def action? : EmulatedAccess → Option DomainAction
  | .windowRead offset => (d.reached? (d.addressOf offset) .dword).map .read
  | .windowWrite offset value =>
    (d.reached? (d.addressOf offset) .dword).map fun r => .write r value
  | .guestRead address width => (d.reached? address width).map .read
  | .guestWrite address width value =>
    (d.reached? address width).map fun r => .write r (value.setWidth 32)
  | .inject source => some (.inject source)

/-- The domain after an action. -/
def perform : DomainAction → EmulatedDomain
  | .read register => (d.readRegister register).2
  | .write register value => d.writeRegister register value
  | .inject source => d.inject source

/-- The word that an access answers. A write and a refused access of the guest answer none. -/
def answer? : EmulatedAccess → Option Word
  | .windowRead offset => some (d.windowRead offset).1
  | .guestRead address width => (d.guestRead address width).toOption.map Prod.fst
  | _ => none

/-- An access changes the domain as its action does, and not at all without one. -/
theorem after_eq (access : EmulatedAccess) :
    d.after access = ((d.action? access).map d.perform).getD d := by
  cases access with
  | windowRead offset =>
    simp only [after, windowRead, readAt, action?, reached?]
    by_cases h : d.accepts (d.addressOf offset) .dword = true
    · cases Register.ofOffset? (d.addressOf offset - d.address) <;> simp [h, perform]
    · simp [h]
  | windowWrite offset value =>
    simp only [after, windowWrite, writeAt, action?, reached?]
    by_cases h : d.accepts (d.addressOf offset) .dword = true
    · cases Register.ofOffset? (d.addressOf offset - d.address) <;> simp [h, perform]
    · simp [h]
  | guestRead address width =>
    simp only [after, guestRead, readAt, action?, reached?]
    by_cases h : d.accepts address width = true
    · cases Register.ofOffset? (address - d.address) <;> simp [h, perform]
    · simp [h]
  | guestWrite address width value =>
    simp only [after, guestWrite, writeAt, action?, reached?]
    by_cases h : d.accepts address width = true
    · cases Register.ofOffset? (address - d.address) <;> simp [h, perform]
    · simp [h]
  | inject source => rfl

/-- The domain after some accesses, one after the other. -/
def afterAll (accesses : List EmulatedAccess) : EmulatedDomain := accesses.foldl after d

theorem Reachable.afterAll {d : EmulatedDomain} (h : d.Reachable) (accesses : List EmulatedAccess) :
    (d.afterAll accesses).Reachable := by
  induction accesses generalizing d with
  | nil => exact h
  | cons access rest ih => exact ih (h.step access)

/-- A property that every action keeps is kept by every access. -/
theorem after_induction {P : EmulatedDomain → Prop} (h : P d) (access : EmulatedAccess)
    (hstep : ∀ x, P (d.perform x)) : P (d.after access) := by
  rw [after_eq]
  cases d.action? access with
  | none => exact h
  | some x => exact hstep x

/-- An access that comes down to the read of a register answers what the register reads as. -/
theorem answer?_of_action? {access : EmulatedAccess} {r : Register}
    (h : d.action? access = some (.read r)) : d.answer? access = some (d.readRegister r).1 := by
  cases access with
  | windowRead offset =>
    obtain ⟨r', hr, hr'⟩ := Option.map_eq_some_iff.mp h
    cases hr'
    simp only [reached?, Option.ite_none_right_eq_some] at hr
    simp [answer?, windowRead, readAt, hr.1, hr.2]
  | guestRead address width =>
    obtain ⟨r', hr, hr'⟩ := Option.map_eq_some_iff.mp h
    cases hr'
    simp only [reached?, Option.ite_none_right_eq_some] at hr
    simp [answer?, guestRead, readAt, hr.1, hr.2, Except.toOption]
  | windowWrite offset value =>
    obtain ⟨r', -, hr'⟩ := Option.map_eq_some_iff.mp h
    cases hr'
  | guestWrite address width value =>
    obtain ⟨r', -, hr'⟩ := Option.map_eq_some_iff.mp h
    cases hr'
  | inject source => cases h

/-- A request changes the flag of the sources that it names and that accept the value. -/
theorem source_perform_flagRequest {x : DomainAction} {q : FlagRequest}
    (h : x.flagRequest? = some q) (s : Nat) :
    (d.perform x).source s =
      if q.names s = true ∧ d.acceptsFlag s q.value = true then
        (d.source s).withFlag q.flag q.value
      else d.source s := by
  cases x with
  | read r => cases h
  | inject i =>
    cases h
    simp [perform, inject, FlagRequest.ofNumber, source_setFlag]
  | write r value =>
    cases r <;> cases h <;>
      simp [perform, writeRegister, FlagRequest.ofNumber, FlagRequest.ofWord, source_setFlag,
        source_setFlags]

/-- What an action can make of the registers of a source. -/
inductive SourceEffect (x : DomainAction) (s : Nat) : Source → Prop where
  /-- They stay as they are. -/
  | kept : SourceEffect x s (d.source s)
  /-- A request names the source, and the source accepts it. -/
  | flag (q : FlagRequest) (hq : x.flagRequest? = some q) (hn : q.names s = true)
      (ha : d.acceptsFlag s q.value = true) :
      SourceEffect x s ((d.source s).withFlag q.flag q.value)
  /-- Its configuration register is written. -/
  | mode (word : Word) (m : SourceMode) (hx : x = .write (.sourceConfig s) word)
      (hm : SourceMode.ofWord word = .ok m) (hs : d.hasSource s = true) :
      SourceEffect x s ((d.source s).withMode m)
  /-- Its target register is written. -/
  | target (word : Word) (hx : x = .write (.target s) word) (hs : d.hasSource s = true) :
      SourceEffect x s ((d.source s).withTarget d.config.delivery word)
  /-- It is claimed. -/
  | claimed (i : Nat) (c : Claim) (hx : x = .read (.idc i .claim)) (hi : i < d.idcCount)
      (ht : d.top i = some c) (hc : c.identity = s) :
      SourceEffect x s ((d.source s).withFlag .pending false)

/-- Only a claim changes anything when a register is read. -/
theorem perform_read {r : Register} (h : ∀ i, i < d.idcCount → r ≠ .idc i .claim) :
    d.perform (.read r) = d := by
  cases r with
  | idc i register =>
    simp only [perform, readRegister]
    split
    · cases register with
      | claim => exact absurd rfl (h i ‹_›)
      | _ => rfl
    · rfl
  | _ => rfl

theorem perform_claim {i : Nat} (h : i < d.idcCount) :
    d.perform (.read (.idc i .claim)) = d.afterClaim i := by
  simp [perform, readRegister, readIdc, h]

/-- Every action has one of these effects on every source. -/
theorem sourceEffect (x : DomainAction) (s : Nat) :
    d.SourceEffect x s ((d.perform x).source s) := by
  cases hq : x.flagRequest? with
  | some q =>
    rw [source_perform_flagRequest d hq]
    split
    next h => exact .flag q hq h.1 h.2
    next => exact .kept
  | none =>
    cases x with
    | inject i => cases hq
    | read r =>
      by_cases hr : ∃ i, i < d.idcCount ∧ r = .idc i .claim
      · obtain ⟨i, hi, rfl⟩ := hr
        rw [perform_claim d hi, afterClaim]
        split
        next c ht =>
          rw [source_modifySource]
          split
          next hc => exact .claimed i c rfl hi ht hc.1
          next => exact .kept
        next => exact .kept
      · rw [perform_read d fun i hi he => hr ⟨i, hi, he⟩]
        exact .kept
    | write r value =>
      cases r with
      | sourceConfig i =>
        simp only [perform, writeRegister, configureSource]
        split
        next hs =>
          split
          next m hm =>
            rw [source_modifySource]
            split
            next hi =>
              obtain ⟨rfl, -⟩ := hi
              exact .mode value m rfl hm hs
            next => exact .kept
          next => exact .kept
        next => exact .kept
      | target i =>
        simp only [perform, writeRegister]
        split
        next hs =>
          rw [source_modifySource]
          split
          next hi =>
            obtain ⟨rfl, -⟩ := hi
            exact .target value rfl hs
          next => exact .kept
        next => exact .kept
      | idc i register =>
        simp only [perform, writeRegister]
        split
        · cases register <;> exact .kept
        · exact .kept
      | _ => first | exact .kept | cases hq

/-- What an action can make of the registers of a delivery structure. -/
inductive IdcEffect (x : DomainAction) (i : Nat) : IdcState → Prop where
  /-- They stay as they are. -/
  | kept : IdcEffect x i (d.idc i)
  /-- One of them is written. -/
  | written (r : IdcRegister) (value : Word) (hx : x = .write (.idc i r) value)
      (hi : i < d.idcCount) : IdcEffect x i ((d.writeIdc i r value).idc i)
  /-- A claim finds nothing, and takes a forced interrupt back. -/
  | unforced (hx : x = .read (.idc i .claim)) (hi : i < d.idcCount) (ht : d.top i = none) :
      IdcEffect x i { d.idc i with force := false }

theorem idc_writeIdc_ne {i j : Nat} (r : IdcRegister) (value : Word) (h : i ≠ j) :
    (d.writeIdc i r value).idc j = d.idc j := by
  cases r <;> simp [writeIdc, idc_modifyIdc, h]

/-- Every action has one of these effects on every delivery structure. -/
theorem idcEffect (x : DomainAction) (i : Nat) : d.IdcEffect x i ((d.perform x).idc i) := by
  cases x with
  | inject s =>
    simp only [perform, inject, idc_setFlag]
    exact .kept
  | read r =>
    by_cases hr : ∃ j, j < d.idcCount ∧ r = .idc j .claim
    · obtain ⟨j, hj, rfl⟩ := hr
      rw [perform_claim d hj, afterClaim]
      split
      next => exact .kept
      next ht =>
        rw [idc_modifyIdc]
        split
        next h =>
          obtain ⟨rfl, -⟩ := h
          exact .unforced rfl hj ht
        next => exact .kept
    · rw [perform_read d fun j hj he => hr ⟨j, hj, he⟩]
      exact .kept
  | write r value =>
    cases r with
    | idc j register =>
      simp only [perform, writeRegister]
      split
      next hj =>
        by_cases h : j = i
        · subst h
          exact .written register value rfl hj
        · rw [idc_writeIdc_ne d register value h]
          exact .kept
      next => exact .kept
    | sourceConfig s =>
      simp only [perform, writeRegister, configureSource]
      split
      · split <;> exact .kept
      · exact .kept
    | target s =>
      simp only [perform, writeRegister]
      split <;> exact .kept
    | domainConfig => exact .kept
    | _ =>
      simp only [perform, writeRegister, idc_setFlag, idc_setFlags]
      exact .kept

/-- The numbers of a domain that never change: its address and what it has. -/
def shape : Nat × Nat × Nat := (d.address, d.sourceCount, d.idcCount)

theorem sourceCount_of_shape {d e : EmulatedDomain} (h : e.shape = d.shape) :
    e.sourceCount = d.sourceCount :=
  congrArg (fun shape => shape.2.1) h

theorem idcCount_of_shape {d e : EmulatedDomain} (h : e.shape = d.shape) :
    e.idcCount = d.idcCount :=
  congrArg (fun shape => shape.2.2) h

theorem address_of_shape {d e : EmulatedDomain} (h : e.shape = d.shape) :
    e.address = d.address :=
  congrArg Prod.fst h

theorem size_of_shape {d e : EmulatedDomain} (h : e.shape = d.shape) : e.size = d.size := by
  rw [size, size, idcCount_of_shape h]

theorem hasSource_of_shape {d e : EmulatedDomain} (h : e.shape = d.shape) :
    e.hasSource = d.hasSource := by
  funext s
  rw [hasSource, hasSource, sourceCount_of_shape h]

@[simp] theorem shape_modifySource (i : Nat) (f : Source → Source) :
    (d.modifySource i f).shape = d.shape := rfl

@[simp] theorem shape_modifyIdc (i : Nat) (f : IdcState → IdcState) :
    (d.modifyIdc i f).shape = d.shape := rfl

@[simp] theorem shape_setFlag (f : SourceFlag) (value : Bool) (i : Nat) :
    (d.setFlag f value i).shape = d.shape := by
  unfold setFlag
  split <;> rfl

@[simp] theorem shape_foldl_setFlag (f : SourceFlag) (value : Bool) (numbers : List Nat) :
    (numbers.foldl (fun d i => d.setFlag f value i) d).shape = d.shape := by
  induction numbers generalizing d with
  | nil => rfl
  | cons i rest ih => rw [List.foldl_cons, ih, shape_setFlag]

@[simp] theorem shape_setFlags (f : SourceFlag) (value : Bool) (word : Nat) (mask : Word) :
    (d.setFlags f value word mask).shape = d.shape := by
  rw [setFlags_eq_foldl, shape_foldl_setFlag]

@[simp] theorem shape_afterClaim (i : Nat) : (d.afterClaim i).shape = d.shape := by
  unfold afterClaim
  split <;> rfl

/-- No action changes the shape of a domain. -/
@[simp] theorem shape_perform (x : DomainAction) : (d.perform x).shape = d.shape := by
  cases x with
  | inject i => simp [perform, inject]
  | read r =>
    by_cases hr : ∃ i, i < d.idcCount ∧ r = .idc i .claim
    · obtain ⟨i, hi, rfl⟩ := hr
      rw [perform_claim d hi, shape_afterClaim]
    · rw [perform_read d fun i hi he => hr ⟨i, hi, he⟩]
  | write r value =>
    cases r with
    | sourceConfig i =>
      simp only [perform, writeRegister, configureSource]
      split
      · split <;> simp
      · rfl
    | target i =>
      simp only [perform, writeRegister]
      split <;> simp
    | idc i register =>
      simp only [perform, writeRegister]
      split
      · cases register <;> simp [writeIdc]
      · rfl
    | domainConfig => rfl
    | _ => simp [perform, writeRegister]

theorem shape_after (access : EmulatedAccess) : (d.after access).shape = d.shape :=
  after_induction (P := fun after => after.shape = d.shape) d rfl access d.shape_perform

theorem shape_afterAll (accesses : List EmulatedAccess) : (d.afterAll accesses).shape = d.shape := by
  induction accesses generalizing d with
  | nil => rfl
  | cons access rest ih => exact (ih (d.after access)).trans (d.shape_after access)

end EmulatedDomain

end AdvancedInterrupts
