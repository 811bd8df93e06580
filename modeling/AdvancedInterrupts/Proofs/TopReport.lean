import AdvancedInterrupts.Proofs.RegisterFrame
import Mathlib.Logic.ExistsUnique

/-!
# The report of a delivery structure

A delivery structure has two registers that report its most urgent source. Both
give the same word, which tells the number and the priority of the source, or is
zero when the domain sends messages or nothing is eligible. Whether interrupts
are forwarded, delivered or forced has no part in it. Reading the one changes
nothing. Reading the other takes what is reported: the pending bit of the source,
or, when there is none, the forced interrupt of the delivery structure.
-/
namespace AdvancedInterrupts.EmulatedDomain

variable {d e : EmulatedDomain} {i s : Nat}

/-! ### The foremost source -/

theorem Foremost.unique {s' : Nat} (h : d.Foremost i s) (h' : d.Foremost i s') : s' = s := by
  by_contra hne
  exact Claim.not_precedes_self _ ((h.2 s' h'.1 hne).trans (h'.2 s h.1 (Ne.symm hne)))

/-- As soon as something can be claimed, there is one source that is claimed next. -/
theorem exists_foremost (hd : d.Consistent) (h : ∃ s, d.Claimable i s) : ∃ s, d.Foremost i s := by
  obtain ⟨s, hs⟩ := h
  cases htop : d.top i with
  | none => exact absurd hs ((top_eq_none hd i).mp htop s)
  | some c => exact ⟨c.identity, (foremost_of_top hd htop).2⟩

theorem Foremost.top (h : d.Foremost i s) (hd : d.Consistent) : d.top i = some (d.claimOf s) := by
  cases htop : d.top i with
  | none => exact absurd h.1 ((top_eq_none hd i).mp htop s)
  | some c =>
    obtain ⟨hc, hforemost⟩ := foremost_of_top hd htop
    rw [hc, h.unique hforemost]

/-! ### The word -/

theorem priority_claimOf_le (d : EmulatedDomain) (s : Nat) : (d.claimOf s).priority ≤ maxPriority :=
  Word.field_le (d.source s).target Target.priorityField

theorem topWord_of_foremost (hd : d.Consistent) (h : d.Foremost i s) :
    d.topWord i =
      BitVec.ofNat 32 s <<< 16 ||| BitVec.ofNat 32 (Target.priority (d.source s).target) := by
  have hle := d.priority_claimOf_le s
  rw [maxPriority] at hle
  rw [topWord, h.top hd]
  exact Claim.toWord_eq (by omega)

theorem ofWord_topWord_of_foremost (hd : d.Consistent) (h : d.Foremost i s) :
    Claim.ofWord (d.topWord i) = d.claimOf s := by
  rw [ofWord_topWord, h.top hd, Option.getD_some]

/-- The word is zero only if nothing is reported. -/
theorem topWord_eq_zero_iff : d.topWord i = 0 ↔ d.top i = none := by
  constructor
  · intro hzero
    have hspurious := d.ofWord_topWord i
    cases htop : d.top i with
    | none => rfl
    | some c =>
      rw [hzero, htop, Option.getD_some] at hspurious
      exact absurd (congrArg Claim.identity hspurious).symm (identity_top_ne_zero htop)
  · intro htop
    rw [topWord, htop]

/-- The parts of a domain that have no say in what it reports, apart from the delivery mode. -/
def Unreported : DomainPart → Prop
  | .config | .delivery _ | .force _ => True
  | _ => False

theorem topWord_congr (h : d.ModifiesOnly Unreported e)
    (hdelivery : e.config.delivery = d.config.delivery) : e.topWord i = d.topWord i := by
  have hsource (s : Nat) : e.source s = d.source s :=
    Source.ext_flag (h.agrees (.mode s) id) (h.agrees (.target s) id)
      fun f => h.agrees (.flag f s) id
  have hthreshold : (e.idc i).threshold = (d.idc i).threshold := h.agrees (.threshold i) id
  have hcount : e.sourceCount = d.sourceCount := sourceCount_of_shape h.shape
  have hwaits : e.waitsAt i = d.waitsAt i := by
    funext s
    simp only [waitsAt, IdcState.admits, hsource, hthreshold, hasSource_of_shape h.shape]
  have hclaim : e.claimOf = d.claimOf := by
    funext s
    rw [claimOf, claimOf, hsource]
  have htop : e.top i = d.top i := by
    rw [top, top, waiting, waiting, hwaits, hclaim, hcount, hdelivery]
  rw [topWord, topWord, htop]

/-! ### What a claim changes -/

theorem modifiesOnly_afterClaim_of_top {c : Claim} (h : d.top i = some c) :
    d.ModifiesOnly (· = .flag .pending c.identity) (d.afterClaim i) where
  shape := d.shape_afterClaim i
  agrees := by
    intro part hpart
    have hsource (s : Nat) := source_afterClaim h s
    cases part with
    | config => exact d.config_afterClaim i
    | mode s =>
      rw [Agrees, hsource]
      split <;> simp
    | target s =>
      rw [Agrees, hsource]
      split <;> simp
    | flag f s =>
      rw [Agrees, hsource]
      split
      next hs =>
        subst hs
        have hf : f ≠ .pending := by
          rintro rfl
          exact hpart rfl
        rw [Source.flag_withFlag, if_neg hf]
      next => rfl
    | delivery j | force j | threshold j => rw [Agrees, idc_afterClaim h]

theorem modifiesOnly_afterClaim_of_none (hi : i < d.idcCount) (h : d.top i = none) :
    d.ModifiesOnly (· = .force i) (d.afterClaim i) where
  shape := d.shape_afterClaim i
  agrees := by
    intro part hpart
    have hidc (j : Nat) := idc_afterClaim_of_none h hi j
    cases part with
    | config => exact d.config_afterClaim i
    | mode s | target s | flag f s => rw [Agrees, source_afterClaim_of_none h]
    | delivery j | threshold j =>
      rw [Agrees, hidc]
      split <;> rfl
    | force j =>
      have hj : j ≠ i := by
        rintro rfl
        exact hpart rfl
      rw [Agrees, hidc, if_neg hj]

/-! ### The registers -/

/-- The guest reads a register of the domain at its own address. -/
theorem guestRead_register {r : Register} (h : d.HasRegister r) :
    d.guestRead (d.address + r.offset) .dword = .ok (d.readRegister r) := by
  rw [guestRead, if_pos h.accepts, Nat.add_sub_cancel_left, readAt, Register.ofOffset?_offset h.1]

/-- What the registers of a delivery structure report, and what reading them changes. -/
structure Reports (d : EmulatedDomain) (i : Nat) : Prop where
  /-- The guest reads what a driver reads. -/
  guest (x : IdcRegister) : d.guestRead (d.address + (Register.idc i x).offset) .dword =
    .ok (d.windowRead (Register.idc i x).offset)
  /-- Nothing is reported by a domain that sends messages, or if nothing is eligible. -/
  silent (h : d.config.delivery = .msi ∨ ∀ s, ¬ d.Claimable i s) :
    (d.windowRead (Register.idc i .top).offset).1 = 0
  /-- Otherwise there is exactly one source that precedes all other eligible ones. -/
  foremost (h : ∃ s, d.Claimable i s) : ∃! s, d.Foremost i s
  /-- Its number and its priority are reported. -/
  word (s : Nat) (h : d.Foremost i s) : (d.windowRead (Register.idc i .top).offset).1 =
    BitVec.ofNat 32 s <<< 16 ||| BitVec.ofNat 32 (Target.priority (d.source s).target)
  /-- They are read back from the word as they are. -/
  decoded (s : Nat) (h : d.Foremost i s) :
    Claim.ofWord (d.windowRead (Register.idc i .top).offset).1 =
      ⟨s, Target.priority (d.source s).target⟩
  /-- The report does not depend on whether interrupts are forwarded, delivered or forced. -/
  indifferent (e : EmulatedDomain) (h : d.ModifiesOnly Unreported e)
    (hdelivery : e.config.delivery = d.config.delivery) :
    (e.windowRead (Register.idc i .top).offset).1 = (d.windowRead (Register.idc i .top).offset).1
  /-- Reading the report changes nothing. -/
  unchanged : (d.windowRead (Register.idc i .top).offset).2 = d
  /-- A claim gives the same word. -/
  claim : (d.windowRead (Register.idc i .claim).offset).1 =
    (d.windowRead (Register.idc i .top).offset).1
  /-- A claim of a source clears its pending bit, and changes nothing else. -/
  claimed (s : Nat) (h : d.Foremost i s) :
    let after := (d.windowRead (Register.idc i .claim).offset).2
    d.ModifiesOnly (· = .flag .pending s) after ∧ (after.source s).pending = false
  /-- A claim that finds nothing takes back a forced interrupt, and changes nothing else. -/
  unforced (h : (d.windowRead (Register.idc i .top).offset).1 = 0) :
    let after := (d.windowRead (Register.idc i .claim).offset).2
    d.ModifiesOnly (· = .force i) after ∧ (after.idc i).force = false

/-- Every delivery structure reports its foremost source, in every state that a domain can
reach. -/
theorem reports_of_reachable (hd : d.Reachable) (hfits : d.address + d.size < addressSpace)
    (hi : i < d.idcCount) : d.Reports i := by
  have hfits : d.address + d.size ≤ addressSpace := Nat.le_of_lt hfits
  have htop := windowRead_top hfits hi
  have hclaim := windowRead_claim hfits hi
  constructor
  case guest =>
    intro x
    rw [windowRead_register hfits (hasRegister_idc hi x)]
    exact guestRead_register (hasRegister_idc hi x)
  case silent =>
    intro h
    have hnone : ∀ s, ¬ d.Claimable i s := by
      intro s hs
      rcases h with hmsi | hnone
      · rw [hs.1] at hmsi
        cases hmsi
      · exact hnone s hs
    rw [htop]
    exact topWord_eq_zero_iff.mpr ((top_eq_none hd.consistent i).mpr hnone)
  case foremost =>
    intro h
    obtain ⟨s, hs⟩ := exists_foremost hd.consistent h
    exact ⟨s, hs, fun s' hs' => hs.unique hs'⟩
  case word =>
    intro s h
    rw [htop]
    exact topWord_of_foremost hd.consistent h
  case decoded =>
    intro s h
    rw [htop]
    exact ofWord_topWord_of_foremost hd.consistent h
  case indifferent =>
    intro e h hdelivery
    have hcount : e.idcCount = d.idcCount := idcCount_of_shape h.shape
    rw [htop, windowRead_top (fits_of_shape h.shape hfits) (by omega)]
    exact topWord_congr h hdelivery
  case unchanged => rw [htop]
  case claim => rw [hclaim, htop]
  case claimed =>
    intro s h
    have hs := h.top hd.consistent
    rw [hclaim]
    refine ⟨modifiesOnly_afterClaim_of_top hs, ?_⟩
    rw [source_afterClaim hs, if_pos (show s = (d.claimOf s).identity from rfl)]
    rfl
  case unforced =>
    intro h
    rw [htop] at h
    have hnone := topWord_eq_zero_iff.mp h
    rw [hclaim]
    refine ⟨modifiesOnly_afterClaim_of_none hi hnone, ?_⟩
    rw [idc_afterClaim_of_none hnone hi, if_pos rfl]

/-- Source 3 is more urgent than source 5. It is reported again while nothing is forwarded, and
claimed. -/
theorem reports_of_reachable_sampleAccesses :
    let d := sample.afterAll sampleAccesses
    d.Reachable ∧ d.address + d.size < addressSpace ∧ 0 < d.idcCount ∧ d.Reports 0 ∧
      (d.windowRead (Register.idc 0 .top).offset).1 = 0x30002 ∧ d.Foremost 0 3 := by
  intro d
  have hd : d.Reachable := sample_reachable.afterAll sampleAccesses
  have htop : d.top 0 = some ⟨3, 2⟩ := by decide
  exact ⟨hd, by decide, by decide, reports_of_reachable hd (by decide) (by decide), by decide,
    (foremost_of_top hd.consistent htop).2⟩

end AdvancedInterrupts.EmulatedDomain
