import AdvancedInterrupts.Aplic.BringUp
import AdvancedInterrupts.Proofs.DriverWindow
import AdvancedInterrupts.Proofs.UrgencyOrder

/-!
# Probing without a trace

The search for sources writes to the domain: every inactive source is activated
and enabled for a moment. An inactive source has neither flag, and it is never
pending while it is tried, so no delivery structure ever reports anything else.
Making it inactive again clears the enable bit that was set, so the domain ends
as it began.
-/
namespace AdvancedInterrupts

theorem SourceMode.toWord_eq_inactive {mode : SourceMode} :
    mode.toWord = inactive.toWord ↔ mode = inactive := by
  cases mode <;> decide

namespace Program

variable {I : Interface} {α β σ : Type} {service : Service I σ}

/-- The states that a run passes through, one after each operation. -/
def passes (service : Service I σ) : Program I α → σ → List σ
  | done _, _ => []
  | ask op next, s =>
    let answered := service op s
    answered.2 :: (next answered.1).passes service answered.2

theorem passes_bind (p : Program I α) (k : α → Program I β) (s : σ) :
    (p >>= k).passes service s =
      p.passes service s ++ (k (p.run service s).1).passes service (p.run service s).2 := by
  induction p generalizing s with
  | done a => rfl
  | ask op next ih => exact congrArg (List.cons _) (ih _ _)

/-- A run from one state ends in another one with an answer, and every state that it passes through
is as `ok` says. -/
structure Leads (service : Service I σ) (ok : σ → Prop) (p : Program I α) (s : σ) (a : α)
    (after : σ) : Prop where
  run : p.run service s = (a, after)
  passes : ∀ x ∈ p.passes service s, ok x

namespace Leads

variable {ok : σ → Prop} {p : Program I α} {k : α → Program I β} {s middle after : σ} {a : α}
  {b : β}

theorem done (a : α) (s : σ) : Leads service ok (.done a) s a s := ⟨rfl, by simp [Program.passes]⟩

theorem perform {op : I.Op} {answer : I.Answer op} (h : service op s = (answer, after))
    (hok : ok after) : Leads service ok (perform op) s answer after := by
  refine ⟨h, fun x hx => ?_⟩
  have hx' : x = (service op s).2 := List.mem_singleton.mp hx
  rwa [hx', h]

theorem bind (hp : Leads service ok p s a middle) (hk : Leads service ok (k a) middle b after) :
    Leads service ok (p >>= k) s b after := by
  refine ⟨by rw [run_bind, hp.run, hk.run], fun x hx => ?_⟩
  rw [passes_bind, hp.run] at hx
  rcases List.mem_append.mp hx with hx | hx
  · exact hp.passes x hx
  · exact hk.passes x hx

end Leads

end Program

namespace EmulatedDomain

open Program

variable {d after : EmulatedDomain} {r : Register} {s : Nat} {ok : EmulatedDomain → Prop}
  {a : Aplic}

theorem leads_read (hfits : d.address + d.size ≤ addressSpace) (h : d.HasRegister r) {value : Word}
    (hread : d.readRegister r = (value, d)) (hok : ok d) : Leads service ok r.read d value d :=
  .perform ((windowRead_register hfits h).trans hread) hok

theorem leads_write (hfits : d.address + d.size ≤ addressSpace) (h : d.HasRegister r) {value : Word}
    (hwrite : d.writeRegister r value = after) (hok : ok after) :
    Leads service ok (r.write value) d () after :=
  .perform (congrArg (Prod.mk ()) ((windowWrite_register hfits h value).trans hwrite)) hok

theorem leads_isEnabled (hfits : d.address + d.size ≤ addressSpace) (hs : a.hasSource s = true)
    (hok : ok d) : Leads service ok (a.isEnabled s) d (d.source s).enabled d := by
  have hword := word_lt_bitWords (a.lt_sourceSlots_of_hasSource hs)
  have hregister : d.HasRegister (.setEnable (s / 32)) := .of_published hword fun _ _ => by simp
  have hbit : (d.flagWord .enabled (s / 32)).getLsbD (s % 32) = (d.source s).enabled :=
    getLsbD_flagWord_source d .enabled s
  rw [Aplic.isEnabled, Aplic.readBit, if_pos hs, ← hbit]
  exact (leads_read hfits hregister rfl hok).bind (.done _ d)

/-- Every delivery structure reports in a domain what it reports in another one. -/
def SameTops (d e : EmulatedDomain) : Prop :=
  ∀ i, (e.readRegister (.idc i .top)).1 = (d.readRegister (.idc i .top)).1

theorem readRegister_top (d : EmulatedDomain) (i : Nat) :
    (d.readRegister (.idc i .top)).1 = if i < d.idcCount then d.topWord i else 0 := by
  rw [readRegister]
  split <;> rfl

theorem waitsAt_of_not_pending (h : (d.source s).pending = false) (i : Nat) :
    d.waitsAt i s = false := by
  simp only [waitsAt, h, Bool.and_false, Bool.false_and]

/-- Whatever else becomes of a source that is not pending, it is not reported. -/
theorem sameTops_modifySource {f : Source → Source} (h : (d.source s).pending = false)
    (hf : (f (d.source s)).pending = false) : SameTops d (d.modifySource s f) := by
  intro i
  have hafter : ((d.modifySource s f).source s).pending = false := by
    rw [source_modifySource]
    split
    · exact hf
    · exact h
  have htop : (d.modifySource s f).top i = d.top i :=
    top_modifySource (waitsAt_of_not_pending h i) (waitsAt_of_not_pending hafter i)
  rw [readRegister_top, readRegister_top, topWord, topWord, htop]
  rfl

/-- An inactive source while it is tried, with its enable bit. -/
def tried (on : Bool) (x : Source) : Source := { x with mode := .detached, enabled := on }

/-- Becoming inactive again, a source loses every trace of the trial. -/
theorem withMode_inactive_tried {x : Source} (hmode : x.mode = .inactive)
    (hflags : ∀ f, x.flag f = false) (on : Bool) : (tried on x).withMode .inactive = x := by
  obtain ⟨mode, target, pending, enabled⟩ := x
  have hpending : pending = false := hflags .pending
  have henabled : enabled = false := hflags .enabled
  subst hmode hpending henabled
  rfl

section Tried

variable (hd : d.Consistent) (hknown : d.hasSource s = true) (hmode : (d.source s).mode = .inactive)

include hknown

theorem source_tried (on : Bool) :
    (d.modifySource s (tried on)).source s = tried on (d.source s) := by
  rw [source_modifySource_self d (d.lt_sourceSlots_of_hasSource hknown)]

/-- A source that is tried can be enabled and disabled. -/
theorem setFlag_tried (on value : Bool) :
    (d.modifySource s (tried on)).setFlag .enabled value s = d.modifySource s (tried value) := by
  have haccepts : (d.modifySource s (tried on)).acceptsFlag s value = true := by
    have hknown' : (d.modifySource s (tried on)).hasSource s = true := hknown
    rw [acceptsFlag, hknown', source_tried hknown]
    exact Bool.or_true _
  rw [setFlag, if_pos haccepts, modifySource_modifySource]
  rfl

include hd hmode

theorem writeRegister_detached :
    d.writeRegister (.sourceConfig s) SourceMode.detached.toWord =
      d.modifySource s (tried false) := by
  have hoff : (d.source s).enabled = false := hd.inactive s hmode .enabled
  rw [writeRegister_sourceConfig, if_pos hknown]
  refine d.modifySource_congr ?_
  simp [Source.withMode, tried, SourceMode.isActive, hoff]

theorem writeRegister_inactive :
    (d.modifySource s (tried false)).writeRegister (.sourceConfig s) SourceMode.inactive.toWord =
      d := by
  have hknown' : (d.modifySource s (tried false)).hasSource s = true := hknown
  rw [writeRegister_sourceConfig, if_pos hknown', modifySource_modifySource]
  exact d.modifySource_eq_self (withMode_inactive_tried hmode (hd.inactive s hmode) false)

end Tried

/-- The trial of a source, by the states between its writes. -/
theorem leads_probeSource_of_writes (hfits : d.address + d.size ≤ addressSpace)
    (hs : a.hasSource s = true)
    (hread : d.readRegister (.sourceConfig s) = (SourceMode.inactive.toWord, d))
    (hoff : (d.source s).enabled = false) {d₁ d₂ : EmulatedDomain}
    (h₁ : d.writeRegister (.sourceConfig s) SourceMode.detached.toWord = d₁)
    (h₂ : d₁.writeRegister .setEnableNumber (BitVec.ofNat 32 s) = d₂)
    (h₃ : d₂.writeRegister .clearEnableNumber (BitVec.ofNat 32 s) = d₁)
    (h₄ : d₁.writeRegister (.sourceConfig s) SourceMode.inactive.toWord = d)
    (hok : ok d) (hok₁ : ok d₁) (hok₂ : ok d₂) :
    Leads service ok (a.probeSource s) d (d₂.source s).enabled d := by
  have hpublished := (a.published_of_hasSource hs).1
  have hfits₁ : d₁.address + d₁.size ≤ addressSpace := h₁ ▸ fits_writeRegister hfits _ _
  have hfits₂ : d₂.address + d₂.size ≤ addressSpace := h₂ ▸ fits_writeRegister hfits₁ _ _
  have hset : d₁.HasRegister .setEnableNumber := .of_published trivial fun _ _ => by simp
  have hclear : d₂.HasRegister .clearEnableNumber := .of_published trivial fun _ _ => by simp
  have henabled := leads_isEnabled hfits hs hok
  rw [hoff] at henabled
  refine (leads_read hfits (.of_published hpublished fun _ _ => by simp) hread hok).bind ?_
  rw [if_pos rfl]
  refine henabled.bind ?_
  refine (leads_write hfits (.of_published hpublished fun _ _ => by simp) h₁ hok₁).bind ?_
  refine (leads_write hfits₁ hset h₂ hok₂).bind ?_
  refine (leads_isEnabled hfits₂ hs hok₂).bind ?_
  refine (leads_write hfits₂ hclear h₃ hok₁).bind ?_
  refine (leads_write hfits₁ (.of_published hpublished fun _ _ => by simp) h₄ hok).bind ?_
  exact .done _ d

/-- A source is found if the domain has it, and the trial goes unnoticed. -/
theorem leads_probeSource (hd : d.Consistent) (hfits : d.address + d.size ≤ addressSpace)
    (hs : a.hasSource s = true) :
    Leads service (SameTops d) (a.probeSource s) d (d.hasSource s) d := by
  have hslots := a.lt_sourceSlots_of_hasSource hs
  have hnumber := toNat_sourceNumber hslots
  have hsame : SameTops d d := fun _ => rfl
  cases hknown : d.hasSource s with
  | false =>
    have hoff : (d.source s).enabled = false := by rw [hd.absent s hknown]; rfl
    have hignored (value : Bool) : d.setFlag .enabled value s = d :=
      if_neg fun haccepts => by simp [acceptsFlag, hknown] at haccepts
    have hconfig (word : Word) : d.writeRegister (.sourceConfig s) word = d :=
      if_neg (by simp [hknown])
    have hread : d.readRegister (.sourceConfig s) = (SourceMode.inactive.toWord, d) := by
      simp only [readRegister, hknown]
      rfl
    rw [← hoff]
    exact leads_probeSource_of_writes hfits hs hread hoff (hconfig _)
      (by rw [writeRegister, hnumber, hignored]) (by rw [writeRegister, hnumber, hignored])
      (hconfig _) hsame hsame hsame
  | true =>
    have hread : d.readRegister (.sourceConfig s) = ((d.source s).mode.toWord, d) := by
      simp only [readRegister, hknown, if_true]
    by_cases hmode : (d.source s).mode = .inactive
    · have hquiet : (d.source s).pending = false := hd.inactive s hmode .pending
      have htried (on : Bool) : SameTops d (d.modifySource s (tried on)) :=
        sameTops_modifySource hquiet hquiet
      rw [hmode] at hread
      have hfound : ((d.modifySource s (tried true)).source s).enabled = true := by
        rw [source_tried hknown]
        rfl
      rw [← hfound]
      exact leads_probeSource_of_writes hfits hs hread (hd.inactive s hmode .enabled)
        (writeRegister_detached hd hknown hmode)
        (by rw [writeRegister, hnumber, setFlag_tried hknown])
        (by rw [writeRegister, hnumber, setFlag_tried hknown])
        (writeRegister_inactive hd hknown hmode) hsame (htried false) (htried true)
    · have hregister : d.HasRegister (.sourceConfig s) :=
        .of_published (a.published_of_hasSource hs).1 fun _ _ => by simp
      refine (leads_read hfits hregister hread hsame).bind ?_
      rw [if_neg fun he => hmode (SourceMode.toWord_eq_inactive.mp he)]
      exact .done true d

theorem leads_probeSources (hd : d.Consistent) (hfits : d.address + d.size ≤ addressSpace)
    {numbers : List Nat} (hnumbers : ∀ s ∈ numbers, a.hasSource s = true) (found : List Nat) :
    Leads service (SameTops d) (a.probeSources found numbers) d
      (found.reverse ++ numbers.filter d.hasSource) d := by
  induction numbers generalizing found with
  | nil =>
    rw [List.filter_nil, List.append_nil]
    exact .done found.reverse d
  | cons s rest ih =>
    have hrest := ih fun s' hs' => hnumbers s' (List.mem_cons_of_mem s hs')
    refine (leads_probeSource hd hfits (hnumbers s List.mem_cons_self)).bind ?_
    cases hknown : d.hasSource s with
    | false => simpa [hknown] using hrest found
    | true => simpa [hknown] using hrest (s :: found)

theorem leads_probe (hd : d.Consistent) (hfits : d.address + d.size ≤ addressSpace) (a : Aplic) :
    Leads service (SameTops d) a.probe d (a.sourceNumbers.filter d.hasSource) d := by
  have hsources := leads_probeSources hd hfits (fun s hs => (a.mem_sourceNumbers s).mp hs) []
  rw [List.reverse_nil, List.nil_append] at hsources
  exact hsources.bind (Leads.bind (.perform rfl fun _ => rfl) (.done _ d))

/-- The search finds exactly the sources that both the handle and the domain have. It leaves the
domain as it was, and at no time does a delivery structure report anything else than before. -/
theorem probe_without_trace (hd : d.Reachable) (hfits : d.address + d.size ≤ addressSpace)
    (a : Aplic) :
    ∃ found, a.probe.run service d = (found, d) ∧ found.Pairwise (· < ·) ∧
      (∀ s, s ∈ found ↔ 1 ≤ s ∧ s < min a.sources d.sourceCount) ∧
      ∀ e ∈ a.probe.passes service d, ∀ i,
        (e.readRegister (.idc i .top)).1 = (d.readRegister (.idc i .top)).1 := by
  have hprobe := leads_probe hd.consistent hfits a
  refine ⟨_, hprobe.run, ?_, fun s => ?_, hprobe.passes⟩
  · exact List.Pairwise.filter _ (List.pairwise_lt_range' 1)
  · rw [List.mem_filter, a.mem_sourceNumbers, a.hasSource_iff, d.hasSource_iff]
    omega

/-- The first delivery structure reports an interrupt, also while a handle with more sources than
the domain looks for them. -/
theorem probe_without_trace_sampleAccesses :
    let a : Aplic := ⟨.standard, by decide, by decide⟩
    let d := sample.afterAll sampleAccesses
    d.Reachable ∧ d.address + d.size ≤ addressSpace ∧ d.top 0 ≠ none ∧
      ∃ found, a.probe.run service d = (found, d) ∧ found.Pairwise (· < ·) ∧
        (∀ s, s ∈ found ↔ 1 ≤ s ∧ s < min a.sources d.sourceCount) ∧
        ∀ e ∈ a.probe.passes service d, ∀ i,
          (e.readRegister (.idc i .top)).1 = (d.readRegister (.idc i .top)).1 := by
  intro a d
  have hreachable : d.Reachable := sample_reachable.afterAll _
  have hfits : d.address + d.size ≤ addressSpace := by decide
  exact ⟨hreachable, hfits, by decide, probe_without_trace hreachable hfits a⟩

end EmulatedDomain

end AdvancedInterrupts
