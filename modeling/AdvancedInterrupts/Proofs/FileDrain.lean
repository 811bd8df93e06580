import AdvancedInterrupts.Proofs.DrainRounds
import AdvancedInterrupts.Proofs.InterruptFile

/-!
# Draining an interrupt file

A drain of an interrupt file takes what can be claimed, from the lowest identity
upwards, and nothing can be claimed any more when it returns. Of the backend it
is used only that a claim takes the top interrupt in one step. After the local
set-up the threshold is off and all identities that the driver knows of are
enabled. The set-up writes no enable bit behind these, so an identity that the
driver does not know of is still dispatched if its bit was set before.
-/
namespace AdvancedInterrupts

/-- How a platform answers the driver of its interrupt files. -/
def Platform.files {ι κ σ : Type} {E : Interface} (p : Platform ι κ E σ)
    (reach : (op : FileAccess) → Program E op.Answer) : Service interruptFiles σ :=
  fun op => (reach op).run p.device

section Backend

variable {σ : Type} (files : Service interruptFiles σ) (view : σ → InterruptFile)

/-- The top interrupt of a file is read and claimed in one step. -/
structure ClaimsTop : Prop where
  answer (w : σ) : (files (.swapTop 0) w).1 = (view w).topWord
  after (w : σ) : view (files (.swapTop 0) w).2 = (view w).afterClaim

/-- The registers of a file keep what is written to them, and nothing else that the driver does in a
set-up changes the file. -/
structure KeepsRegisters : Prop where
  write (register : Nat) (value : BitVec 64) (w : σ) :
    view (files (.writeIndirect register value) w).2 = (view w).write register value
  read (register : Nat) (w : σ) : view (files (.readIndirect register) w).2 = view w
  readEnable (word : Nat) (w : σ) :
    (files (.readIndirect (FileRegister.enableWord word)) w).1 = (view w).enable word
  report (notice : Notice) (w : σ) : view (files (.report notice) w).2 = view w

end Backend

namespace InterruptFile

variable {f g : InterruptFile}

/-- The file after its local set-up, with so many words of enable bits. -/
def setUp (f : InterruptFile) (words : Nat) : InterruptFile :=
  { f with
    threshold := 0
    enable := fun word => if word < words then BitVec.allOnes 64 else f.enable word }

theorem write_delivery (value : BitVec 64) : f.write FileRegister.delivery value = f := by
  have hword (word : Nat) : FileRegister.delivery ≠ FileRegister.enableWord word := by
    simp only [FileRegister.delivery, FileRegister.enableWord, FileRegister.enableBase]
    omega
  have hthreshold : FileRegister.delivery ≠ FileRegister.threshold := by decide
  simp only [write, hword, hthreshold, if_false]

theorem write_threshold (value : BitVec 64) :
    f.write FileRegister.threshold value = { f with threshold := value } := by
  have hword (word : Nat) : FileRegister.threshold ≠ FileRegister.enableWord word := by
    simp only [FileRegister.threshold, FileRegister.enableWord, FileRegister.enableBase]
    omega
  simp only [write, hword, if_true, if_false]

theorem write_enableWord (word : Nat) (value : BitVec 64) :
    f.write (FileRegister.enableWord word) value =
      { f with enable := fun x => if x = word then value else f.enable x } := by
  have hword (x : Nat) : FileRegister.enableWord word = FileRegister.enableWord x ↔ x = word := by
    simp only [FileRegister.enableWord]
    omega
  have hthreshold : FileRegister.enableWord word ≠ FileRegister.threshold := by
    simp only [FileRegister.threshold, FileRegister.enableWord, FileRegister.enableBase]
    omega
  simp only [write, hword, hthreshold, if_false]

/-- The file with the enable bit of an identity changed, in a word that is written as a whole. -/
def withEnabled (f : InterruptFile) (on : Bool) (e : Nat) : InterruptFile :=
  let value := f.enable (e / FileRegister.enableBits)
  let mask := BitVec.twoPow 64 (e % FileRegister.enableBits)
  f.write (FileRegister.enableWord (e / FileRegister.enableBits))
    (if on then value ||| mask else value &&& ~~~mask)

@[simp] theorem threshold_withEnabled (f : InterruptFile) (on : Bool) (e : Nat) :
    (f.withEnabled on e).threshold = f.threshold := by
  rw [withEnabled, write_enableWord]

/-- No other identity is enabled or disabled with it. -/
theorem enabled_withEnabled (f : InterruptFile) (on : Bool) (e x : Nat) :
    (f.withEnabled on e).enabled x = if x = e then on else f.enabled x := by
  have hbit : x % FileRegister.enableBits < 64 := Nat.mod_lt x (by decide)
  simp only [withEnabled, write_enableWord, enabled]
  by_cases hword : x / FileRegister.enableBits = e / FileRegister.enableBits
  · rw [if_pos hword, ← hword]
    by_cases hx : x = e
    · subst hx
      cases on <;> simp [hbit]
    · have hne : ¬ x % FileRegister.enableBits = e % FileRegister.enableBits := by
        simp only [FileRegister.enableBits] at hword ⊢
        omega
      cases on <;> simp [hx, hne, hbit]
  · have hx : x ≠ e := by
      rintro rfl
      exact hword rfl
    rw [if_neg hword, if_neg hx]

/-- Whatever was enabled is still enabled, and the threshold is the same. -/
structure Widens (f g : InterruptFile) : Prop where
  threshold : g.threshold = f.threshold
  enabled (e : Nat) (h : f.enabled e = true) : g.enabled e = true

theorem enabled_setUp (f : InterruptFile) (words e : Nat) :
    (f.setUp words).enabled e = true ↔
      e / FileRegister.enableBits < words ∨ f.enabled e = true := by
  have hbit : e % FileRegister.enableBits < 64 := Nat.mod_lt e (by decide)
  simp only [enabled, setUp]
  split
  next hlt => simp only [BitVec.getLsbD_allOnes, hbit, decide_true, hlt, true_or]
  next hnot => simp only [hnot, false_or]

/-- With no threshold, and with the enable bits of the first words set, all identities in these
words wait as soon as they are pending. -/
theorem claimable_of_widens {words : Nat} (h : (f.setUp words).Widens g) (e : Nat) :
    g.claimable e = true ↔ (1 ≤ e ∧ e ≤ maxFileIdentity) ∧ g.pending e = true ∧
      (e / FileRegister.enableBits < words ∨ g.enabled e = true) := by
  have hthreshold : g.threshold = 0 := h.threshold
  have hadmits : g.admits e = true := by
    rw [admits, hthreshold]
    rfl
  have hwords (hlt : e / FileRegister.enableBits < words) : g.enabled e = true :=
    h.enabled e ((f.enabled_setUp words e).mpr (.inl hlt))
  rw [claimable_iff]
  constructor
  · rintro ⟨hrange, hpending, henabled, -⟩
    exact ⟨hrange, hpending, .inr henabled⟩
  · rintro ⟨hrange, hpending, hlt | henabled⟩
    · exact ⟨hrange, hpending, hwords hlt, hadmits⟩
    · exact ⟨hrange, hpending, henabled, hadmits⟩

end InterruptFile

namespace Imsic

variable {σ : Type} {files : Service interruptFiles σ} {view : σ → InterruptFile} (m : Imsic)

/-- The words that the set-up writes are those of the identities that the driver knows of. -/
theorem lt_enableWords_iff (e : Nat) :
    e / FileRegister.enableBits < max m.enableWords 1 ↔ e ≤ m.identities := by
  have hrange := m.identities_range
  simp only [enableWords, FileRegister.enableBits]
  omega

theorem view_forM_writes (h : KeepsRegisters files view) (value : BitVec 64) (words : List Nat)
    (w : σ) :
    view ((words.forM fun word =>
      writeIndirect (FileRegister.enableWord word) value).run files w).2 =
        { view w with enable := fun x => if x ∈ words then value else (view w).enable x } := by
  induction words generalizing w with
  | nil =>
    simp only [List.not_mem_nil, if_false]
    rfl
  | cons word rest ih =>
    change view ((rest.forM fun word => writeIndirect (FileRegister.enableWord word) value :
      Program interruptFiles PUnit).run files ((writeIndirect _ value).run files w).2).2 = _
    have hfirst : view ((writeIndirect (FileRegister.enableWord word) value).run files w).2 = _ :=
      h.write _ value w
    rw [ih, hfirst, InterruptFile.write_enableWord]
    simp only [InterruptFile.mk.injEq, true_and, and_true]
    funext x
    by_cases hx : x = word
    · simp [hx]
    · simp [hx]

/-- The local set-up, whether or not delivery can be turned on. -/
theorem view_setUpLocal (h : KeepsRegisters files view) (w : σ) :
    view (m.setUpLocal.run files w).2 = (view w).setUp (max m.enableWords 1) := by
  have hcheck (value : BitVec 64) (w : σ) :
      view ((checkDelivery value).run files w).2 = view w := by
    unfold checkDelivery
    split
    · rfl
    · exact h.report _ w
  have hdelivery (w : σ) :
      view ((writeIndirect FileRegister.delivery 1).run files w).2 = view w :=
    (h.write _ 1 w).trans (InterruptFile.write_delivery 1)
  have hread (w : σ) : view ((readIndirect FileRegister.delivery).run files w).2 = view w :=
    h.read _ w
  have hthreshold (w : σ) : view ((writeIndirect FileRegister.threshold 0).run files w).2 =
      { view w with threshold := 0 } :=
    (h.write _ 0 w).trans (InterruptFile.write_threshold 0)
  rw [setUpLocal, Program.run_bind, Program.run_bind, Program.run_bind, Program.run_bind,
    view_forM_writes h, hthreshold, hcheck, hread, hdelivery]
  simp only [List.mem_range]
  rfl

/-- Whether an identity is enabled is the only thing that changes in the file. -/
theorem view_setEnabled (h : KeepsRegisters files view) (on : Bool) (e : Nat) (w : σ) :
    view ((m.setEnabled on e).run files w).2 =
      if m.hasIdentity e then (view w).withEnabled on e else view w := by
  unfold setEnabled
  split
  · have hread : ((readIndirect (FileRegister.enablePosition e).1).run files w).1 =
        (view w).enable (e / FileRegister.enableBits) := h.readEnable _ w
    have hkept : view ((readIndirect (FileRegister.enablePosition e).1).run files w).2 = view w :=
      h.read _ w
    have hwrite (value : BitVec 64) (w : σ) :
        view ((writeIndirect (FileRegister.enablePosition e).1 value).run files w).2 =
          (view w).write (FileRegister.enableWord (e / FileRegister.enableBits)) value :=
      h.write _ value w
    simp only [Program.run_bind, hread, hwrite, hkept]
    rfl
  · rfl

/-- Enabling an identity disables none. -/
theorem widens_enable (h : KeepsRegisters files view) (e : Nat) (w : σ) :
    (view w).Widens (view ((m.enable e).run files w).2) := by
  rw [enable, view_setEnabled m h]
  split
  · refine ⟨InterruptFile.threshold_withEnabled _ _ _, fun x hx => ?_⟩
    rw [InterruptFile.enabled_withEnabled]
    split
    · rfl
    · exact hx
  · exact ⟨rfl, fun _ he => he⟩

end Imsic

namespace Machine

variable {ι κ σ : Type} {E : Interface} [DecidableEq ι] (p : Platform ι κ E σ)
  {m : Machine ι κ E σ} {c : ι} {hart : Nat} {handle : Imsic}
  {reach : (op : FileAccess) → Program E op.Answer} {view : σ → InterruptFile}

omit [DecidableEq ι] in
/-- A claim takes the top interrupt of the file, whichever hart it is made for. -/
theorem claimed_file (hc : p.controller c = handle.controller.expand reach)
    (htop : ClaimsTop (p.files reach) view) (hart : Nat) (w : σ) :
    (claimed p c hart w).1 = Claim.ofFileWord ((view w).topWord.setWidth 32) ∧
      view (claimed p c hart w).2 = (view w).afterClaim := by
  have hclaim : claimed p c hart w = Imsic.claimLocal.run (p.files reach) w := by
    rw [claimed, hc]
    exact Program.run_expand reach p.device Imsic.claimLocal w
  rw [hclaim, Imsic.claimLocal, Program.run_ask, Program.run_done]
  exact ⟨by rw [htop.answer], htop.after w⟩

/-- A drain that is left alone ends, and has claimed everything that could be claimed. -/
theorem AtRound.exists_drained (h : AtRound p c hart m)
    (hc : p.controller c = handle.controller.expand reach)
    (htop : ClaimsTop (p.files reach) view) (hret : Returns p m) (hkeep : KeepsView p view m) :
    ∃ n, (run p n m).stack = [] ∧
      InterruptFile.Drained (dispatched p n m) (view m.world) (view (run p n m).world) := by
  -- Each round takes one of the identities that wait, so there are no more rounds than those.
  induction hcount : (view m.world).waiting.card using Nat.strong_induction_on generalizing m with
  | _ count ih =>
    obtain ⟨hclaim, hafter⟩ := claimed_file p hc htop hart m.world
    have hspurious : (claimed p c hart m.world).1.isSpurious = (view m.world).top?.isNone := by
      rw [hclaim, InterruptFile.isSpurious_topWord]
    cases hx : (view m.world).top? with
    | none =>
      rw [hx] at hspurious
      obtain ⟨n, hn, hlist⟩ := h.exists_run_spurious p hspurious
      refine ⟨n, by rw [hn], ?_⟩
      rw [hlist, hn]
      show InterruptFile.Drained [] (view m.world) (view (claimed p c hart m.world).2)
      rw [hafter, InterruptFile.afterClaim_of_none hx]
      exact .nil hx
    | some e =>
      rw [hx] at hspurious
      obtain ⟨a, -, hround, hlist, hview⟩ := h.exists_next p hspurious hret
      have hnext : view (run p a m).world = (view m.world).withdraw e := by
        rw [hview view hkeep, hafter, InterruptFile.afterClaim_of_some hx]
      have hclaimable := (InterruptFile.top?_eq_some_iff.mp hx).1
      have hless := InterruptFile.card_waiting_withdraw hclaimable
      rw [← hnext] at hless
      obtain ⟨n, hstack, hdrained⟩ :=
        ih _ (by omega) hround (hret.run p a) (hkeep.run p a) rfl
      have hidentity : (claimed p c hart m.world).1.identity = e := by
        rw [hclaim, InterruptFile.identity_topWord, hx, Option.getD_some]
      rw [hnext] at hdrained
      refine ⟨a + n, by rw [run_add]; exact hstack, ?_⟩
      rw [dispatched_add, hlist, hidentity, run_add]
      exact .cons hx hdrained

/-- When a drain has returned, nothing waits in the file any more. -/
theorem AtRound.not_claimable (h : AtRound p c hart m)
    (hc : p.controller c = handle.controller.expand reach)
    (htop : ClaimsTop (p.files reach) view) {n : Nat} (hn : (run p n m).stack = []) (e : Nat) :
    (view (run p n m).world).claimable e = false := by
  obtain ⟨k, -, hspurious, hworld⟩ := h.exists_last p hn
  obtain ⟨hclaim, hafter⟩ := claimed_file p hc htop hart (run p k m).world
  rw [hclaim, InterruptFile.isSpurious_topWord, Option.isNone_iff_eq_none] at hspurious
  rw [hworld, hafter, InterruptFile.afterClaim_of_none hspurious]
  exact InterruptFile.top?_eq_none_iff.mp hspurious e

/-- A drain of an interrupt file, whose backend takes the top interrupt in one step.
- With handlers that return and leave the file alone, it returns. It has then dispatched exactly the
  identities that could be claimed when it started, in strictly ascending order, and these are no
  longer pending; nothing else has changed in the file.
- Whatever handlers do, nothing can be claimed when it returns.
- Handlers return if they call nothing, and leave the file alone if their requests do.
- The local set-up leaves what is pending, switches the threshold off, and enables all identities
  that the driver knows of. As long as nothing is disabled and no threshold is set, and enabling
  an identity does neither, every pending one of them can be claimed. Of the other identities it
  leaves the enable bits, so the ones that can be claimed are those that had been enabled. -/
theorem drain_of_file (c : ι) (hart : Nat) (handle : Imsic)
    (reach : (op : FileAccess) → Program E op.Answer) (view : σ → InterruptFile)
    (hc : p.controller c = handle.controller.expand reach)
    (htop : ClaimsTop (p.files reach) view) (w : σ) (hs : HandlerTable κ) (t : List (ι × Nat)) :
    let d := start p (.drain c hart) w hs t []
    (Returns p d → KeepsView p view d → ∃ n, (run p n d).stack = [] ∧
      InterruptFile.Drained (dispatched p n d) (view w) (view (run p n d).world)) ∧
    (∀ n, (run p n d).stack = [] → ∀ e, (view (run p n d).world).claimable e = false) ∧
    ((∀ h s, (p.behaviour h s).Asks Request.CallFree) → Returns p d) ∧
    ((∀ h s, (p.behaviour h s).Asks (Request.Leaves p view)) →
      (∀ h s w, view (p.started h s w) = view w) →
      (∀ s w, view (p.report (.unhandled s) w) = view w) → KeepsView p view d) ∧
    (KeepsRegisters (p.files reach) view → ∀ w₀,
      let ready := view (handle.setUpLocal.run (p.files reach) w₀).2
      (ready.pending = (view w₀).pending ∧ ready.threshold = 0 ∧
        ∀ e, ready.enabled e = true ↔ e ≤ handle.identities ∨ (view w₀).enabled e = true) ∧
      (∀ e w, (view w).Widens (view ((handle.enable e).run (p.files reach) w).2)) ∧
      (ready.Widens (view w) → ∀ e, (view w).claimable e = true ↔
        (1 ≤ e ∧ e ≤ maxFileIdentity) ∧ (view w).pending e = true ∧
          (e ≤ handle.identities ∨ (view w).enabled e = true))) := by
  have hround : AtRound p c hart (start p (.drain c hart) w hs t []) := rfl
  refine ⟨hround.exists_drained p hc htop, fun n hn e => hround.not_claimable p hc htop hn e,
    fun hfree => returns_of_callFree p hfree _, hround.keepsView p, fun hkeeps w₀ => ?_⟩
  rw [handle.view_setUpLocal hkeeps]
  refine ⟨⟨rfl, rfl, fun e => ?_⟩, handle.widens_enable hkeeps, fun hwidens e => ?_⟩
  · rw [InterruptFile.enabled_setUp, handle.lt_enableWords_iff]
  · rw [InterruptFile.claimable_of_widens hwidens, handle.lt_enableWords_iff]

/-- What an indirect register of a file reads as. -/
def readFile (f : InterruptFile) (register : Nat) : BitVec 64 :=
  if register = FileRegister.threshold then f.threshold
  else f.enable ((register - FileRegister.enableBase) / 2)

/-- The driver on a platform that has nothing but files. -/
def onFile (op : FileAccess) : Program interruptFiles op.Answer := .ask op .done

/-- A platform that has nothing but one file, and a single handler that does nothing. -/
def filePlatform (handle : Imsic) : Platform Unit Unit interruptFiles InterruptFile where
  controller _ := handle.controller.expand onFile
  behaviour _ _ := pure ()
  device
    | .readIndirect register, f => (readFile f register, f)
    | .writeIndirect register value, f => ((), f.write register value)
    | .swapTop _, f => (f.topWord, f.afterClaim)
    | .writeMessage _ _, f => ((), f)
    | .currentHart, f => (0, f)
    | .report _, f => ((), f)
  csr
    | .scause, f => (0, f)
    | .stopi, f => (0, f)
    | .clearSoftPending, f => ((), f)
    | .setExternalEnabled _, f => ((), f)
  report _ f := f
  started _ _ f := f

theorem claimsTop_filePlatform (handle : Imsic) :
    ClaimsTop ((filePlatform handle).files onFile) id := by
  have hswap (f : InterruptFile) :
      (filePlatform handle).files onFile (.swapTop 0) f = (f.topWord, f.afterClaim) := by
    rw [Platform.files, onFile, Program.run_ask, Program.run_done, filePlatform]
  exact ⟨fun f => by rw [hswap, id], fun f => by rw [hswap, id, id]⟩

theorem keepsRegisters_filePlatform (handle : Imsic) :
    KeepsRegisters ((filePlatform handle).files onFile) id where
  write _ _ _ := rfl
  read _ _ := rfl
  report _ _ := rfl
  readEnable word f := by
    have hregister : FileRegister.enableWord word ≠ FileRegister.threshold := by
      simp only [FileRegister.threshold, FileRegister.enableWord, FileRegister.enableBase]
      omega
    have hword : (FileRegister.enableWord word - FileRegister.enableBase) / 2 = word := by
      simp only [FileRegister.enableWord]
      omega
    show readFile f (FileRegister.enableWord word) = f.enable word
    rw [readFile, if_neg hregister, hword]

/-- A driver that knows of 63 identities. -/
def smallFiles : Imsic := ⟨⟨1, minFileStride, 63, false⟩, by decide, by decide⟩

/-- A file in which identities 5 and 64 are pending, and 64 is enabled. -/
def leftoverFile : InterruptFile where
  threshold := 0
  enable word := if word = 1 then 1 else 0
  pending e := e == 5 || e == 64

/-- The file after the local set-up by this driver. -/
def leftoverReady : InterruptFile :=
  (smallFiles.setUpLocal.run ((filePlatform smallFiles).files onFile) leftoverFile).2

/-- A drain after the set-up dispatches both identities. -/
theorem drain_of_file_leftoverFile :
    let d := start (filePlatform smallFiles) (.drain () 0) leftoverReady (.fill _ (some ())) [] []
    ∃ n, (run (filePlatform smallFiles) n d).stack = [] ∧
      ∀ e, e ∈ dispatched (filePlatform smallFiles) n d ↔ e = 5 ∨ e = 64 := by
  intro d
  obtain ⟨hdrain, -, hreturns, hkeeps, hsetUp⟩ := drain_of_file (filePlatform smallFiles) () 0
    smallFiles onFile id rfl (claimsTop_filePlatform _) leftoverReady (.fill _ (some ())) []
  obtain ⟨⟨hpending, -, henabled⟩, -, hclaimable⟩ :=
    hsetUp (keepsRegisters_filePlatform smallFiles) leftoverFile
  obtain ⟨n, hstack, hdrained⟩ := hdrain (hreturns fun _ _ => trivial)
    (hkeeps (fun _ _ => trivial) (fun _ _ _ => rfl) fun _ _ => rfl)
  refine ⟨n, hstack, fun e => ?_⟩
  have hleftover : leftoverReady.pending e = (e == 5 || e == 64) := congrFun hpending e
  rw [hdrained.mem_iff]
  refine (hclaimable ⟨rfl, fun _ he => he⟩ e).trans ?_
  rw [id, hleftover, Bool.or_eq_true, beq_iff_eq, beq_iff_eq]
  constructor
  · rintro ⟨-, hwaits, -⟩
    exact hwaits
  · rintro (rfl | rfl)
    · exact ⟨by decide, .inl rfl, .inl (by decide)⟩
    · exact ⟨by decide, .inr rfl, .inr ((henabled 64).mpr (.inr (by decide)))⟩

/-- A drain after the local set-up dispatches the pending identities that the driver knows of, and
no others. -/
def DrainsKnown (c : ι) (hart : Nat) (handle : Imsic)
    (reach : (op : FileAccess) → Program E op.Answer) (view : σ → InterruptFile) : Prop :=
  ∀ w₀ hs t n,
    let ready := (handle.setUpLocal.run (p.files reach) w₀).2
    let d := start p (.drain c hart) ready hs t []
    (run p n d).stack = [] → ∀ e, e ∈ dispatched p n d ↔
      (1 ≤ e ∧ e ≤ handle.identities) ∧ (view ready).pending e = true

/-- An identity that the driver does not know of is dispatched, as its enable bit was set before,
by a backend on which the driver can rely. -/
theorem not_drainsKnown_leftoverFile :
    ClaimsTop ((filePlatform smallFiles).files onFile) id ∧
      KeepsRegisters ((filePlatform smallFiles).files onFile) id ∧
      ¬ DrainsKnown (filePlatform smallFiles) () 0 smallFiles onFile id := by
  refine ⟨claimsTop_filePlatform _, keepsRegisters_filePlatform _, fun h => ?_⟩
  have hround : AtRound (filePlatform smallFiles) () 0
      (start (filePlatform smallFiles) (.drain () 0) leftoverReady (.fill _ none) [] []) := rfl
  obtain ⟨n, hstack, hdrained⟩ := hround.exists_drained (filePlatform smallFiles) rfl
    (claimsTop_filePlatform smallFiles)
    (returns_of_callFree (filePlatform smallFiles) (fun _ _ => trivial) _)
    (hround.keepsView (filePlatform smallFiles) (fun _ _ => trivial) (fun _ _ _ => rfl)
      fun _ _ => rfl)
  have hclaimable : leftoverReady.claimable 64 = true := by
    have hready : leftoverReady = leftoverFile.setUp (max smallFiles.enableWords 1) :=
      smallFiles.view_setUpLocal (keepsRegisters_filePlatform _) leftoverFile
    rw [hready]
    decide
  have hknown := (h leftoverFile (.fill _ none) [] n hstack 64).mp
    ((hdrained.mem_iff 64).mpr hclaimable)
  have hle : 64 ≤ 63 := hknown.1.2
  omega

end Machine

end AdvancedInterrupts
