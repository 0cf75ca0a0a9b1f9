import Pyrite.Flash.Theorems.Device

namespace Pyrite

/-! # The driver's calls against the flash

One triple per call of `flash_spi.c`: what it returns and what it leaves the chip as, on any bus
that answers as the flash model does. -/

namespace Chip

theorem status_mod (c : Chip) : c.status % 256 = c.status := by
  unfold status; split <;> split <;> rfl

-- WIP reads set exactly while the chip is busy, and WEL as the latch holds it.
theorem status_and_wip (c : Chip) : c.status &&& 0x01 ≠ 0 ↔ c.busy ≠ 0 := by
  unfold status; by_cases h : c.busy = 0 <;> cases c.wel <;> simp [h]

theorem status_and_wel (c : Chip) : c.status &&& 0x02 = 0 ↔ c.wel = false := by
  unfold status; by_cases h : c.busy = 0 <;> cases c.wel <;> simp [h]

end Chip

-- The ID a part of `2^k` bytes answers decodes to its size.
theorem idSize_vendorId (v : Vendor) {k : Nat} (hk : 20 ≤ k ∧ k ≤ 32) :
    idSize ((v.id k).getD 0 0 % 256) ((v.id k).getD 2 0 % 256) = some (2 ^ k) := by
  cases v
  · show some (sizeShl _) = _
    obtain ⟨t, rfl⟩ : ∃ t, k = t + 6 := ⟨k - 6, by omega⟩
    have hb : (t / 10 * 16 + t % 10) % 256 = t / 10 * 16 + t % 10 := Nat.mod_eq_of_lt (by omega)
    have hlo : (t / 10 * 16 + t % 10) &&& 0xf = t % 10 := by
      rw [show (0xf : Nat) = 2 ^ 4 - 1 from rfl, Nat.and_pow_two_sub_one_eq_mod]; omega
    have hhi : ((t / 10 * 16 + t % 10) >>> 4) &&& 0xf = t / 10 := by
      rw [show (0xf : Nat) = 2 ^ 4 - 1 from rfl, Nat.and_pow_two_sub_one_eq_mod, Nat.shiftRight_eq_div_pow]; omega
    simp only [Vendor.id, List.getD_cons_succ, List.getD_cons_zero, Nat.add_sub_cancel, hb, hlo, hhi, sizeShl]
    congr 2
    omega
  · show some (sizeShl _) = _
    simp only [Vendor.id, List.getD_cons_succ, List.getD_cons_zero, sizeShl]
    congr 2
    omega

namespace Triple

variable {c : Chip} {α β : Type}

-- A program that leaves `c₁` whatever it returns, followed by one from `c₁`.
theorem bind_const {x : Ctrl α} {g : α → Ctrl β} {c₁ : Chip} {Q : β → Chip → Prop}
    (hx : Triple c x fun _ c' => c' = c₁) (hg : ∀ a, Triple c₁ (g a) Q) : Triple c (x >>= g) Q :=
  hx.bind fun a _ hc => hc ▸ hg a

theorem deselect (c : Chip) : Triple c spiFlashDeselect fun _ c' => c' = c :=
  fun _ _ _ _ => ⟨(), _, c, rfl, (c.run_frameWrites []).trans (by rw [List.flatMap_nil, Chip.execute_nil]), rfl⟩

-- A status read answers the status and is one step of an operation in progress.
theorem statusFrame (c : Chip) :
    Triple c ((·.headD 0) <$> frame [.tx spiCmdReadStatusReg .str, .rx .str]) fun st c' =>
      st = c.status ∧ c' = if c.busy = 0 then c else { c with busy := c.busy - 1 } :=
  map (frame_send (Q := fun vs c' => vs = [c.status] ∧ c' = if c.busy = 0 then c else { c with busy := c.busy - 1 })
      [.tx spiCmdReadStatusReg .str] rfl (Or.inl rfl) 0 1
      (Chip.lanes_readStatus c) ⟨by simp [Chip.status_mod], Chip.execute_readStatus c _⟩)
    fun _ _ ⟨hv, hc⟩ => ⟨by rw [hv]; rfl, hc⟩

theorem readStatusReg (c : Chip) (hb : c.busy = 0) :
    Triple c (spiFlashReadStatusReg .str) fun st c' => st = c.status ∧ c' = c := by
  rw [spiFlashReadStatusReg, spiFlashReadReg8_eq]
  exact (statusFrame c).mono fun _ _ ⟨hst, hc⟩ => ⟨hst, by rw [hc, if_pos hb]⟩

-- `n` status reads are enough for a chip that stays busy for fewer: the wait ends with it idle.
theorem busyWait (n : Nat) : ∀ c : Chip, c.busy < n →
    Triple c (Pyrite.waitIdleFor n) fun _ c' => c' = { c with busy := 0 } := by
  induction n with
  | zero => exact fun c h => absurd h (Nat.not_lt_zero _)
  | succ n ih =>
    intro c h
    rw [waitIdleFor_succ]
    refine (statusFrame c).bind fun st c' ⟨hst, hc⟩ => ?_
    subst hst hc
    by_cases hb : c.busy = 0
    · -- WIP reads clear
      rw [if_pos hb, if_neg fun h => c.status_and_wip.mp h hb]
      exact pure' (by rw [← hb])
    · -- WIP reads set: one step of the operation, and the rest of the wait
      rw [if_neg hb, if_pos (c.status_and_wip.mpr hb)]
      exact (ih _ (by simp only; omega)).mono fun _ _ h => h

-- The busy-wait of `spi_flash_write` and `spi_flash_erase` on a bus that polls more often than the
-- chip stays busy.
theorem waitIdle (c : Chip) (hb : c.busy ≤ c.tBusy) : Triple c Pyrite.waitIdle fun _ c' => c' = { c with busy := 0 } :=
  fun bus h hp => busyWait bus.polls c (by omega) bus h hp

-- A command the chip neither answers nor acts on.
theorem quiet {cmd : Nat} (hl : cmd % 256 ∉ [0x05, 0x9F, 0x03, 0x13, 0xEB, 0xEC])
    (he : cmd % 256 ∉ [0x05, 0x06, 0x99, 0xC5, 0x81, 0x01, 0x02, 0x32, 0x20, 0xD8]) {rest : List Op}
    (hs : ∀ o ∈ rest, o.Sdr) : Triple c (frame (.tx cmd .str :: rest)) fun _ c' => c' = c :=
  frame_listen [.tx cmd .str] rest rfl hs (fun _ => 0) (fun x n => Chip.lanes_tx_of_not_mem hl c x n)
    (Chip.execute_tx_of_not_mem he c _)

theorem readReg8_quiet {cmd : Nat} (hl : cmd % 256 ∉ [0x05, 0x9F, 0x03, 0x13, 0xEB, 0xEC])
    (he : cmd % 256 ∉ [0x05, 0x06, 0x99, 0xC5, 0x81, 0x01, 0x02, 0x32, 0x20, 0xD8]) :
    Triple c (spiFlashReadReg8 cmd .str) fun _ c' => c' = c := by
  rw [spiFlashReadReg8_eq]
  exact map (quiet hl he (by decide)) fun _ _ h => h

theorem reset (c : Chip) (hb : c.busy = 0) : Triple c (spiFlashReset .str) fun _ c' =>
    c' = { c with wel := false, ext := 0, dummy := Chip.cfgDummy c.vendor c.nvCfg } := by
  rw [spiFlashReset_eq]
  exact bind_const (frame_tx rfl (Chip.execute_nil c)) fun _ => bind_const (quiet (by decide) (by decide) (by decide)) fun _ =>
    bind_const (frame_tx rfl (Chip.execute_resetMemory hb _)) fun _ => pure' rfl

theorem readNvCfgReg (c : Chip) : Triple c (spiFlashReadNvCfgReg .str) fun _ c' => c' = c := by
  rw [spiFlashReadNvCfgReg_eq]
  exact map (quiet (by decide) (by decide) (by decide)) fun _ _ h => h

theorem readSectorProtectionReg (c : Chip) : Triple c (spiFlashReadSectorProtectionReg .str) fun _ c' => c' = c := by
  rw [spiFlashReadSectorProtectionReg_eq]
  exact map (quiet (by decide) (by decide) (by decide)) fun _ _ h => h

theorem writeVolatileConfigReg (c : Chip) (hb : c.busy = 0) (hv : c.vendor = .micron) (v : Nat) :
    Triple c (spiFlashWriteVolatileConfigReg v .str) fun _ c' => c' = { c with dummy := Chip.micronDummy (v % 256) } := by
  rw [spiFlashWriteVolatileConfigReg, spiFlashWriteReg_eq]
  exact bind_const (frame_tx rfl (Chip.execute_writeVolatileConfig hb hv v [])) fun _ => pure' rfl

theorem writeStatusCfgReg (c : Chip) (hb : c.busy = 0) (hv : c.vendor = .macronix) (st cfg : Nat) :
    Triple c (spiMxicFlashWriteStatusCfgReg st cfg .str) fun _ c' =>
      c' = { c with qe := st % 256 &&& 0x40 != 0, dummy := Chip.macronixDummy (cfg % 256) } := by
  rw [spiMxicFlashWriteStatusCfgReg, spiFlashWriteReg_eq]
  exact bind_const (frame_tx rfl (Chip.execute_writeStatusCfg hb hv st cfg [])) fun _ => pure' rfl

/-! ### `spi_flash_init` -/

-- The vendor part: register reads the chip does not answer, then on a quad-wired part the
-- configuration write that selects the dummy clocks the device records and, on a Macronix part,
-- sets QE.
theorem initVendor_micron (c : Chip) (hb : c.busy = 0) (hv : c.vendor = .micron) (dev : FlashDevice) :
    Triple c (spiFlashInitVendor 0x20 dev) fun d c' =>
      if dev.dataWidth = 4 then
        d = { dev with bulkProtocol := .quadStr, readDummyCycles := 10 } ∧ c' = { c with dummy := 10 }
      else d = dev ∧ c' = c := by
  unfold spiFlashInitVendor
  refine bind_const (readReg8_quiet (by decide) (by decide)) fun _ => bind_const (readNvCfgReg c) fun _ =>
    bind_const (readReg8_quiet (by decide) (by decide)) fun _ =>
    bind_const (readReg8_quiet (by decide) (by decide)) fun _ =>
    bind_const (readReg8_quiet (by decide) (by decide)) fun _ =>
    bind_const (readSectorProtectionReg c) fun _ => ?_
  split
  · exact bind_const (writeVolatileConfigReg c hb hv 0xFB) fun _ => pure' ⟨rfl, rfl⟩
  · exact pure' ⟨rfl, rfl⟩

theorem initVendor_macronix (c : Chip) (hb : c.busy = 0) (hv : c.vendor = .macronix) (dev : FlashDevice) :
    Triple c (spiFlashInitVendor 0xC2 dev) fun d c' =>
      if dev.dataWidth = 4 then
        d = { dev with bulkProtocol := .quadStr, readDummyCycles := 6 } ∧ c' = { c with qe := true, dummy := 6 }
      else d = dev ∧ c' = c := by
  unfold spiFlashInitVendor
  refine bind_const (readReg8_quiet (by decide) (by decide)) fun _ =>
    bind_const (readSectorProtectionReg c) fun _ => bind_const (readReg8_quiet (by decide) (by decide)) fun _ => ?_
  split
  · exact bind_const (writeStatusCfgReg c hb hv 0x40 0x07) fun _ => pure' ⟨rfl, rfl⟩
  · exact pure' ⟨rfl, rfl⟩

theorem readId (c : Chip) (hb : c.busy = 0) :
    Triple c (frame [.tx spiCmdReadId .str, .rx .str, .rx .str, .rx .str]) fun ids c' =>
      ids = (List.range 3).map (fun j => (c.vendor.id c.k).getD j 0 % 256) ∧ c' = c :=
  frame_send [.tx spiCmdReadId .str] rfl (Or.inl rfl) 0 3 (Chip.lanes_readId hb)
    ⟨rfl, Chip.execute_tx_of_not_mem (by decide) c _⟩

-- Once the ID names a known part of a known size: a status read, the vendor part and a deselect.
theorem configure (c : Chip) (hb : c.busy = 0) (dev : FlashDevice) {mfrId cap size : Nat} (hm : ¬(mfrId = 0 ∨ mfrId = 0xff))
    (hs : idSize mfrId cap = some size) {Q : Int × FlashDevice → Chip → Prop}
    (hv : Triple c (spiFlashInitVendor mfrId
      { dev with size, protocol := .str, bulkProtocol := .str, readDummyCycles := 0,
                 writeBufferSize := spiPageSize, eraseBlockSize := spiSubsectorSize })
      fun d c' => Q (0, d) c') :
    Triple c (spiFlashInit.configure dev mfrId cap) Q := by
  rw [spiFlashInit.configure, if_neg hm, hs]
  exact bind_const ((readStatusReg c hb).mono fun _ _ h => h.2) fun _ =>
    hv.bind fun d c' hq => bind_const (deselect c') fun _ => pure' hq

-- `spi_flash_init` on a part at power-on, whatever its nonvolatile configuration: the device gets
-- the size the ID names and, on a quad-wired part, the dummy clocks the configuration write
-- selected on the chip, which has quad enabled.
theorem init (v : Vendor) {k : Nat} (hk : 20 ≤ k ∧ k ≤ 32) (w : Int) (mem : Nat → Nat) (cfg : Nat) (qe : Bool)
    (t : Nat) :
    Triple (Chip.init v k mem cfg qe t) (spiFlashInit (FlashDevice.zero w)) fun r c' =>
      r.1 = 0 ∧ r.2.size = 2 ^ k ∧ r.2.dataWidth = w ∧
      (r.2.dataProto = .quadStr → r.2.readDummyCycles.toNat = c'.dummy ∧ c'.qe = true) ∧ c'.k = k ∧
      c'.mem = mem ∧ c'.ext = 0 ∧ c'.busy = 0 := by
  rw [spiFlashInit_eq]
  refine bind_const (reset _ rfl) fun _ => (readId _ rfl).bind fun ids c' ⟨hids, hc⟩ => ?_
  subst hids hc
  have hm : ¬((v.id k).getD 0 0 % 256 = 0 ∨ (v.id k).getD 0 0 % 256 = 0xff) := by
    cases v <;> simp only [Vendor.id, List.getD_cons_zero] <;> decide
  refine configure _ rfl _ hm (idSize_vendorId v hk) ?_
  have hq : ∀ d : FlashDevice, ¬d.dataWidth = 4 → d.dataProto ≠ .quadStr := fun d hd => by
    simp [FlashDevice.dataProto, hd]
  cases v
  · refine (initVendor_micron _ rfl rfl _).mono fun d c' h => ?_
    split at h <;> obtain ⟨rfl, rfl⟩ := h
    exacts [⟨rfl, rfl, rfl, fun _ => ⟨rfl, rfl⟩, rfl, rfl, rfl, rfl⟩,
      ⟨rfl, rfl, rfl, fun h => absurd h (hq _ ‹_›), rfl, rfl, rfl, rfl⟩]
  · refine (initVendor_macronix _ rfl rfl _).mono fun d c' h => ?_
    split at h <;> obtain ⟨rfl, rfl⟩ := h
    exacts [⟨rfl, rfl, rfl, fun _ => ⟨rfl, rfl⟩, rfl, rfl, rfl, rfl⟩,
      ⟨rfl, rfl, rfl, fun h => absurd h (hq _ ‹_›), rfl, rfl, rfl, rfl⟩]

-- `flash_open_spi` with a register and memory for the device opens it.
theorem openSpi (v : Vendor) {k : Nat} (hk : 20 ≤ k ∧ k ≤ 32) (w : Int) (mem : Nat → Nat) (cfg : Nat) (qe : Bool)
    (t : Nat) :
    Triple (Chip.init v k mem cfg qe t) (flashOpenSpi w true true) fun r c' => ∃ dev, r = some dev ∧
      dev.size = 2 ^ k ∧ dev.dataWidth = w ∧
      (dev.dataProto = .quadStr → dev.readDummyCycles.toNat = c'.dummy ∧ c'.qe = true) ∧
      c'.k = k ∧ c'.mem = mem ∧ c'.ext = 0 ∧ c'.busy = 0 := by
  unfold flashOpenSpi
  exact (init v hk w mem cfg qe t).bind fun r c' ⟨h0, h⟩ => by
    obtain ⟨ret, dev⟩ := r
    obtain rfl : ret = 0 := h0
    exact pure' ⟨dev, rfl, h⟩

-- The frames of one page or block after its extended address: write enable, which the idle chip
-- takes, the status read that sees WEL set, then the command frame and the busy-wait, which ends
-- with the chip idle again.
theorem commandFrames (c : Chip) (hb : c.busy = 0) {ops : List Op} (htx : ops.all (·.isTx)) {k : Ctrl Int}
    {Q : Int → Chip → Prop}
    (hk : Triple { ({ c with wel := true } : Chip).execute (ops.flatMap Op.samples) with busy := 0 } k Q) :
    Triple c (do
      let _ ← frame [.tx spiCmdWriteEnable .str]
      let st ← (·.headD 0) <$> frame [.tx spiCmdReadStatusReg .str, .rx .str]
      if st &&& 0x02 = 0 then do
        let _ ← frame []
        pure (-1)
      else do
        let _ ← frame ops
        Pyrite.waitIdle
        k) Q := by
  refine bind_const (frame_tx rfl (Chip.execute_writeEnable hb [])) fun _ =>
    (statusFrame _).bind fun st c' ⟨hst, hc⟩ => ?_
  have hwel : ¬(({ c with wel := true } : Chip).status &&& 0x02 = 0) := by simp [Chip.status_and_wel]
  rw [hst, hc, if_pos hb, if_neg hwel]
  have hbusy : (({ c with wel := true } : Chip).execute (ops.flatMap Op.samples)).busy ≤
      (({ c with wel := true } : Chip).execute (ops.flatMap Op.samples)).tBusy :=
    (Chip.tBusy_execute _ _).symm ▸ Chip.busy_execute_le _ (by simp only [hb, Nat.zero_le]) _
  exact bind_const (frame_tx htx rfl) fun _ => bind_const (waitIdle _ hbusy) fun _ => hk

end Triple

end Pyrite
