import Pyrite.Flash.Frame

namespace Pyrite

-- The tiling b₀ = addr, bᵢ₊₁ = bᵢ + sᵢ of an erase range with `rem` bytes left at bᵢ: a 64 KiB block
-- where bᵢ is 64 KiB aligned and 64 KiB remain, a 4 KiB block otherwise.
def eraseTiles (b rem : Nat) : List (Nat × Nat) :=
  if rem = 0 then []
  else
    let s := if b % 0x10000 = 0 ∧ rem ≥ 0x10000 then 0x10000 else 0x1000
    (b, s) :: eraseTiles (b + s) (rem - s)
termination_by rem
decreasing_by all_goals split <;> omega

-- The frames an erase over `tiles` is meant to emit: per block the extended address on parts above
-- 16 MiB, write enable, a status read, and while WEL reads set the erase command and busy-wait;
-- after the last block a deselect and `last`.
def eraseFrames (dev : FlashDevice) (last : Int) : List (Nat × Nat) → Ctrl Int
  | [] => do
    let _ ← frame []
    pure last
  | (b, s) :: ts => do
    if dev.size > 0x1000000 then
      let _ ← frame [.tx spiCmdWriteExtAddrReg .str, .tx ((b >>> 24) % 256) .str]
    let _ ← frame [.tx spiCmdWriteEnable .str]
    let st ← (·.headD 0) <$> frame [.tx spiCmdReadStatusReg .str, .rx .str]
    if st &&& 0x02 = 0 then do
      let _ ← frame []
      pure (-1)
    else do
      let cmd := if s = 0x10000 then spiCmdSectorErase else spiCmd4kbSubsectorErase
      let _ ← frame (.tx cmd .str :: addrOps b .str)
      waitIdle
      eraseFrames dev last ts

theorem eraseTiles_zero (b : Nat) : eraseTiles b 0 = [] := by
  rw [eraseTiles]; rfl

theorem eraseTiles_pos {rem : Nat} (h : rem ≠ 0) (b : Nat) :
    eraseTiles b rem =
      let s := if b % 0x10000 = 0 ∧ rem ≥ 0x10000 then 0x10000 else 0x1000
      (b, s) :: eraseTiles (b + s) (rem - s) := by
  rw [eraseTiles, if_neg h]

theorem eraseBlockSizeFor_sizeWrap (a len : Nat) : eraseBlockSizeFor (sizeWrap a) len = eraseBlockSizeFor a len := by
  simp only [eraseBlockSizeFor, spiSectorSize, spiSubsectorSize,
    show (0x10000 - 1 : Nat) = 2 ^ 16 - 1 from rfl, show (0x1000 - 1 : Nat) = 2 ^ 12 - 1 from rfl,
    Nat.and_pow_two_sub_one_eq_mod, sizeWrap_mod (k := 16) (by omega), sizeWrap_mod (k := 12) (by omega)]

-- The loop reads its address only through its low 32 bits, so `size_t` wrap-around is invisible.
theorem spiFlashErase_sizeWrap (dev : FlashDevice) (a len : Nat) :
    spiFlashErase dev (sizeWrap a) len = spiFlashErase dev a len := by
  rw [spiFlashErase, spiFlashErase]
  simp only [eraseBlockSizeFor_sizeWrap, extByte_sizeWrap, spiFlashWriteAddr_sizeWrap, sizeWrap_add_sizeWrap]

-- What the tiling of [addr, addr + len) is for: its blocks add up to the range, lie inside it, are
-- 4 KiB or 64 KiB blocks aligned to their size, and every aligned 64 KiB block of the range is one
-- of them.
structure EraseTiling (addr len : Nat) (tiles : List (Nat × Nat)) : Prop where
  sum : (tiles.map Prod.snd).sum = len
  inside : ∀ t ∈ tiles, addr ≤ t.1 ∧ t.1 + t.2 ≤ addr + len
  aligned : ∀ t ∈ tiles, (t.2 = 0x1000 ∨ t.2 = 0x10000) ∧ t.1 % t.2 = 0
  sectors : ∀ B, B % 0x10000 = 0 → addr ≤ B → B + 0x10000 ≤ addr + len → (B, 0x10000) ∈ tiles

theorem eraseTiling_nil (addr : Nat) : EraseTiling addr 0 [] :=
  ⟨rfl, by simp, by simp, fun _ _ h h' => absurd h' (by omega)⟩

theorem EraseTiling.cons {addr len s : Nat} {ts : List (Nat × Nat)} (hs : s ≤ len)
    (hal : (s = 0x1000 ∨ s = 0x10000) ∧ addr % s = 0)
    (hsec : ∀ B, B % 0x10000 = 0 → addr ≤ B → B < addr + s → B + 0x10000 ≤ addr + len → B = addr ∧ s = 0x10000)
    (h : EraseTiling (addr + s) (len - s) ts) : EraseTiling addr len ((addr, s) :: ts) where
  sum := by simp [h.sum]; omega
  inside t ht := by
    rcases List.mem_cons.mp ht with rfl | ht
    · exact ⟨le_refl _, by omega⟩
    · have := h.inside t ht; omega
  aligned t ht := by
    rcases List.mem_cons.mp ht with rfl | ht
    · exact hal
    · exact h.aligned t ht
  sectors B hB h1 h2 := by
    by_cases hlt : B < addr + s
    · obtain ⟨rfl, rfl⟩ := hsec B hB h1 hlt h2
      exact List.mem_cons_self _ _
    · exact List.mem_cons_of_mem _ (h.sectors B hB (by omega) (by omega))

theorem eraseTiles_tiling {addr len : Nat} (ha : addr % 0x1000 = 0) (hl : len % 0x1000 = 0) :
    EraseTiling addr len (eraseTiles addr len) := by
  induction len using Nat.strong_induction_on generalizing addr with
  | _ len ih =>
    by_cases h0 : len = 0
    · subst h0; rw [eraseTiles_zero]; exact eraseTiling_nil addr
    rw [eraseTiles_pos h0]
    by_cases hsec : addr % 0x10000 = 0 ∧ len ≥ 0x10000
    · simp only [hsec, and_self, if_true]
      exact .cons (by omega) ⟨.inr rfl, hsec.1⟩ (fun B _ h1 h2 _ => ⟨by omega, rfl⟩)
        (ih _ (by omega) (by omega) (by omega))
    · simp only [hsec, if_false]
      exact .cons (by omega) ⟨.inl rfl, ha⟩ (fun B hB h1 h2 h3 => absurd ⟨by omega, by omega⟩ hsec)
        (ih _ (by omega) (by omega) (by omega))

theorem eraseFrames_nil (dev : FlashDevice) (last : Int) :
    eraseFrames dev last [] = (do spiFlashDeselect; pure last) := by
  simp only [eraseFrames, frame, runOps_nil, bind_pure_comp, pure_bind, Functor.map_map]

-- Every request: an empty one returns at once, one whose first step finds no block is refused with
-- a lone deselect, and otherwise the driver erases the tiling of the whole 4 KiB blocks of the
-- range and returns 0, or -1 when a partial block is left over.
theorem spiFlashErase_eq (dev : FlashDevice) (addr len : Nat) :
    spiFlashErase dev addr len =
      if len = 0 then (do spiFlashDeselect; pure 0)
      else if addr % 0x1000 ≠ 0 ∨ len < 0x1000 then (do spiFlashDeselect; pure (-1))
      else eraseFrames dev (if len % 0x1000 = 0 then 0 else -1) (eraseTiles addr (len / 0x1000 * 0x1000)) := by
  induction len using Nat.strong_induction_on generalizing addr with
  | _ len ih =>
    rw [spiFlashErase]
    by_cases h0 : len = 0
    · simp only [h0, if_true]
    by_cases hbad : addr % 0x1000 ≠ 0 ∨ len < 0x1000
    · have : eraseBlockSizeFor addr len = 0 := by
        simp only [eraseBlockSizeFor, spiSectorSize, spiSubsectorSize,
          show (0x10000 - 1 : Nat) = 2 ^ 16 - 1 from rfl, show (0x1000 - 1 : Nat) = 2 ^ 12 - 1 from rfl,
          Nat.and_pow_two_sub_one_eq_mod]
        split_ifs <;> omega
      simp only [h0, hbad, this, if_false, if_true, dite_true]
    simp only [not_or, not_not, not_lt] at hbad
    obtain ⟨ha, hl⟩ := hbad
    have hsz : eraseBlockSizeFor addr len = 0x10000 ∧ addr % 0x10000 = 0 ∧ 0x10000 ≤ len ∨
        eraseBlockSizeFor addr len = 0x1000 ∧ ¬(addr % 0x10000 = 0 ∧ 0x10000 ≤ len) := by
      simp only [eraseBlockSizeFor, spiSectorSize, spiSubsectorSize,
        show (0x10000 - 1 : Nat) = 2 ^ 16 - 1 from rfl, show (0x1000 - 1 : Nat) = 2 ^ 12 - 1 from rfl,
        Nat.and_pow_two_sub_one_eq_mod]
      split_ifs <;> omega
    generalize eraseBlockSizeFor addr len = s at hsz
    have hs' : (if addr % 0x10000 = 0 ∧ len / 0x1000 * 0x1000 ≥ 0x10000 then 0x10000 else 0x1000) = s := by
      split_ifs <;> omega
    -- what is left after the first block
    have htail : (if len ≤ s then (do spiFlashDeselect; pure 0)
          else spiFlashErase dev (sizeWrap (addr + s)) (len - s)) =
        eraseFrames dev (if len % 0x1000 = 0 then 0 else -1)
          (eraseTiles (addr + s) (len / 0x1000 * 0x1000 - s)) := by
      by_cases hle : len ≤ s
      · rw [if_pos hle, show len / 0x1000 * 0x1000 - s = 0 by omega, eraseTiles_zero, eraseFrames_nil,
          if_pos (by omega)]
      · rw [if_neg hle, spiFlashErase_sizeWrap, ih _ (by omega), if_neg (by omega)]
        by_cases hr : len - s < 0x1000
        · rw [if_pos (Or.inr hr), show len / 0x1000 * 0x1000 - s = 0 by omega, eraseTiles_zero,
            eraseFrames_nil, if_neg (by omega)]
        · rw [if_neg (by omega), show (len - s) / 0x1000 * 0x1000 = len / 0x1000 * 0x1000 - s by omega,
            show (len - s) % 0x1000 = len % 0x1000 by omega]
    rw [eraseTiles_pos (by omega), hs', if_neg h0, if_neg h0, if_neg (by omega)]
    have hs0 : s ≠ 0 := by omega
    rcases hsz with ⟨hs, -⟩ | ⟨hs, -⟩
    · have e1 : s = spiSectorSize := hs
      simp only [dif_neg hs0, if_pos e1, if_pos hs, eraseFrames, frame, spiFlashWriteExtAddrReg,
        spiFlashWriteReg, spiFlashWriteEnable, spiFlashCommand, spiFlashReadStatusReg, spiFlashReadReg8,
        runOps_cons_tx, runOps_cons_rx, runOps_nil, runOps_addrOps, List.map_cons, List.map_nil,
        List.forM, bind_assoc, pure_bind, map_bind, map_pure, List.headD_cons, htail]
    · have e1 : s ≠ spiSectorSize := by simp only [hs, spiSectorSize]; omega
      have e2 : s = spiSubsectorSize := hs
      simp only [dif_neg hs0, if_neg e1, if_pos e2, if_neg (show s ≠ 0x10000 by omega), eraseFrames,
        frame, spiFlashWriteExtAddrReg, spiFlashWriteReg, spiFlashWriteEnable, spiFlashCommand,
        spiFlashReadStatusReg, spiFlashReadReg8, runOps_cons_tx, runOps_cons_rx, runOps_nil,
        runOps_addrOps, List.map_cons, List.map_nil, List.forM, bind_assoc, pure_bind, map_bind,
        map_pure, List.headD_cons, htail]

-- `spi_flash_erase` on a range of whole 4 KiB blocks at a 4 KiB boundary emits the frames of the
-- range's tiling (and returns 0 when every write enable takes), and the tiling covers exactly the
-- range with every aligned 64 KiB block erased by one sector command.
theorem spiFlashErase_aligned (dev : FlashDevice) {addr len : Nat} (ha : addr % 0x1000 = 0)
    (hl : len % 0x1000 = 0) (hpos : 0 < len) :
    spiFlashErase dev addr len = eraseFrames dev 0 (eraseTiles addr len) ∧
      EraseTiling addr len (eraseTiles addr len) := by
  refine ⟨?_, eraseTiles_tiling ha hl⟩
  rw [spiFlashErase_eq, if_neg (by omega), if_neg (by omega), if_pos hl,
    Nat.div_mul_cancel (Nat.dvd_of_mod_eq_zero hl)]

-- The range [0, 0x11000) of the 64 KiB sector at 0 and the 4 KiB block at 0x10000.
theorem spiFlashErase_aligned_mixed :
    (0 : Nat) % 0x1000 = 0 ∧ (0x11000 : Nat) % 0x1000 = 0 ∧ 0 < 0x11000 ∧
      (spiFlashErase (FlashDevice.zero 1) 0 0x11000 =
          eraseFrames (FlashDevice.zero 1) 0 (eraseTiles 0 0x11000) ∧
        EraseTiling 0 0x11000 (eraseTiles 0 0x11000)) :=
  ⟨rfl, rfl, by decide, spiFlashErase_aligned (FlashDevice.zero 1) rfl rfl (by decide)⟩

-- A request whose first step finds no block is refused with a lone deselect. A 4 KiB aligned
-- request with a partial block at its end is refused too, but only after its whole blocks have
-- been erased.
theorem spiFlashErase_invalid (dev : FlashDevice) (addr len : Nat) (hpos : 0 < len) :
    ((addr % 0x1000 ≠ 0 ∨ len < 0x1000) → spiFlashErase dev addr len = (do spiFlashDeselect; pure (-1))) ∧
    (addr % 0x1000 = 0 → 0x1000 ≤ len → len % 0x1000 ≠ 0 →
      spiFlashErase dev addr len = eraseFrames dev (-1) (eraseTiles addr (len / 0x1000 * 0x1000))) := by
  refine ⟨fun h => ?_, fun ha hl hr => ?_⟩
  · rw [spiFlashErase_eq, if_neg (by omega), if_pos h]
  · rw [spiFlashErase_eq, if_neg (by omega), if_neg (by omega), if_neg hr]

-- 0x1001 bytes at 0 on a part that takes every write enable and finishes at once: the driver
-- erases the 4 KiB block at 0 and only then refuses the byte left over.
set_option maxRecDepth 8000 in
theorem spiFlashErase_erases_before_refusal :
    (spiFlashErase (FlashDevice.zero 1) 0 0x1001).run ⟨fun h => if h.length < 60 then 2 else 0, 1⟩ [] =
      (some (-1), frameWrites [.tx spiCmdWriteEnable .str] ++
        frameWrites [.tx spiCmdReadStatusReg .str, .rx .str] ++
        frameWrites (.tx spiCmd4kbSubsectorErase .str :: addrOps 0 .str) ++
        frameWrites [.tx spiCmdReadStatusReg .str, .rx .str] ++ frameWrites []) := by
  have ht : eraseTiles 0 0x1000 = [(0, 0x1000)] := by
    rw [eraseTiles_pos (by decide)]; simp [eraseTiles_zero]
  rw [spiFlashErase_eq, show (0x1001 : Nat) / 0x1000 * 0x1000 = 0x1000 from rfl, ht]
  rfl

theorem spiFlashErase_invalid_tail :
    0 < 0x1001 ∧
      (((0 : Nat) % 0x1000 ≠ 0 ∨ 0x1001 < 0x1000) →
          spiFlashErase (FlashDevice.zero 1) 0 0x1001 = (do spiFlashDeselect; pure (-1))) ∧
      ((0 : Nat) % 0x1000 = 0 → 0x1000 ≤ 0x1001 → 0x1001 % 0x1000 ≠ 0 →
        spiFlashErase (FlashDevice.zero 1) 0 0x1001 =
          eraseFrames (FlashDevice.zero 1) (-1) (eraseTiles 0 (0x1001 / 0x1000 * 0x1000))) :=
  ⟨by decide, spiFlashErase_invalid (FlashDevice.zero 1) 0 0x1001 (by decide)⟩

end Pyrite
