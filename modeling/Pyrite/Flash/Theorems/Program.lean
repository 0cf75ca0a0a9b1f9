import Pyrite.Flash.Frame

namespace Pyrite

-- The chunks c_j = [addr + 256 j, min (addr + 256 (j + 1), addr + len)) of a program request, each
-- with the bytes of `src` it covers.
def pageChunks (addr : Nat) (src : List Nat) : List (Nat × List Nat) :=
  (List.range ((src.length + 255) / 256)).map fun j => (addr + 256 * j, (src.drop (256 * j)).take 256)

-- The frames a program request is meant to emit for its chunks, in order: the extended address on
-- parts above 16 MiB, write enable, a status read, and when WEL is set the program frame (opcode
-- and the low three address bytes in STR, the data in the device's lanes) and the busy-wait.
def programFrames (dev : FlashDevice) : List (Nat × List Nat) → Ctrl Int
  | [] => do
    let _ ← frame []
    pure 0
  | (start, bytes) :: cs => do
    if dev.size > 0x1000000 then
      let _ ← frame [.tx spiCmdWriteExtAddrReg .str, .tx ((start >>> 24) % 256) .str]
    let _ ← frame [.tx spiCmdWriteEnable .str]
    let s ← (·.headD 0) <$> frame [.tx spiCmdReadStatusReg .str, .rx .str]
    if s &&& 0x02 = 0 then do
      let _ ← frame []
      pure (-1)
    else do
      let cmd := if dev.dataWidth = 4 then spiCmdPageProgramQuadIn else spiCmdPageProgram
      let _ ← frame (.tx cmd .str :: addrOps start .str ++ bytes.map (.tx · dev.dataProto))
      waitIdle
      programFrames dev cs

-- A request with a misaligned start and data is refused with a lone deselect.
def programSpec (dev : FlashDevice) (addr : Nat) (src : List Nat) : Ctrl Int :=
  if src ≠ [] ∧ addr % 256 ≠ 0 then do
    let _ ← frame []
    pure (-1)
  else programFrames dev (pageChunks addr src)

theorem pageChunks_nil (addr : Nat) : pageChunks addr [] = [] := rfl

theorem pageChunks_cons {src : List Nat} (h : src ≠ []) (addr : Nat) :
    pageChunks addr src = (addr, src.take 256) :: pageChunks (addr + 256) (src.drop 256) := by
  have hn : (src.length + 255) / 256 = ((src.drop 256).length + 255) / 256 + 1 := by
    have := List.length_pos.mpr h
    simp only [List.length_drop]
    omega
  rw [pageChunks, hn, List.range_succ_eq_map, List.map_cons, List.map_map]
  refine congrArg₂ _ (by simp) (List.map_congr_left fun j _ => ?_)
  simp only [Function.comp, List.drop_drop]
  rw [show addr + 256 * (j + 1) = addr + 256 + 256 * j by omega, show 256 * (j + 1) = 256 + 256 * j by omega]

-- Every chunk of an aligned request is a non-empty part of one page, and the chunks are `src`.
theorem pageChunks_page {addr : Nat} (ha : addr % 256 = 0) (src : List Nat) :
    ∀ c ∈ pageChunks addr src, c.1 % 256 = 0 ∧ c.2 ≠ [] ∧ c.2.length ≤ 256 := by
  intro c hc
  simp only [pageChunks, List.mem_map, List.mem_range] at hc
  obtain ⟨j, hj, rfl⟩ := hc
  refine ⟨by omega, ?_, List.length_take_le _ _⟩
  rw [Ne, List.take_eq_nil_iff]
  simp only [List.drop_eq_nil_iff]
  omega

theorem pageChunks_flatten (addr : Nat) (src : List Nat) :
    ((pageChunks addr src).map Prod.snd).flatten = src := by
  obtain ⟨n, hn⟩ : ∃ n, src.length = n := ⟨_, rfl⟩
  induction n using Nat.strong_induction_on generalizing addr src with
  | _ n ih =>
    by_cases hs : src = []
    · subst hs; rfl
    · have hlt : (src.drop 256).length < n := by
        have := List.length_pos.mpr hs
        simp only [List.length_drop]; omega
      rw [pageChunks_cons hs, List.map_cons, List.flatten_cons, ih _ hlt _ _ rfl, List.take_append_drop]

-- The inner loop writes the bytes up to the next page boundary and steps the address past them.
theorem programPage_eq (p : SpiProto) (addr b : Nat) (s : List Nat) :
    programPage p addr b s = (do
      let _ ← runOps (((b :: s).take (256 - addr % 256)).map (.tx · p))
      pure ⟨(sizeWrap (addr + min (s.length + 1) (256 - addr % 256)), (b :: s).drop (256 - addr % 256)),
        by simp only [List.length_drop, List.length_cons]; omega⟩) := by
  induction s generalizing addr b with
  | nil =>
    obtain ⟨k, hk⟩ : ∃ k, 256 - addr % 256 = k + 1 := ⟨255 - addr % 256, by omega⟩
    simp only [List.length_nil, programPage, bind_pure_comp, hk, List.take_succ_cons, List.take_nil,
      List.map_cons, List.map_nil, runOps_cons_tx, runOps_nil, zero_add, le_add_iff_nonneg_left, zero_le,
      inf_of_le_left, List.drop_succ_cons, List.drop_nil, Functor.map_map]
  | cons b' s ih =>
    have hw : sizeWrap (addr + 1) % 256 = (addr + 1) % 256 := sizeWrap_mod_page _
    rw [programPage]
    by_cases ha : (addr + 1) % 256 = 0
    · have hk : 256 - addr % 256 = 1 := by omega
      simp only [List.length_cons, and_page, hw, ha, ↓reduceIte, bind_pure_comp, hk, List.take_succ_cons,
        List.take_zero, List.map_cons, List.map_nil, runOps_cons_tx, runOps_nil, le_add_iff_nonneg_left, zero_le,
        inf_of_le_right, List.drop_succ_cons, List.drop_zero, Functor.map_map]
    · obtain ⟨k, hk, hk'⟩ : ∃ k, 256 - addr % 256 = k + 1 ∧ 256 - (addr + 1) % 256 = k := ⟨_, by omega, rfl⟩
      have hs : sizeWrap (sizeWrap (addr + 1) + min (s.length + 1) k) =
          sizeWrap (addr + min (s.length + 1 + 1) (k + 1)) := by
        simp only [sizeWrap]; omega
      simp only [List.length_cons, and_page, hw, ha, ↓reduceIte, ih, hk', List.map_take, List.map_cons, hs,
        bind_pure_comp, Functor.map_map, hk, List.take_succ_cons, runOps_cons_tx, List.drop_succ_cons, map_bind]

theorem programPage_sizeWrap (p : SpiProto) (a b : Nat) (s : List Nat) :
    programPage p (sizeWrap a) b s = programPage p a b s := by
  simp only [programPage_eq, sizeWrap_mod_page, sizeWrap_add_sizeWrap]

theorem spiFlashWrite.loop_nil (dev : FlashDevice) (p : SpiProto) (a : Nat) :
    spiFlashWrite.loop dev p a [] = (do spiFlashDeselect; pure 0) := by
  rw [loop.eq_1]

-- The loop reads its address only through its low 32 bits, so `size_t` wrap-around is invisible.
theorem spiFlashWrite.loop_sizeWrap (dev : FlashDevice) (p : SpiProto) (a : Nat) (src : List Nat) :
    spiFlashWrite.loop dev p (sizeWrap a) src = spiFlashWrite.loop dev p a src := by
  cases src with
  | nil => exact (loop_nil dev p _).trans (loop_nil dev p a).symm
  | cons b s =>
    simp only [loop.eq_2, and_page, sizeWrap_mod_page, extByte_sizeWrap, spiFlashWriteAddr_sizeWrap,
      programPage_sizeWrap]

theorem programFrames_nil (dev : FlashDevice) :
    programFrames dev [] = (do spiFlashDeselect; pure 0) := by
  simp only [programFrames, frame, runOps_nil, bind_pure_comp, pure_bind, Functor.map_map]

theorem spiFlashWrite.loop_eq_programFrames (dev : FlashDevice) {a : Nat} (ha : a % 256 = 0)
    (src : List Nat) : spiFlashWrite.loop dev dev.dataProto a src = programFrames dev (pageChunks a src) := by
  obtain ⟨n, hn⟩ : ∃ n, src.length = n := ⟨_, rfl⟩
  induction n using Nat.strong_induction_on generalizing a src with
  | _ n ih =>
    cases src with
    | nil => rw [loop_nil, pageChunks_nil, programFrames_nil]
    | cons b s =>
      have hrest : loop dev dev.dataProto (sizeWrap (a + min (s.length + 1) 256)) ((b :: s).drop 256) =
          programFrames dev (pageChunks (a + 256) ((b :: s).drop 256)) := by
        rw [loop_sizeWrap]
        by_cases he : (b :: s).drop 256 = []
        · rw [he, loop_nil, pageChunks_nil, programFrames_nil]
        · have hl : min (s.length + 1) 256 = 256 := by
            simp only [ne_eq, List.drop_eq_nil_iff, List.length_cons, not_le] at he; omega
          rw [hl]
          exact ih _ (by simp only [List.length_drop, List.length_cons] at hn ⊢; omega) (by omega) _ rfl
      rw [loop, pageChunks_cons (List.cons_ne_nil b s), programFrames]
      have h256 : 256 - a % 256 = 256 := by omega
      simp only [and_page, ha, h256, ne_eq, not_true_eq_false, if_false, programPage_eq, frame,
        spiFlashWriteExtAddrReg, spiFlashWriteReg, spiFlashWriteEnable, spiFlashCommand,
        spiFlashReadStatusReg, spiFlashReadReg8, runOps_cons_tx, runOps_cons_rx, runOps_nil,
        runOps_append, runOps_addrOps, List.map_cons, List.map_nil, List.forM, Nat.sub_zero,
        bind_assoc, pure_bind, map_bind, map_pure, List.headD_cons, hrest]
      by_cases hw : dev.dataWidth = 4 <;> simp only [FlashDevice.dataProto, hw, if_true, if_false, reduceCtorEq]

theorem spiFlashWrite_eq (dev : FlashDevice) (addr : Nat) (src : List Nat) :
    spiFlashWrite dev addr src = programSpec dev addr src := by
  rw [spiFlashWrite, programSpec]
  cases src with
  | nil => simp only [ne_eq, not_true_eq_false, false_and, if_false, pageChunks_nil,
      spiFlashWrite.loop_nil, programFrames_nil]
  | cons b s =>
    by_cases ha : addr % 256 = 0
    · simp only [ha, ne_eq, not_true_eq_false, and_false, if_false,
        spiFlashWrite.loop_eq_programFrames dev ha]
    · simp [spiFlashWrite.loop, and_page, ha, frame]

-- `spi_flash_write`: a request with data and a misaligned start is refused with a lone deselect;
-- otherwise each chunk of at most one page gets its extended address, write enable and status
-- frames, and, while WEL reads set, its program frame and busy-wait.
theorem spiFlashWrite_spec (dev : FlashDevice) (addr : Nat) (src : List Nat) :
    spiFlashWrite dev addr src = programSpec dev addr src ∧
    (addr % 256 = 0 → ∀ c ∈ pageChunks addr src, c.1 % 256 = 0 ∧ c.2 ≠ [] ∧ c.2.length ≤ 256) ∧
    ((pageChunks addr src).map Prod.snd).flatten = src :=
  ⟨spiFlashWrite_eq dev addr src, fun ha => pageChunks_page ha src, pageChunks_flatten addr src⟩

end Pyrite
