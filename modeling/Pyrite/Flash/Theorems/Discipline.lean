import Pyrite.Flash.Discipline
import Pyrite.Flash.Theorems.Wire
import Pyrite.Flash.Theorems.Program
import Pyrite.Flash.Theorems.Erase

namespace Pyrite

/-! ## The checker over one frame

A frame starts from the deselected bus, runs its calls and deselects again, which brings the
checker back to where it started. -/

-- A frame that has heard the flash is held to no less than one that has not.
-- Having listened only makes a write harder to accept, and listening persists.
theorem writeOk_mono {l l' : Bool} (hl : l' = true → l = true) {prev w : Nat}
    (h : writeOk prev l w = true) : writeOk prev l' w = true := by
  cases l' with
  | false =>
    simp only [writeOk, Bool.not_false, Bool.or_true, Bool.true_or, Bool.and_true, Bool.and_eq_true] at h ⊢
    exact h.1
  | true => rwa [hl rfl] at h

theorem listensAfter_mono {l l' : Bool} (hl : l' = true → l = true) {w : Nat}
    (h : listensAfter l' w = true) : listensAfter l w = true := by
  cases l with
  | false => rwa [show l' = false by cases l' <;> simp_all] at h
  | true =>
    simp only [listensAfter, Bool.true_or, Bool.and_true, Bool.and_eq_true] at h ⊢
    exact h.1

theorem disciplined_mono {l l' : Bool} (hl : l' = true → l = true) {prev : Nat} {ws : List Nat}
    (h : disciplined prev l ws = true) : disciplined prev l' ws = true := by
  induction ws generalizing prev l l' with
  | nil => rfl
  | cons w ws ih =>
    simp only [disciplined, Bool.and_eq_true] at h ⊢
    exact ⟨writeOk_mono hl h.1, ih (listensAfter_mono hl) h.2⟩

theorem txClock_oe (p : SpiProto) (x : Nat) : oeOf ((x &&& p.mask) ||| p.oe ||| flashClk) ≠ 0 := by
  have hb : x &&& p.mask < 16 := Nat.lt_of_le_of_lt Nat.and_le_right (by cases p <;> decide)
  generalize x &&& p.mask = b at hb
  cases p <;> revert b <;> decide

section Calls

variable {prev : Nat} (hprev : csnOf prev = false ∨ clkOf prev = false) {rest : List Nat}
include hprev

-- `spi_flash_write_byte` drives its lanes with CLK low or together with an output enable, so the
-- frame never starts listening.
theorem disciplined_tx (v : Nat) (p : SpiProto) (h : disciplined 0 false rest = true) :
    disciplined prev false ((Op.tx v p).writes ++ rest) = true := by
  rw [Op.writes_tx]
  induction p.shifts generalizing prev with
  | nil => rcases hprev with hp | hp <;> simp [clockWrites, disciplined, writeOk, listensAfter, hp, h]
  | cons i is ih =>
    obtain ⟨hl1, hl2⟩ := Op.tx_low v p i
    obtain ⟨hh1, hh2⟩ := Op.tx_high v p i
    have ho : (oeOf (((v >>> i) &&& p.mask) ||| p.oe ||| flashClk) == 0) = false := by
      simpa using txClock_oe p (v >>> i)
    rw [clockWrites_cons, List.cons_append, List.cons_append]
    rcases hprev with hp | hp <;>
      simp [disciplined, writeOk, listensAfter, hl1, hl2, hh1, hh2, ho, hp, ih (Or.inl hh2)]

-- `spi_flash_read_byte` drives nothing and raises CLK with every output off.
theorem disciplined_rx (p : SpiProto) (l : Bool) (h : disciplined 0 true rest = true) :
    disciplined prev l ((Op.rx p).writes ++ rest) = true := by
  rw [Op.writes_rx]
  induction p.shifts generalizing prev l with
  | nil =>
    have : disciplined 0 l rest = true := disciplined_mono (fun _ => rfl) h
    rcases hprev with hp | hp <;> simp [clockWrites, disciplined, writeOk, listensAfter, hp, this]
  | cons i is ih =>
    rw [clockWrites_cons, List.cons_append, List.cons_append]
    simp only [disciplined, writeOk, listensAfter, clkOf_zero, csnOf_zero, clkOf_flashClk, csnOf_flashClk,
      oeOf_zero, oeOf_flashClk, Bool.and_eq_true, ih (Or.inl csnOf_flashClk)]
    rcases hprev with hp | hp <;> simp [hp]

end Calls

-- A dummy clock of `spi_flash_read`, inside a frame.
theorem disciplined_clk {prev : Nat} (hprev : csnOf prev = false) (l : Bool) {rest : List Nat}
    (h : disciplined 0 true rest = true) : disciplined prev l (Op.clk.writes ++ rest) = true := by
  simp [Op.writes, disciplined, writeOk, listensAfter, hprev, h]

-- `spi_flash_deselect` after a write with CLK low.
theorem disciplined_deselect {prev : Nat} (hprev : clkOf prev = false) (l : Bool) {rest : List Nat}
    (h : disciplined flashCsN false rest = true) : disciplined prev l (flashCsN :: rest) = true := by
  simp [disciplined, writeOk, listensAfter, hprev, h]

theorem disciplined_listen {os : List Op} (hos : os.all (!·.isTx)) {rest : List Nat}
    (h : disciplined flashCsN false rest = true) :
    disciplined 0 true (os.flatMap Op.writes ++ flashCsN :: rest) = true := by
  induction os with
  | nil => exact disciplined_deselect clkOf_zero true h
  | cons o os ih =>
    simp only [List.all_cons, Bool.and_eq_true] at hos
    rw [List.flatMap_cons, List.append_assoc]
    cases o with
    | tx v p => simp [Op.isTx] at hos
    | rx p => exact disciplined_rx (Or.inl csnOf_zero) p true (ih hos.2)
    | clk => exact disciplined_clk csnOf_zero true (ih hos.2)

theorem disciplined_txThenListen {os : List Op} (hos : txThenListen os) {rest : List Nat}
    (h : disciplined flashCsN false rest = true) :
    disciplined 0 false (os.flatMap Op.writes ++ flashCsN :: rest) = true := by
  induction os with
  | nil => exact disciplined_deselect clkOf_zero false h
  | cons o os ih =>
    cases o with
    | tx v p =>
      rw [List.flatMap_cons, List.append_assoc]
      exact disciplined_tx (Or.inl csnOf_zero) v p (ih hos)
    | rx p => exact disciplined_mono (fun _ => rfl) (disciplined_listen hos h)
    | clk => exact disciplined_mono (fun _ => rfl) (disciplined_listen hos h)

-- One frame of the driver's shape keeps the discipline and returns the checker to the idle bus.
theorem disciplined_frame {ops : List Op} (hs : frameShaped ops) {rest : List Nat}
    (h : disciplined flashCsN false rest = true) :
    disciplined flashCsN false (frameWrites ops ++ rest) = true := by
  rw [frameWrites, List.append_assoc, List.singleton_append]
  match ops, hs with
  | [], _ => exact disciplined_deselect clkOf_flashCsN false h
  | .tx v p :: os, hs =>
    rw [List.flatMap_cons, List.append_assoc]
    exact disciplined_tx (Or.inr clkOf_flashCsN) v p (disciplined_txThenListen (show txThenListen os from hs) h)
  | .rx p :: os, hs =>
    simp only [frameShaped, txThenListen, List.all_cons, Bool.and_eq_true] at hs
    rw [List.flatMap_cons, List.append_assoc]
    exact disciplined_rx (Or.inr clkOf_flashCsN) p false (disciplined_listen hs.2 h)

example : disciplined flashCsN false (frameWrites [.tx spiCmdReadStatusReg .str, .rx .str]) = true := by
  decide

-- A frame opened by a dummy clock would move CS# with CLK high.
example : disciplined flashCsN false (frameWrites [.clk, .rx .str]) = false := by decide

theorem disciplined_frames {fs : List (List Op)} (hs : ∀ ops ∈ fs, frameShaped ops) :
    disciplined flashCsN false (fs.flatMap frameWrites) = true := by
  induction fs with
  | nil => rfl
  | cons ops fs ih =>
    rw [List.flatMap_cons]
    exact disciplined_frame (hs ops (List.mem_cons_self _ _))
      (ih fun o h => hs o (List.mem_cons_of_mem _ h))

/-! ## Programs that write whole frames -/

namespace Framed

variable {α β : Type} {n m : Nat} {x : Ctrl α}

theorem mono (hx : Framed n x) (h : m ≤ n) : Framed m x := fun bus hist =>
  let ⟨fs, hs, hw, hn⟩ := hx bus hist
  ⟨fs, hs, hw, fun r => Nat.le_trans h (hn r)⟩

-- A run of `x >>= f` that returns has run both parts to the end.
theorem bind {f : α → Ctrl β} (hx : Framed n x) (hf : ∀ a, Framed m (f a)) : Framed (n + m) (x >>= f) := by
  intro bus hist
  obtain ⟨fs, hs, hw, hn⟩ := hx bus hist
  rw [Ctrl.run_bind]
  rcases hr : x.run bus hist with ⟨_ | a, h'⟩
  · rw [hr] at hw
    exact ⟨fs, hs, hw, fun h => by simp at h⟩
  · rw [hr] at hw hn
    obtain ⟨fs', hs', hw', hn'⟩ := hf a bus h'
    refine ⟨fs ++ fs', fun ops h => ?_, ?_, fun hsome => ?_⟩
    · rcases List.mem_append.mp h with h | h
      exacts [hs ops h, hs' ops h]
    · simp only at hw
      rw [hw', hw, List.flatMap_append, List.append_assoc]
    · rw [List.length_append]
      have := hn rfl
      have := hn' hsome
      omega

theorem seq {f : α → Ctrl β} (hx : Framed n x) (hf : ∀ a, Framed m (f a)) : Framed n (x >>= f) :=
  (hx.bind hf).mono (Nat.le_add_right n m)

theorem map (hx : Framed n x) (f : α → β) : Framed n (f <$> x) := fun bus hist =>
  let ⟨fs, hs, hw, hn⟩ := hx bus hist
  ⟨fs, hs, by simpa using hw, by simpa using hn⟩

end Framed

theorem framed_pure {α : Type} (a : α) : Framed 0 (pure a : Ctrl α) := fun _ _ =>
  ⟨[], by simp, by simp, fun _ => le_refl 0⟩

-- A busy-wait that runs out of polls never returns.
theorem framed_stall {α : Type} (n : Nat) : Framed n (Ctrl.stall : Ctrl α) := fun _ _ =>
  ⟨[], by simp, by simp, fun h => by simp at h⟩

theorem framed_polls : Framed 0 Ctrl.polls := fun _ _ => ⟨[], by simp, by simp [Ctrl.polls], fun _ => le_refl 0⟩

theorem framed_frame {ops : List Op} (hs : frameShaped ops) : Framed 1 (frame ops) := fun _ _ =>
  ⟨[ops], by simpa using hs, by simp, fun _ => le_refl 1⟩

theorem framed_deselect : Framed 1 spiFlashDeselect := fun _ _ =>
  ⟨[[]], fun ops h => by rw [List.mem_singleton.mp h]; rfl, by simp [spiFlashDeselect, frameWrites],
    fun _ => le_refl 1⟩

/-! ## The driver's functions -/

theorem txThenListen_append {txs ls : List Op} (htx : txs.all (·.isTx)) (hl : ls.all (!·.isTx)) :
    txThenListen (txs ++ ls) := by
  induction txs with
  | nil =>
    match ls, hl with
    | [], _ => rfl
    | .rx _ :: _, hl => exact hl
    | .clk :: _, hl => exact hl
  | cons o txs ih =>
    simp only [List.all_cons, Bool.and_eq_true] at htx
    cases o with
    | tx v p => exact ih htx.2
    | rx p => simp [Op.isTx] at htx
    | clk => simp [Op.isTx] at htx

theorem txThenListen_of_isTx {os : List Op} (h : os.all (·.isTx)) : txThenListen os := by
  simpa using txThenListen_append h (show ([] : List Op).all (!·.isTx) = true from rfl)

theorem frameShaped_tx_cons (v : Nat) (p : SpiProto) (os : List Op) :
    frameShaped (.tx v p :: os) = txThenListen os := rfl

theorem txThenListen_map_tx (vals : List Nat) (p : SpiProto) : txThenListen (vals.map (.tx · p)) :=
  txThenListen_of_isTx (by simp [Op.isTx])

theorem framed_readReg8 (cmd : Nat) (p : SpiProto) : Framed 1 (spiFlashReadReg8 cmd p) := by
  rw [spiFlashReadReg8_eq]
  exact (framed_frame (by rfl)).map _

theorem framed_command (cmd : Nat) (p : SpiProto) : Framed 1 (spiFlashCommand cmd p) := by
  rw [spiFlashCommand_eq]
  exact (framed_frame (by rfl)).seq fun _ => framed_pure _

theorem framed_writeReg (cmd : Nat) (vals : List Nat) (p : SpiProto) : Framed 1 (spiFlashWriteReg cmd vals p) := by
  rw [spiFlashWriteReg_eq]
  exact (framed_frame (by exact txThenListen_map_tx vals p)).seq fun _ => framed_pure _

theorem framed_readNvCfgReg (p : SpiProto) : Framed 1 (spiFlashReadNvCfgReg p) := by
  rw [spiFlashReadNvCfgReg_eq]
  exact (framed_frame (by rfl)).map _

theorem framed_readSectorProtectionReg (p : SpiProto) : Framed 1 (spiFlashReadSectorProtectionReg p) := by
  rw [spiFlashReadSectorProtectionReg_eq]
  exact (framed_frame (by rfl)).map _

theorem framed_reset (p : SpiProto) : Framed 1 (spiFlashReset p) := by
  rw [spiFlashReset_eq]
  exact (framed_frame (by rfl)).seq fun _ => (framed_frame (by rfl)).seq fun _ =>
    (framed_frame (by rfl)).seq fun _ => framed_pure _

theorem framed_waitIdleFor (n : Nat) : Framed 1 (waitIdleFor n) := by
  induction n with
  | zero => exact framed_stall 1
  | succ n ih =>
    rw [waitIdleFor_succ]
    refine ((framed_frame (by rfl)).map _).seq (m := 0) fun s => ?_
    split
    exacts [ih.mono (Nat.zero_le 1), framed_pure _]

theorem framed_waitIdle : Framed 1 waitIdle := framed_polls.bind fun n => framed_waitIdleFor n

theorem framed_initVendor (mfrId : Nat) (dev : FlashDevice) : Framed 0 (spiFlashInitVendor mfrId dev) := by
  unfold spiFlashInitVendor
  split
  · refine .mono ((framed_readReg8 _ _).seq fun _ => (framed_readNvCfgReg _).seq fun _ =>
      (framed_readReg8 _ _).seq fun _ => (framed_readReg8 _ _).seq fun _ =>
      (framed_readReg8 _ _).seq fun _ => (framed_readSectorProtectionReg _).seq (m := 0) fun _ => ?_) (Nat.zero_le 1)
    split
    exacts [((framed_writeReg _ _ _).seq fun _ => framed_pure _).mono (Nat.zero_le 1), framed_pure _]
  · refine .mono ((framed_readReg8 _ _).seq fun _ => (framed_readSectorProtectionReg _).seq fun _ =>
      (framed_readReg8 _ _).seq (m := 0) fun _ => ?_) (Nat.zero_le 1)
    split
    exacts [((framed_writeReg _ _ _).seq fun _ => framed_pure _).mono (Nat.zero_le 1), framed_pure _]
  · exact framed_pure _

theorem framed_configure (dev : FlashDevice) (mfrId memCapacity : Nat) :
    Framed 1 (spiFlashInit.configure dev mfrId memCapacity) := by
  unfold spiFlashInit.configure
  split
  · exact framed_deselect.seq fun _ => framed_pure _
  · split
    · exact framed_deselect.seq fun _ => framed_pure _
    · exact (framed_readReg8 _ _).seq fun _ => (framed_initVendor _ _).seq fun _ =>
        (framed_deselect.mono (Nat.zero_le 1)).seq fun _ => framed_pure _

theorem framed_init (dev : FlashDevice) : Framed 1 (spiFlashInit dev) := by
  rw [spiFlashInit_eq]
  exact (framed_reset _).seq fun _ => ((framed_frame (by rfl)).mono (Nat.zero_le 1)).seq fun _ =>
    (framed_configure _ _ _).mono (Nat.zero_le 1)

theorem frameShaped_readOps (dev : FlashDevice) (addr len : Nat) : frameShaped (readOps dev addr len) := by
  have hl : ((if dev.dataProto ≠ .str then List.replicate dev.readDummyCycles.toNat Op.clk else []) ++
      List.replicate len (Op.rx dev.dataProto)).all (!·.isTx) := by
    split <;> simp [List.all_eq_true, List.mem_replicate, Op.isTx]
  unfold readOps
  split <;> rw [List.cons_append, frameShaped_tx_cons]
  · exact txThenListen_append (by simp [addr4bOps, addrOps, Op.isTx]) hl
  · exact txThenListen_append (by simp [addrOps, Op.isTx]) hl

theorem framed_read (dev : FlashDevice) (addr len : Nat) : Framed 1 (spiFlashRead dev addr len) := by
  rw [spiFlashRead_eq]
  exact (framed_frame (frameShaped_readOps dev addr len)).map _

-- The frames of one page or block after its extended address: write enable, status, then, while
-- WEL reads set, the command frame and the busy-wait.
theorem framed_commandFrames (ops : List Op) (hs : ops.all (·.isTx)) {k : Ctrl Int} (hk : Framed 1 k) :
    Framed 1 (do
      let _ ← frame [.tx spiCmdWriteEnable .str]
      let st ← (·.headD 0) <$> frame [.tx spiCmdReadStatusReg .str, .rx .str]
      if st &&& 0x02 = 0 then do
        let _ ← frame []
        pure (-1)
      else do
        let _ ← frame ops
        waitIdle
        k) := by
  refine (framed_frame (by rfl)).seq fun _ => ((framed_frame (by rfl)).map _).seq (m := 1) fun _ => ?_
  split
  · exact (framed_frame (by rfl)).seq fun _ => framed_pure _
  · refine ((framed_frame ?_).seq fun _ => framed_waitIdle.seq fun _ => hk).mono (Nat.le_refl 1)
    match ops, hs with
    | [], _ => rfl
    | .tx v p :: os, hs => exact txThenListen_of_isTx (by simpa [Op.isTx] using hs)

theorem framed_programFrames (dev : FlashDevice) (cs : List (Nat × List Nat)) : Framed 1 (programFrames dev cs) := by
  induction cs with
  | nil => exact (framed_frame (by rfl)).seq fun _ => framed_pure _
  | cons c cs ih =>
    have hc := framed_commandFrames
      (.tx (if dev.dataWidth = 4 then spiCmdPageProgramQuadIn else spiCmdPageProgram) .str ::
        addrOps c.1 .str ++ c.2.map (.tx · dev.dataProto)) (by simp [addrOps, Op.isTx]) ih
    rw [programFrames]
    split
    · exact (framed_frame (by rfl)).seq fun _ => hc
    · exact hc

theorem framed_eraseFrames (dev : FlashDevice) (last : Int) (ts : List (Nat × Nat)) :
    Framed 1 (eraseFrames dev last ts) := by
  induction ts with
  | nil => exact (framed_frame (by rfl)).seq fun _ => framed_pure _
  | cons t ts ih =>
    have hc := framed_commandFrames
      (.tx (if t.2 = 0x10000 then spiCmdSectorErase else spiCmd4kbSubsectorErase) .str :: addrOps t.1 .str)
      (by simp [addrOps, Op.isTx]) ih
    rw [eraseFrames]
    split
    · exact (framed_frame (by rfl)).seq fun _ => hc
    · exact hc

theorem framed_write (dev : FlashDevice) (addr : Nat) (src : List Nat) : Framed 1 (spiFlashWrite dev addr src) := by
  rw [spiFlashWrite_eq, programSpec]
  split
  · exact (framed_frame (by rfl)).seq fun _ => framed_pure _
  · exact framed_programFrames dev _

theorem framed_erase (dev : FlashDevice) (addr len : Nat) : Framed 1 (spiFlashErase dev addr len) := by
  rw [spiFlashErase_eq]
  split
  · exact framed_deselect.seq fun _ => framed_pure _
  · split
    · exact framed_deselect.seq fun _ => framed_pure _
    · exact framed_eraseFrames dev _ _

theorem framed_openSpi (dataWidth : Int) (hasReg alloc : Bool) :
    Framed (if !hasReg || !alloc then 0 else 1) (flashOpenSpi dataWidth hasReg alloc) := by
  cases hasReg <;> cases alloc
  case true.true =>
    refine (framed_init _).seq (m := 0) fun r => ?_
    obtain ⟨ret, dev⟩ := r
    dsimp only
    split
    · exact (framed_deselect.seq fun _ => framed_pure _).mono (Nat.zero_le 1)
    · exact framed_pure _
  all_goals exact framed_pure _

namespace Call

theorem framed (c : Call) : Framed (if c.silent then 0 else 1) c.run := by
  cases c with
  | openSpi dataWidth hasReg alloc => exact (framed_openSpi dataWidth hasReg alloc).seq fun _ => framed_pure ()
  | read dev addr len => exact (framed_read dev addr len).seq fun _ => framed_pure ()
  | write dev addr src => exact (framed_write dev addr src).seq fun _ => framed_pure ()
  | erase dev addr len => exact (framed_erase dev addr len).seq fun _ => framed_pure ()
  | release dev => cases dev; exacts [framed_pure (), framed_deselect]

theorem run_silent {c : Call} (hc : c.silent) (bus : Bus) (h : List Nat) : c.run.run bus h = (some (), h) := by
  cases c with
  | openSpi dataWidth hasReg alloc => cases hasReg <;> cases alloc <;> first | rfl | simp [silent] at hc
  | release dev => cases dev; rfl; simp [silent] at hc
  | _ => simp [silent] at hc

end Call

theorem framed_forM (cs : List Call) : Framed 0 (cs.forM Call.run) := by
  induction cs with
  | nil => exact framed_pure ()
  | cons c cs ih => exact ((Call.framed c).mono (Nat.zero_le _)).seq fun _ => ih

theorem frames_getLast? (fs : List (List Op)) :
    fs.flatMap frameWrites = [] ∨ (fs.flatMap frameWrites).getLast? = some flashCsN := by
  induction fs with
  | nil => exact .inl rfl
  | cons ops fs ih =>
    right
    rw [List.flatMap_cons, List.getLast?_append]
    rcases ih with h | h <;> simp [h, frameWrites]

theorem frames_ne_nil {fs : List (List Op)} (h : fs ≠ []) : fs.flatMap frameWrites ≠ [] := by
  obtain ⟨ops, fs, rfl⟩ := List.exists_cons_of_ne_nil h
  simp [frameWrites]

-- Over any sequence of calls from the deselected bus, whatever the register reads back: CS# moves
-- only with CLK low on both sides of the move, and no write of a frame enables an output after a
-- listening clock of that frame. Every call writes nothing or ends with `FLASH_CS_N`, and a call
-- that returns writes nothing exactly when it returns before reaching the hardware.
theorem driver_bus_discipline (cs : List Call) (bus : Bus) (h : List Nat) :
    (∃ ws, ((cs.forM Call.run).run bus h).2 = h ++ ws ∧ disciplined flashCsN false ws = true) ∧
    ∀ (c : Call) (h' : List Nat), ∃ ws, (c.run.run bus h').2 = h' ++ ws ∧
      (ws = [] ∨ ws.getLast? = some flashCsN) ∧ ((c.run.run bus h').1.isSome → (ws = [] ↔ c.silent)) := by
  refine ⟨?_, fun c h' => ?_⟩
  · obtain ⟨fs, hs, hw, -⟩ := framed_forM cs bus h
    exact ⟨_, hw, disciplined_frames hs⟩
  · obtain ⟨fs, -, hw, hn⟩ := c.framed bus h'
    refine ⟨_, hw, frames_getLast? fs, fun hr => ⟨fun hnil => ?_, fun hc => ?_⟩⟩
    · by_contra hc
      rw [if_neg hc] at hn
      exact frames_ne_nil (List.ne_nil_of_length_pos (hn hr)) hnil
    · rw [Call.run_silent hc] at hw
      exact List.append_right_eq_self.mp hw.symm

theorem framed_readNvLockBits (addr : Nat) (p : SpiProto) : Framed 1 (spiFlashReadNvLockBits addr p) := by
  rw [spiFlashReadNvLockBits_eq]
  have htx : (Op.tx spiCmdReadNvLockBits p :: addr4bOps addr p).all (·.isTx) := by
    simp [addr4bOps, addrOps, Op.isTx]
  refine (framed_frame ?_).map _
  show txThenListen ((Op.tx spiCmdReadNvLockBits p :: addr4bOps addr p) ++ [.rx p])
  exact txThenListen_append htx rfl

-- Every register accessor writes one whole frame of the driver's shape.
theorem RegAccess.framed (a : RegAccess) : Framed 1 a.run := by
  cases a with
  | writeEnable p | writeDisable p | clearFlagStatusReg p => exact framed_command _ p
  | writeStatusReg val p | writeVolatileConfigReg val p | writeEvCfgReg val p | writeExtAddrReg val p =>
    exact framed_writeReg _ _ p
  | mxicWriteStatusCfgReg status cfg p => exact framed_writeReg _ _ p
  | unlockPassword val p => exact framed_writeReg _ _ p
  | readStatusReg p | mxicReadCfgReg p | mxicReadSecurityReg p | readFlagStatusReg p | readVolatileCfgReg p
    | readEvCfgReg p | readExtAddrReg p | readGlobalFreezeBit p =>
    exact (framed_readReg8 _ p).seq fun _ => framed_pure ()
  | readNvCfgReg p => exact (framed_readNvCfgReg p).seq fun _ => framed_pure ()
  | readSectorProtectionReg p => exact (framed_readSectorProtectionReg p).seq fun _ => framed_pure ()
  | readNvLockBits addr p => exact (framed_readNvLockBits addr p).seq fun _ => framed_pure ()
  | reset p => exact framed_reset p

theorem framed_forM_regAccess (cs : List (Call ⊕ RegAccess)) :
    Framed 0 (cs.forM fun c => c.elim Call.run RegAccess.run) := by
  induction cs with
  | nil => exact framed_pure ()
  | cons c cs ih =>
    refine Framed.seq ?_ fun _ => ih
    cases c with
    | inl c => exact (Call.framed c).mono (Nat.zero_le _)
    | inr a => exact a.framed.mono (Nat.zero_le _)

-- The register accessors, those the driver never calls included, mixed in any order with the
-- public calls: from the deselected bus and whatever the register reads back, the trace keeps the
-- bus discipline.
theorem regAccess_bus_discipline (cs : List (Call ⊕ RegAccess)) (bus : Bus) (h : List Nat) :
    ∃ ws, ((cs.forM fun c => c.elim Call.run RegAccess.run).run bus h).2 = h ++ ws ∧
      disciplined flashCsN false ws = true := by
  obtain ⟨fs, hs, hw, -⟩ := framed_forM_regAccess cs bus h
  exact ⟨_, hw, disciplined_frames hs⟩

-- `flash_open_spi(1, NULL, 0)` returns without writing the control register at all.
theorem openSpi_without_reg_writes_nothing :
    (Call.openSpi 1 false true).run.run ⟨fun _ => 0, 0⟩ [] = (some (), []) := rfl

end Pyrite
