import Pyrite.Flash.Spi

namespace Pyrite

-- One byte-level call inside a frame: `spi_flash_write_byte`, `spi_flash_read_byte`, or one dummy
-- clock of `spi_flash_read`.
inductive Op
  | tx (v : Nat) (p : SpiProto)
  | rx (p : SpiProto)
  | clk
  deriving DecidableEq, Repr

namespace Op

-- The call an op stands for; `rx` gives the byte it read.
def run : Op → Ctrl (Option Nat)
  | tx v p => do
    spiFlashWriteByte v p
    pure none
  | rx p => some <$> spiFlashReadByte p
  | clk => do
    ctrlRegWrite flashClk
    ctrlRegWrite 0
    pure none

-- The values the call writes to the control register.
def writes : Op → List Nat
  | tx v p => (p.shifts.flatMap fun i =>
      [((v >>> i) &&& p.mask) ||| p.oe, ((v >>> i) &&& p.mask) ||| p.oe ||| flashClk]) ++ [0]
  | rx p => (p.shifts.flatMap fun _ => [0, flashClk]) ++ [0]
  | clk => [flashClk, 0]

end Op

def runOps : List Op → Ctrl (List Nat)
  | [] => pure []
  | o :: os => do
    let r ← o.run
    let rs ← runOps os
    pure (r.toList ++ rs)

-- A frame: the calls, then `spi_flash_deselect`. It gives the bytes read.
def frame (ops : List Op) : Ctrl (List Nat) := do
  let vs ← runOps ops
  spiFlashDeselect
  pure vs

def frameWrites (ops : List Op) : List Nat := ops.flatMap Op.writes ++ [flashCsN]

-- The address bytes of `spi_flash_write_addr` and `spi_flash_write_addr_4b`, most significant first.
def addrOps (addr : Nat) (p : SpiProto) : List Op :=
  [.tx ((addr >>> 16) &&& 0xff) p, .tx ((addr >>> 8) &&& 0xff) p, .tx ((addr >>> 0) &&& 0xff) p]

def addr4bOps (addr : Nat) (p : SpiProto) : List Op :=
  .tx ((addr >>> 24) &&& 0xff) p :: addrOps addr p

-- The byte `readLanes` assembles when it starts after the writes `h`: each clock samples the value
-- read back after its CLK-low write.
def lanesValue (bus : Bus) (p : SpiProto) : List Nat → List Nat → Nat → Nat
  | _, [], val => val
  | h, i :: is, val =>
    lanesValue bus p (h ++ [0, flashClk]) is (val ||| p.sample (bus.read (h ++ [0])) <<< i)

def Op.value (bus : Bus) (h : List Nat) : Op → Option Nat
  | rx p => some (lanesValue bus p h p.shifts 0)
  | _ => none

def opsValues (bus : Bus) : List Nat → List Op → List Nat
  | _, [] => []
  | h, o :: os => (o.value bus h).toList ++ opsValues bus (h ++ o.writes) os

section Run

variable (bus : Bus)

@[simp] theorem run_writeLanes (p : SpiProto) (v : Nat) (is : List Nat) (h : List Nat) :
    (writeLanes p v is).run bus h = (some (), h ++ is.flatMap fun i =>
      [((v >>> i) &&& p.mask) ||| p.oe, ((v >>> i) &&& p.mask) ||| p.oe ||| flashClk]) := by
  induction is generalizing h with
  | nil => simp [writeLanes]
  | cons i is ih => simp [writeLanes, Ctrl.run_bind, ih]

@[simp] theorem run_readLanes (p : SpiProto) (is : List Nat) (val : Nat) (h : List Nat) :
    (readLanes p is val).run bus h =
      (some (lanesValue bus p h is val), h ++ is.flatMap fun _ => [0, flashClk]) := by
  induction is generalizing h val with
  | nil => simp [readLanes, lanesValue]
  | cons i is ih => simp [readLanes, lanesValue, Ctrl.run_bind, ih]

@[simp] theorem Op.run_run (o : Op) (h : List Nat) :
    o.run.run bus h = (some (o.value bus h), h ++ o.writes) := by
  cases o <;> simp [Op.run, Op.value, Op.writes, spiFlashWriteByte, spiFlashReadByte, Ctrl.run_bind]

@[simp] theorem run_runOps (ops : List Op) (h : List Nat) :
    (runOps ops).run bus h = (some (opsValues bus h ops), h ++ ops.flatMap Op.writes) := by
  induction ops generalizing h with
  | nil => simp [runOps, opsValues]
  | cons o os ih => simp [runOps, opsValues, Ctrl.run_bind, ih]

@[simp] theorem run_frame (ops : List Op) (h : List Nat) :
    (frame ops).run bus h = (some (opsValues bus h ops), h ++ frameWrites ops) := by
  simp [frame, frameWrites, spiFlashDeselect, Ctrl.run_bind]

end Run

-- `runOps` unfolds op by op into the driver's calls.
@[simp] theorem runOps_nil : runOps [] = pure [] := rfl

@[simp] theorem runOps_cons_tx (v : Nat) (p : SpiProto) (os : List Op) :
    runOps (.tx v p :: os) = (do spiFlashWriteByte v p; runOps os) := by
  simp [runOps, Op.run]

@[simp] theorem runOps_cons_rx (p : SpiProto) (os : List Op) :
    runOps (.rx p :: os) = (do
      let b ← spiFlashReadByte p
      let bs ← runOps os
      pure (b :: bs)) := by
  simp [runOps, Op.run]

@[simp] theorem runOps_cons_clk (os : List Op) :
    runOps (.clk :: os) = (do ctrlRegWrite flashClk; ctrlRegWrite 0; runOps os) := by
  simp [runOps, Op.run]

theorem runOps_append (os os' : List Op) :
    runOps (os ++ os') = (do
      let vs ← runOps os
      let vs' ← runOps os'
      pure (vs ++ vs')) := by
  induction os with
  | nil => simp [runOps]
  | cons o os ih =>
    rw [List.cons_append, runOps, runOps, ih]
    simp only [bind_assoc, pure_bind, List.append_assoc]

theorem runOps_map_tx (vals : List Nat) (p : SpiProto) :
    runOps (vals.map (.tx · p)) = (do vals.forM fun v => spiFlashWriteByte v p; pure []) := by
  induction vals with
  | nil => rfl
  | cons v vs ih => simp [ih]

theorem runOps_addrOps (addr : Nat) (p : SpiProto) :
    runOps (addrOps addr p) = (do spiFlashWriteAddr addr p; pure []) := by
  simp [addrOps, spiFlashWriteAddr]

theorem runOps_addr4bOps (addr : Nat) (p : SpiProto) :
    runOps (addr4bOps addr p) = (do spiFlashWriteAddr4b addr p; pure []) := by
  simp [addr4bOps, addrOps, spiFlashWriteAddr4b]

-- `size_t` wrap-around leaves the low bytes of an address alone.
theorem sizeWrap_shiftRight_and {k m : Nat} (h : k + m ≤ 64) (a : Nat) :
    (sizeWrap a >>> k) &&& (2 ^ m - 1) = (a >>> k) &&& (2 ^ m - 1) := by
  apply Nat.eq_of_testBit_eq
  intro i
  simp only [Nat.testBit_and, Nat.testBit_shiftRight, sizeWrap, Nat.testBit_mod_two_pow,
    Nat.testBit_two_pow_sub_one]
  by_cases hi : i < m <;> simp [hi]
  omega

theorem addrByte_sizeWrap {k : Nat} (h : k ≤ 56) (a : Nat) :
    (sizeWrap a >>> k) &&& 0xff = (a >>> k) &&& 0xff :=
  sizeWrap_shiftRight_and (m := 8) (by omega) a

-- The offset of an address in its page, as the driver's mask computes it.
theorem and_page (a : Nat) : a &&& (spiPageSize - 1) = a % 256 :=
  Nat.and_pow_two_sub_one_eq_mod a 8

theorem sizeWrap_mod {k : Nat} (h : k ≤ 64) (a : Nat) : sizeWrap a % 2 ^ k = a % 2 ^ k :=
  Nat.mod_mod_of_dvd a (Nat.pow_dvd_pow 2 h)

theorem sizeWrap_mod_page (a : Nat) : sizeWrap a % 256 = a % 256 := sizeWrap_mod (k := 8) (by omega) a

theorem sizeWrap_add_sizeWrap (a k : Nat) : sizeWrap (sizeWrap a + k) = sizeWrap (a + k) :=
  Nat.mod_add_mod a _ k

theorem extByte_sizeWrap (a : Nat) : (sizeWrap a >>> 24) % 256 = (a >>> 24) % 256 := by
  simpa only [Nat.and_pow_two_sub_one_eq_mod] using sizeWrap_shiftRight_and (k := 24) (m := 8) (by omega) a

theorem spiFlashWriteAddr_sizeWrap (a : Nat) (p : SpiProto) :
    spiFlashWriteAddr (sizeWrap a) p = spiFlashWriteAddr a p := by
  simp only [spiFlashWriteAddr, addrByte_sizeWrap (show 16 ≤ 56 by omega),
    addrByte_sizeWrap (show 8 ≤ 56 by omega), addrByte_sizeWrap (show 0 ≤ 56 by omega)]

-- The register accessors, each as one frame.
theorem spiFlashCommand_eq (cmd : Nat) (p : SpiProto) :
    spiFlashCommand cmd p = (do let _ ← frame [.tx cmd p]; pure ()) := by
  simp only [spiFlashCommand, frame, runOps_cons_tx, runOps_nil, bind_pure_comp, bind_map_left, map_bind,
    Functor.map_map, id_map']

theorem spiFlashReadReg8_eq (cmd : Nat) (p : SpiProto) :
    spiFlashReadReg8 cmd p = (·.headD 0) <$> frame [.tx cmd p, .rx p] := by
  simp [spiFlashReadReg8, frame]

theorem spiFlashWriteReg_eq (cmd : Nat) (vals : List Nat) (p : SpiProto) :
    spiFlashWriteReg cmd vals p = (do let _ ← frame (.tx cmd p :: vals.map (.tx · p)); pure ()) := by
  simp only [spiFlashWriteReg, frame, runOps_cons_tx, runOps_map_tx, bind_pure_comp, bind_assoc, bind_map_left,
    map_bind, Functor.map_map, id_map']

-- The two accessors that read two bytes.
theorem spiFlashReadNvCfgReg_eq (p : SpiProto) :
    spiFlashReadNvCfgReg p = (fun vs => ((vs.headD 0 ||| vs.tail.headD 0 <<< 8) % 256)) <$>
      frame [.tx spiCmdReadNvConfigReg p, .rx p, .rx p] := by
  simp only [spiFlashReadNvCfgReg, bind_pure_comp, List.headD_eq_head?_getD, List.head?_tail, frame,
    runOps_cons_tx, runOps_cons_rx, runOps_nil, map_pure, Functor.map_map, bind_assoc, bind_map_left, map_bind,
    List.head?_cons, Option.getD_some, List.getElem?_cons_succ,
    List.getElem?_cons_zero]

theorem spiFlashReadSectorProtectionReg_eq (p : SpiProto) :
    spiFlashReadSectorProtectionReg p = (fun vs => vs.headD 0 ||| vs.tail.headD 0 <<< 8) <$>
      frame [.tx spiCmdReadSectorProtection p, .rx p, .rx p] := by
  simp only [spiFlashReadSectorProtectionReg, bind_pure_comp, List.headD_eq_head?_getD, List.head?_tail, frame,
    runOps_cons_tx, runOps_cons_rx, runOps_nil, map_pure, Functor.map_map, bind_assoc, bind_map_left, map_bind,
    List.head?_cons, Option.getD_some, List.getElem?_cons_succ,
    List.getElem?_cons_zero]

-- The accessor with an address: the opcode, a 4-byte address, then one byte in.
theorem spiFlashReadNvLockBits_eq (addr : Nat) (p : SpiProto) :
    spiFlashReadNvLockBits addr p = (·.headD 0) <$> frame (.tx spiCmdReadNvLockBits p :: addr4bOps addr p ++ [.rx p]) := by
  simp [spiFlashReadNvLockBits, frame, runOps_append, runOps_addr4bOps]

-- The busy-wait: status frames until one reads WIP (bit 0) clear, at most `n` of them.
theorem waitIdleFor_succ (n : Nat) : waitIdleFor (n + 1) = (do
    let s ← (·.headD 0) <$> frame [.tx spiCmdReadStatusReg .str, .rx .str]
    if s &&& 0x01 ≠ 0 then waitIdleFor n else pure ()) := by
  rw [waitIdleFor, spiFlashReadStatusReg, spiFlashReadReg8_eq]

theorem spiFlashReset_eq (p : SpiProto) :
    spiFlashReset p = (do
      let _ ← frame []
      let _ ← frame [.tx spiCmdResetEnable p]
      let _ ← frame [.tx spiCmdResetMemory p]
      pure ()) := by
  simp only [spiFlashReset, bind_pure_comp, ctrlRegRead_map_const, id_map', ctrlRegRead_bind_const, frame,
    runOps_nil, pure_bind, runOps_cons_tx, bind_map_left, map_bind, Functor.map_map, bind_assoc]

theorem spiFlashInit_eq (dev : FlashDevice) : spiFlashInit dev = (do
    spiFlashReset .str
    let ids ← frame [.tx spiCmdReadId .str, .rx .str, .rx .str, .rx .str]
    spiFlashInit.configure dev (ids.headD 0) (ids.getD 2 0)) := by
  simp only [spiFlashInit, frame, runOps_cons_tx, runOps_cons_rx, runOps_nil, bind_pure_comp, map_pure,
    Functor.map_map, map_bind, bind_assoc, bind_map_left, List.headD_eq_head?_getD, List.getD_eq_getElem?_getD,
    List.head?_cons, Option.getD_some, List.getElem?_cons_succ,
    List.getElem?_cons_zero]

-- The frame of `spi_flash_read`: command and address, the dummy clocks of a quad read, then one
-- read per byte.
def readOps (dev : FlashDevice) (addr len : Nat) : List Op :=
  (if dev.size > 0x1000000 then
      .tx (if dev.dataProto = .quadStr then spiCmd4bFastReadQuadIo else spiCmd4bRead) .str ::
        addr4bOps addr dev.dataProto
    else .tx (if dev.dataProto = .quadStr then spiCmdFastReadQuadIo else spiCmdRead) .str ::
        addrOps addr dev.dataProto) ++
  ((if dev.dataProto ≠ .str then List.replicate dev.readDummyCycles.toNat .clk else []) ++
    List.replicate len (.rx dev.dataProto))

theorem runOps_replicate_clk (n : Nat) :
    runOps (List.replicate n .clk) = (do spiFlashRead.dummyClocks n; pure []) := by
  induction n with
  | zero => rfl
  | succ n ih => simp [List.replicate_succ, spiFlashRead.dummyClocks, ih]

theorem runOps_replicate_rx (p : SpiProto) (n : Nat) :
    runOps (List.replicate n (.rx p)) = spiFlashRead.readBytes p n := by
  induction n with
  | zero => rfl
  | succ n ih => simp [List.replicate_succ, spiFlashRead.readBytes, ih]

theorem spiFlashRead_eq (dev : FlashDevice) (addr len : Nat) :
    spiFlashRead dev addr len = (fun vs => ((0 : Int), vs)) <$> frame (readOps dev addr len) := by
  have hp : dev.dataProto = .quadStr ∨ dev.dataProto = .str := by
    unfold FlashDevice.dataProto; split <;> simp
  rw [spiFlashRead, readOps, frame]
  by_cases hs : dev.size > 0x1000000 <;> rcases hp with hp | hp <;>
    simp only [hs, hp, ↓reduceIte, ne_eq, reduceCtorEq, not_false_eq_true, not_true_eq_false, bind_pure_comp,
      pure_bind, List.nil_append, List.cons_append, runOps_cons_tx, runOps_append, runOps_addrOps,
      runOps_addr4bOps, runOps_replicate_clk, runOps_replicate_rx, bind_map_left, List.nil_append_fun, id_map,
      map_bind, bind_assoc, Functor.map_map]

end Pyrite
