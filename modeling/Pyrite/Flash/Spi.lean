import Pyrite.Flash.Ctrl
import Pyrite.RegIf.Basic

namespace Pyrite

def spiCmdResetEnable : Nat := 0x66
def spiCmdResetMemory : Nat := 0x99
def spiCmdReadId : Nat := 0x9F
def spiCmdRead : Nat := 0x03
def spiCmdFastReadQuadIo : Nat := 0xEB
def spiCmd4bRead : Nat := 0x13
def spiCmd4bFastReadQuadIo : Nat := 0xEC
def spiCmdWriteEnable : Nat := 0x06
def spiCmdWriteDisable : Nat := 0x04
def spiCmdReadStatusReg : Nat := 0x05
def spiCmdReadFlagStatusReg : Nat := 0x70
def spiCmdReadNvConfigReg : Nat := 0xB5
def spiCmdReadVConfigReg : Nat := 0x85
def spiCmdReadEvConfigReg : Nat := 0x65
def spiCmdReadExtAddrReg : Nat := 0xC8
def spiCmdWriteStatusReg : Nat := 0x01
def spiCmdWriteVConfigReg : Nat := 0x81
def spiCmdWriteEvConfigReg : Nat := 0x61
def spiCmdWriteExtAddrReg : Nat := 0xC5
def spiCmdClearFlagStatusReg : Nat := 0x50
def spiCmdPageProgram : Nat := 0x02
def spiCmdPageProgramQuadIn : Nat := 0x32
def spiCmd4kbSubsectorErase : Nat := 0x20
def spiCmdSectorErase : Nat := 0xD8
def spiCmdReadSectorProtection : Nat := 0x2D
def spiCmdReadGlobalFreezeBit : Nat := 0xA7
def spiCmdReadNvLockBits : Nat := 0xE2
def spiCmdUnlockPassword : Nat := 0x29
def spiMxicCmdRdcr : Nat := 0x15
def spiMxicCmdRdscur : Nat := 0x2B

def spiPageSize : Nat := 0x100
def spiSubsectorSize : Nat := 0x1000
def spiSectorSize : Nat := 0x10000

-- The fields of `struct flash_device` the SPI driver reads or sets.
structure FlashDevice where
  size : Nat
  dataWidth : Int
  writeBufferSize : Nat
  eraseBlockSize : Nat
  protocol : SpiProto
  bulkProtocol : SpiProto
  readDummyCycles : Int
  deriving DecidableEq, Repr

-- The device `flash_open_spi` gets from `calloc`, with its data width set.
def FlashDevice.zero (dataWidth : Int) : FlashDevice := ⟨0, dataWidth, 0, 0, .str, .str, 0⟩

-- The register accessors are one pattern: an opcode in `p`, then bytes out or in, then deselect.
def spiFlashCommand (cmd : Nat) (p : SpiProto) : Ctrl Unit := do
  spiFlashWriteByte cmd p
  spiFlashDeselect

def spiFlashReadReg8 (cmd : Nat) (p : SpiProto) : Ctrl Nat := do
  spiFlashWriteByte cmd p
  let val ← spiFlashReadByte p
  spiFlashDeselect
  pure val

def spiFlashWriteReg (cmd : Nat) (vals : List Nat) (p : SpiProto) : Ctrl Unit := do
  spiFlashWriteByte cmd p
  vals.forM fun v => spiFlashWriteByte v p
  spiFlashDeselect

def spiFlashWriteEnable (p : SpiProto) : Ctrl Unit := spiFlashCommand spiCmdWriteEnable p

def spiFlashWriteDisable (p : SpiProto) : Ctrl Unit := spiFlashCommand spiCmdWriteDisable p

def spiFlashReadStatusReg (p : SpiProto) : Ctrl Nat := spiFlashReadReg8 spiCmdReadStatusReg p

def spiFlashWriteStatusReg (val : Nat) (p : SpiProto) : Ctrl Unit :=
  spiFlashWriteReg spiCmdWriteStatusReg [val] p

def spiMxicFlashWriteStatusCfgReg (status cfg : Nat) (p : SpiProto) : Ctrl Unit :=
  spiFlashWriteReg spiCmdWriteStatusReg [status, cfg] p

def spiMxicFlashReadCfgReg (p : SpiProto) : Ctrl Nat := spiFlashReadReg8 spiMxicCmdRdcr p

def spiMxicFlashReadSecurityReg (p : SpiProto) : Ctrl Nat := spiFlashReadReg8 spiMxicCmdRdscur p

def spiFlashReadFlagStatusReg (p : SpiProto) : Ctrl Nat := spiFlashReadReg8 spiCmdReadFlagStatusReg p

def spiFlashClearFlagStatusReg (p : SpiProto) : Ctrl Unit := spiFlashCommand spiCmdClearFlagStatusReg p

-- `val` is declared `uint8_t` here, so the high byte is shifted out of it.
def spiFlashReadNvCfgReg (p : SpiProto) : Ctrl Nat := do
  spiFlashWriteByte spiCmdReadNvConfigReg p
  let val ← spiFlashReadByte p
  let hi ← spiFlashReadByte p
  spiFlashDeselect
  pure ((val ||| hi <<< 8) % 256)

def spiFlashReadVolatileCfgReg (p : SpiProto) : Ctrl Nat := spiFlashReadReg8 spiCmdReadVConfigReg p

def spiFlashWriteVolatileConfigReg (val : Nat) (p : SpiProto) : Ctrl Unit :=
  spiFlashWriteReg spiCmdWriteVConfigReg [val] p

def spiFlashReadEvCfgReg (p : SpiProto) : Ctrl Nat := spiFlashReadReg8 spiCmdReadEvConfigReg p

def spiFlashWriteEvCfgReg (val : Nat) (p : SpiProto) : Ctrl Unit :=
  spiFlashWriteReg spiCmdWriteEvConfigReg [val] p

def spiFlashReadExtAddrReg (p : SpiProto) : Ctrl Nat := spiFlashReadReg8 spiCmdReadExtAddrReg p

def spiFlashWriteExtAddrReg (val : Nat) (p : SpiProto) : Ctrl Unit :=
  spiFlashWriteReg spiCmdWriteExtAddrReg [val] p

def spiFlashReadSectorProtectionReg (p : SpiProto) : Ctrl Nat := do
  spiFlashWriteByte spiCmdReadSectorProtection p
  let val ← spiFlashReadByte p
  let hi ← spiFlashReadByte p
  spiFlashDeselect
  pure (val ||| hi <<< 8)

def spiFlashReadGlobalFreezeBit (p : SpiProto) : Ctrl Nat := spiFlashReadReg8 spiCmdReadGlobalFreezeBit p

-- The lock bits of the sector at `addr`, with a 4-byte address.
def spiFlashReadNvLockBits (addr : Nat) (p : SpiProto) : Ctrl Nat := do
  spiFlashWriteByte spiCmdReadNvLockBits p
  spiFlashWriteAddr4b addr p
  let val ← spiFlashReadByte p
  spiFlashDeselect
  pure val

-- The password is the 8 bytes `val[0] .. val[7]`.
def spiFlashUnlockPassword (val : Nat → Nat) (p : SpiProto) : Ctrl Unit :=
  spiFlashWriteReg spiCmdUnlockPassword ((List.range 8).map val) p

def spiFlashReset (p : SpiProto) : Ctrl Unit := do
  spiFlashDeselect
  spiFlashWriteByte spiCmdResetEnable p
  spiFlashDeselect
  let _ ← ctrlRegRead
  let _ ← ctrlRegRead
  spiFlashWriteByte spiCmdResetMemory p
  spiFlashDeselect
  let _ ← ctrlRegRead
  let _ ← ctrlRegRead

def spiFlashRelease : Ctrl Unit := spiFlashDeselect

-- `(size_t)1 << k`. C leaves counts outside 0 .. 63 undefined; they are taken modulo 64, as the
-- x86-64 shift does.
def sizeShl (k : Int) : Nat := 2 ^ (k % 64).toNat

-- The vendor-specific part of `spi_flash_init`, after the status register read.
def spiFlashInitVendor (mfrId : Nat) (dev : FlashDevice) : Ctrl FlashDevice :=
  match mfrId with
  | 0x20 => do
    let _ ← spiFlashReadFlagStatusReg .str
    let _ ← spiFlashReadNvCfgReg .str
    let _ ← spiFlashReadVolatileCfgReg .str
    let _ ← spiFlashReadEvCfgReg .str
    let _ ← spiFlashReadGlobalFreezeBit .str
    let _ ← spiFlashReadSectorProtectionReg .str
    if dev.dataWidth = 4 then do
      spiFlashWriteVolatileConfigReg 0xFB .str
      pure { dev with bulkProtocol := .quadStr, readDummyCycles := 10 }
    else pure dev
  | 0xC2 => do
    let _ ← spiMxicFlashReadCfgReg .str
    let _ ← spiFlashReadSectorProtectionReg .str
    let _ ← spiMxicFlashReadSecurityReg .str
    if dev.dataWidth = 4 then do
      spiMxicFlashWriteStatusCfgReg 0x40 0x07 .str
      pure { dev with bulkProtocol := .quadStr, readDummyCycles := 6 }
    else pure dev
  | _ => pure dev

-- The size the ID's capacity byte gives: BCD `2^(c+6)` for Micron, `2^(c-32)` for Macronix.
def idSize (mfrId memCapacity : Nat) : Option Nat :=
  match mfrId with
  | 0x20 => some (sizeShl (((memCapacity &&& 0xf) + ((memCapacity >>> 4) &&& 0xf) * 10 : Nat) + 6))
  | 0xC2 => some (sizeShl ((memCapacity : Int) - 32))
  | _ => none

-- `spi_flash_init`; the result carries the device with the fields it set.
def spiFlashInit (dev : FlashDevice) : Ctrl (Int × FlashDevice) := do
  spiFlashReset .str
  spiFlashWriteByte spiCmdReadId .str
  let mfrId ← spiFlashReadByte .str
  let _ ← spiFlashReadByte .str
  let memCapacity ← spiFlashReadByte .str
  spiFlashDeselect
  configure dev mfrId memCapacity
where
  -- The rest of `spi_flash_init`, once the ID is read.
  configure (dev : FlashDevice) (mfrId memCapacity : Nat) : Ctrl (Int × FlashDevice) :=
    if mfrId = 0 ∨ mfrId = 0xff then do
      spiFlashDeselect
      pure (-1, dev)
    else match idSize mfrId memCapacity with
      | none => do
        spiFlashDeselect
        pure (-1, dev)
      | some size => do
        let dev := { dev with size, protocol := .str, bulkProtocol := .str, readDummyCycles := 0,
                              writeBufferSize := spiPageSize, eraseBlockSize := spiSubsectorSize }
        let _ ← spiFlashReadStatusReg .str
        let dev ← spiFlashInitVendor mfrId dev
        spiFlashRelease
        pure (0, dev)

-- The lane width of the data phase: four lanes when the device is wired for them.
def FlashDevice.dataProto (dev : FlashDevice) : SpiProto :=
  if dev.dataWidth = 4 then .quadStr else .str

-- `spi_flash_read`; the result carries the bytes written to `dest`.
def spiFlashRead (dev : FlashDevice) (addr len : Nat) : Ctrl (Int × List Nat) := do
  let p := dev.dataProto
  if dev.size > 0x1000000 then do
    if p = .quadStr then spiFlashWriteByte spiCmd4bFastReadQuadIo .str
    else spiFlashWriteByte spiCmd4bRead .str
    spiFlashWriteAddr4b addr p
  else do
    if p = .quadStr then spiFlashWriteByte spiCmdFastReadQuadIo .str
    else spiFlashWriteByte spiCmdRead .str
    spiFlashWriteAddr addr p
  if p ≠ .str then dummyClocks dev.readDummyCycles.toNat
  let bytes ← readBytes p len
  spiFlashDeselect
  pure (0, bytes)
where
  dummyClocks : Nat → Ctrl Unit
    | 0 => pure ()
    | n + 1 => do
      ctrlRegWrite flashClk
      ctrlRegWrite 0
      dummyClocks n
  readBytes (p : SpiProto) : Nat → Ctrl (List Nat)
    | 0 => pure []
    | n + 1 => do
      let b ← spiFlashReadByte p
      let bs ← readBytes p n
      pure (b :: bs)

-- `while (spi_flash_read_status_reg(fdev, SPI_PROTO_STR) & 0x01) {};` with at most `n` reads.
def waitIdleFor : Nat → Ctrl Unit
  | 0 => Ctrl.stall
  | n + 1 => do
    let st ← spiFlashReadStatusReg .str
    if st &&& 0x01 ≠ 0 then waitIdleFor n else pure ()

def Ctrl.polls : Ctrl Nat := ⟨fun bus h => (some bus.polls, h)⟩

def waitIdle : Ctrl Unit := do
  let n ← Ctrl.polls
  waitIdleFor n

-- The inner loop of `spi_flash_write`: stream bytes until the source runs out or the address
-- reaches a page boundary; it returns the address and the rest of the source.
def programPage (p : SpiProto) : Nat → Nat → (s : List Nat) →
    Ctrl {r : Nat × List Nat // r.2.length ≤ s.length}
  | addr, b, [] => do
    spiFlashWriteByte b p
    pure ⟨(sizeWrap (addr + 1), []), le_refl _⟩
  | addr, b, b' :: s => do
    spiFlashWriteByte b p
    let addr := sizeWrap (addr + 1)
    if addr &&& (spiPageSize - 1) = 0 then pure ⟨(addr, b' :: s), le_refl _⟩
    else do
      let r ← programPage p addr b' s
      pure ⟨r.1, Nat.le_succ_of_le r.2⟩

-- `spi_flash_write` with `src` the `len` bytes of the source buffer.
def spiFlashWrite (dev : FlashDevice) (addr : Nat) (src : List Nat) : Ctrl Int :=
  loop dev.dataProto addr src
where
  loop (p : SpiProto) (addr : Nat) : List Nat → Ctrl Int
    | [] => do
      spiFlashDeselect
      pure 0
    | b :: s =>
      if addr &&& (spiPageSize - 1) ≠ 0 then do
        spiFlashDeselect
        pure (-1)
      else do
        if dev.size > 0x1000000 then spiFlashWriteExtAddrReg ((addr >>> 24) % 256) .str
        spiFlashWriteEnable .str
        let st ← spiFlashReadStatusReg .str
        if st &&& 0x02 = 0 then do
          spiFlashDeselect
          pure (-1)
        else do
          if p = .quadStr then do
            spiFlashWriteByte spiCmdPageProgramQuadIn .str
            spiFlashWriteAddr addr .str
          else do
            spiFlashWriteByte spiCmdPageProgram .str
            spiFlashWriteAddr addr .str
          let r ← programPage p addr b s
          spiFlashDeselect
          waitIdle
          loop p r.1.1 r.1.2
  termination_by s => s.length
  decreasing_by have := r.2; simp only [List.length_cons]; omega

-- The block size `spi_flash_erase` picks for a request: 64 KiB, 4 KiB, or 0 for none.
def eraseBlockSizeFor (addr len : Nat) : Nat :=
  if addr &&& (spiSectorSize - 1) = 0 ∧ len ≥ spiSectorSize then spiSectorSize
  else if addr &&& (spiSubsectorSize - 1) = 0 ∧ len ≥ spiSubsectorSize then spiSubsectorSize
  else 0

def spiFlashErase (dev : FlashDevice) (addr len : Nat) : Ctrl Int :=
  if len = 0 then do
    spiFlashDeselect
    pure 0
  else
    let eraseBlockSize := eraseBlockSizeFor addr len
    if hb : eraseBlockSize = 0 then do
      spiFlashDeselect
      pure (-1)
    else do
      if dev.size > 0x1000000 then spiFlashWriteExtAddrReg ((addr >>> 24) % 256) .str
      spiFlashWriteEnable .str
      let st ← spiFlashReadStatusReg .str
      if st &&& 0x02 = 0 then do
        spiFlashDeselect
        pure (-1)
      else do
        if eraseBlockSize = spiSectorSize then do
          spiFlashWriteByte spiCmdSectorErase .str
          spiFlashWriteAddr addr .str
        else if eraseBlockSize = spiSubsectorSize then do
          spiFlashWriteByte spiCmd4kbSubsectorErase .str
          spiFlashWriteAddr addr .str
        spiFlashDeselect
        waitIdle
        if len ≤ eraseBlockSize then do
          spiFlashDeselect
          pure 0
        else spiFlashErase dev (sizeWrap (addr + eraseBlockSize)) (len - eraseBlockSize)
termination_by len
decreasing_by omega

-- `flash_release`: the SPI driver's release, on a device that is there.
def flashRelease : Option FlashDevice → Ctrl Unit
  | none => pure ()
  | some _ => spiFlashRelease

-- `flash_open_spi`: `hasReg` says whether `reg` is non-NULL and `alloc` whether `calloc` succeeds.
def flashOpenSpi (dataWidth : Int) (hasReg alloc : Bool) : Ctrl (Option FlashDevice) :=
  if !hasReg then pure none
  else if !alloc then pure none
  else do
    let (ret, dev) ← spiFlashInit (FlashDevice.zero dataWidth)
    if ret ≠ 0 then do
      flashRelease (some dev)
      pure none
    else pure (some dev)

-- `flash_read`, `flash_write` and `flash_erase` on an open SPI device.
def flashRead : Option FlashDevice → Nat → Nat → Ctrl (Int × List Nat)
  | none, _, _ => pure (-1, [])
  | some dev, addr, len => spiFlashRead dev addr len

def flashWrite : Option FlashDevice → Nat → List Nat → Ctrl Int
  | none, _, _ => pure (-1)
  | some dev, addr, src => spiFlashWrite dev addr src

def flashErase : Option FlashDevice → Nat → Nat → Ctrl Int
  | none, _, _ => pure (-1)
  | some dev, addr, len => spiFlashErase dev addr len

end Pyrite
