import Pyrite.Flash.Wire

namespace Pyrite

-- The output enables OE0..OE3, bits 8..11 of a control-register value.
def oeOf (w : Nat) : Nat := (w >>> 8) % 16

@[simp] theorem oeOf_zero : oeOf 0 = 0 := rfl
@[simp] theorem oeOf_flashClk : oeOf flashClk = 0 := by decide

/-! The bus discipline, checked write by write against the write before: (i) a write that moves
CS# has CLK low, and so has the write before it; (ii) inside a frame, once a clock has been raised
with every output disabled (the flash may then drive the lanes), no write enables an output. -/

def writeOk (prev : Nat) (listening : Bool) (w : Nat) : Bool :=
  (csnOf w == csnOf prev || (!clkOf w && !clkOf prev)) && (csnOf w || !listening || oeOf w == 0)

-- Whether the frame has had a listening clock once `w` is written; raising CS# ends the frame.
def listensAfter (listening : Bool) (w : Nat) : Bool :=
  !csnOf w && (listening || (clkOf w && oeOf w == 0))

def disciplined : Nat → Bool → List Nat → Bool
  | _, _, [] => true
  | prev, listening, w :: ws => writeOk prev listening w && disciplined w (listensAfter listening w) ws

-- The calls of the frames the driver builds: writes, then reads and dummy clocks, and never a
-- dummy clock first.
def txThenListen : List Op → Bool
  | [] => true
  | .tx _ _ :: os => txThenListen os
  | os => os.all (!·.isTx)

def frameShaped : List Op → Bool
  | .clk :: _ => false
  | os => txThenListen os

-- A program on the control register whose every run, whatever the register reads back and however
-- its busy-waits end, writes a sequence of whole frames of the driver's shape; a run that returns
-- writes at least `n` of them.
def Framed (n : Nat) (x : Ctrl α) : Prop :=
  ∀ bus h, ∃ fs : List (List Op), (∀ ops ∈ fs, frameShaped ops) ∧
    (x.run bus h).2 = h ++ fs.flatMap frameWrites ∧ ((x.run bus h).1.isSome → n ≤ fs.length)

-- The public entry points of the SPI flash driver, with their arguments.
inductive Call
  | openSpi (dataWidth : Int) (hasReg alloc : Bool)
  | read (dev : FlashDevice) (addr len : Nat)
  | write (dev : FlashDevice) (addr : Nat) (src : List Nat)
  | erase (dev : FlashDevice) (addr len : Nat)
  | release (dev : Option FlashDevice)

namespace Call

def run : Call → Ctrl Unit
  | openSpi dataWidth hasReg alloc => do let _ ← flashOpenSpi dataWidth hasReg alloc
  | read dev addr len => do let _ ← spiFlashRead dev addr len
  | write dev addr src => do let _ ← spiFlashWrite dev addr src
  | erase dev addr len => do let _ ← spiFlashErase dev addr len
  | release dev => flashRelease dev

-- The calls that return before reaching the hardware: `flash_open_spi` with a NULL `reg` or a
-- failed `calloc`, and `flash_release(NULL)`.
def silent : Call → Bool
  | openSpi _ hasReg alloc => !hasReg || !alloc
  | release dev => dev.isNone
  | _ => false

end Call

-- The register accessors of `flash_spi.c` that make one whole frame, with their arguments: those
-- the driver calls and those it never does, which stay available to any caller.
inductive RegAccess
  | writeEnable (p : SpiProto)
  | writeDisable (p : SpiProto)
  | readStatusReg (p : SpiProto)
  | writeStatusReg (val : Nat) (p : SpiProto)
  | mxicWriteStatusCfgReg (status cfg : Nat) (p : SpiProto)
  | mxicReadCfgReg (p : SpiProto)
  | mxicReadSecurityReg (p : SpiProto)
  | readFlagStatusReg (p : SpiProto)
  | clearFlagStatusReg (p : SpiProto)
  | readNvCfgReg (p : SpiProto)
  | readVolatileCfgReg (p : SpiProto)
  | writeVolatileConfigReg (val : Nat) (p : SpiProto)
  | readEvCfgReg (p : SpiProto)
  | writeEvCfgReg (val : Nat) (p : SpiProto)
  | readExtAddrReg (p : SpiProto)
  | writeExtAddrReg (val : Nat) (p : SpiProto)
  | readSectorProtectionReg (p : SpiProto)
  | readGlobalFreezeBit (p : SpiProto)
  | readNvLockBits (addr : Nat) (p : SpiProto)
  | unlockPassword (val : Nat → Nat) (p : SpiProto)
  | reset (p : SpiProto)

def RegAccess.run : RegAccess → Ctrl Unit
  | writeEnable p => spiFlashWriteEnable p
  | writeDisable p => spiFlashWriteDisable p
  | readStatusReg p => do let _ ← spiFlashReadStatusReg p
  | writeStatusReg val p => spiFlashWriteStatusReg val p
  | mxicWriteStatusCfgReg status cfg p => spiMxicFlashWriteStatusCfgReg status cfg p
  | mxicReadCfgReg p => do let _ ← spiMxicFlashReadCfgReg p
  | mxicReadSecurityReg p => do let _ ← spiMxicFlashReadSecurityReg p
  | readFlagStatusReg p => do let _ ← spiFlashReadFlagStatusReg p
  | clearFlagStatusReg p => spiFlashClearFlagStatusReg p
  | readNvCfgReg p => do let _ ← spiFlashReadNvCfgReg p
  | readVolatileCfgReg p => do let _ ← spiFlashReadVolatileCfgReg p
  | writeVolatileConfigReg val p => spiFlashWriteVolatileConfigReg val p
  | readEvCfgReg p => do let _ ← spiFlashReadEvCfgReg p
  | writeEvCfgReg val p => spiFlashWriteEvCfgReg val p
  | readExtAddrReg p => do let _ ← spiFlashReadExtAddrReg p
  | writeExtAddrReg val p => spiFlashWriteExtAddrReg val p
  | readSectorProtectionReg p => do let _ ← spiFlashReadSectorProtectionReg p
  | readGlobalFreezeBit p => do let _ ← spiFlashReadGlobalFreezeBit p
  | readNvLockBits addr p => do let _ ← spiFlashReadNvLockBits addr p
  | unlockPassword val p => spiFlashUnlockPassword val p
  | reset p => spiFlashReset p

end Pyrite
