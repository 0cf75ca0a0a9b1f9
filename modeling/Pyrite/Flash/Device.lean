import Pyrite.Flash.Wire
import Pyrite.Flash.Nor

namespace Pyrite

/-! An SPI NOR flash as the control register's wires drive it: CS# (bit 17) delimits frames, the
flash samples D0..D3 at each rising CLK (bit 16) while CS# is low, moves to its next output bit at
each falling CLK, and acts on a frame's command when CS# rises. It answers READ ID with an ID of a
part of `2^k` bytes and READ STATUS with WIP (bit 0) and WEL (bit 1); it programs by ANDing into a
256-byte page and erases 4 KiB and 64 KiB blocks to `0xFF`, only with WEL set, and stays busy for
`tBusy` status reads after each, taking no other command meanwhile. Quad I/O reads wait the dummy
clocks the configuration register selects, and the quad commands work only with quad enabled:
always on a Micron part, as the nonvolatile QE bit of the status register says on a Macronix one.
Power-on and RESET MEMORY load the configuration register from its nonvolatile copy.

The chip's state between frames is a `Chip`; the wire-level machine `Flash` adds the frame in
progress. -/

-- The two vendors `spi_flash_init` knows.
inductive Vendor
  | micron
  | macronix
  deriving DecidableEq, Repr

-- The READ ID answer of a part of `2^k` bytes: manufacturer, memory type and capacity code (BCD of
-- `k - 6` for Micron, `k + 32` for Macronix).
def Vendor.id : Vendor → Nat → List Nat
  | micron, k => [0x20, 0xBA, (k - 6) / 10 * 16 + (k - 6) % 10]
  | macronix, k => [0xC2, 0x20, k + 32]

structure Chip where
  k : Nat
  vendor : Vendor
  -- The nonvolatile configuration: Micron's volatile configuration register or Macronix's
  -- configuration register as power-on and reset load it.
  nvCfg : Nat
  -- The status reads a program or erase keeps WIP set for.
  tBusy : Nat
  mem : Nat → Nat
  wel : Bool
  ext : Nat
  dummy : Nat
  qe : Bool
  -- The status reads the operation in progress still keeps WIP set for.
  busy : Nat

namespace Chip

/-! ### The frame's samples -/

-- A field of `n` clocks from clock `c` of the frame, `w` lanes a clock, most significant first.
def field (ss : List Nat) (w c n : Nat) : Nat := assemble w ((ss.drop c).take n)

def opcode (ss : List Nat) : Nat := field ss 1 0 8

-- The whole bytes of `ss`, `w` lanes a clock.
def bytes (w : Nat) (ss : List Nat) : List Nat := go (ss.length / (8 / w)) ss
where
  go : Nat → List Nat → List Nat
    | 0, _ => []
    | n + 1, ss => field ss w 0 (8 / w) :: go n (ss.drop (8 / w))

-- The 3-byte address after the opcode, in the bank the extended address register selects.
def addr3 (c : Chip) (ss : List Nat) (w : Nat) : Nat := c.ext * 2 ^ 24 + field ss w 8 (24 / w)

-- The 4-byte address after the opcode.
def addr4 (ss : List Nat) (w : Nat) : Nat := field ss w 8 (32 / w)

/-! ### Commands -/

def status (c : Chip) : Nat := (if c.wel then 0x02 else 0x00) + (if c.busy = 0 then 0x00 else 0x01)

def byteAt (c : Chip) (a : Nat) : Nat := c.mem (a % 2 ^ c.k)

-- PAGE PROGRAM at `a`: the bytes ANDed into the page of `a`, wrapping inside it.
def pageProgram (c : Chip) (a : Nat) (data : List Nat) : Chip :=
  if c.wel then
    { c with mem := andInto (fun j => (a - a % 256 + (a % 256 + j) % 256) % 2 ^ c.k) c.mem data 0,
             wel := false, busy := c.tBusy }
  else c

-- A block erase of `len` bytes: the aligned block holding `a` set to `0xFF`.
def blockErase (c : Chip) (a len : Nat) : Chip :=
  if c.wel then
    let start := a % 2 ^ c.k / len * len
    { c with mem := fun y => if start ≤ y ∧ y < start + len then 0xFF else c.mem y, wel := false,
             busy := c.tBusy }
  else c

-- The dummy clocks the configuration registers select for a quad I/O read: Micron's volatile
-- configuration (bits 7..4, 0 or 15 for the default of 10) and Macronix's configuration register
-- (bits 7..6).
def micronDummy (vcr : Nat) : Nat := if vcr / 16 = 0 ∨ vcr / 16 = 15 then 10 else vcr / 16

def macronixDummy (cr : Nat) : Nat := [6, 4, 8, 10].getD (cr / 64 % 4) 6

def cfgDummy : Vendor → Nat → Nat
  | .micron, cfg => micronDummy cfg
  | .macronix, cfg => macronixDummy cfg

-- What a frame that sampled `ss` does when CS# rises. A busy chip takes only READ STATUS, each one
-- a step of the operation in progress. WRITE VOLATILE CONFIGURATION is Micron's, and WRITE STATUS
-- with the configuration byte after the status byte Macronix's.
def execute (c : Chip) (ss : List Nat) : Chip :=
  if c.busy ≠ 0 then
    if opcode ss = 0x05 then { c with busy := c.busy - 1 } else c
  else match opcode ss with
  | 0x06 => { c with wel := true }
  | 0x99 => { c with wel := false, ext := 0, dummy := cfgDummy c.vendor c.nvCfg }
  | 0xC5 => { c with ext := field ss 1 8 8 }
  | 0x81 => if c.vendor = .micron then { c with dummy := micronDummy (field ss 1 8 8) } else c
  | 0x01 =>
    if c.vendor = .macronix then
      { c with qe := field ss 1 8 8 &&& 0x40 != 0, dummy := macronixDummy (field ss 1 16 8) }
    else c
  | 0x02 => c.pageProgram (c.addr3 ss 1) (bytes 1 (ss.drop 32))
  | 0x32 => if c.qe then c.pageProgram (c.addr3 ss 1) (bytes 4 (ss.drop 32)) else c
  | 0x20 => c.blockErase (c.addr3 ss 1) 0x1000
  | 0xD8 => c.blockErase (c.addr3 ss 1) 0x10000
  | _ => c

-- The lanes after the `n`th falling edge while the flash sends the bytes `byte 0, byte 1, ..` from
-- clock `start` on, MSB first in protocol `p`.
def send (p : SpiProto) (start : Nat) (byte : Nat → Nat) (n : Nat) : Nat :=
  if n < start then 0 else p.present (byte ((n - start) / (8 / p.width))) ((n - start) % (8 / p.width))

-- The value the flash drives on D0..D3 after `n` falling edges of a frame that has sampled `ss`; a
-- busy chip answers only READ STATUS.
def lanes (c : Chip) (ss : List Nat) (n : Nat) : Nat :=
  if c.busy ≠ 0 ∧ opcode ss ≠ 0x05 then 0
  else match opcode ss with
  | 0x05 => send .str 8 (fun _ => c.status) n
  | 0x9F => send .str 8 (fun j => (c.vendor.id c.k).getD j 0) n
  | 0x03 => send .str 32 (fun j => c.byteAt (c.addr3 ss 1 + j)) n
  | 0x13 => send .str 40 (fun j => c.byteAt (addr4 ss 1 + j)) n
  | 0xEB => if c.qe then send .quadStr (14 + c.dummy) (fun j => c.byteAt (c.addr3 ss 4 + j)) n else 0
  | 0xEC => if c.qe then send .quadStr (16 + c.dummy) (fun j => c.byteAt (addr4 ss 4 + j)) n else 0
  | _ => 0

-- The chip at power-on, from its nonvolatile state: the configuration `nvCfg`, Macronix's QE bit
-- `qe`, and the busy period `tBusy` of its programs and erases.
def init (vendor : Vendor) (k : Nat) (mem : Nat → Nat) (nvCfg : Nat) (qe : Bool) (tBusy : Nat) : Chip :=
  ⟨k, vendor, nvCfg, tBusy, mem, false, 0, cfgDummy vendor nvCfg, vendor == .micron || qe, 0⟩

end Chip

structure Flash extends Chip where
  -- The control-register value last written, the lanes sampled at each rising CLK of the frame in
  -- progress, and its falling CLK edges so far.
  prev : Nat
  bits : List Nat
  falls : Nat

namespace Flash

-- One control-register write: CS# high ends the frame (acting on it if one was open); with CS#
-- low a rising CLK samples the lanes and a falling CLK counts.
def step (f : Flash) (w : Nat) : Flash :=
  if csnOf w then ⟨if csnOf f.prev then f.toChip else f.execute f.bits, w, [], 0⟩
  else
    { f with prev := w,
             bits := f.bits ++ (if clkOf w && !clkOf f.prev then [w % 16] else []),
             falls := f.falls + (if !clkOf w && clkOf f.prev then 1 else 0) }

def run (f : Flash) (ws : List Nat) : Flash := ws.foldl step f

def lanes (f : Flash) : Nat := f.toChip.lanes f.bits f.falls

end Flash

-- The flash between frames: the bus deselected, nothing sampled.
def Chip.idle (c : Chip) : Flash := ⟨c, flashCsN, [], 0⟩

-- The control register in front of the flash: a read returns what the flash drives after the
-- writes so far.
def Chip.bus (c : Chip) (polls : Nat) : Bus := ⟨fun h => (c.idle.run h).lanes, polls⟩

-- A bus that, after the writes `h`, reads back what the flash `f` drives.
def Answers (bus : Bus) (h : List Nat) (f : Flash) : Prop := ∀ s, bus.read (h ++ s) = (f.run s).lanes

-- A Hoare triple of a driver program against the flash: from the chip `c` between frames, on any
-- bus that answers as `c` does and lets a busy-wait poll more often than a program or erase stays
-- busy, `x` returns, its writes take the flash to a chip `c'` between frames, and what it returns
-- and `c'` satisfy `Q`.
def Triple (c : Chip) (x : Ctrl α) (Q : α → Chip → Prop) : Prop :=
  ∀ bus h, c.tBusy < bus.polls → Answers bus h c.idle →
    ∃ a ws c', x.run bus h = (some a, h ++ ws) ∧ c.idle.run ws = c'.idle ∧ Q a c'

end Pyrite
