import Pyrite.Flash.Frame

namespace Pyrite

-- The clock and chip-select lines of a control-register value.
def clkOf (w : Nat) : Bool := w.testBit 16

def csnOf (w : Nat) : Bool := w.testBit 17

@[simp] theorem clkOf_zero : clkOf 0 = false := rfl
@[simp] theorem csnOf_zero : csnOf 0 = false := rfl
@[simp] theorem clkOf_flashClk : clkOf flashClk = true := by decide
@[simp] theorem csnOf_flashClk : csnOf flashClk = false := by decide
@[simp] theorem flashClk_lanes : flashClk % 16 = 0 := by decide
@[simp] theorem clkOf_flashCsN : clkOf flashCsN = false := by decide
@[simp] theorem csnOf_flashCsN : csnOf flashCsN = true := by decide

-- SPI mode 0 seen from the flash: it samples the lanes D0..D3 at every write that raises CLK while
-- CS# is low, and moves to its next output at every write that lowers CLK.
def risingSamples : Nat → List Nat → List Nat
  | _, [] => []
  | prev, w :: ws => (if !csnOf w && clkOf w && !clkOf prev then [w % 16] else []) ++ risingSamples w ws

def fallingEdges : Nat → List Nat → Nat
  | _, [] => 0
  | prev, w :: ws => (if !clkOf w && clkOf prev then 1 else 0) + fallingEdges w ws

-- The shifts of `n` groups of `w` bits, the top group first.
def digitShifts (w : Nat) : Nat → List Nat
  | 0 => []
  | n + 1 => w * n :: digitShifts w n

@[simp] theorem length_digitShifts (w n : Nat) : (digitShifts w n).length = n := by
  induction n <;> simp [digitShifts, *]

theorem digitShifts_eq_range (w n : Nat) : digitShifts w n = (List.range n).map fun j => w * (n - 1 - j) := by
  induction n with
  | zero => rfl
  | succ n ih =>
    rw [digitShifts, ih, List.range_succ_eq_map, List.map_cons, List.map_map]
    congr 1
    exact List.map_congr_left fun j _ => by simp only [Function.comp_apply]; congr 1; omega

namespace SpiProto

def width : SpiProto → Nat
  | str => 1
  | dualStr => 2
  | quadStr => 4
  | _ => 0

-- Single, dual and quad lanes at single transfer rate: the protocols with a clock loop.
def Sdr (p : SpiProto) : Prop := p = str ∨ p = dualStr ∨ p = quadStr

instance : DecidablePred Sdr := fun p => inferInstanceAs (Decidable (p = str ∨ p = dualStr ∨ p = quadStr))

-- The lanes the host reads the flash on: D1 alone for STR, D0 .. D(w-1) otherwise.
def readLane : SpiProto → Nat → Nat
  | str, x => x / 2 % 2
  | p, x => x % 2 ^ p.width

-- What a transmitter drives at clock `j` of byte `b`: the `j`th group of `w` bits from the top, on
-- D1 for STR and on D0..D(w-1) otherwise.
def present : SpiProto → Nat → Nat → Nat
  | str, b, j => ((b >>> (7 - j)) % 2) <<< 1
  | p, b, j => (b >>> (8 - p.width * (j + 1))) % 2 ^ p.width

theorem length_shifts (p : SpiProto) : p.shifts.length = 8 / p.width := by
  cases p <;> rfl

namespace Sdr

variable {p : SpiProto} (hp : p.Sdr)
include hp

theorem shifts_eq : p.shifts = digitShifts p.width (8 / p.width) := by
  rcases hp with rfl | rfl | rfl <;> rfl

theorem mask_eq : p.mask = 2 ^ p.width - 1 := by
  rcases hp with rfl | rfl | rfl <;> rfl

theorem width_mul : p.width * (8 / p.width) = 8 := by
  rcases hp with rfl | rfl | rfl <;> rfl

theorem readLane_lt (x : Nat) : p.readLane x < 2 ^ p.width := by
  rcases hp with rfl | rfl | rfl <;> exact Nat.mod_lt _ (by decide)

-- `spi_flash_read_byte` takes the lanes `readLane` names.
theorem sample_eq (x : Nat) : p.sample x = p.readLane x := by
  rcases hp with rfl | rfl | rfl
  · have : x &&& flashD1 = (x.testBit 1).toNat * 2 ^ 1 := Nat.and_two_pow x 1
    rw [sample, readLane, this, Nat.testBit_to_div_mod]
    rcases Nat.mod_two_eq_zero_or_one (x / 2) with h | h <;> simp [h]
  · exact Nat.and_pow_two_sub_one_eq_mod x 2
  · exact Nat.and_pow_two_sub_one_eq_mod x 4

end Sdr

end SpiProto

-- A byte from samples of `w` lanes each, the first sample on top.
def assemble (w : Nat) : List Nat → Nat
  | [] => 0
  | s :: ss => (s % 2 ^ w) <<< (w * ss.length) ||| assemble w ss

-- The byte a transmitter presents over consecutive clocks, as the host's lanes see it.
def presented (p : SpiProto) (outs : List Nat) : Nat := assemble p.width (outs.map p.readLane)

namespace Op

def isTx : Op → Bool
  | tx _ _ => true
  | _ => false

def Sdr : Op → Prop
  | tx _ p | rx p => p.Sdr
  | clk => True

instance : DecidablePred Sdr
  | tx _ p | rx p => inferInstanceAs (Decidable p.Sdr)
  | clk => inferInstanceAs (Decidable True)

-- The clocks a call takes.
def clocks : Op → Nat
  | tx _ p | rx p => 8 / p.width
  | clk => 1

-- The lanes the flash samples during a call.
def samples : Op → List Nat
  | tx v p => p.shifts.map fun i => (v >>> i) &&& p.mask
  | rx p => p.shifts.map fun _ => 0
  | clk => [0]

-- The byte a call sends.
def sent : Op → Option Nat
  | tx v _ => some (v % 256)
  | _ => none

end Op

-- The flash as a receiver that knows each call's lane width: a written byte is its clocks' samples
-- assembled; the clocks of reads and dummy clocks carry nothing.
def receive : List Op → List Nat → List Nat
  | [], _ => []
  | .tx _ p :: os, ss => assemble p.width (ss.take (8 / p.width)) :: receive os (ss.drop (8 / p.width))
  | .rx p :: os, ss => receive os (ss.drop (8 / p.width))
  | .clk :: os, ss => receive os (ss.drop 1)

-- A bus that, inside the frame it is in after the writes `h0 ++ s`, reads back `out n` after the
-- `n`th falling edge of CLK since `h0`.
def Transmits (bus : Bus) (h0 s : List Nat) (out : Nat → Nat) : Prop :=
  ∀ t, (∀ w ∈ t, csnOf w = false) → bus.read (h0 ++ (s ++ t)) = out (fallingEdges 0 (s ++ t))

-- A transmitter that drives `out n` on the lanes after the `n`th falling edge of CLK since the
-- writes `h0`, as the bus the host reads.
def txBus (h0 : List Nat) (out : Nat → Nat) : Bus := ⟨fun h => out (fallingEdges 0 (h.drop h0.length)), 0⟩

-- The bytes the host should read from such a transmitter, `c` clocks into the calls.
def rxBytes (out : Nat → Nat) : Nat → List Op → List Nat
  | _, [] => []
  | c, .rx p :: os =>
    presented p ((List.range (8 / p.width)).map fun j => out (c + j)) :: rxBytes out (c + 8 / p.width) os
  | c, .tx _ p :: os => rxBytes out (c + 8 / p.width) os
  | c, .clk :: os => rxBytes out (c + 1) os

end Pyrite
