import Mathlib

namespace Pyrite

-- The hardware behind the flash control register: the value a read returns after a given sequence
-- of writes, and how many status reads one busy-wait may take before the model gives up (the
-- source's busy-waits are unbounded).
structure Bus where
  read : List Nat → Nat
  polls : Nat

-- A computation on the control register. It carries every value written so far, oldest first,
-- and ends in `none` when a busy-wait runs out of polls.
structure Ctrl (α : Type) where
  run : Bus → List Nat → Option α × List Nat

namespace Ctrl

instance : Monad Ctrl where
  pure a := ⟨fun _ h => (some a, h)⟩
  bind x f := ⟨fun bus h =>
    match x.run bus h with
    | (some a, h') => (f a).run bus h'
    | (none, h') => (none, h')⟩

-- A busy-wait that ran out of polls.
def stall : Ctrl α := ⟨fun _ h => (none, h)⟩

@[ext] theorem ext {x y : Ctrl α} (h : ∀ bus hist, x.run bus hist = y.run bus hist) : x = y := by
  cases x; cases y; congr; funext bus hist; exact h bus hist

@[simp] theorem run_pure (a : α) (bus : Bus) (h : List Nat) : (pure a : Ctrl α).run bus h = (some a, h) :=
  rfl

theorem run_bind (x : Ctrl α) (f : α → Ctrl β) (bus : Bus) (h : List Nat) :
    (x >>= f).run bus h =
      match x.run bus h with
      | (some a, h') => (f a).run bus h'
      | (none, h') => (none, h') :=
  rfl

theorem run_bind_of_some {x : Ctrl α} {bus : Bus} {h h' : List Nat} {a : α}
    (hx : x.run bus h = (some a, h')) (f : α → Ctrl β) : (x >>= f).run bus h = (f a).run bus h' := by
  rw [run_bind, hx]

theorem run_bind_of_none {x : Ctrl α} {bus : Bus} {h h' : List Nat}
    (hx : x.run bus h = (none, h')) (f : α → Ctrl β) : (x >>= f).run bus h = (none, h') := by
  rw [run_bind, hx]

@[simp] theorem run_map (f : α → β) (x : Ctrl α) (bus : Bus) (h : List Nat) :
    (f <$> x).run bus h = ((x.run bus h).1.map f, (x.run bus h).2) := by
  show (x >>= pure ∘ f).run bus h = _
  rw [run_bind]
  rcases x.run bus h with ⟨_ | a, h'⟩ <;> rfl

@[simp] theorem run_stall (bus : Bus) (h : List Nat) : (stall : Ctrl α).run bus h = (none, h) := rfl

instance : LawfulMonad Ctrl := LawfulMonad.mk' Ctrl
  (fun x => ext fun bus h => by rw [show (id <$> x) = x >>= (pure ∘ id) from rfl, run_bind]
                                rcases x.run bus h with ⟨_ | a, h'⟩ <;> rfl)
  (fun _ _ => rfl)
  (fun x f g => ext fun bus h => by simp only [run_bind]; rcases x.run bus h with ⟨_ | a, h'⟩ <;> rfl)

end Ctrl

-- `ctrl_reg_write` and `ctrl_reg_read`.
def ctrlRegWrite (val : Nat) : Ctrl Unit := ⟨fun _ h => (some (), h ++ [val])⟩

def ctrlRegRead : Ctrl Nat := ⟨fun bus h => (some (bus.read h), h)⟩

@[simp] theorem run_ctrlRegWrite (val : Nat) (bus : Bus) (h : List Nat) :
    (ctrlRegWrite val).run bus h = (some (), h ++ [val]) := rfl

@[simp] theorem run_ctrlRegRead (bus : Bus) (h : List Nat) :
    ctrlRegRead.run bus h = (some (bus.read h), h) := rfl

-- A read whose value is dropped (the source's dummy reads) has no effect.
@[simp] theorem ctrlRegRead_bind_const (x : Ctrl α) : (ctrlRegRead >>= fun _ => x) = x := rfl

@[simp] theorem ctrlRegRead_map_const (a : α) : (fun _ => a) <$> ctrlRegRead = pure a := rfl

def flashD0 : Nat := 1 <<< 0
def flashD1 : Nat := 1 <<< 1
def flashD2 : Nat := 1 <<< 2
def flashD3 : Nat := 1 <<< 3
def flashD01 : Nat := flashD0 ||| flashD1
def flashD0123 : Nat := flashD0 ||| flashD1 ||| flashD2 ||| flashD3
def flashOe0 : Nat := 1 <<< 8
def flashOe1 : Nat := 1 <<< 9
def flashOe2 : Nat := 1 <<< 10
def flashOe3 : Nat := 1 <<< 11
def flashOe01 : Nat := flashOe0 ||| flashOe1
def flashOe0123 : Nat := flashOe0 ||| flashOe1 ||| flashOe2 ||| flashOe3
def flashClk : Nat := 1 <<< 16
def flashCsN : Nat := 1 <<< 17

-- `SPI_PROTO_*`.
inductive SpiProto
  | str | dtr | dualStr | dualDtr | quadStr | quadDtr
  deriving DecidableEq, Repr

namespace SpiProto

-- The shifts the per-protocol loops of `spi_flash_read_byte` and `spi_flash_write_byte` run
-- through; the DTR cases have no loop.
def shifts : SpiProto → List Nat
  | str => [7, 6, 5, 4, 3, 2, 1, 0]
  | dualStr => [6, 4, 2, 0]
  | quadStr => [4, 0]
  | dtr | dualDtr | quadDtr => []

-- The data bits one clock of `spi_flash_write_byte` drives, and the output enables it sets.
def mask : SpiProto → Nat
  | str => 0x1
  | dualStr => 0x3
  | _ => 0xf

def oe : SpiProto → Nat
  | str => flashOe0
  | dualStr => flashOe01
  | _ => flashOe0123

-- What one clock of `spi_flash_read_byte` takes from the read-back value.
def sample : SpiProto → Nat → Nat
  | str, v => if v &&& flashD1 ≠ 0 then 1 else 0
  | dualStr, v => v &&& flashD01
  | _, v => v &&& flashD0123

end SpiProto

def spiFlashSelect : Ctrl Unit := ctrlRegWrite 0

def spiFlashDeselect : Ctrl Unit := ctrlRegWrite flashCsN

-- The loop of `spi_flash_read_byte`: per shift, CLK low, sample, CLK high.
def readLanes (p : SpiProto) : List Nat → Nat → Ctrl Nat
  | [], val => pure val
  | i :: is, val => do
    ctrlRegWrite 0
    let _ ← ctrlRegRead
    let v ← ctrlRegRead
    ctrlRegWrite flashClk
    let _ ← ctrlRegRead
    readLanes p is (val ||| p.sample v <<< i)

def spiFlashReadByte (p : SpiProto) : Ctrl Nat := do
  let val ← readLanes p p.shifts 0
  ctrlRegWrite 0
  pure val

-- The loop of `spi_flash_write_byte`: per shift, drive the bits with CLK low, then CLK high.
def writeLanes (p : SpiProto) (val : Nat) : List Nat → Ctrl Unit
  | [] => pure ()
  | i :: is => do
    let bit := (val >>> i) &&& p.mask
    ctrlRegWrite (bit ||| p.oe)
    let _ ← ctrlRegRead
    ctrlRegWrite (bit ||| p.oe ||| flashClk)
    let _ ← ctrlRegRead
    writeLanes p val is

def spiFlashWriteByte (val : Nat) (p : SpiProto) : Ctrl Unit := do
  writeLanes p val p.shifts
  ctrlRegWrite 0

def spiFlashWriteAddr (addr : Nat) (p : SpiProto) : Ctrl Unit := do
  spiFlashWriteByte ((addr >>> 16) &&& 0xff) p
  spiFlashWriteByte ((addr >>> 8) &&& 0xff) p
  spiFlashWriteByte ((addr >>> 0) &&& 0xff) p

def spiFlashWriteAddr4b (addr : Nat) (p : SpiProto) : Ctrl Unit := do
  spiFlashWriteByte ((addr >>> 24) &&& 0xff) p
  spiFlashWriteByte ((addr >>> 16) &&& 0xff) p
  spiFlashWriteByte ((addr >>> 8) &&& 0xff) p
  spiFlashWriteByte ((addr >>> 0) &&& 0xff) p

end Pyrite
