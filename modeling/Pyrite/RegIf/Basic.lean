import Mathlib

namespace Pyrite

-- `size_t` arithmetic wraps at 2⁶⁴.
def sizeWrap (n : Nat) : Nat := n % 2 ^ 64

-- The bytes behind a raw register window, by absolute address.
abbrev Mem := Nat → UInt8

-- Whether allocation number `n` of a run (`calloc` or `realloc`) succeeds.
abbrev Alloc := Nat → Bool

-- `struct reg_if` with the two transports of `reg_if.c`: a raw window at base address `regs`,
-- and an offset view that delegates to its parent. Each carries the `size` field (0 = unbounded).
inductive RegIf
  | raw (regs size : Nat)
  | offset (parent : RegIf) (offset size : Nat)
  deriving DecidableEq, Repr

namespace RegIf

def size : RegIf → Nat
  | raw _ size | offset _ _ size => size

-- The bounds check shared by `reg_if_read8` .. `reg_if_write64`, followed by the transport's own
-- operation: the raw one touches `regs + offset`, the offset one calls the same check on its
-- parent at `reg->offset + offset`. The result is the address the raw access starts at, or
-- `none` for a `-1` return. The check compares the start offset alone, whatever the width.
def access : RegIf → Nat → Option Nat
  | raw regs size, off => if size ≠ 0 ∧ size ≤ off then none else some (regs + off)
  | offset parent o size, off =>
    if size ≠ 0 ∧ size ≤ off then none else access parent (sizeWrap (o + off))

@[simp] theorem size_offset (parent : RegIf) (o s : Nat) : (offset parent o s).size = s := rfl

end RegIf

open RegIf

-- Little-endian load and store of `w` bytes at address `a`.
def load (mem : Mem) (a : Nat) : Nat → Nat
  | 0 => 0
  | w + 1 => (mem a).toNat + 256 * load mem (a + 1) w

def store (mem : Mem) (a w value : Nat) : Mem :=
  fun b => if a ≤ b ∧ b < a + w then ((value >>> (8 * (b - a))) % 256).toUInt8 else mem b

-- `reg_if_read{8,16,32,64}` and `reg_if_write{8,16,32,64}` differ only in the width `w` of the
-- raw access they end in.
def regIfRead (w : Nat) (mem : Mem) (reg : RegIf) (off : Nat) : Option Nat :=
  (reg.access off).map (load mem · w)

def regIfWrite (w : Nat) (mem : Mem) (reg : RegIf) (off value : Nat) : Option Mem :=
  (reg.access off).map (store mem · w value)

def regIfRead8 (mem : Mem) (reg : RegIf) (off : Nat) : Option UInt8 :=
  (regIfRead 1 mem reg off).map Nat.toUInt8

def regIfRead16 (mem : Mem) (reg : RegIf) (off : Nat) : Option UInt16 :=
  (regIfRead 2 mem reg off).map Nat.toUInt16

def regIfRead32 (mem : Mem) (reg : RegIf) (off : Nat) : Option UInt32 :=
  (regIfRead 4 mem reg off).map Nat.toUInt32

def regIfRead64 (mem : Mem) (reg : RegIf) (off : Nat) : Option UInt64 :=
  (regIfRead 8 mem reg off).map Nat.toUInt64

def regIfWrite8 (mem : Mem) (reg : RegIf) (off : Nat) (value : UInt8) : Option Mem :=
  regIfWrite 1 mem reg off value.toNat

def regIfWrite16 (mem : Mem) (reg : RegIf) (off : Nat) (value : UInt16) : Option Mem :=
  regIfWrite 2 mem reg off value.toNat

def regIfWrite32 (mem : Mem) (reg : RegIf) (off : Nat) (value : UInt32) : Option Mem :=
  regIfWrite 4 mem reg off value.toNat

def regIfWrite64 (mem : Mem) (reg : RegIf) (off : Nat) (value : UInt64) : Option Mem :=
  regIfWrite 8 mem reg off value.toNat

-- `reg_if_open_raw`: `none` when its `calloc` (allocation `n`) fails.
def regIfOpenRaw (alloc : Alloc) (n : Nat) (regs size : Nat) : Option RegIf × Nat :=
  (if alloc n then some (raw regs size) else none, n + 1)

-- `reg_if_open_offset`: refuse an offset outside a bounded parent, clamp a zero size or one not
-- below the parent's size to the space left after `offset`, then allocate the view.
def regIfOpenOffset (alloc : Alloc) (n : Nat) (regs : RegIf) (offset size : Nat) :
    Option RegIf × Nat :=
  if regs.size ≠ 0 ∧ regs.size ≤ offset then (none, n)
  else
    let size := if regs.size ≠ 0 ∧ (size = 0 ∨ regs.size ≤ size) then regs.size - offset else size
    (if alloc n then some (.offset regs offset size) else none, n + 1)

end Pyrite
