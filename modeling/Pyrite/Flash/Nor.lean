import Pyrite.Flash.Spi

namespace Pyrite

/-! What the driver is for: a byte-addressed NOR array of `2^k` bytes, read back as written, where
programming can only clear bits (it ANDs) and erasing sets bytes to `0xFF`; and the requests the
library's entry points serve on it, in the order a caller makes them. -/

-- The array with `v` applied to the byte at `x`.
def updateAt (mem : Nat → Nat) (x : Nat) (v : Nat → Nat) : Nat → Nat :=
  fun y => if y = x then v (mem y) else mem y

-- Each byte ANDed into the array, the `j`th at address `addr j`.
def andInto (addr : Nat → Nat) : (Nat → Nat) → List Nat → Nat → Nat → Nat
  | mem, [], _ => mem
  | mem, b :: bs, j => andInto addr (updateAt mem (addr j) (· &&& b)) bs (j + 1)

structure Nor where
  k : Nat
  mem : Nat → Nat

namespace Nor

-- `len` bytes from `a`, wrapping at the end of the array.
def read (n : Nor) (a len : Nat) : List Nat := (List.range len).map fun j => n.mem ((a + j) % 2 ^ n.k) % 256

def program (n : Nor) (a : Nat) (src : List Nat) : Nor :=
  { n with mem := andInto (fun j => (a + j) % 2 ^ n.k) n.mem (src.map (· % 256)) 0 }

def erase (n : Nor) (a len : Nat) : Nor :=
  { n with mem := fun y => if ∃ i < len, (a + i) % 2 ^ n.k = y then 0xFF else n.mem y }

end Nor

-- `flash_read`, `flash_write` and `flash_erase`, with their arguments.
inductive Request
  | read (addr len : Nat)
  | write (addr : Nat) (src : List Nat)
  | erase (addr len : Nat)

namespace Request

-- What a request returns and leaves: a write with data from inside a page is refused; an erase is
-- refused unless it starts on a 4 KiB boundary with a whole block, and returns -1 after erasing the
-- whole blocks when a partial one is left at its end.
def serve : Request → Nor → (Int × List Nat) × Nor
  | read a len, n => ((0, n.read a len), n)
  | write a src, n => if src ≠ [] ∧ a % 256 ≠ 0 then ((-1, []), n) else ((0, []), n.program a src)
  | erase a len, n =>
    if len = 0 then ((0, []), n)
    else if a % 0x1000 ≠ 0 ∨ len < 0x1000 then ((-1, []), n)
    else ((if len % 0x1000 = 0 then 0 else -1, []), n.erase a (len / 0x1000 * 0x1000))

-- A request as the library's entry points make it on the device `flash_open_spi` gave.
def drive (dev : Option FlashDevice) : Request → Ctrl (Int × List Nat)
  | read a len => flashRead dev a len
  | write a src => (·, []) <$> flashWrite dev a src
  | erase a len => (·, []) <$> flashErase dev a len

end Request

-- The results of requests in turn, and the array they leave.
def Nor.serve (n : Nor) : List Request → List (Int × List Nat) × Nor
  | [] => ([], n)
  | r :: rs => ((r.serve n).1 :: ((r.serve n).2.serve rs).1, ((r.serve n).2.serve rs).2)

-- Open the SPI flash on a control register that is there, then make the requests in turn.
def session (dataWidth : Int) (rs : List Request) : Ctrl (List (Int × List Nat)) := do
  let dev ← flashOpenSpi dataWidth true true
  rs.mapM (Request.drive dev)

end Pyrite
