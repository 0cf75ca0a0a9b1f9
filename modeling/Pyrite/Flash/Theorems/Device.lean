import Pyrite.Flash.Device
import Pyrite.Flash.Theorems.Wire

namespace Pyrite

/-! ## One frame on the flash

Inside a frame the flash only collects samples and counts falling edges, so what it has seen is
`risingSamples` and `fallingEdges` of the frame's writes; when CS# rises the chip acts on the
samples. -/

namespace Flash

theorem run_append (f : Flash) (a b : List Nat) : f.run (a ++ b) = (f.run a).run b := List.foldl_append ..

theorem fallingEdges_congr {p q : Nat} (h : clkOf p = clkOf q) (ws : List Nat) :
    fallingEdges p ws = fallingEdges q ws := by
  cases ws <;> simp [fallingEdges, h]

-- A run of writes with CS# low.
theorem run_low (f : Flash) {ws : List Nat} (hws : ∀ w ∈ ws, csnOf w = false) :
    f.run ws = { f with prev := ws.getLastD f.prev, bits := f.bits ++ risingSamples f.prev ws,
                        falls := f.falls + fallingEdges f.prev ws } := by
  induction ws generalizing f with
  | nil => simp [run, risingSamples, fallingEdges]
  | cons w ws ih =>
    have hw := hws w (List.mem_cons_self _ _)
    rw [run, List.foldl_cons, ← run, ih _ fun x hx => hws x (List.mem_cons_of_mem _ hx)]
    rw [List.getLastD_cons]
    simp only [step, hw, risingSamples, fallingEdges, Bool.false_eq_true, if_false, Bool.not_false,
      Bool.true_and, List.append_assoc, Nat.add_assoc]

end Flash

namespace Chip

theorem tBusy_pageProgram (c : Chip) (a : Nat) (data : List Nat) : (c.pageProgram a data).tBusy = c.tBusy := by
  unfold pageProgram; split <;> rfl

theorem tBusy_blockErase (c : Chip) (a len : Nat) : (c.blockErase a len).tBusy = c.tBusy := by
  unfold blockErase; split <;> rfl

-- No command changes how long the chip stays busy.
@[simp] theorem tBusy_execute (c : Chip) (ss : List Nat) : (c.execute ss).tBusy = c.tBusy := by
  unfold execute
  split
  · split <;> rfl
  · split <;> (try split) <;> simp only [tBusy_pageProgram, tBusy_blockErase]

-- Busy only as long as a program or erase makes it.
theorem busy_execute_le (c : Chip) (h : c.busy ≤ c.tBusy) (ss : List Nat) : (c.execute ss).busy ≤ c.tBusy := by
  unfold execute pageProgram blockErase
  split
  · split
    · exact Nat.le_trans (Nat.sub_le _ _) h
    · exact h
  · split <;> (try split) <;> (try split) <;> first | exact h | exact le_refl _

@[simp] theorem execute_nil (c : Chip) : c.execute [] = c := by
  unfold execute; split <;> rfl

-- A frame of calls, from between frames: the chip acts on the calls' samples.
theorem run_frameWrites (c : Chip) (ops : List Op) :
    c.idle.run (frameWrites ops) = (c.execute (ops.flatMap Op.samples)).idle := by
  cases ops with
  | nil =>
    show Flash.step c.idle flashCsN = _
    simp only [Flash.step, idle, csnOf_flashCsN, if_true, List.flatMap_nil, execute_nil]
  | cons o os =>
    have hlow : ∀ w ∈ (o :: os).flatMap Op.writes, csnOf w = false := fun w hw => by
      obtain ⟨o, -, ho⟩ := List.mem_flatMap.mp hw; exact o.csnOf_writes w ho
    rw [frameWrites, Flash.run_append, Flash.run_low c.idle hlow]
    show Flash.step _ flashCsN = _
    simp only [Flash.step, idle, csnOf_flashCsN, if_true, Op.getLastD_flatMap_writes (List.cons_ne_nil o os),
      csnOf_zero, Bool.false_eq_true, if_false, List.nil_append,
      risingSamples_flatMap_writes (o :: os) clkOf_flashCsN]

end Chip

-- No control-register write changes how long a program or erase keeps the chip busy.
theorem Flash.tBusy_step (f : Flash) (w : Nat) : (f.step w).tBusy = f.tBusy := by
  unfold Flash.step
  split
  · split <;> simp only [Chip.tBusy_execute]
  · rfl

theorem Flash.tBusy_run (f : Flash) (ws : List Nat) : (f.run ws).tBusy = f.tBusy := by
  induction ws generalizing f with
  | nil => rfl
  | cons w ws ih => rw [Flash.run, List.foldl_cons, ← Flash.run, ih, Flash.tBusy_step]

theorem Answers.after {bus : Bus} {h : List Nat} {f : Flash} (hb : Answers bus h f) (ws : List Nat) :
    Answers bus (h ++ ws) (f.run ws) := fun s => by
  rw [List.append_assoc, hb, Flash.run_append]

theorem Chip.answers_bus (c : Chip) (polls : Nat) : Answers (c.bus polls) [] c.idle := fun _ => rfl

-- Inside a frame whose first writes `s` fix what the chip sends, the flash is a transmitter that
-- moves on at each falling edge.
theorem Answers.transmits {bus : Bus} {h : List Nat} {c : Chip} (hb : Answers bus h c.idle)
    {s : List Nat} (hs : ∀ w ∈ s, csnOf w = false) {out : Nat → Nat}
    (hout : ∀ x n, c.lanes (risingSamples flashCsN s ++ x) n = out n) : Transmits bus h s out := fun t ht => by
  have hst : ∀ w ∈ s ++ t, csnOf w = false := fun w hw => (List.mem_append.mp hw).elim (hs w) (ht w)
  rw [hb, Flash.run_low _ hst]
  simp only [Flash.lanes, Chip.idle, List.nil_append, Nat.zero_add, risingSamples_append]
  rw [Flash.fallingEdges_congr (p := flashCsN) (q := 0) (by simp)]
  exact hout _ _

/-! ## What the chip decodes from the driver's frames -/

namespace Chip

-- A field spanning the bytes `vs`, written in protocol `p` after the samples `pre`, is those bytes.
theorem field_txs {p : SpiProto} (hp : p.Sdr) (pre vs rest : List Nat) :
    field (pre ++ ((vs.map (Op.tx · p)).flatMap Op.samples ++ rest)) p.width pre.length
      (vs.length * (8 / p.width)) = assemble 8 vs := by
  rw [field, List.drop_left, ← length_flatMap_samples_tx, List.take_left, assemble_samples_txs hp]

theorem opcode_tx (v : Nat) (y : List Nat) : opcode ((Op.tx v .str).samples ++ y) = v % 256 := by
  rw [opcode, field, List.drop_zero, List.take_left' (show (Op.tx v .str).samples.length = 8 from rfl)]
  exact assemble_samples_tx (Or.inl rfl) v

theorem addrOps_eq (a : Nat) (p : SpiProto) :
    addrOps a p = [(a >>> 16) &&& 0xff, (a >>> 8) &&& 0xff, (a >>> 0) &&& 0xff].map (Op.tx · p) := rfl

theorem addr4bOps_eq (a : Nat) (p : SpiProto) :
    addr4bOps a p = [(a >>> 24) &&& 0xff, (a >>> 16) &&& 0xff, (a >>> 8) &&& 0xff, (a >>> 0) &&& 0xff].map
      (Op.tx · p) := rfl

-- The low `n` bytes of `a`, most significant first, assemble back to `a` modulo `2^(8n)`.
theorem assemble_bytes (a : Nat) : ∀ n,
    assemble 8 ((List.range n).reverse.map fun i => (a >>> (8 * i)) &&& 0xff) = a % 2 ^ (8 * n)
  | 0 => by simp [Nat.mod_one]
  | n + 1 => by
    rw [List.range_succ, List.reverse_append, List.map_append, List.reverse_singleton, List.map_singleton,
      List.singleton_append, assemble_cons, List.length_map, List.length_reverse, List.length_range,
      assemble_bytes a n, and_ff, Nat.shiftRight_eq_div_pow, Nat.mul_succ, Nat.pow_add, Nat.mod_mul,
      show 2 ^ 8 = 256 from rfl, Nat.mod_mod, Nat.mul_comm, Nat.add_comm]

theorem assemble_addr (a : Nat) :
    assemble 8 [(a >>> 16) &&& 0xff, (a >>> 8) &&& 0xff, (a >>> 0) &&& 0xff] = a % 2 ^ 24 :=
  assemble_bytes a 3

theorem assemble_addr4b (a : Nat) :
    assemble 8 [(a >>> 24) &&& 0xff, (a >>> 16) &&& 0xff, (a >>> 8) &&& 0xff, (a >>> 0) &&& 0xff] =
      a % 2 ^ 32 :=
  assemble_bytes a 4

-- The address the chip takes from `cmd, spi_flash_write_addr(a)`, in the bank of its extended
-- address register, and from `cmd, spi_flash_write_addr_4b(a)`.
theorem addr3_header {p : SpiProto} (hp : p.Sdr) {w : Nat} (hw : p.width = w) (c : Chip) (cmd a : Nat)
    (x : List Nat) : c.addr3 ((Op.tx cmd .str :: addrOps a p).flatMap Op.samples ++ x) w = c.ext * 2 ^ 24 + a % 2 ^ 24 := by
  subst hw
  have h24 : 24 / p.width = 3 * (8 / p.width) := by rcases hp with rfl | rfl | rfl <;> rfl
  rw [addr3, h24, List.flatMap_cons, List.append_assoc, addrOps_eq, ← assemble_addr]
  exact congrArg (c.ext * 2 ^ 24 + ·) (field_txs hp _ _ _)

theorem addr4_header {p : SpiProto} (hp : p.Sdr) {w : Nat} (hw : p.width = w) (cmd a : Nat) (x : List Nat) :
    addr4 ((Op.tx cmd .str :: addr4bOps a p).flatMap Op.samples ++ x) w = a % 2 ^ 32 := by
  subst hw
  have h32 : 32 / p.width = 4 * (8 / p.width) := by rcases hp with rfl | rfl | rfl <;> rfl
  rw [addr4, h32, List.flatMap_cons, List.append_assoc, addr4bOps_eq, ← assemble_addr4b]
  exact field_txs hp _ _ _

-- The data bytes of a program frame, each taken modulo 256.
theorem bytes_txs {p : SpiProto} (hp : p.Sdr) (vs : List Nat) :
    bytes p.width ((vs.map (Op.tx · p)).flatMap Op.samples) = vs.map (· % 256) := by
  have h8 : 0 < 8 / p.width := by rcases hp with rfl | rfl | rfl <;> decide
  rw [bytes, length_flatMap_samples_tx, Nat.mul_div_cancel _ h8]
  induction vs with
  | nil => rfl
  | cons v vs ih =>
    have hl : (Op.tx v p).samples.length = 8 / p.width := Op.length_samples _
    rw [List.map_cons, List.flatMap_cons, List.length_cons, bytes.go, field, List.drop_zero, List.take_left' hl,
      List.drop_left' hl, assemble_samples_tx hp, ih, List.map_cons]

-- One byte in one lane after the samples `pre`.
theorem field_byte {pre : List Nat} {n : Nat} (hn : pre.length = n) (v : Nat) (rest : List Nat) :
    field (pre ++ ((Op.tx v .str).samples ++ rest)) 1 n 8 = v % 256 := by
  subst hn
  exact (field_txs (Or.inl rfl) pre [v] rest).trans (by simp [assemble_cons])

/-! ### The commands -/

-- Every command other than a status read, a write enable, a reset, a register write, a program or an
-- erase leaves the chip as it was.
theorem execute_tx_of_not_mem {cmd : Nat}
    (h : cmd % 256 ∉ [0x05, 0x06, 0x99, 0xC5, 0x81, 0x01, 0x02, 0x32, 0x20, 0xD8]) (c : Chip) (y : List Nat) :
    c.execute ((Op.tx cmd .str).samples ++ y) = c := by
  rw [execute, opcode_tx]
  generalize cmd % 256 = op at h
  split
  · rw [if_neg (by simp_all)]
  · split <;> simp_all

-- Only status, ID and data reads send anything.
theorem lanes_tx_of_not_mem {cmd : Nat} (h : cmd % 256 ∉ [0x05, 0x9F, 0x03, 0x13, 0xEB, 0xEC]) (c : Chip)
    (x : List Nat) (n : Nat) : c.lanes ((Op.tx cmd .str).samples ++ x) n = 0 := by
  rw [lanes, opcode_tx]
  generalize cmd % 256 = op at h
  split
  · rfl
  · split <;> simp_all

-- A status read of a busy chip is one step of its operation.
theorem execute_readStatus (c : Chip) (y : List Nat) :
    c.execute ((Op.tx spiCmdReadStatusReg .str).samples ++ y) =
      if c.busy = 0 then c else { c with busy := c.busy - 1 } := by
  rw [execute, opcode_tx]
  by_cases hb : c.busy = 0 <;> simp only [hb, ne_eq, not_true_eq_false, not_false_eq_true, if_false, if_true] <;> rfl

section Ready

variable {c : Chip} (hb : c.busy = 0)
include hb

theorem execute_of_ready (ss : List Nat) : c.execute ss = match opcode ss with
    | 0x06 => { c with wel := true }
    | 0x99 => { c with wel := false, ext := 0, dummy := cfgDummy c.vendor c.nvCfg }
    | 0xC5 => { c with ext := field ss 1 8 8 }
    | 0x81 => if c.vendor = .micron then { c with dummy := micronDummy (field ss 1 8 8) } else c
    | 0x01 =>
      if c.vendor = .macronix then
        { c with qe := field ss 1 8 8 &&& 0x40 != 0, dummy := macronixDummy (field ss 1 16 8) }
      else c
    | 0x02 => c.pageProgram (c.addr3 ss 1) (bytes 1 (ss.drop 32))
    | 0x32 => if c.qe then c.pageProgram (c.addr3 ss 1) (bytes 4 (ss.drop 32)) else c
    | 0x20 => c.blockErase (c.addr3 ss 1) 0x1000
    | 0xD8 => c.blockErase (c.addr3 ss 1) 0x10000
    | _ => c :=
  if_neg (not_not.mpr hb)

theorem lanes_of_ready (ss : List Nat) (n : Nat) : c.lanes ss n = match opcode ss with
    | 0x05 => send .str 8 (fun _ => c.status) n
    | 0x9F => send .str 8 (fun j => (c.vendor.id c.k).getD j 0) n
    | 0x03 => send .str 32 (fun j => c.byteAt (c.addr3 ss 1 + j)) n
    | 0x13 => send .str 40 (fun j => c.byteAt (addr4 ss 1 + j)) n
    | 0xEB => if c.qe then send .quadStr (14 + c.dummy) (fun j => c.byteAt (c.addr3 ss 4 + j)) n else 0
    | 0xEC => if c.qe then send .quadStr (16 + c.dummy) (fun j => c.byteAt (addr4 ss 4 + j)) n else 0
    | _ => 0 :=
  if_neg fun h => h.1 hb

theorem execute_writeEnable (y : List Nat) :
    c.execute ((Op.tx spiCmdWriteEnable .str).samples ++ y) = { c with wel := true } := by
  rw [execute_of_ready hb, opcode_tx]; rfl

theorem execute_resetMemory (y : List Nat) :
    c.execute ((Op.tx spiCmdResetMemory .str).samples ++ y) =
      { c with wel := false, ext := 0, dummy := cfgDummy c.vendor c.nvCfg } := by
  rw [execute_of_ready hb, opcode_tx]; rfl

theorem execute_writeExtAddr (v : Nat) (y : List Nat) :
    c.execute ((Op.tx spiCmdWriteExtAddrReg .str).samples ++ ((Op.tx v .str).samples ++ y)) =
      { c with ext := v % 256 } := by
  rw [execute_of_ready hb, field_byte (show (Op.tx spiCmdWriteExtAddrReg .str).samples.length = 8 from rfl),
    opcode_tx]
  rfl

theorem execute_writeVolatileConfig (hv : c.vendor = .micron) (v : Nat) (y : List Nat) :
    c.execute ((Op.tx spiCmdWriteVConfigReg .str).samples ++ ((Op.tx v .str).samples ++ y)) =
      { c with dummy := micronDummy (v % 256) } := by
  rw [execute_of_ready hb, field_byte (show (Op.tx spiCmdWriteVConfigReg .str).samples.length = 8 from rfl),
    opcode_tx]
  exact if_pos hv

theorem execute_writeStatusCfg (hv : c.vendor = .macronix) (st cfg : Nat) (y : List Nat) :
    c.execute ((Op.tx spiCmdWriteStatusReg .str).samples ++ ((Op.tx st .str).samples ++ ((Op.tx cfg .str).samples ++ y))) =
      { c with qe := st % 256 &&& 0x40 != 0, dummy := macronixDummy (cfg % 256) } := by
  rw [execute_of_ready hb, ← List.append_assoc,
    field_byte (show ((Op.tx spiCmdWriteStatusReg .str).samples ++ (Op.tx st .str).samples).length = 16 from rfl),
    List.append_assoc, field_byte (show (Op.tx spiCmdWriteStatusReg .str).samples.length = 8 from rfl), opcode_tx]
  exact if_pos hv

-- PAGE PROGRAM and, with quad enabled, QUAD INPUT PAGE PROGRAM: the data, in its protocol, into the
-- page of the address.
theorem execute_program {cmd : Nat} {p : SpiProto}
    (hcmd : cmd = spiCmdPageProgram ∧ p = .str ∨ cmd = spiCmdPageProgramQuadIn ∧ p = .quadStr ∧ c.qe = true)
    (a : Nat) (data : List Nat) :
    c.execute ((Op.tx cmd .str :: addrOps a .str ++ data.map (Op.tx · p)).flatMap Op.samples) =
      c.pageProgram (c.ext * 2 ^ 24 + a % 2 ^ 24) (data.map (· % 256)) := by
  have hH : ((Op.tx cmd .str :: addrOps a .str).flatMap Op.samples).length = 32 := rfl
  rw [List.flatMap_append, execute_of_ready hb, addr3_header (Or.inl rfl) (show SpiProto.str.width = 1 from rfl),
    List.drop_left' hH, List.flatMap_cons, List.append_assoc, opcode_tx]
  rcases hcmd with ⟨rfl, rfl⟩ | ⟨rfl, rfl, hq⟩
  · rw [show bytes 1 _ = _ from bytes_txs (Or.inl rfl) data]; rfl
  · rw [show bytes 4 _ = _ from bytes_txs (Or.inr (Or.inr rfl)) data]; exact if_pos hq

-- 4 KiB and 64 KiB erase: the block of the address.
theorem execute_erase {cmd len : Nat}
    (hcmd : cmd = spiCmd4kbSubsectorErase ∧ len = 0x1000 ∨ cmd = spiCmdSectorErase ∧ len = 0x10000) (a : Nat) :
    c.execute ((Op.tx cmd .str :: addrOps a .str).flatMap Op.samples) =
      c.blockErase (c.ext * 2 ^ 24 + a % 2 ^ 24) len := by
  rw [← List.append_nil ((Op.tx cmd .str :: addrOps a .str).flatMap Op.samples), execute_of_ready hb,
    addr3_header (Or.inl rfl) (show SpiProto.str.width = 1 from rfl), List.flatMap_cons, List.append_assoc, opcode_tx]
  rcases hcmd with ⟨rfl, rfl⟩ | ⟨rfl, rfl⟩ <;> rfl

theorem lanes_readId (x : List Nat) (n : Nat) :
    c.lanes ((Op.tx spiCmdReadId .str).samples ++ x) n = send .str 8 (fun j => (c.vendor.id c.k).getD j 0) n := by
  rw [lanes_of_ready hb, opcode_tx]; rfl

-- The four reads: the bytes from the address, after the header and, for a quad I/O read with quad
-- enabled, the dummy clocks the chip is configured for.
theorem lanes_read (a : Nat) (x : List Nat) (n : Nat) :
    c.lanes ((Op.tx spiCmdRead .str :: addrOps a .str).flatMap Op.samples ++ x) n =
      send .str 32 (fun j => c.byteAt (c.ext * 2 ^ 24 + a % 2 ^ 24 + j)) n := by
  rw [lanes_of_ready hb, addr3_header (Or.inl rfl) (show SpiProto.str.width = 1 from rfl), List.flatMap_cons,
    List.append_assoc, opcode_tx]
  rfl

theorem lanes_4bRead (a : Nat) (x : List Nat) (n : Nat) :
    c.lanes ((Op.tx spiCmd4bRead .str :: addr4bOps a .str).flatMap Op.samples ++ x) n =
      send .str 40 (fun j => c.byteAt (a % 2 ^ 32 + j)) n := by
  rw [lanes_of_ready hb, addr4_header (Or.inl rfl) (show SpiProto.str.width = 1 from rfl), List.flatMap_cons,
    List.append_assoc, opcode_tx]
  rfl

theorem lanes_fastReadQuadIo (hq : c.qe = true) (a : Nat) (x : List Nat) (n : Nat) :
    c.lanes ((Op.tx spiCmdFastReadQuadIo .str :: addrOps a .quadStr).flatMap Op.samples ++ x) n =
      send .quadStr (14 + c.dummy) (fun j => c.byteAt (c.ext * 2 ^ 24 + a % 2 ^ 24 + j)) n := by
  rw [lanes_of_ready hb, addr3_header (Or.inr (Or.inr rfl)) (show SpiProto.quadStr.width = 4 from rfl),
    List.flatMap_cons, List.append_assoc, opcode_tx]
  exact if_pos hq

theorem lanes_4bFastReadQuadIo (hq : c.qe = true) (a : Nat) (x : List Nat) (n : Nat) :
    c.lanes ((Op.tx spiCmd4bFastReadQuadIo .str :: addr4bOps a .quadStr).flatMap Op.samples ++ x) n =
      send .quadStr (16 + c.dummy) (fun j => c.byteAt (a % 2 ^ 32 + j)) n := by
  rw [lanes_of_ready hb, addr4_header (Or.inr (Or.inr rfl)) (show SpiProto.quadStr.width = 4 from rfl),
    List.flatMap_cons, List.append_assoc, opcode_tx]
  exact if_pos hq

end Ready

-- READ STATUS is answered busy or not.
theorem lanes_readStatus (c : Chip) (x : List Nat) (n : Nat) :
    c.lanes ((Op.tx spiCmdReadStatusReg .str).samples ++ x) n = send .str 8 (fun _ => c.status) n := by
  rw [lanes, opcode_tx, if_neg fun h => h.2 rfl]; rfl

end Chip

/-! ## What the host reads from the chip -/

theorem rxBytes_replicate_clk (out : Nat → Nat) (c d : Nat) (rest : List Op) :
    rxBytes out c (List.replicate d .clk ++ rest) = rxBytes out (c + d) rest := by
  induction d generalizing c with
  | zero => rfl
  | succ d ih => rw [List.replicate_succ, List.cons_append, rxBytes, ih, Nat.add_right_comm, Nat.add_assoc]

-- Reads in the protocol a chip sends in take its bytes in turn, from the byte of the clock they start at.
theorem rxBytes_send {p : SpiProto} (hp : p.Sdr) (start : Nat) (byte : Nat → Nat) (len : Nat) :
    ∀ i, rxBytes (Chip.send p start byte) (start + 8 / p.width * i) (List.replicate len (.rx p)) =
      (List.range' i len).map fun j => byte j % 256 := by
  have h8 : 0 < 8 / p.width := by rcases hp with rfl | rfl | rfl <;> decide
  induction len with
  | zero => intro i; rfl
  | succ len ih =>
    intro i
    have hsend : ∀ j ∈ List.range (8 / p.width),
        Chip.send p start byte (start + 8 / p.width * i + j) = p.present (byte i) j := by
      intro j hj
      have hj := List.mem_range.mp hj
      rw [Chip.send, if_neg (by omega), Nat.add_assoc, Nat.add_sub_cancel_left, Nat.mul_add_div h8,
        Nat.div_eq_of_lt hj, Nat.add_zero, Nat.mul_add_mod, Nat.mod_eq_of_lt hj]
    rw [List.replicate_succ, rxBytes, List.map_congr_left hsend, presented_present hp, List.range'_succ,
      List.map_cons, Nat.add_assoc, ← Nat.mul_succ, ih]

/-! ## Triples -/

namespace Triple

variable {c : Chip} {α β : Type}

theorem pure' {a : α} {Q : α → Chip → Prop} (hQ : Q a c) : Triple c (pure a) Q :=
  fun _ h _ _ => ⟨a, [], c, by rw [List.append_nil]; rfl, rfl, hQ⟩

theorem bind {x : Ctrl α} {g : α → Ctrl β} {P : α → Chip → Prop} {Q : β → Chip → Prop}
    (hx : Triple c x P) (hg : ∀ a c', P a c' → Triple c' (g a) Q) : Triple c (x >>= g) Q := by
  intro bus h hp hb
  obtain ⟨a, ws₁, c₁, hr₁, hc₁, hP⟩ := hx bus h hp hb
  have hb₁ : Answers bus (h ++ ws₁) c₁.idle := hc₁ ▸ hb.after ws₁
  -- the busy period is the chip's own and the run keeps it
  have ht : c.tBusy = c₁.tBusy := (c.idle.tBusy_run ws₁).symm.trans (congrArg (·.tBusy) hc₁)
  obtain ⟨b, ws₂, c₂, hr₂, hc₂, hQ⟩ := hg a c₁ hP bus _ (ht ▸ hp) hb₁
  exact ⟨b, ws₁ ++ ws₂, c₂, by rw [Ctrl.run_bind_of_some hr₁, hr₂, List.append_assoc],
    by rw [Flash.run_append, hc₁, hc₂], hQ⟩

theorem mono {x : Ctrl α} {P Q : α → Chip → Prop} (hx : Triple c x P) (h : ∀ a c', P a c' → Q a c') :
    Triple c x Q := fun bus hist hp hb =>
  let ⟨a, ws, c', hr, hc, hP⟩ := hx bus hist hp hb
  ⟨a, ws, c', hr, hc, h a c' hP⟩

theorem map {x : Ctrl α} {f : α → β} {P : α → Chip → Prop} {Q : β → Chip → Prop} (hx : Triple c x P)
    (h : ∀ a c', P a c' → Q (f a) c') : Triple c (f <$> x) Q := by
  rw [← bind_pure_comp]
  exact hx.bind fun a c' hP => pure' (h a c' hP)

-- A program that returns `a` and leaves `c₁`, followed by one from `c₁`.
theorem seq {x : Ctrl α} {g : α → Ctrl β} {a : α} {c₁ : Chip} {Q : β → Chip → Prop}
    (hx : Triple c x fun a' c' => a' = a ∧ c' = c₁) (hg : Triple c₁ (g a) Q) : Triple c (x >>= g) Q :=
  hx.bind fun _ _ ⟨ha, hc⟩ => ha ▸ hc ▸ hg

/-! ### Frames -/

variable {Q : List Nat → Chip → Prop}

-- A frame of writes.
theorem frame_tx {ops : List Op} (htx : ops.all (·.isTx)) (hQ : Q [] (c.execute (ops.flatMap Op.samples))) :
    Triple c (frame ops) Q := fun bus h _ _ =>
  ⟨[], _, _, by rw [run_frame, opsValues_of_isTx bus htx], c.run_frameWrites ops, hQ⟩

-- A frame of writes `txs` that fix what the chip sends, then reads and dummy clocks.
theorem frame_listen (txs rest : List Op) (htx : txs.all (·.isTx)) (hs : ∀ o ∈ rest, o.Sdr) (out : Nat → Nat)
    (hout : ∀ x n, c.lanes (txs.flatMap Op.samples ++ x) n = out n)
    (hQ : Q (rxBytes out (txs.map Op.clocks).sum rest) (c.execute ((txs ++ rest).flatMap Op.samples))) :
    Triple c (frame (txs ++ rest)) Q := fun bus h _ hb => by
  refine ⟨_, _, _, run_frame bus (txs ++ rest) h, c.run_frameWrites _, ?_⟩
  have hlow : ∀ w ∈ txs.flatMap Op.writes, csnOf w = false := fun w hw => by
    obtain ⟨o, -, ho⟩ := List.mem_flatMap.mp hw; exact o.csnOf_writes w ho
  have htr : Transmits bus h (txs.flatMap Op.writes) out :=
    hb.transmits hlow (by rwa [risingSamples_flatMap_writes txs clkOf_flashCsN])
  have hl : clkOf ((txs.flatMap Op.writes).getLastD 0) = false := by
    cases txs with
    | nil => rfl
    | cons o os => rw [Op.getLastD_flatMap_writes (List.cons_ne_nil o os)]; rfl
  rwa [opsValues_append, opsValues_of_isTx bus htx, List.nil_append, opsValues_of_transmits rest hs _ htr hl,
    fallingEdges_flatMap_writes txs clkOf_zero]

-- A frame of writes `txs`, `d` dummy clocks and `len` reads, from a chip that sends the bytes `byte`
-- from the first read on.
theorem frame_send (txs : List Op) (htx : txs.all (·.isTx)) {p : SpiProto} (hp : p.Sdr) (d len : Nat)
    {byte : Nat → Nat}
    (hout : ∀ x n, c.lanes (txs.flatMap Op.samples ++ x) n = Chip.send p ((txs.map Op.clocks).sum + d) byte n)
    (hQ : Q ((List.range len).map fun j => byte j % 256)
      (c.execute ((txs ++ (List.replicate d Op.clk ++ List.replicate len (Op.rx p))).flatMap Op.samples))) :
    Triple c (frame (txs ++ (List.replicate d Op.clk ++ List.replicate len (Op.rx p)))) Q := by
  refine frame_listen txs _ htx (fun o ho => ?_) _ hout ?_
  · rcases List.mem_append.mp ho with h | h <;> rw [List.eq_of_mem_replicate h]
    exacts [trivial, hp]
  · have := rxBytes_send hp ((txs.map Op.clocks).sum + d) byte len 0
    rw [Nat.mul_zero, Nat.add_zero, ← List.range_eq_range'] at this
    rwa [rxBytes_replicate_clk, this]

end Triple

end Pyrite
