import Pyrite.Flash.Wire

namespace Pyrite

/-! The wire behaviour of the byte-level calls. Each call keeps CS# low and leaves CLK low, so what
the flash samples and what the host reads back can be computed call by call; over a whole frame the
flash receives the bytes written and the host reads the bytes presented. -/

theorem getLastD_append' (a b : List Nat) (d : Nat) : (a ++ b).getLastD d = b.getLastD (a.getLastD d) := by
  induction a generalizing d with
  | nil => rfl
  | cons x a ih => rw [List.cons_append, List.getLastD_cons, List.getLastD_cons, ih]

theorem risingSamples_append (prev : Nat) (a b : List Nat) :
    risingSamples prev (a ++ b) = risingSamples prev a ++ risingSamples (a.getLastD prev) b := by
  induction a generalizing prev with
  | nil => rfl
  | cons w a ih =>
    show risingSamples prev (w :: (a ++ b)) = _
    rw [risingSamples, risingSamples, ih, List.getLastD_cons, List.append_assoc]

theorem fallingEdges_append (prev : Nat) (a b : List Nat) :
    fallingEdges prev (a ++ b) = fallingEdges prev a + fallingEdges (a.getLastD prev) b := by
  induction a generalizing prev with
  | nil => simp [fallingEdges]
  | cons w a ih =>
    show fallingEdges prev (w :: (a ++ b)) = _
    rw [fallingEdges, fallingEdges, ih, List.getLastD_cons, Nat.add_assoc]

section Clocks

/-! A byte-level call is a run of clocks, each a write with CLK low and then one with CLK high, all
with CS# low, closed by a write of 0. -/

variable (lo hi : Nat → Nat) (hlo : ∀ i, clkOf (lo i) = false ∧ csnOf (lo i) = false)
  (hhi : ∀ i, clkOf (hi i) = true ∧ csnOf (hi i) = false)

def clockWrites (is : List Nat) : List Nat := (is.flatMap fun i => [lo i, hi i]) ++ [0]

theorem clockWrites_cons (i : Nat) (is : List Nat) :
    clockWrites lo hi (i :: is) = lo i :: hi i :: clockWrites lo hi is := by
  rw [clockWrites, List.flatMap_cons, List.append_assoc]; rfl

include hlo hhi

theorem risingSamples_clockWrites (is : List Nat) (prev : Nat) :
    risingSamples prev (clockWrites lo hi is) = is.map fun i => hi i % 16 := by
  induction is generalizing prev with
  | nil => simp [clockWrites, risingSamples]
  | cons i is ih =>
    rw [clockWrites_cons, risingSamples, risingSamples, ih, (hlo i).1, (hhi i).1, (hhi i).2]
    simp

theorem fallingEdges_clockWrites (is : List Nat) (prev : Nat) :
    fallingEdges prev (clockWrites lo hi is) = (if clkOf prev then 1 else 0) + is.length := by
  induction is generalizing prev with
  | nil => simp [clockWrites, fallingEdges]
  | cons i is ih =>
    rw [clockWrites_cons, fallingEdges, fallingEdges, ih, (hlo i).1, (hhi i).1, List.length_cons]
    cases clkOf prev <;> simp <;> omega

theorem csnOf_clockWrites (is : List Nat) : ∀ w ∈ clockWrites lo hi is, csnOf w = false := by
  intro w hw
  simp only [clockWrites, List.mem_append, List.mem_flatMap, List.mem_cons, List.mem_singleton,
    List.not_mem_nil, or_false] at hw
  rcases hw with ⟨i, -, rfl | rfl⟩ | rfl
  · exact (hlo i).2
  · exact (hhi i).2
  · rfl

omit hhi in
theorem clkOf_headD_clockWrites (is : List Nat) : clkOf ((clockWrites lo hi is).headD 0) = false := by
  cases is with
  | nil => simp [clockWrites]
  | cons i is => rw [clockWrites_cons]; exact (hlo i).1

end Clocks

-- The lines of one clock of `spi_flash_write_byte`: the data bits and the output enables sit below
-- CLK and CS#, and the lanes carry the data bits.
theorem txClock_lines (p : SpiProto) (x : Nat) :
    clkOf ((x &&& p.mask) ||| p.oe) = false ∧ csnOf ((x &&& p.mask) ||| p.oe) = false ∧
    clkOf ((x &&& p.mask) ||| p.oe ||| flashClk) = true ∧
    csnOf ((x &&& p.mask) ||| p.oe ||| flashClk) = false ∧
    ((x &&& p.mask) ||| p.oe ||| flashClk) % 16 = x &&& p.mask := by
  have hb : x &&& p.mask < 16 := Nat.lt_of_le_of_lt Nat.and_le_right (by cases p <;> decide)
  generalize x &&& p.mask = b at hb
  cases p <;> revert b <;> decide

namespace Op

theorem writes_tx (v : Nat) (p : SpiProto) :
    (tx v p).writes = clockWrites (fun i => ((v >>> i) &&& p.mask) ||| p.oe)
      (fun i => ((v >>> i) &&& p.mask) ||| p.oe ||| flashClk) p.shifts := rfl

theorem writes_rx (p : SpiProto) : (rx p).writes = clockWrites (fun _ => 0) (fun _ => flashClk) p.shifts :=
  rfl

theorem tx_low (v : Nat) (p : SpiProto) (i : Nat) :
    clkOf (((v >>> i) &&& p.mask) ||| p.oe) = false ∧ csnOf (((v >>> i) &&& p.mask) ||| p.oe) = false :=
  ⟨(txClock_lines p _).1, (txClock_lines p _).2.1⟩

theorem tx_high (v : Nat) (p : SpiProto) (i : Nat) :
    clkOf (((v >>> i) &&& p.mask) ||| p.oe ||| flashClk) = true ∧
      csnOf (((v >>> i) &&& p.mask) ||| p.oe ||| flashClk) = false :=
  ⟨(txClock_lines p _).2.2.1, (txClock_lines p _).2.2.2.1⟩

theorem rx_low (i : Nat) : clkOf ((fun _ => 0) i) = false ∧ csnOf ((fun _ => 0) i) = false :=
  ⟨clkOf_zero, csnOf_zero⟩

theorem rx_high (i : Nat) : clkOf ((fun _ => flashClk) i) = true ∧ csnOf ((fun _ => flashClk) i) = false :=
  ⟨clkOf_flashClk, csnOf_flashClk⟩

theorem getLastD_writes (o : Op) (d : Nat) : o.writes.getLastD d = 0 := by
  cases o <;> simp [writes, clockWrites]

theorem getLastD_flatMap_writes {ops : List Op} (h : ops ≠ []) (d : Nat) :
    (ops.flatMap writes).getLastD d = 0 := by
  induction ops generalizing d with
  | nil => exact absurd rfl h
  | cons o os ih =>
    rw [List.flatMap_cons, getLastD_append']
    cases os with
    | nil => rw [List.flatMap_nil, List.getLastD_nil, getLastD_writes]
    | cons o' os' => exact ih (List.cons_ne_nil _ _) _

-- Every write of a call keeps CS# low.
theorem csnOf_writes (o : Op) : ∀ w ∈ o.writes, csnOf w = false := by
  cases o with
  | tx v p => exact csnOf_clockWrites _ _ (tx_low v p) (tx_high v p) _
  | rx p => exact csnOf_clockWrites _ _ rx_low rx_high _
  | clk => simp [writes]

-- A byte-level call opens with CLK low.
theorem clkOf_headD_writes (o : Op) (ho : o ≠ .clk) : clkOf (o.writes.headD 0) = false := by
  cases o with
  | tx v p => exact clkOf_headD_clockWrites _ _ (tx_low v p) _
  | rx p => exact clkOf_headD_clockWrites _ _ rx_low _
  | clk => exact absurd rfl ho

@[simp] theorem length_samples (o : Op) : o.samples.length = o.clocks := by
  cases o <;> simp [samples, clocks, SpiProto.length_shifts]

section Prev

variable {prev : Nat} (hprev : clkOf prev = false)
include hprev

-- The flash samples each call's own lanes: a write's data groups, and nothing on the host's lanes
-- during a read or a dummy clock.
theorem risingSamples_writes (o : Op) : risingSamples prev o.writes = o.samples := by
  cases o with
  | tx v p =>
    rw [writes_tx, risingSamples_clockWrites _ _ (tx_low v p) (tx_high v p)]
    simp only [(txClock_lines p _).2.2.2.2, samples]
  | rx p =>
    rw [writes_rx, risingSamples_clockWrites _ _ rx_low rx_high]
    simp [samples]
  | clk => simp [writes, samples, risingSamples, hprev]

-- Each clock ends with one falling edge.
theorem fallingEdges_writes (o : Op) : fallingEdges prev o.writes = o.clocks := by
  cases o with
  | tx v p =>
    rw [writes_tx, fallingEdges_clockWrites _ _ (tx_low v p) (tx_high v p)]
    simp [hprev, clocks, SpiProto.length_shifts]
  | rx p =>
    rw [writes_rx, fallingEdges_clockWrites _ _ rx_low rx_high]
    simp [hprev, clocks, SpiProto.length_shifts]
  | clk => simp [writes, clocks, fallingEdges, hprev]

end Prev

end Op

-- Since every call leaves CLK low, the samples of a run of calls are the calls' samples in turn.
theorem risingSamples_flatMap_writes (ops : List Op) {prev : Nat} (hprev : clkOf prev = false) :
    risingSamples prev (ops.flatMap Op.writes) = ops.flatMap Op.samples := by
  induction ops generalizing prev with
  | nil => rfl
  | cons o os ih =>
    rw [List.flatMap_cons, List.flatMap_cons, risingSamples_append, Op.risingSamples_writes hprev,
      Op.getLastD_writes, ih clkOf_zero]

theorem fallingEdges_flatMap_writes (ops : List Op) {prev : Nat} (hprev : clkOf prev = false) :
    fallingEdges prev (ops.flatMap Op.writes) = (ops.map Op.clocks).sum := by
  induction ops generalizing prev with
  | nil => rfl
  | cons o os ih =>
    rw [List.flatMap_cons, fallingEdges_append, Op.fallingEdges_writes hprev, Op.getLastD_writes, ih clkOf_zero,
      List.map_cons, List.sum_cons]

theorem assemble_lt (w : Nat) (ss : List Nat) : assemble w ss < 2 ^ (w * ss.length) := by
  induction ss with
  | nil => simp [assemble]
  | cons s ss ih =>
    rw [assemble, Nat.shiftLeft_eq, Nat.mul_comm, ← Nat.mul_add_lt_is_or ih, List.length_cons,
      Nat.mul_succ, Nat.pow_add]
    have := Nat.mod_lt s (Nat.two_pow_pos w)
    calc 2 ^ (w * ss.length) * (s % 2 ^ w) + assemble w ss
        < 2 ^ (w * ss.length) * (s % 2 ^ w + 1) := by rw [Nat.mul_succ]; omega
      _ ≤ 2 ^ (w * ss.length) * 2 ^ w := Nat.mul_le_mul_left _ this

@[simp] theorem assemble_nil (w : Nat) : assemble w [] = 0 := rfl

theorem assemble_cons (w s : Nat) (ss : List Nat) :
    assemble w (s :: ss) = s % 2 ^ w * 2 ^ (w * ss.length) + assemble w ss := by
  rw [assemble, Nat.shiftLeft_eq, Nat.mul_comm, ← Nat.mul_add_lt_is_or (assemble_lt w ss), Nat.mul_comm]

theorem assemble_append (w : Nat) (xs ys : List Nat) :
    assemble w (xs ++ ys) = assemble w xs * 2 ^ (w * ys.length) + assemble w ys := by
  induction xs with
  | nil => simp [assemble]
  | cons x xs ih =>
    rw [List.cons_append, assemble_cons, assemble_cons, ih, List.length_append, Nat.mul_add, Nat.pow_add,
      Nat.add_mul, Nat.mul_assoc, Nat.add_assoc]

-- Groups of `w` bits taken from the top reassemble the low `w * n` bits.
theorem assemble_digits (w n v : Nat) :
    assemble w ((digitShifts w n).map fun i => (v >>> i) % 2 ^ w) = v % 2 ^ (w * n) := by
  induction n with
  | zero => simp [digitShifts, assemble, Nat.mod_one]
  | succ n ih =>
    rw [digitShifts, List.map_cons, assemble_cons, ih]
    simp only [List.length_map, length_digitShifts, Nat.shiftRight_eq_div_pow]
    rw [Nat.mul_succ, Nat.pow_add, Nat.mod_mul, Nat.mod_mod, Nat.mul_comm (v / 2 ^ (w * n) % 2 ^ w),
      Nat.add_comm]

-- What the flash assembles from the clocks of `spi_flash_write_byte(v, p)` is `v`.
theorem assemble_samples_tx {p : SpiProto} (hp : p.Sdr) (v : Nat) :
    assemble p.width ((Op.tx v p).samples) = v % 256 := by
  rw [Op.samples, hp.shifts_eq, hp.mask_eq]
  simp only [Nat.and_pow_two_sub_one_eq_mod]
  rw [assemble_digits, hp.width_mul]
  rfl

theorem length_flatMap_samples_tx (p : SpiProto) (vs : List Nat) :
    ((vs.map (Op.tx · p)).flatMap Op.samples).length = vs.length * (8 / p.width) := by
  induction vs with
  | nil => simp
  | cons v vs ih =>
    rw [List.map_cons, List.flatMap_cons, List.length_append, ih, Op.length_samples, List.length_cons,
      Nat.succ_mul, Nat.add_comm]
    rfl

-- Bytes written one after the other in one protocol assemble, 8 bits a byte, to the bytes in turn.
theorem assemble_samples_txs {p : SpiProto} (hp : p.Sdr) (vs : List Nat) :
    assemble p.width ((vs.map (Op.tx · p)).flatMap Op.samples) = assemble 8 vs := by
  induction vs with
  | nil => rfl
  | cons v vs ih =>
    rw [List.map_cons, List.flatMap_cons, assemble_append, assemble_samples_tx hp, ih, length_flatMap_samples_tx,
      Nat.mul_left_comm, hp.width_mul, assemble_cons, Nat.mul_comm vs.length 8]
    rfl

-- A receiver that knows the calls takes back the bytes written, however the widths are mixed.
theorem receive_flatMap_samples (ops : List Op) (hs : ∀ o ∈ ops, o.Sdr) :
    receive ops (ops.flatMap Op.samples) = ops.filterMap Op.sent := by
  induction ops with
  | nil => rfl
  | cons o os ih =>
    have ih := ih fun o' h => hs o' (List.mem_cons_of_mem _ h)
    have hlen := Op.length_samples o
    cases o with
    | tx v p =>
      simp only [Op.clocks] at hlen
      simp only [List.flatMap_cons, receive, List.take_left' hlen, List.drop_left' hlen, ih,
        assemble_samples_tx (hs _ (List.mem_cons_self _ _)), List.filterMap_cons, Op.sent]
    | rx p =>
      simp only [Op.clocks] at hlen
      simp only [List.flatMap_cons, receive, List.drop_left' hlen, ih, List.filterMap_cons, Op.sent]
    | clk =>
      simp only [Op.clocks] at hlen
      simp only [List.flatMap_cons, receive, List.drop_left' hlen, ih, List.filterMap_cons, Op.sent]

@[simp] theorem txBus_read (h0 s : List Nat) (out : Nat → Nat) :
    (txBus h0 out).read (h0 ++ s) = out (fallingEdges 0 s) := by
  simp [txBus]

theorem txBus_transmits (h0 s : List Nat) (out : Nat → Nat) : Transmits (txBus h0 out) h0 s out :=
  fun t _ => txBus_read h0 (s ++ t) out

theorem Transmits.extend {bus : Bus} {h0 s t : List Nat} {out : Nat → Nat} (hb : Transmits bus h0 s out)
    (ht : ∀ w ∈ t, csnOf w = false) : Transmits bus h0 (s ++ t) out := fun u hu => by
  rw [List.append_assoc]
  exact hb (t ++ u) fun w hw => (List.mem_append.mp hw).elim (ht w) (hu w)

theorem fallingEdges_clock (s : List Nat) :
    fallingEdges 0 (s ++ [0, flashClk] ++ [0]) = fallingEdges 0 (s ++ [0]) + 1 := by
  rw [List.append_assoc, show [0, flashClk] ++ [0] = [0] ++ [flashClk, 0] from rfl, ← List.append_assoc,
    fallingEdges_append, List.getLastD_concat]
  simp [fallingEdges]

-- The clocks of `spi_flash_read_byte` read the lanes after each falling edge, the first one top.
theorem lanesValue_of_transmits {bus : Bus} {h0 : List Nat} {out : Nat → Nat} {p : SpiProto} (hp : p.Sdr)
    (n : Nat) : ∀ s val, Transmits bus h0 s out →
      lanesValue bus p (h0 ++ s) (digitShifts p.width n) val =
        val ||| assemble p.width ((List.range n).map fun j => p.readLane (out (fallingEdges 0 (s ++ [0]) + j))) := by
  induction n with
  | zero => simp [digitShifts, lanesValue, assemble]
  | succ n ih =>
    intro s val hb
    have hr : bus.read (h0 ++ s ++ [0]) = out (fallingEdges 0 (s ++ [0])) := by
      simpa only [List.append_assoc] using hb [0] (by simp)
    rw [digitShifts, lanesValue, List.append_assoc, ih _ _ (hb.extend (by simp)), hr, fallingEdges_clock, List.range_succ_eq_map, List.map_cons, List.map_map, assemble, hp.sample_eq,
      Nat.mod_eq_of_lt (hp.readLane_lt _), Nat.or_assoc]
    simp only [List.length_map, List.length_range, Function.comp_def, Nat.add_zero, Nat.add_assoc,
      Nat.add_comm 1]

theorem value_rx_of_transmits {bus : Bus} {h0 s : List Nat} {out : Nat → Nat} (hb : Transmits bus h0 s out)
    {p : SpiProto} (hp : p.Sdr) :
    (Op.rx p).value bus (h0 ++ s) =
      some (presented p ((List.range (8 / p.width)).map fun j => out (fallingEdges 0 (s ++ [0]) + j))) := by
  rw [Op.value, hp.shifts_eq, lanesValue_of_transmits hp _ s 0 hb, Nat.zero_or, presented, List.map_map]
  rfl

theorem opsValues_append (bus : Bus) (h : List Nat) (xs ys : List Op) :
    opsValues bus h (xs ++ ys) = opsValues bus h xs ++ opsValues bus (h ++ xs.flatMap Op.writes) ys := by
  induction xs generalizing h with
  | nil => simp [opsValues]
  | cons o os ih => rw [List.cons_append, opsValues, opsValues, ih, List.flatMap_cons, List.append_assoc,
      List.append_assoc]

-- Writes alone read nothing.
theorem opsValues_of_isTx (bus : Bus) {ops : List Op} (htx : ops.all (·.isTx)) (h : List Nat) :
    opsValues bus h ops = [] := by
  induction ops generalizing h with
  | nil => rfl
  | cons o os ih =>
    simp only [List.all_cons, Bool.and_eq_true] at htx
    cases o with
    | tx v p => exact ih htx.2 _
    | rx p => simp [Op.isTx] at htx
    | clk => simp [Op.isTx] at htx

-- Against a transmitter that moves to its next output at each falling edge, the host reads, call by
-- call, the outputs of its clocks.
theorem opsValues_of_transmits {bus : Bus} {h0 : List Nat} {out : Nat → Nat} (ops : List Op)
    (hs : ∀ o ∈ ops, o.Sdr) : ∀ s, Transmits bus h0 s out → clkOf (s.getLastD 0) = false →
      opsValues bus (h0 ++ s) ops = rxBytes out (fallingEdges 0 s) ops := by
  induction ops with
  | nil => intro s _ _; rfl
  | cons o os ih =>
    intro s hb hl
    have ih := ih (fun o' h => hs o' (List.mem_cons_of_mem _ h)) (s ++ o.writes) (hb.extend o.csnOf_writes)
      (by rw [getLastD_append', Op.getLastD_writes]; rfl)
    have hc : fallingEdges 0 (s ++ o.writes) = fallingEdges 0 s + o.clocks := by
      rw [fallingEdges_append, Op.fallingEdges_writes hl]
    have hz : fallingEdges 0 (s ++ [0]) = fallingEdges 0 s := by
      rw [fallingEdges_append, fallingEdges, fallingEdges, hl]; rfl
    rw [opsValues, List.append_assoc, ih, hc]
    cases o with
    | tx v p => rfl
    | rx p => rw [value_rx_of_transmits hb (hs _ (List.mem_cons_self _ _)), hz]; rfl
    | clk => rfl

-- A transmitter that presents a byte MSB-first on the protocol's lanes is read back as that byte.
theorem presented_present {p : SpiProto} (hp : p.Sdr) (b : Nat) :
    presented p ((List.range (8 / p.width)).map (p.present b)) = b % 256 := by
  have hlanes : (List.range (8 / p.width)).map (p.readLane ∘ p.present b) =
      (digitShifts p.width (8 / p.width)).map fun i => (b >>> i) % 2 ^ p.width := by
    rw [digitShifts_eq_range, List.map_map]
    refine List.map_congr_left fun j hj => ?_
    have hj := List.mem_range.mp hj
    rcases hp with rfl | rfl | rfl
    · show (((b >>> (7 - j)) % 2) <<< 1) / 2 % 2 = (b >>> (1 * (8 / 1 - 1 - j))) % 2 ^ 1
      rw [show 1 * (8 / 1 - 1 - j) = 7 - j by omega, Nat.shiftLeft_eq, Nat.pow_one]
      omega
    all_goals
      simp only [Function.comp_apply, SpiProto.readLane, SpiProto.present, SpiProto.width, Nat.mod_mod] at hj ⊢
      congr 2
      omega
  rw [presented, List.map_map, hlanes, assemble_digits, hp.width_mul]
  rfl

theorem and_ff (x : Nat) : x &&& 0xff = x % 256 := Nat.and_pow_two_sub_one_eq_mod x 8

-- The bytes `spi_flash_write_addr` and `spi_flash_write_addr_4b` send, most significant first.
theorem sent_addrOps (a : Nat) (p : SpiProto) :
    (addrOps a p).filterMap Op.sent = [(a >>> 16) % 256, (a >>> 8) % 256, a % 256] := by
  simp [addrOps, Op.sent, and_ff]

theorem sent_addr4bOps (a : Nat) (p : SpiProto) :
    (addr4bOps a p).filterMap Op.sent = [(a >>> 24) % 256, (a >>> 16) % 256, (a >>> 8) % 256, a % 256] := by
  simp [addr4bOps, addrOps, Op.sent, and_ff]

-- A run of byte-level calls, each at single rate on its own lane width, after a write with CLK low:
-- the flash receives the bytes written, in order; each call takes its own clocks, keeps CS# low and
-- leaves CLK low; and against a transmitter that moves on at each falling edge the host reads, call
-- by call, what was presented, which is the byte itself when it is presented MSB-first.
theorem runOps_wire_roundtrip (ops : List Op) (hs : ∀ o ∈ ops, o.Sdr) (h0 : List Nat) (out : Nat → Nat) :
    (runOps ops).run (txBus h0 out) h0 = (some (rxBytes out 0 ops), h0 ++ ops.flatMap Op.writes) ∧
    (∀ prev, clkOf prev = false →
      receive ops (risingSamples prev (ops.flatMap Op.writes)) = ops.filterMap Op.sent ∧
      ∀ o ∈ ops, (risingSamples prev o.writes).length = o.clocks ∧ fallingEdges prev o.writes = o.clocks ∧
        (∀ w ∈ o.writes, csnOf w = false) ∧ o.writes.getLastD prev = 0 ∧
        (o ≠ .clk → clkOf (o.writes.headD 0) = false)) ∧
    (∀ a p, (addrOps a p).filterMap Op.sent = [(a >>> 16) % 256, (a >>> 8) % 256, a % 256] ∧
      (addr4bOps a p).filterMap Op.sent = [(a >>> 24) % 256, (a >>> 16) % 256, (a >>> 8) % 256, a % 256]) ∧
    ∀ p b, p.Sdr → presented p ((List.range (8 / p.width)).map (p.present b)) = b % 256 := by
  refine ⟨?_, fun prev hprev => ⟨?_, fun o _ => ?_⟩, fun a p => ⟨sent_addrOps a p, sent_addr4bOps a p⟩,
    fun p b hp => presented_present hp b⟩
  · have := opsValues_of_transmits ops hs [] (txBus_transmits h0 [] out) rfl
    rw [List.append_nil] at this
    rw [run_runOps, this]
    rfl
  · rw [risingSamples_flatMap_writes ops hprev, receive_flatMap_samples ops hs]
  · exact ⟨by rw [Op.risingSamples_writes hprev, Op.length_samples], Op.fallingEdges_writes hprev o,
      Op.csnOf_writes o, Op.getLastD_writes o prev, Op.clkOf_headD_writes o⟩

theorem runOps_wire_roundtrip_mixed :
    (∀ o ∈ [.tx 0x9F .str, .tx 0x5A .quadStr, .clk, .rx .dualStr, .rx .quadStr], Op.Sdr o) ∧
      (runOps [.tx 0x9F .str, .tx 0x5A .quadStr, .clk, .rx .dualStr, .rx .quadStr]).run (txBus [] id) [] =
        (some (rxBytes id 0 [.tx 0x9F .str, .tx 0x5A .quadStr, .clk, .rx .dualStr, .rx .quadStr]),
          [] ++ [Op.tx 0x9F .str, .tx 0x5A .quadStr, .clk, .rx .dualStr, .rx .quadStr].flatMap Op.writes) :=
  ⟨by decide, (runOps_wire_roundtrip _ (by decide) [] id).1⟩

end Pyrite
