import Pyrite.Flash.Theorems.Driver
import Pyrite.Flash.Theorems.Nor
import Pyrite.Flash.Theorems.Erase

namespace Pyrite

/-! # The driver refines the NOR array

Against the flash model, every request the library serves returns what the abstract array returns
and leaves the chip holding the abstract array's contents: the read path's 4-byte opcodes above
16 MiB and the program and erase paths' extended address register with 3-byte opcodes agree on
every address, and page chunks and erase tiles add up to the request. -/

theorem FlashDevice.dataProto_cases (dev : FlashDevice) : dev.dataProto = .quadStr ∨ dev.dataProto = .str := by
  unfold FlashDevice.dataProto; split
  exacts [.inl rfl, .inr rfl]

-- The bytes `[b, b + s)` of an array of `M` bytes, for a block aligned to its size `s` that divides `M`.
theorem exists_add_mod_iff {M s b : Nat} (hM : s ∣ M) (hb : s ∣ b % M) (hpos : 0 < M) (y : Nat) :
    (∃ i < s, (b + i) % M = y) ↔ b % M ≤ y ∧ y < b % M + s := by
  have hle : b % M + s ≤ M := by
    obtain ⟨q, hq⟩ := hb
    obtain ⟨r, hr⟩ := hM
    have hlt : s * q < s * r := hq ▸ hr ▸ Nat.mod_lt b hpos
    calc b % M + s = s * (q + 1) := by rw [hq, Nat.mul_succ]
      _ ≤ s * r := Nat.mul_le_mul_left _ (Nat.lt_of_mul_lt_mul_left hlt)
      _ = M := hr.symm
  have hi : ∀ i < s, (b + i) % M = b % M + i := fun i hi => by
    rw [Nat.add_mod, Nat.mod_eq_of_lt (show i < M by omega), Nat.mod_eq_of_lt (by omega)]
  constructor
  · rintro ⟨i, hi', rfl⟩
    rw [hi i hi']
    omega
  · rintro ⟨h1, h2⟩
    exact ⟨y - b % M, by omega, by rw [hi _ (by omega)]; omega⟩

theorem Nor.erase_zero (n : Nor) (b : Nat) : n.erase b 0 = n := by
  simp [Nor.erase]

-- Between calls: the chip is idle and holds the array, and the device the driver keeps agrees with
-- it; on a quad-wired device the chip has quad enabled.
structure Serves (dev : FlashDevice) (n : Nor) (c : Chip) : Prop where
  k : c.k = n.k
  mem : c.mem = n.mem
  size : dev.size = 2 ^ n.k
  bounds : 16 ≤ n.k ∧ n.k ≤ 32
  dummy : dev.dataProto = .quadStr → dev.readDummyCycles.toNat = c.dummy
  qe : dev.dataProto = .quadStr → c.qe = true
  ext : n.k ≤ 24 → c.ext = 0
  busy : c.busy = 0

namespace Serves

variable {dev : FlashDevice} {n : Nor} {c : Chip}

theorem big_iff (hs : Serves dev n c) : dev.size > 0x1000000 ↔ 24 < n.k := by
  rw [hs.size, show (0x1000000 : Nat) = 2 ^ 24 from rfl, gt_iff_lt, Nat.pow_lt_pow_iff_right (by decide)]

-- The address the chip takes from a 3-byte frame is the request's, modulo the array, once the
-- extended address register holds the top byte of the address, or is 0 on a part of 16 MiB or less.
theorem addr3_mod (hs : Serves dev n c) {a e : Nat} (he : n.k ≤ 24 ∧ e = 0 ∨ e = (a >>> 24) % 256) :
    (e * 2 ^ 24 + a % 2 ^ 24) % 2 ^ n.k = a % 2 ^ n.k := by
  rcases he with ⟨hk, rfl⟩ | rfl
  · rw [Nat.zero_mul, Nat.zero_add, Nat.mod_mod_of_dvd _ (Nat.pow_dvd_pow 2 hk)]
  · have h32 : (a >>> 24) % 256 * 2 ^ 24 + a % 2 ^ 24 = a % 2 ^ 32 := by
      rw [Nat.shiftRight_eq_div_pow]; omega
    rw [h32, Nat.mod_mod_of_dvd _ (Nat.pow_dvd_pow 2 hs.bounds.2)]

theorem addr4_mod (hs : Serves dev n c) (a : Nat) : a % 2 ^ 32 % 2 ^ n.k = a % 2 ^ n.k :=
  Nat.mod_mod_of_dvd _ (Nat.pow_dvd_pow 2 hs.bounds.2)

-- What the chip sends from `base` is the array from `a`.
theorem read_eq (hs : Serves dev n c) {base a : Nat} (hbase : base % 2 ^ n.k = a % 2 ^ n.k) (len : Nat) :
    (List.range len).map (fun j => c.byteAt (base + j) % 256) = n.read a len := by
  rw [Nor.read]
  refine List.map_congr_left fun j _ => ?_
  rw [Chip.byteAt, hs.k, hs.mem, Nat.add_mod, hbase, ← Nat.add_mod]

-- The extended address register as the driver leaves it for a page or block at `a`.
def ExtFor (n : Nor) (c : Chip) (a : Nat) : Prop := n.k ≤ 24 ∧ c.ext = 0 ∨ c.ext = (a >>> 24) % 256

theorem with_ext (hs : Serves dev n c) (hbig : dev.size > 0x1000000) (e : Nat) :
    Serves dev n { c with ext := e } :=
  ⟨hs.k, hs.mem, hs.size, hs.bounds, hs.dummy, hs.qe, fun hk => absurd (hs.big_iff.mp hbig) (by omega), hs.busy⟩

theorem extFor_of_small (hs : Serves dev n c) (hbig : ¬dev.size > 0x1000000) (a : Nat) : ExtFor n c a :=
  .inl ⟨by have := hs.big_iff; omega, hs.ext (by have := hs.big_iff; omega)⟩

-- A page program with WEL set ANDs the chunk into the array, once its busy period is over.
theorem pageProgram (hs : Serves dev n c) {start : Nat} (hst : start % 256 = 0) {bytes : List Nat}
    (hlen : bytes.length ≤ 256) (he : ExtFor n c start) :
    Serves dev (n.program start bytes)
      { ({ c with wel := true } : Chip).pageProgram (c.ext * 2 ^ 24 + start % 2 ^ 24) (bytes.map (· % 256)) with
        busy := 0 } := by
  have hA : (c.ext * 2 ^ 24 + start % 2 ^ 24) % 256 = 0 := by omega
  refine ⟨hs.k, ?_, hs.size, hs.bounds, hs.dummy, hs.qe, hs.ext, rfl⟩
  show andInto _ c.mem _ 0 = andInto _ n.mem _ 0
  rw [hs.mem, hs.k]
  refine andInto_congr _ _ _ _ fun i hi => ?_
  simp only [List.length_map] at hi
  simp only [hA, Nat.sub_zero, Nat.zero_add]
  rw [Nat.mod_eq_of_lt (show i < 256 by omega), Nat.add_mod, hs.addr3_mod he, ← Nat.add_mod]

-- A block erase with WEL set erases the block of the array, once its busy period is over.
theorem blockErase (hs : Serves dev n c) {b s : Nat} (hsz : s = 0x1000 ∨ s = 0x10000) (hb : b % s = 0)
    (he : ExtFor n c b) :
    Serves dev (n.erase b s)
      { ({ c with wel := true } : Chip).blockErase (c.ext * 2 ^ 24 + b % 2 ^ 24) s with busy := 0 } := by
  have hsM : s ∣ 2 ^ n.k := by
    rcases hsz with rfl | rfl
    exacts [Nat.pow_dvd_pow 2 (show 12 ≤ n.k by have := hs.bounds; omega), Nat.pow_dvd_pow 2 hs.bounds.1]
  have hsb : s ∣ b % 2 ^ n.k := (Nat.dvd_mod_iff hsM).mpr (Nat.dvd_of_mod_eq_zero hb)
  refine ⟨hs.k, ?_, hs.size, hs.bounds, hs.dummy, hs.qe, hs.ext, rfl⟩
  simp only [Chip.blockErase, Nor.erase, if_true]
  rw [hs.k, hs.addr3_mod he, Nat.div_mul_cancel hsb, hs.mem]
  funext y
  simp only [exists_add_mod_iff hsM hsb (Nat.two_pow_pos _) y]

end Serves

namespace Triple

variable {dev : FlashDevice} {n : Nor} {c : Chip}

/-! ### Reads -/

theorem read (hs : Serves dev n c) (a len : Nat) :
    Triple c (spiFlashRead dev a len) fun r c' => r = (0, n.read a len) ∧ c' = c := by
  rw [spiFlashRead_eq]
  refine map (P := fun vs c' => vs = n.read a len ∧ c' = c) ?_ fun _ _ ⟨hv, hc⟩ => ⟨by rw [hv], hc⟩
  rw [readOps]
  rcases dev.dataProto_cases with hq | hq <;> by_cases hbig : dev.size > 0x1000000 <;>
    simp only [hq, hbig, if_true, if_false, ne_eq, reduceCtorEq, not_true_eq_false, not_false_eq_true]
  · exact frame_send _ (by rfl) (Or.inr (Or.inr rfl)) _ len
      (fun x m => by rw [Chip.lanes_4bFastReadQuadIo hs.busy (hs.qe hq), ← hs.dummy hq]; rfl)
      ⟨hs.read_eq (hs.addr4_mod a) len, Chip.execute_tx_of_not_mem (by decide) c _⟩
  · exact frame_send _ (by rfl) (Or.inr (Or.inr rfl)) _ len
      (fun x m => by rw [Chip.lanes_fastReadQuadIo hs.busy (hs.qe hq), ← hs.dummy hq]; rfl)
      ⟨hs.read_eq (hs.addr3_mod (hs.extFor_of_small hbig a)) len, Chip.execute_tx_of_not_mem (by decide) c _⟩
  · exact frame_send _ (by rfl) (Or.inl rfl) 0 len (Chip.lanes_4bRead hs.busy a)
      ⟨hs.read_eq (hs.addr4_mod a) len, Chip.execute_tx_of_not_mem (by decide) c _⟩
  · exact frame_send _ (by rfl) (Or.inl rfl) 0 len (Chip.lanes_read hs.busy a)
      ⟨hs.read_eq (hs.addr3_mod (hs.extFor_of_small hbig a)) len, Chip.execute_tx_of_not_mem (by decide) c _⟩

/-! ### Program and erase -/

-- One program or erase at `a`: the extended address on parts above 16 MiB, then the command's
-- frames and busy-wait, after which `k` runs from the chip the command leaves.
theorem extCommandFrames (hs : Serves dev n c) (a : Nat) {ops : List Op} (htx : ops.all (·.isTx))
    {k : Ctrl Int} {Q : Int → Chip → Prop}
    (hk : ∀ c₁, Serves dev n c₁ → Serves.ExtFor n c₁ a →
      Triple { ({ c₁ with wel := true } : Chip).execute (ops.flatMap Op.samples) with busy := 0 } k Q) :
    Triple c (do
      if dev.size > 0x1000000 then
        let _ ← frame [.tx spiCmdWriteExtAddrReg .str, .tx ((a >>> 24) % 256) .str]
      let _ ← frame [.tx spiCmdWriteEnable .str]
      let st ← (·.headD 0) <$> frame [.tx spiCmdReadStatusReg .str, .rx .str]
      if st &&& 0x02 = 0 then do
        let _ ← frame []
        pure (-1)
      else do
        let _ ← frame ops
        Pyrite.waitIdle
        k) Q := by
  by_cases hbig : dev.size > 0x1000000
  · have hc := commandFrames ({ c with ext := (a >>> 24) % 256 % 256 } : Chip) hs.busy htx
      (hk _ (hs.with_ext hbig _) (.inr (Nat.mod_mod _ _)))
    rw [if_pos hbig]
    exact bind_const (frame_tx rfl (Chip.execute_writeExtAddr hs.busy _ [])) fun _ => hc
  · have hc := commandFrames c hs.busy htx (hk c hs (hs.extFor_of_small hbig a))
    rw [if_neg hbig]
    exact hc

-- The chunks of a request, each inside one page, programmed in turn.
theorem programFrames (cs : List (Nat × List Nat)) (hcs : ∀ ch ∈ cs, ch.1 % 256 = 0 ∧ ch.2.length ≤ 256)
    (hs : Serves dev n c) :
    Triple c (programFrames dev cs) fun r c' => r = 0 ∧ Serves dev (cs.foldl (fun m ch => m.program ch.1 ch.2) n) c' := by
  induction cs generalizing n c with
  | nil => exact bind_const (frame_tx rfl (Chip.execute_nil c)) fun _ => pure' ⟨rfl, hs⟩
  | cons ch cs ih =>
    obtain ⟨start, bytes⟩ := ch
    obtain ⟨hst, hlen⟩ := hcs _ (List.mem_cons_self _ _)
    have hcmd : (if dev.dataWidth = 4 then spiCmdPageProgramQuadIn else spiCmdPageProgram) = spiCmdPageProgram ∧
          dev.dataProto = .str ∨
        (if dev.dataWidth = 4 then spiCmdPageProgramQuadIn else spiCmdPageProgram) = spiCmdPageProgramQuadIn ∧
          dev.dataProto = .quadStr := by
      unfold FlashDevice.dataProto; split <;> simp
    rw [Pyrite.programFrames]
    refine extCommandFrames hs start (by simp [addrOps, Op.isTx]) fun c₁ hs₁ he => ?_
    rw [Chip.execute_program (show ({ c₁ with wel := true } : Chip).busy = 0 from hs₁.busy)
      (hcmd.imp_right fun h => ⟨h.1, h.2, hs₁.qe h.2⟩)]
    exact ih (fun ch h => hcs ch (List.mem_cons_of_mem _ h)) (hs₁.pageProgram hst hlen he)

-- The tiling of `[b, b + rem)` erased block by block.
theorem eraseFrames (last : Int) (rem : Nat) :
    ∀ {b : Nat} {n : Nor} {c : Chip}, b % 0x1000 = 0 → rem % 0x1000 = 0 → Serves dev n c →
      Triple c (Pyrite.eraseFrames dev last (eraseTiles b rem)) fun r c' => r = last ∧ Serves dev (n.erase b rem) c' := by
  induction rem using Nat.strong_induction_on with
  | _ rem ih =>
    intro b n c hb hr hs
    by_cases h0 : rem = 0
    · subst h0
      rw [eraseTiles_zero, Nor.erase_zero]
      exact bind_const (frame_tx rfl (Chip.execute_nil c)) fun _ => pure' ⟨rfl, hs⟩
    rw [eraseTiles_pos h0]
    generalize hsz : (if b % 0x10000 = 0 ∧ rem ≥ 0x10000 then 0x10000 else 0x1000) = s
    have hs' : (s = 0x1000 ∨ s = 0x10000) ∧ b % s = 0 ∧ s ≤ rem := by
      subst hsz; split <;> omega
    have hcmd : (if s = 0x10000 then spiCmdSectorErase else spiCmd4kbSubsectorErase) = spiCmd4kbSubsectorErase ∧
        s = 0x1000 ∨ (if s = 0x10000 then spiCmdSectorErase else spiCmd4kbSubsectorErase) = spiCmdSectorErase ∧
        s = 0x10000 := by
      rcases hs'.1 with rfl | rfl <;> simp
    rw [Pyrite.eraseFrames]
    refine extCommandFrames hs b (by simp [addrOps, Op.isTx]) fun c₁ hs₁ he => ?_
    rw [Chip.execute_erase (show ({ c₁ with wel := true } : Chip).busy = 0 from hs₁.busy) hcmd,
      ← n.erase_erase b hs'.2.2]
    exact ih _ (by omega) (by omega) (by omega) (hs₁.blockErase hs'.1 hs'.2.1 he)

/-! ### Requests and sessions -/

-- Each request the library serves on an open device does what it does on the abstract array.
theorem request (hs : Serves dev n c) (r : Request) :
    Triple c (r.drive (some dev)) fun res c' => res = (r.serve n).1 ∧ Serves dev (r.serve n).2 c' := by
  cases r with
  | read a len => exact (read hs a len).mono fun _ _ ⟨hr, hc⟩ => ⟨hr, hc ▸ hs⟩
  | write a src =>
    show Triple c ((·, []) <$> spiFlashWrite dev a src) _
    rw [spiFlashWrite_eq, programSpec]
    by_cases h : src ≠ [] ∧ a % 256 ≠ 0
    · simp only [Request.serve, if_pos h]
      exact map (bind_const (frame_tx rfl (Chip.execute_nil c)) fun _ =>
          pure' (Q := fun v c' => v = -1 ∧ c' = c) ⟨rfl, rfl⟩)
        fun _ _ ⟨hv, hc⟩ => ⟨by rw [hv], hc ▸ hs⟩
    · simp only [Request.serve, if_neg h]
      have hcs : ∀ ch ∈ pageChunks a src, ch.1 % 256 = 0 ∧ ch.2.length ≤ 256 := fun ch hch => by
        by_cases ha : a % 256 = 0
        · exact ⟨(pageChunks_page ha src ch hch).1, (pageChunks_page ha src ch hch).2.2⟩
        · obtain rfl : src = [] := by by_contra hne; exact h ⟨hne, ha⟩
          simp [pageChunks_nil] at hch
      exact map (programFrames _ hcs hs) fun _ _ ⟨hr, hc⟩ =>
        ⟨by rw [hr], by rwa [Nor.foldl_program_pageChunks] at hc⟩
  | erase a len =>
    show Triple c ((·, []) <$> spiFlashErase dev a len) _
    rw [spiFlashErase_eq]
    by_cases h0 : len = 0
    · simp only [Request.serve, h0, if_true]
      exact map (bind_const (deselect c) fun _ => pure' (Q := fun v c' => v = 0 ∧ c' = c) ⟨rfl, rfl⟩)
        fun _ _ ⟨hv, hc⟩ => ⟨by rw [hv], hc ▸ hs⟩
    by_cases hbad : a % 0x1000 ≠ 0 ∨ len < 0x1000
    · simp only [Request.serve, h0, hbad, if_true, if_false]
      exact map (bind_const (deselect c) fun _ => pure' (Q := fun v c' => v = -1 ∧ c' = c) ⟨rfl, rfl⟩)
        fun _ _ ⟨hv, hc⟩ => ⟨by rw [hv], hc ▸ hs⟩
    · simp only [Request.serve, h0, hbad, if_false]
      exact map (eraseFrames _ _ (by omega) (by omega) hs) fun _ _ ⟨hr, hc⟩ => ⟨by rw [hr], hc⟩

theorem serve (rs : List Request) : ∀ {n : Nor} {c : Chip}, Serves dev n c →
    Triple c (rs.mapM (Request.drive (some dev))) fun res c' =>
      res = (n.serve rs).1 ∧ Serves dev (n.serve rs).2 c' := by
  induction rs with
  | nil => intro n c hs; exact pure' ⟨rfl, hs⟩
  | cons r rs ih =>
    intro n c hs
    rw [List.mapM_cons]
    exact (request hs r).bind fun _ _ ⟨hr, hs₁⟩ => (ih hs₁).bind fun _ _ ⟨hrs, hs₂⟩ =>
      pure' ⟨by rw [hr, hrs]; rfl, hs₂⟩

-- A session from power-on: the device opens on a part of `2^k` bytes and each request returns what
-- it returns on the array, which the chip holds at the end.
theorem session (v : Vendor) {k : Nat} (hk : 20 ≤ k ∧ k ≤ 32) (w : Int) (mem : Nat → Nat) (cfg : Nat) (qe : Bool)
    (t : Nat) (rs : List Request) :
    Triple (Chip.init v k mem cfg qe t) (Pyrite.session w rs) fun res c' =>
      res = (Nor.serve ⟨k, mem⟩ rs).1 ∧ c'.mem = (Nor.serve ⟨k, mem⟩ rs).2.mem := by
  unfold Pyrite.session
  exact (openSpi v hk w mem cfg qe t).bind fun _ _ ⟨dev, hr, hsize, _, hq, hk', hmem, hext, hbusy⟩ => by
    subst hr
    exact (serve rs ⟨hk', hmem, hsize, ⟨show 16 ≤ k by omega, hk.2⟩, fun h => (hq h).1, fun h => (hq h).2,
      fun _ => hext, hbusy⟩).mono fun _ _ ⟨h₁, h₂⟩ => ⟨h₁, h₂.mem⟩

end Triple

/-- Against an SPI NOR flash of `2^k` bytes (1 MiB to 4 GiB) from either vendor, whatever
configuration and quad-enable bit it powers on with and however many status reads its programs and
erases stay busy for, driven only through the control register on a bus whose busy-waits may poll
more often than that: opening the device and then making any requests returns, request by request,
what the abstract NOR array returns, and the chip ends holding the abstract array's contents; for
every data width and every initial contents. -/
theorem session_refines_nor (v : Vendor) {k : Nat} (hk : 20 ≤ k ∧ k ≤ 32) (w : Int) (mem : Nat → Nat)
    (cfg : Nat) (qe : Bool) (t : Nat) (rs : List Request) {polls : Nat} (hp : t < polls) :
    ((session w rs).run ((Chip.init v k mem cfg qe t).bus polls) []).1 = some (Nor.serve ⟨k, mem⟩ rs).1 ∧
      ((Chip.init v k mem cfg qe t).idle.run ((session w rs).run ((Chip.init v k mem cfg qe t).bus polls) []).2).mem =
        (Nor.serve ⟨k, mem⟩ rs).2.mem := by
  obtain ⟨_, ws, c', hr, hc, ha, hm⟩ :=
    Triple.session v hk w mem cfg qe t rs ((Chip.init v k mem cfg qe t).bus polls) [] hp (Chip.answers_bus _ polls)
  rw [hr, List.nil_append, hc, ha]
  exact ⟨rfl, hm⟩

-- A quad-wired Macronix part that powers on with QE clear and 10 dummy clocks selected, and stays
-- busy for two status reads after each program: a write and its read-back.
theorem session_refines_nor_quad_program_read :
    (20 ≤ 20 ∧ 20 ≤ 32) ∧ 2 < 3 ∧
      ((session 4 [.write 0 [1, 2, 3], .read 0 3]).run
        ((Chip.init .macronix 20 (fun _ => 0xFF) 0xC0 false 2).bus 3) []).1 = some [(0, []), (0, [1, 2, 3])] :=
  ⟨⟨by decide, by decide⟩, by decide,
    (session_refines_nor .macronix ⟨by decide, by decide⟩ 4 (fun _ => 0xFF) 0xC0 false 2
      [.write 0 [1, 2, 3], .read 0 3] (by decide)).1.trans rfl⟩

end Pyrite
