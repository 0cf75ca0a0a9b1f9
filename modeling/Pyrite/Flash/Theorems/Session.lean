import Pyrite.Flash.Theorems.Refinement

namespace Pyrite

/-! # Sessions against the chip

What a caller of `flash_open_spi`, `flash_erase`, `flash_write` and `flash_read` relies on, on the
chip itself through the control register: an erased range reads blank and data written into it reads
back as written, a write made twice leaves what it leaves once, and a byte that no request covers
keeps its value across the whole session; a request that fails leaves the chip as it was, but for
an erase whose last block is partial. -/

-- Erase whole blocks, check that they read blank, write a source from their start, and read it
-- back: every call returns 0, the first read returns `0xFF`s and the second the source as bytes,
-- whatever the chip held before.
theorem session_erase_write_read (v : Vendor) {k : Nat} (hk : 20 ≤ k ∧ k ≤ 32) (w : Int) (mem : Nat → Nat)
    (cfg : Nat) (qe : Bool) (t : Nat)
    {a len : Nat} (src : List Nat) (ha : a % 0x1000 = 0)
    (hlen : 0 < len ∧ len % 0x1000 = 0) (hsrc : src.length ≤ len) (hk' : src.length ≤ 2 ^ k) :
    Triple (Chip.init v k mem cfg qe t) (session w [.erase a len, .read a len, .write a src, .read a src.length])
      fun res _ => res = [(0, []), (0, List.replicate len 0xFF), (0, []), (0, src.map (· % 256))] :=
  (Triple.session v hk w mem cfg qe t _).mono fun _ _ ⟨hres, _⟩ =>
    hres.trans (Nor.serve_erase_write_read ⟨k, mem⟩ src ha hlen hsrc hk')

-- On a 1 MiB Micron part filled with zeros and busy for three status reads after each program or
-- erase, erasing the first 4 KiB block, writing three bytes at 0 and reading them back.
theorem session_erase_write_read_micron :
    (20 ≤ 20 ∧ 20 ≤ 32) ∧ 0 % 0x1000 = 0 ∧ (0 < 0x1000 ∧ 0x1000 % 0x1000 = 0) ∧
      [1, 2, 3].length ≤ 0x1000 ∧ [1, 2, 3].length ≤ 2 ^ 20 ∧
      Triple (Chip.init .micron 20 (fun _ => 0) 0xFB false 3)
        (session 1 [.erase 0 0x1000, .read 0 0x1000, .write 0 [1, 2, 3], .read 0 3])
        fun res _ => res = [(0, []), (0, List.replicate 0x1000 0xFF), (0, []), (0, [1, 2, 3])] :=
  ⟨⟨by decide, by decide⟩, by decide, ⟨by decide, by decide⟩, by decide, by decide,
    session_erase_write_read .micron ⟨by decide, by decide⟩ 1 (fun _ => 0) 0xFB false 3 [1, 2, 3] (by decide)
      ⟨by decide, by decide⟩ (by decide) (by decide)⟩

-- A write made a second time returns what it returned the first time and leaves the chip holding
-- what one write leaves: retrying a write is harmless.
theorem session_write_retry (v : Vendor) {k : Nat} (hk : 20 ≤ k ∧ k ≤ 32) (w : Int) (mem : Nat → Nat)
    (cfg : Nat) (qe : Bool) (t : Nat)
    (a : Nat) (src : List Nat) :
    ∃ r M, Triple (Chip.init v k mem cfg qe t) (session w [.write a src]) (fun res c' => res = [r] ∧ c'.mem = M) ∧
      Triple (Chip.init v k mem cfg qe t) (session w [.write a src, .write a src]) fun res c' => res = [r, r] ∧ c'.mem = M := by
  have h2 := Request.serve_write_twice ⟨k, mem⟩ a src
  refine ⟨_, _, (Triple.session v hk w mem cfg qe t _).mono fun _ _ h => h, (Triple.session v hk w mem cfg qe t _).mono fun _ _ ⟨hr, hm⟩ => ?_⟩
  simp only [Nor.serve, h2] at hr hm
  exact ⟨hr, hm⟩

-- Writing a page at 0x100 twice on a 1 MiB Micron part busy for one status read after each program.
theorem session_write_retry_micron :
    (20 ≤ 20 ∧ 20 ≤ 32) ∧ ∃ r M,
      Triple (Chip.init .micron 20 (fun _ => 0xFF) 0xFB false 1) (session 1 [.write 0x100 [1, 2, 3]])
        (fun res c' => res = [r] ∧ c'.mem = M) ∧
      Triple (Chip.init .micron 20 (fun _ => 0xFF) 0xFB false 1)
        (session 1 [.write 0x100 [1, 2, 3], .write 0x100 [1, 2, 3]]) fun res c' => res = [r, r] ∧ c'.mem = M :=
  ⟨⟨by decide, by decide⟩,
    session_write_retry .micron ⟨by decide, by decide⟩ 1 (fun _ => 0xFF) 0xFB false 1 0x100 [1, 2, 3]⟩

-- After any requests, a request that fails leaves the chip holding what it held before it, except
-- an erase from a block boundary of at least one block with a partial last block, which fails
-- after erasing the whole blocks.
theorem session_failure_keeps_chip (v : Vendor) {k : Nat} (hk : 20 ≤ k ∧ k ≤ 32) (w : Int) (mem : Nat → Nat)
    (cfg : Nat) (qe : Bool) (t : Nat)
    (rs : List Request) (r : Request) :
    ∃ M, Triple (Chip.init v k mem cfg qe t) (session w rs) (fun _ c' => c'.mem = M) ∧
      Triple (Chip.init v k mem cfg qe t) (session w (rs ++ [r])) fun res c' => (res.getLast?.map (·.1) = some (-1) →
        c'.mem = M ∨ ∃ a len, r = .erase a len ∧ a % 0x1000 = 0 ∧ 0x1000 ≤ len ∧ len % 0x1000 ≠ 0 ∧
          c'.mem = (Nor.erase ⟨k, M⟩ a (len / 0x1000 * 0x1000)).mem) := by
  refine ⟨_, (Triple.session v hk w mem cfg qe t rs).mono fun _ _ h => h.2,
    (Triple.session v hk w mem cfg qe t _).mono fun res c' ⟨hr, hm⟩ hfail => ?_⟩
  rw [Nor.serve_append_singleton] at hr hm
  subst hr
  rw [List.getLast?_concat, Option.map_some', Option.some_inj] at hfail
  rcases Request.serve_fail r _ hfail with he | ⟨a, len, rfl, ha, hl, hmod, he⟩
  · exact .inl (by rw [hm, he])
  · exact .inr ⟨a, len, rfl, ha, hl, hmod, by rw [hm, he]; simp only [Nor.erase, Nor.serve_k]⟩

-- On a 1 MiB Micron part, a write at 0 and then an erase of one and a half blocks.
theorem session_failure_keeps_chip_partial_erase :
    (20 ≤ 20 ∧ 20 ≤ 32) ∧ ∃ M,
      Triple (Chip.init .micron 20 (fun _ => 0xFF) 0xFB false 1) (session 1 [.write 0 [1, 2, 3]])
        (fun _ c' => c'.mem = M) ∧
        Triple (Chip.init .micron 20 (fun _ => 0xFF) 0xFB false 1)
          (session 1 ([.write 0 [1, 2, 3]] ++ [.erase 0 0x1800]))
          fun res c' => (res.getLast?.map (·.1) = some (-1) →
            c'.mem = M ∨ ∃ a len, Request.erase 0 0x1800 = .erase a len ∧ a % 0x1000 = 0 ∧ 0x1000 ≤ len ∧
              len % 0x1000 ≠ 0 ∧ c'.mem = (Nor.erase ⟨20, M⟩ a (len / 0x1000 * 0x1000)).mem) :=
  ⟨⟨by decide, by decide⟩,
    session_failure_keeps_chip .micron ⟨by decide, by decide⟩ 1 (fun _ => 0xFF) 0xFB false 1 [.write 0 [1, 2, 3]]
      (.erase 0 0x1800)⟩

-- A byte of the chip that no write's source and no erase's range of the session lands on holds,
-- after the session, what it held at power-on: the driver never touches a byte it was not asked to.
theorem session_keeps_untargeted (v : Vendor) {k : Nat} (hk : 20 ≤ k ∧ k ≤ 32) (w : Int) (mem : Nat → Nat)
    (cfg : Nat) (qe : Bool) (t : Nat)
    (rs : List Request) {y : Nat} (hy : ∀ r ∈ rs, ¬r.Targets k y) :
    Triple (Chip.init v k mem cfg qe t) (session w rs) fun _ c' => c'.mem y = mem y :=
  (Triple.session v hk w mem cfg qe t rs).mono fun _ _ ⟨_, hm⟩ =>
    (congrFun hm y).trans (Nor.serve_mem_of_not_targets rs ⟨k, mem⟩ hy)

-- Writing three bytes at 0x100 and reading leaves byte 0 of a 1 MiB quad-wired Macronix part, which
-- powers on with QE clear, as it was.
theorem session_keeps_untargeted_write :
    (20 ≤ 20 ∧ 20 ≤ 32) ∧ (∀ r ∈ [Request.write 0x100 [1, 2, 3], .read 0 4], ¬r.Targets 20 0) ∧
      Triple (Chip.init .macronix 20 (fun _ => 0xAB) 0 false 2) (session 4 [.write 0x100 [1, 2, 3], .read 0 4])
        fun _ c' => c'.mem 0 = 0xAB :=
  ⟨⟨by decide, by decide⟩, by decide,
    session_keeps_untargeted .macronix ⟨by decide, by decide⟩ 4 (fun _ => 0xAB) 0 false 2 _ (by decide)⟩

end Pyrite
