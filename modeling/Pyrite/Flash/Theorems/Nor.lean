import Pyrite.Flash.Nor
import Pyrite.Flash.Theorems.Program

namespace Pyrite

/-! # The NOR array

Programming a source page by page, as the driver's chunks go, is programming it at once, and
erasing a range block by block is erasing it at once. An erased range reads blank and a source
programmed into it reads back; programming the same source again changes nothing. A request
changes only the bytes it targets, and one that fails changes nothing, but for an erase whose last
block is partial. -/

section AndInto

variable (addr : Nat → Nat)

theorem andInto_append (mem : Nat → Nat) (xs ys : List Nat) (j : Nat) :
    andInto addr mem (xs ++ ys) j = andInto addr (andInto addr mem xs j) ys (j + xs.length) := by
  induction xs generalizing mem j with
  | nil => rfl
  | cons x xs ih => rw [List.cons_append, andInto, andInto, ih, List.length_cons, Nat.add_comm xs.length 1, Nat.add_assoc]

-- Only the addresses of the bytes matter.
theorem andInto_congr {addr' : Nat → Nat} (mem : Nat → Nat) (bs : List Nat) (j : Nat)
    (h : ∀ i < bs.length, addr (j + i) = addr' (j + i)) : andInto addr mem bs j = andInto addr' mem bs j := by
  induction bs generalizing mem j with
  | nil => rfl
  | cons b bs ih =>
    rw [andInto, andInto, show addr j = addr' j by simpa using h 0 (by simp)]
    exact ih _ _ fun i hi => by
      simpa only [Nat.add_assoc, Nat.add_comm 1 i] using h (i + 1) (by simp only [List.length_cons]; omega)

theorem andInto_shift (mem : Nat → Nat) (bs : List Nat) (o j : Nat) :
    andInto (fun i => addr (o + i)) mem bs j = andInto addr mem bs (o + j) := by
  induction bs generalizing mem j with
  | nil => rfl
  | cons b bs ih => rw [andInto, andInto, ih]; rfl

-- A byte no address of the source lands on keeps its value.
theorem andInto_apply_of_ne (mem : Nat → Nat) (bs : List Nat) (j y : Nat)
    (h : ∀ i < bs.length, addr (j + i) ≠ y) : andInto addr mem bs j y = mem y := by
  induction bs generalizing mem j with
  | nil => rfl
  | cons b bs ih =>
    have htail : ∀ i < bs.length, addr (j + 1 + i) ≠ y := fun i hi => by
      rw [Nat.add_assoc, Nat.add_comm 1 i, ← Nat.add_assoc]
      exact h (i + 1) (by simp only [List.length_cons]; omega)
    have hhead : y ≠ addr j := fun he => h 0 (by simp) (by rw [Nat.add_zero, he])
    rw [andInto, ih _ _ htail, updateAt, if_neg hhead]

-- The byte source byte `i` lands on, when no other source byte lands there, is ANDed with it.
theorem andInto_apply (mem : Nat → Nat) (bs : List Nat) (j i : Nat) (hi : i < bs.length)
    (h : ∀ i' < bs.length, addr (j + i') = addr (j + i) → i' = i) :
    andInto addr mem bs j (addr (j + i)) = mem (addr (j + i)) &&& bs[i] := by
  induction bs generalizing mem j i with
  | nil => simp at hi
  | cons b bs ih =>
    rw [andInto]
    -- source byte `i' + 1` of `b :: bs` is byte `i'` of `bs`
    have htail : ∀ i' < bs.length, addr (j + 1 + i') = addr (j + i) → i' + 1 = i := fun i' hi' he =>
      h (i' + 1) (by simp only [List.length_cons]; omega) (by rwa [Nat.add_right_comm] at he)
    cases i with
    | zero =>
      rw [andInto_apply_of_ne addr _ _ _ _ fun i' hi' he => absurd (htail i' hi' he) (by omega)]
      simp only [updateAt, Nat.add_zero, if_true, List.getElem_cons_zero]
    | succ i =>
      have e : j + (i + 1) = j + 1 + i := by omega
      have hne : addr (j + 1 + i) ≠ addr j := fun he => by
        have := h 0 (by simp) (by rw [e, Nat.add_zero, he]); omega
      rw [e, ih _ _ _ (by simpa using hi) fun i' hi' he => by have := htail i' hi' (by rwa [e]); omega,
        updateAt, if_neg hne]
      rfl

-- ANDing into two bytes can be done in either order, and ANDing the same byte in twice is ANDing
-- it in once.
theorem updateAt_and_comm (mem : Nat → Nat) (x x' b b' : Nat) :
    updateAt (updateAt mem x (· &&& b)) x' (· &&& b') = updateAt (updateAt mem x' (· &&& b')) x (· &&& b) := by
  funext y
  simp only [updateAt]
  split_ifs <;> simp only [Nat.land_assoc, Nat.land_comm b b']

theorem updateAt_and_self (mem : Nat → Nat) (x b : Nat) :
    updateAt (updateAt mem x (· &&& b)) x (· &&& b) = updateAt mem x (· &&& b) := by
  funext y
  simp only [updateAt]
  split_ifs <;> simp only [Nat.land_assoc, Nat.and_self]

theorem andInto_updateAt (mem : Nat → Nat) (bs : List Nat) (j x b : Nat) :
    andInto addr (updateAt mem x (· &&& b)) bs j = updateAt (andInto addr mem bs j) x (· &&& b) := by
  induction bs generalizing mem j with
  | nil => rfl
  | cons c bs ih => rw [andInto, andInto, updateAt_and_comm, ih]

theorem andInto_andInto_self (mem : Nat → Nat) (bs : List Nat) (j : Nat) :
    andInto addr (andInto addr mem bs j) bs j = andInto addr mem bs j := by
  induction bs generalizing mem j with
  | nil => rfl
  | cons b bs ih =>
    simp only [andInto]
    rw [andInto_updateAt addr (andInto addr (updateAt mem (addr j) (· &&& b)) bs (j + 1)), ih,
      ← andInto_updateAt, updateAt_and_self]

end AndInto

-- `len ≤ 2^k` consecutive addresses wrap onto distinct bytes.
theorem add_mod_inj {M a i i' : Nat} (hi : i < M) (hi' : i' < M) (h : (a + i') % M = (a + i) % M) : i' = i := by
  have := Nat.ModEq.add_left_cancel' a h
  rwa [Nat.ModEq, Nat.mod_eq_of_lt hi, Nat.mod_eq_of_lt hi'] at this

namespace Nor

theorem program_nil (n : Nor) (a : Nat) : n.program a [] = n := rfl

theorem program_append (n : Nor) (a : Nat) (xs ys : List Nat) :
    n.program a (xs ++ ys) = (n.program a xs).program (a + xs.length) ys := by
  simp only [program, List.map_append, andInto_append, List.length_map, Nat.zero_add]
  rw [← Nat.add_zero xs.length, ← andInto_shift]
  simp only [Nat.add_zero, Nat.add_assoc]

-- Programming the chunks in turn is programming the source.
theorem foldl_program_pageChunks (n : Nor) (a : Nat) (src : List Nat) :
    (pageChunks a src).foldl (fun m ch => m.program ch.1 ch.2) n = n.program a src := by
  obtain ⟨len, hlen⟩ : ∃ len, src.length = len := ⟨_, rfl⟩
  induction len using Nat.strong_induction_on generalizing n a src with
  | _ len ih =>
    by_cases hs : src = []
    · subst hs; rfl
    rw [pageChunks_cons hs, List.foldl_cons]
    by_cases hd : src.drop 256 = []
    · rw [hd, pageChunks_nil, List.foldl_nil, List.take_of_length_le (List.drop_eq_nil_iff.mp hd)]
    · have h256 : (src.take 256).length = 256 := by
        simp only [List.length_take, ne_eq, List.drop_eq_nil_iff, not_le] at hd ⊢; omega
      rw [ih _ (by have := List.length_pos.mpr hs; simp only [List.length_drop]; omega) _ _ _ rfl,
        show a + 256 = a + (src.take 256).length by rw [h256], ← program_append, List.take_append_drop]

-- Erasing `s` bytes, then the rest of `rem` after them, is erasing `rem`.
theorem erase_erase (n : Nor) (b : Nat) {s rem : Nat} (hs : s ≤ rem) :
    (n.erase b s).erase (b + s) (rem - s) = n.erase b rem := by
  have hiff : ∀ y, (∃ i < rem, (b + i) % 2 ^ n.k = y) ↔
      (∃ i < rem - s, (b + s + i) % 2 ^ n.k = y) ∨ ∃ i < s, (b + i) % 2 ^ n.k = y := fun y => by
    constructor
    · rintro ⟨i, hi, h⟩
      by_cases his : i < s
      · exact .inr ⟨i, his, h⟩
      · exact .inl ⟨i - s, by omega, by rw [← h, Nat.add_assoc, Nat.add_sub_cancel' (by omega)]⟩
    · rintro (⟨i, hi, h⟩ | ⟨i, hi, h⟩)
      · exact ⟨s + i, by omega, by rw [← h, Nat.add_assoc]⟩
      · exact ⟨i, by omega, h⟩
  simp only [erase]
  congr 1
  funext y
  by_cases h1 : ∃ i < rem - s, (b + s + i) % 2 ^ n.k = y <;> by_cases h2 : ∃ i < s, (b + i) % 2 ^ n.k = y <;>
    simp only [h1, h2, hiff, if_true, if_false, or_true, true_or, or_false]

theorem erase_mem_of_lt (n : Nor) {a len j : Nat} (hj : j < len) :
    (n.erase a len).mem ((a + j) % 2 ^ n.k) = 0xFF :=
  if_pos ⟨j, hj, rfl⟩

-- An erased range reads back as `0xFF` bytes.
theorem read_erase (n : Nor) (a len : Nat) : (n.erase a len).read a len = List.replicate len 0xFF := by
  refine List.ext_getElem (by simp [read]) fun j h₁ _ => ?_
  have hj : j < len := by simpa [read] using h₁
  simp only [read, List.getElem_map, List.getElem_range, List.getElem_replicate]
  rw [show (n.erase a len).k = n.k from rfl, n.erase_mem_of_lt hj]

-- Programming the same source twice leaves the array as programming it once.
theorem program_program_self (n : Nor) (a : Nat) (src : List Nat) :
    (n.program a src).program a src = n.program a src :=
  congrArg (fun m => ({ n with mem := m } : Nor))
    (andInto_andInto_self (fun j => (a + j) % 2 ^ n.k) n.mem (src.map (· % 256)) 0)

theorem ff_and_mod (x : Nat) : (0xFF &&& x % 256) % 256 = x % 256 := by
  rw [Nat.land_comm, show (0xFF : Nat) = 2 ^ 8 - 1 from rfl, Nat.and_pow_two_sub_one_eq_mod, Nat.mod_mod,
    Nat.mod_mod]

-- Bytes erased, then programmed once each, read back as the source.
theorem read_program_erase (n : Nor) {a L : Nat} (src : List Nat) (hL : src.length ≤ L)
    (hk : src.length ≤ 2 ^ n.k) : ((n.erase a L).program a src).read a src.length = src.map (· % 256) := by
  refine List.ext_getElem (by simp [read]) fun j h₁ _ => ?_
  have hj : j < src.length := by simpa [read] using h₁
  have hinj : ∀ i' < (src.map (· % 256)).length, (a + (0 + i')) % 2 ^ n.k = (a + (0 + j)) % 2 ^ n.k → i' = j :=
    fun i' hi' he => add_mod_inj (M := 2 ^ n.k) (by omega) (by simp at hi'; omega) (by simpa using he)
  have := andInto_apply (fun i => (a + i) % 2 ^ n.k) (n.erase a L).mem (src.map (· % 256)) 0 j (by simpa using hj) hinj
  simp only [Nat.zero_add] at this
  simp only [read, program, List.getElem_map, List.getElem_range]
  rw [show (n.erase a L).k = n.k from rfl, this, n.erase_mem_of_lt (by omega), List.getElem_map, ff_and_mod]

end Nor

/-! ### What a request leaves alone -/

namespace Request

-- The bytes of an array of `2^k` bytes that a request may change: those a write's source or an
-- erase's range lands on. A read changes none.
def Targets (k : Nat) : Request → Nat → Prop
  | read _ _, _ => False
  | write a src, y => ∃ i < src.length, (a + i) % 2 ^ k = y
  | erase a len, y => ∃ i < len, (a + i) % 2 ^ k = y

instance (k : Nat) : ∀ r y, Decidable (Targets k r y)
  | read _ _, _ => inferInstanceAs (Decidable False)
  | write a src, y => inferInstanceAs (Decidable (∃ i < src.length, (a + i) % 2 ^ k = y))
  | erase a len, y => inferInstanceAs (Decidable (∃ i < len, (a + i) % 2 ^ k = y))

@[simp] theorem serve_read (n : Nor) (a len : Nat) : (read a len).serve n = ((0, n.read a len), n) := rfl

@[simp] theorem serve_k (r : Request) (n : Nor) : (r.serve n).2.k = n.k := by
  cases r <;> simp only [serve] <;> split_ifs <;> rfl

theorem serve_mem_of_not_targets (r : Request) (n : Nor) {y : Nat} (h : ¬r.Targets n.k y) :
    (r.serve n).2.mem y = n.mem y := by
  cases r with
  | read a len => rfl
  | write a src =>
    simp only [serve]
    split_ifs
    · rfl
    · exact andInto_apply_of_ne _ _ _ _ _ fun i hi he => h ⟨i, by simpa using hi, by rwa [Nat.zero_add] at he⟩
  | erase a len =>
    simp only [serve]
    split
    · rfl
    split
    · rfl
    -- the whole blocks erased lie inside the range
    · exact if_neg fun ⟨i, hi, he⟩ => h ⟨i, Nat.lt_of_lt_of_le hi (Nat.div_mul_le_self len 0x1000), he⟩

-- An erase of whole 4 KiB blocks from a block boundary succeeds and erases the range.
theorem serve_erase_of_aligned (n : Nor) {a len : Nat} (ha : a % 0x1000 = 0) (hlen : 0 < len ∧ len % 0x1000 = 0) :
    (erase a len).serve n = ((0, []), n.erase a len) := by
  have hdiv : len / 0x1000 * 0x1000 = len := Nat.div_mul_cancel (Nat.dvd_of_mod_eq_zero hlen.2)
  simp only [serve, if_neg (Nat.pos_iff_ne_zero.mp hlen.1), if_pos hlen.2, hdiv,
    if_neg (show ¬(a % 0x1000 ≠ 0 ∨ len < 0x1000) by omega)]

-- A write from a page boundary succeeds and programs the source.
theorem serve_write_of_aligned (n : Nor) {a : Nat} (src : List Nat) (ha : a % 256 = 0) :
    (write a src).serve n = ((0, []), n.program a src) :=
  if_neg fun h => h.2 ha

-- A write made again right after itself returns what it returned and changes nothing more.
theorem serve_write_twice (n : Nor) (a : Nat) (src : List Nat) :
    (write a src).serve ((write a src).serve n).2 = (write a src).serve n := by
  simp only [serve]
  split_ifs
  · rfl
  · exact congrArg _ (n.program_program_self a src)

end Request

-- Erasing whole blocks, checking they read blank, writing a source inside them from the start and
-- reading it back returns `0xFF`s and then the source, as bytes, when the source does not wrap
-- onto itself.
theorem Nor.serve_erase_write_read (n : Nor) {a len : Nat} (src : List Nat) (ha : a % 0x1000 = 0)
    (hlen : 0 < len ∧ len % 0x1000 = 0) (hsrc : src.length ≤ len) (hk : src.length ≤ 2 ^ n.k) :
    (n.serve [.erase a len, .read a len, .write a src, .read a src.length]).1 =
      [(0, []), (0, List.replicate len 0xFF), (0, []), (0, src.map (· % 256))] := by
  simp only [Nor.serve, Request.serve_erase_of_aligned n ha hlen, Request.serve_read,
    Request.serve_write_of_aligned _ src (show a % 256 = 0 by omega), n.read_erase,
    n.read_program_erase src hsrc hk]

-- A byte no request of the session targets keeps its value.
theorem Nor.serve_mem_of_not_targets (rs : List Request) :
    ∀ (n : Nor) {y : Nat}, (∀ r ∈ rs, ¬r.Targets n.k y) → (n.serve rs).2.mem y = n.mem y := by
  induction rs with
  | nil => intro n y _; rfl
  | cons r rs ih =>
    intro n y h
    have hr := r.serve_mem_of_not_targets n (h r (List.mem_cons_self _ _))
    rw [← hr]
    exact ih _ fun r' hr' => by rw [Request.serve_k]; exact h r' (List.mem_cons_of_mem _ hr')

-- A request that returns -1 leaves the array as it was, except an erase from a block boundary of
-- at least one block whose length is not a whole number of blocks: that one erases the whole
-- blocks before it fails.
theorem Request.serve_fail (r : Request) (n : Nor) (h : (r.serve n).1.1 = -1) :
    (r.serve n).2 = n ∨ ∃ a len, r = .erase a len ∧ a % 0x1000 = 0 ∧ 0x1000 ≤ len ∧ len % 0x1000 ≠ 0 ∧
      (r.serve n).2 = n.erase a (len / 0x1000 * 0x1000) := by
  cases r with
  | read a len => simp at h
  | write a src =>
    by_cases hc : src ≠ [] ∧ a % 256 ≠ 0
    · exact .inl (by simp only [Request.serve, if_pos hc])
    · simp only [Request.serve, if_neg hc] at h
      exact absurd h (by decide)
  | erase a len =>
    by_cases h0 : len = 0
    · simp only [Request.serve, if_pos h0] at h
      exact absurd h (by decide)
    by_cases hbad : a % 0x1000 ≠ 0 ∨ len < 0x1000
    · exact .inl (by simp only [Request.serve, if_neg h0, if_pos hbad])
    by_cases hmod : len % 0x1000 = 0
    · simp only [Request.serve, if_neg h0, if_neg hbad, if_pos hmod] at h
      exact absurd h (by decide)
    · exact .inr ⟨a, len, rfl, by omega, by omega, hmod, by simp only [Request.serve, if_neg h0, if_neg hbad]⟩

theorem Nor.serve_k (n : Nor) (rs : List Request) : (n.serve rs).2.k = n.k := by
  induction rs generalizing n with
  | nil => rfl
  | cons r rs ih => exact (ih _).trans (r.serve_k n)

theorem Nor.serve_append_singleton (n : Nor) (rs : List Request) (r : Request) :
    n.serve (rs ++ [r]) = ((n.serve rs).1 ++ [(r.serve (n.serve rs).2).1], (r.serve (n.serve rs).2).2) := by
  induction rs generalizing n with
  | nil => rfl
  | cons r' rs ih => rw [List.cons_append, Nor.serve, ih]; rfl

end Pyrite
