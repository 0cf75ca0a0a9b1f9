import Pyrite.RegIf.Basic

namespace Pyrite

/-! # Writes and reads through views

The raw transport stores `w` bytes little-endian at the address the bounds checks resolve, and a
read loads them back; a write leaves every byte outside its range alone. Two views see each
other's writes exactly where they resolve to the same bytes. -/

open RegIf

@[simp] theorem toNat_toUInt8 (n : Nat) : n.toUInt8.toNat = n % 256 := rfl

-- A load reads only the bytes of its range.
theorem load_congr {m₁ m₂ : Mem} {a : Nat} : ∀ {w : Nat}, (∀ b, a ≤ b → b < a + w → m₁ b = m₂ b) →
    load m₁ a w = load m₂ a w
  | 0, _ => rfl
  | w + 1, h => by
    rw [load, load, h a (le_refl a) (by omega), load_congr fun b h₁ h₂ => h b (by omega) (by omega)]

-- The `w` bytes stored at `a` load back as the value cut to `8 w` bits.
theorem load_store_self (mem : Mem) : ∀ (w a value : Nat),
    load (store mem a w value) a w = value % 2 ^ (8 * w)
  | 0, _, _ => by simp [load, Nat.mod_one]
  | w + 1, a, value => by
    have hrest : load (store mem a (w + 1) value) (a + 1) w = load (store mem (a + 1) w (value >>> 8)) (a + 1) w :=
      load_congr fun b h₁ h₂ => by
        simp only [store, if_pos (show a ≤ b ∧ b < a + (w + 1) by omega),
          if_pos (show a + 1 ≤ b ∧ b < a + 1 + w by omega), ← Nat.shiftRight_add]
        congr 3
        omega
    rw [load, hrest, load_store_self mem w (a + 1), store, if_pos (by omega), toNat_toUInt8, Nat.sub_self,
      Nat.mul_zero, Nat.shiftRight_zero, Nat.shiftRight_eq_div_pow, Nat.mul_succ, Nat.pow_add,
      Nat.mul_comm (2 ^ (8 * w)), Nat.mod_mul, Nat.mod_mod]

-- A store leaves a load of a disjoint range as it was.
theorem load_store_of_disjoint (mem : Mem) {a w a' w' : Nat} (h : a' + w' ≤ a ∨ a + w ≤ a') (value : Nat) :
    load (store mem a w value) a' w' = load mem a' w' :=
  load_congr fun b h₁ h₂ => by simp only [store]; rw [if_neg (by omega)]

-- `reg_if_write{8,16,32,64}` through one view, then `reg_if_read` through any view: a read that
-- resolves to the same address with the same width returns the value written, cut to the width,
-- and a read of bytes disjoint from the written ones returns what it returned before.
theorem regIfRead_after_regIfWrite {w : Nat} {mem mem' : Mem} {reg : RegIf} {off value : Nat}
    (h : regIfWrite w mem reg off value = some mem') (reg' : RegIf) (off' : Nat) :
    (reg'.access off' = reg.access off → regIfRead w mem' reg' off' = some (value % 2 ^ (8 * w))) ∧
    (∀ a a' w', reg.access off = some a → reg'.access off' = some a' → a' + w' ≤ a ∨ a + w ≤ a' →
      regIfRead w' mem' reg' off' = regIfRead w' mem reg' off') := by
  obtain ⟨a, ha, rfl⟩ := Option.map_eq_some'.mp h
  refine ⟨fun he => ?_, fun a₁ a' w' ha₁ ha' hd => ?_⟩
  · rw [regIfRead, he, ha, Option.map_some', load_store_self]
  · obtain rfl := Option.some.inj (ha.symm.trans ha₁)
    rw [regIfRead, regIfRead, ha', Option.map_some', Option.map_some', load_store_of_disjoint mem hd]

-- A 32-bit write at offset 4 of a view at 0x10 of a window at 0x100, read back through the view
-- and through the window at 0x14.
theorem regIfRead_after_regIfWrite_alias :
    regIfWrite 4 (fun _ => 0) (.offset (.raw 0x100 0x40) 0x10 0x10) 4 0xDEADBEEF =
        some (store (fun _ => 0) 0x114 4 0xDEADBEEF) ∧
      regIfRead 4 (store (fun _ => 0) 0x114 4 0xDEADBEEF) (.raw 0x100 0x40) 0x14 = some 0xDEADBEEF := by
  have h : regIfWrite 4 (fun _ => 0) (.offset (.raw 0x100 0x40) 0x10 0x10) 4 0xDEADBEEF =
      some (store (fun _ => 0) 0x114 4 0xDEADBEEF) := rfl
  exact ⟨h, (regIfRead_after_regIfWrite h (.raw 0x100 0x40) 0x14).1 rfl⟩

-- A load of `w₁ + w₂` bytes is the `w₁` bytes at `a` and, above them, the `w₂` bytes after.
theorem load_add (mem : Mem) : ∀ (a w₁ w₂ : Nat),
    load mem a (w₁ + w₂) = load mem a w₁ + 2 ^ (8 * w₁) * load mem (a + w₁) w₂
  | a, 0, w₂ => by simp [load]
  | a, w₁ + 1, w₂ => by
    rw [Nat.add_right_comm, load, load, load_add mem (a + 1) w₁ w₂, show a + 1 + w₁ = a + (w₁ + 1) by omega]
    ring

-- The offsets a view adds on the way to its raw window.
def RegIf.offsetSum : RegIf → Nat
  | raw _ _ => 0
  | offset parent o _ => o + parent.offsetSum

-- Where no `size_t` sum wraps, an access that passes at `off + d` passes at `off`, `d` bytes lower.
theorem RegIf.access_of_access_add {d : Nat} :
    ∀ (reg : RegIf) {off A' : Nat}, reg.offsetSum + off + d < 2 ^ 64 → reg.access (off + d) = some A' →
      ∃ A, reg.access off = some A ∧ A' = A + d
  | raw regs s, off, A', _, h => by
    simp only [access] at h ⊢
    split_ifs at h with hs
    obtain rfl := Option.some.inj h
    exact ⟨_, if_neg (by omega), by omega⟩
  | offset p o s, off, A', hw, h => by
    simp only [access, offsetSum] at h hw ⊢
    split_ifs at h with hs
    have ho : sizeWrap (o + off) = o + off := Nat.mod_eq_of_lt (by omega)
    rw [sizeWrap, Nat.mod_eq_of_lt (by omega), ← Nat.add_assoc, ← ho] at h
    rw [if_neg (by omega)]
    exact RegIf.access_of_access_add p (by rw [ho]; omega) h

-- Through any view, where no `size_t` sum wraps and the upper part starts in range, the reads of
-- `w₁` bytes at `off`, of `w₂` bytes at `off + w₁` and of `w₁ + w₂` bytes at `off` all succeed, and
-- the wide one is the two narrow ones side by side: a 64-bit register reads as its two 32-bit
-- halves, the low one first.
theorem regIfRead_add (mem : Mem) (reg : RegIf) {off w₁ w₂ : Nat} (hw : reg.offsetSum + off + w₁ < 2 ^ 64)
    (h : (reg.access (off + w₁)).isSome) :
    ∃ x y, regIfRead w₁ mem reg off = some x ∧ regIfRead w₂ mem reg (off + w₁) = some y ∧
      regIfRead (w₁ + w₂) mem reg off = some (x + 2 ^ (8 * w₁) * y) := by
  obtain ⟨A', hA'⟩ := Option.isSome_iff_exists.mp h
  obtain ⟨A, hA, rfl⟩ := reg.access_of_access_add hw hA'
  refine ⟨load mem A w₁, load mem (A + w₁) w₂, ?_, ?_, ?_⟩ <;>
    simp only [regIfRead, hA, hA', Option.map_some', load_add]

-- A 64-bit read at offset 0 of a 16-byte view at 0x10 of a raw window, as two 32-bit halves.
theorem regIfRead_add_halves :
    (RegIf.offset (.raw 0x100 0x40) 0x10 0x10).offsetSum + 0 + 4 < 2 ^ 64 ∧
      ((RegIf.offset (.raw 0x100 0x40) 0x10 0x10).access (0 + 4)).isSome ∧
      ∃ x y, regIfRead 4 (fun a => a.toUInt8) (.offset (.raw 0x100 0x40) 0x10 0x10) 0 = some x ∧
        regIfRead 4 (fun a => a.toUInt8) (.offset (.raw 0x100 0x40) 0x10 0x10) (0 + 4) = some y ∧
        regIfRead (4 + 4) (fun a => a.toUInt8) (.offset (.raw 0x100 0x40) 0x10 0x10) 0 =
          some (x + 2 ^ (8 * 4) * y) :=
  ⟨by decide, by decide, regIfRead_add _ _ (by decide) (by decide)⟩

end Pyrite
