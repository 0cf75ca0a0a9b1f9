import Pyrite.RegIf.Basic

namespace Pyrite

/-! # What the bounds checks give

Each view checks the offset it is handed against its own size and passes it on, and the raw window
checks it last. Neither the width of an access nor the end of a view is ever compared with the
window it sits in: what the checks do give, for every access and every view a program can build,
is stated here next to the places where they fall short. -/

open RegIf

namespace RegIf

def rootSize : RegIf → Nat
  | raw _ size => size
  | offset parent _ _ => parent.rootSize

end RegIf

-- The views a program can hold: raw windows and whatever `reg_if_open_offset` returns on them.
inductive IsView : RegIf → Prop
  | raw (regs size : Nat) : IsView (.raw regs size)
  | offset {parent v : RegIf} (alloc : Alloc) (n o s : Nat) (hp : IsView parent)
      (h : (regIfOpenOffset alloc n parent o s).1 = some v) : IsView v

theorem regIfOpenOffset_some {alloc : Alloc} {n o s : Nat} {parent v : RegIf}
    (h : (regIfOpenOffset alloc n parent o s).1 = some v) :
    (parent.size = 0 ∨ o < parent.size) ∧ ∃ s', v = .offset parent o s' ∧
      s' = if parent.size ≠ 0 ∧ (s = 0 ∨ parent.size ≤ s) then parent.size - o else s := by
  unfold regIfOpenOffset at h
  split at h
  · cases h
  · refine ⟨by omega, ?_⟩
    by_cases ha : alloc n <;> simp only [ha, ite_true, ite_false, reduceCtorEq, Option.some.injEq] at h
    exact ⟨_, h.symm, rfl⟩

-- Under a bounded root every view is non-empty and starts inside its parent: the clamp never
-- yields an empty window, and an offset at or past the end of a bounded parent is refused. That
-- the view also ends inside its parent does not follow.
theorem IsView.size_pos_start_lt {v : RegIf} (hv : IsView v) (hs : v.rootSize ≠ 0) :
    0 < v.size ∧ ∀ parent o s, v = .offset parent o s → o < parent.size := by
  induction hv with
  | raw regs size => exact ⟨Nat.pos_of_ne_zero hs, fun _ _ _ h => by cases h⟩
  | offset alloc n o s hp h ih =>
    obtain ⟨ho, s', rfl, rfl⟩ := regIfOpenOffset_some h
    have hpos := (ih hs).1
    refine ⟨?_, fun _ _ _ he => ?_⟩
    · simp only [size_offset]
      split <;> omega
    · cases he
      omega

-- The view of 0x900 bytes at 0x800 of a 0x1000-byte window is a view: it is non-empty and starts
-- inside its parent.
theorem size_pos_start_lt_overhang :
    IsView (.offset (.raw 0 0x1000) 0x800 0x900) ∧ (RegIf.offset (.raw 0 0x1000) 0x800 0x900).rootSize ≠ 0 ∧
      (0 < (RegIf.offset (.raw 0 0x1000) 0x800 0x900).size ∧
        ∀ parent o s, RegIf.offset (.raw 0 0x1000) 0x800 0x900 = .offset parent o s → o < parent.size) :=
  have hv : IsView (.offset (.raw 0 0x1000) 0x800 0x900) := .offset (fun _ => true) 0 0x800 0x900 (.raw 0 0x1000) rfl
  ⟨hv, by decide, IsView.size_pos_start_lt hv (by decide)⟩

-- A 4-byte read at offset 2 of a 4-byte raw window passes the check and returns byte 4, which
-- lies outside the window.
theorem regIfRead32_past_window :
    (RegIf.raw 0 4).access 2 = some 2 ∧
      regIfRead32 (fun a => if a = 4 then 0xAB else 0) (.raw 0 4) 2 = some 0xAB0000 := by
  decide

-- A view of 0x900 bytes at offset 0x800 of a 0x1000-byte window is not clamped, and overhangs
-- its parent by 0x100 bytes.
theorem regIfOpenOffset_overhang :
    regIfOpenOffset (fun _ => true) 0 (.raw 0 0x1000) 0x800 0x900 =
      (some (.offset (.raw 0 0x1000) 0x800 0x900), 1) ∧ 0x1000 < 0x800 + 0x900 := by
  decide

end Pyrite
