import Pyrite.RegIf.Basic

namespace Pyrite

open RegIf

-- `struct reg_block`; a NULL `regs` is `none`.
structure RegBlock where
  type : UInt32
  version : UInt32
  offset : Nat
  regs : Option RegIf
  deriving DecidableEq, Repr

-- A slot as `calloc` leaves it. Slots added by `realloc` are written before they are read, so
-- the model gives them the same contents.
def RegBlock.zero : RegBlock := ⟨0, 0, 0, none⟩

-- An access to a slot of the block array at or past its capacity.
inductive Fault
  | outOfBounds
  deriving DecidableEq, Repr

-- `free_reg_block_list`: close the view of each slot up to the first NULL one; the result lists
-- the views closed, in order.
def freeRegBlockList (list : List RegBlock) : Except Fault (List RegIf) :=
  go 0
where
  go (i : Nat) : Except Fault (List RegIf) :=
    if h : i < list.length then
      match list[i].regs with
      | none => .ok []
      | some v => (v :: ·) <$> go (i + 1)
    else .error .outOfBounds
  termination_by list.length - i

-- `find_reg_block`: the `index`-th slot before the first NULL view whose type matches and whose
-- version matches unless `version` is 0. The pointer it returns is given as its slot, `rb - list`.
def findRegBlock (list : List RegBlock) (type version : UInt32) (index : Int) :
    Except Fault (Option Nat) :=
  go 0 index
where
  go (i : Nat) (index : Int) : Except Fault (Option Nat) :=
    if h : i < list.length then
      match list[i].regs with
      | none => .ok none
      | some _ =>
        if list[i].type = type ∧ (version = 0 ∨ list[i].version = version) then
          if index > 0 then go (i + 1) (index - 1) else .ok (some i)
        else go (i + 1) index
    else .error .outOfBounds
  termination_by list.length - i

-- The in-range offsets the walk has not recorded yet; it shrinks at every block.
def unvisited (base size : Nat) (recorded : List Nat) : List Nat :=
  (List.range size).filter fun o => sizeWrap (base + o) ∉ recorded

theorem unvisited_length_lt {base size offset : Nat} {recorded : List Nat} (ho : offset < size)
    (hn : sizeWrap (base + offset) ∉ recorded) :
    (unvisited base size (recorded ++ [sizeWrap (base + offset)])).length <
      (unvisited base size recorded).length := by
  have hsub : unvisited base size (recorded ++ [sizeWrap (base + offset)]) =
      (unvisited base size recorded).filter fun o => sizeWrap (base + o) ≠ sizeWrap (base + offset) := by
    simp only [unvisited, List.filter_filter, List.mem_append, List.mem_singleton]
    congr 1; funext o; simp only [not_or, Bool.decide_and, Bool.and_comm]
  rw [hsub, List.length_filter_lt_length_iff_exists]
  exact ⟨offset, by simp [unvisited, ho, hn]⟩

theorem take_set_self {α : Type} (l : List α) (i : Nat) (a : α) : (l.set i a).take i = l.take i := by
  rw [List.set_take, List.set_eq_of_length_le (List.length_take_le _ _)]

theorem offsets_take_succ {list : List RegBlock} {count : Nat} (hc : count < list.length)
    (e : RegBlock) :
    ((list.set count e).take (count + 1)).map (·.offset) =
      (list.take count).map (·.offset) ++ [e.offset] := by
  rw [List.take_succ, List.getElem?_set_self hc, take_set_self]
  simp

theorem not_mem_offsets {l : List RegBlock} {p : Nat} (h : ¬(l.any (·.offset = p)) = true) :
    p ∉ l.map (·.offset) := fun hm => h <| by
  obtain ⟨x, hx, hx'⟩ := List.mem_map.mp hm
  exact List.any_eq_true.mpr ⟨x, hx, decide_eq_true hx'⟩

-- `enumerate_reg_block_list`. The walk starts with 8 slots and grows by 4 when full; `rbType`,
-- `rbVersion` and `val` are the C locals, which keep their value when a read fails (their initial
-- values are the uninitialized ones). Allocation `0` is the initial `calloc`.
def enumerateRegBlockList (mem : Mem) (alloc : Alloc) (regs : RegIf) (base offset size : Nat)
    (rbType rbVersion val : UInt32) : Except Fault (Option (List RegBlock)) :=
  if alloc 0 then
    (walk mem alloc regs base size (List.replicate 8 .zero) 0 offset rbType rbVersion val 1).map
      (·.map Prod.fst)
  else .ok none
where
  fail (list : List RegBlock) : Except Fault (Option (List RegBlock × Nat)) :=
    (freeRegBlockList list).map fun _ => none
  -- One turn of `while (1)`; on `break` it returns the list and the final `count`.
  walk (mem : Mem) (alloc : Alloc) (regs : RegIf) (base size : Nat) (list : List RegBlock)
      (count offset : Nat) (rbType rbVersion val : UInt32) (n : Nat) :
      Except Fault (Option (List RegBlock × Nat)) :=
    if hc : count < list.length then
      let list := list.set count { list[count] with type := 0, version := 0, regs := none }
      if hb : (offset = 0 ∧ count ≠ 0) ∨ size ≤ offset then .ok (some (list, count))
      else
        let ptr := sizeWrap (base + offset)
        if hl : (list.take count).any (·.offset = ptr) then fail list
        else
          let rbType := (regIfRead32 mem regs (sizeWrap (ptr + 0x00))).getD rbType
          let rbVersion := (regIfRead32 mem regs (sizeWrap (ptr + 0x04))).getD rbVersion
          let val := (regIfRead32 mem regs (sizeWrap (ptr + 0x08))).getD val
          let view := regIfOpenOffset alloc n regs ptr (size - offset)
          let list := list.set count ⟨rbType, rbVersion, ptr, view.1⟩
          if list.length ≤ count + 1 then
            if alloc view.2 then
              walk mem alloc regs base size (list ++ List.replicate 4 .zero) (count + 1) val.toNat
                rbType rbVersion val (view.2 + 1)
            else fail list
          else
            walk mem alloc regs base size list (count + 1) val.toNat rbType rbVersion val
              view.2
    else .error .outOfBounds
  termination_by (unvisited base size ((list.take count).map (·.offset))).length
  decreasing_by
    all_goals
      try rw [List.take_append_of_le_length (by simp; omega)]
      rw [offsets_take_succ (by simpa using hc), take_set_self]
      exact unvisited_length_lt (by omega) (by simpa +zetaDelta [take_set_self] using not_mem_offsets hl)

end Pyrite
