import Pyrite.RegBlock.Theorems.Chain
import Pyrite.RegBlock.Theorems.Failure
import Pyrite.RegBlock.Theorems.Find

namespace Pyrite

/-! # A block list from enumeration to release

A caller enumerates the chain of register blocks once, looks blocks up in the list, and frees it.
When every allocation succeeds and the chain ends, the list is the chain's entries and a sentinel,
so lookups count along the chain and the release closes the view of each block once. -/

open RegIf

-- The entries the walk records for the first `k` blocks of the chain.
def chainEntries (mem : Mem) (regs : RegIf) (base offset size k : Nat) : List RegBlock :=
  (List.range k).map fun j => blockEntry mem regs base size (blockChain mem regs base offset j)

theorem blockEntry_regs (mem : Mem) (regs : RegIf) (base size o : Nat) :
    (blockEntry mem regs base size o).regs = some (.offset regs (sizeWrap (base + o)) (size - o)) := rfl

namespace FollowsChain

variable {mem : Mem} {regs : RegIf} {base offset size k : Nat}

-- A chain that ends at block `k` enumerates to its entries, a sentinel, and the unused slots.
theorem enumerate_eq (hw : FollowsChain mem regs base offset size k)
    (ht : Terminates size (blockChain mem regs base offset) k) (t v w : UInt32) :
    ∃ s rest, s.regs = none ∧ enumerateRegBlockList mem (fun _ => true) regs base offset size t v w =
      .ok (some (chainEntries mem regs base offset size k ++ s :: rest)) := by
  obtain ⟨l, hl, hent, hs⟩ := (hw.walk (List.replicate 8 .zero) 0 offset t v w 1 (Nat.zero_le _)
    (by simp) rfl fun _ h => absurd h (Nat.not_lt_zero _)).1 ht
  obtain ⟨s, hks, hsn⟩ : ∃ s, l[k]? = some s ∧ s.regs = none := by
    cases hk : l[k]? with
    | none => rw [hk] at hs; cases hs
    | some s => rw [hk] at hs; exact ⟨s, rfl, Option.some.inj hs⟩
  have hlen : k < l.length := (List.getElem?_eq_some_iff.mp hks).1
  refine ⟨s, l.drop (k + 1), hsn, ?_⟩
  simp only [enumerateRegBlockList, ite_true, hl]
  show Except.ok (some l) = _
  rw [chainEntries, ← take_eq_map_of_getElem? hlen.le hent, ← (List.getElem?_eq_some_iff.mp hks).2,
    ← List.drop_eq_getElem_cons hlen, List.take_append_drop]

end FollowsChain

theorem chainEntries_regs_isSome (mem : Mem) (regs : RegIf) (base offset size k : Nat) :
    ∀ e ∈ chainEntries mem regs base offset size k, e.regs.isSome := by
  simp [chainEntries, blockEntry_regs]

section Lifecycle

variable {mem : Mem} {regs : RegIf} {base offset size k : Nat}

-- `find_reg_block` on the list `enumerate_reg_block_list` returns counts along the chain: the
-- slot of the `i`-th block of the chain that matches, or NULL when fewer blocks match.
theorem findRegBlock_enumerated (hw : FollowsChain mem regs base offset size k)
    (ht : Terminates size (blockChain mem regs base offset) k) (t v w : UInt32) :
    ∃ l, enumerateRegBlockList mem (fun _ => true) regs base offset size t v w = .ok (some l) ∧
      ∀ type version (i : Nat), findRegBlock l type version i =
        .ok (matchSlots type version (chainEntries mem regs base offset size k))[i]? := by
  obtain ⟨s, rest, hs, he⟩ := hw.enumerate_eq ht t v w
  exact ⟨_, he, fun type version i =>
    findRegBlock.go_sentinel rest type version (chainEntries_regs_isSome mem regs base offset size k) hs 0 i (Nat.zero_le _)⟩

-- The chain 0 → 0x40 → 0x20 of a 256-byte window: the next word of the block at 0 is 0x40, that
-- of the block at 0x40 is 0x20, and that of the block at 0x20 is 0, which ends the chain there.
theorem followsChain_three_blocks :
    FollowsChain (store (store (fun _ => 0) 0x08 4 0x40) 0x48 4 0x20) (.raw 0 0x100) 0 0 0x100 3 ∧
      Terminates 0x100 (blockChain (store (store (fun _ => 0) 0x08 4 0x40) 0x48 4 0x20) (.raw 0 0x100) 0 0) 3 := by
  have ht : Terminates 0x100 (blockChain (store (store (fun _ => 0) 0x08 4 0x40) 0x48 4 0x20) (.raw 0 0x100) 0 0) 3 := by
    simp only [Terminates]; decide
  exact ⟨⟨by decide, by decide, by simp only [Terminates, Revisits]; decide, .inl ht, by decide⟩, ht⟩

theorem findRegBlock_enumerated_three_blocks :
    FollowsChain (store (store (fun _ => 0) 0x08 4 0x40) 0x48 4 0x20) (.raw 0 0x100) 0 0 0x100 3 ∧
      Terminates 0x100 (blockChain (store (store (fun _ => 0) 0x08 4 0x40) 0x48 4 0x20) (.raw 0 0x100) 0 0) 3 ∧
      ∃ l, enumerateRegBlockList (store (store (fun _ => 0) 0x08 4 0x40) 0x48 4 0x20) (fun _ => true) (.raw 0 0x100) 0 0 0x100 0 0 0 = .ok (some l) ∧
        ∀ type version (i : Nat), findRegBlock l type version i =
          .ok (matchSlots type version (chainEntries (store (store (fun _ => 0) 0x08 4 0x40) 0x48 4 0x20) (.raw 0 0x100) 0 0 0x100 3))[i]? :=
  ⟨followsChain_three_blocks.1, followsChain_three_blocks.2,
    findRegBlock_enumerated followsChain_three_blocks.1 followsChain_three_blocks.2 0 0 0⟩

-- `free_reg_block_list` on the list `enumerate_reg_block_list` returns closes the view of each
-- block of the chain once, in chain order, and no other.
theorem freeRegBlockList_enumerated (hw : FollowsChain mem regs base offset size k)
    (ht : Terminates size (blockChain mem regs base offset) k) (t v w : UInt32) :
    ∃ l, enumerateRegBlockList mem (fun _ => true) regs base offset size t v w = .ok (some l) ∧
      freeRegBlockList l = .ok ((List.range k).map fun j =>
        .offset regs (sizeWrap (base + blockChain mem regs base offset j)) (size - blockChain mem regs base offset j)) := by
  obtain ⟨s, rest, hs, he⟩ := hw.enumerate_eq ht t v w
  refine ⟨_, he, ?_⟩
  have hsome := chainEntries_regs_isSome mem regs base offset size k
  rw [freeRegBlockList_eq, if_pos (List.any_eq_true.mpr ⟨s, by simp, by simp [hs]⟩),
    List.takeWhile_append_of_pos hsome, List.takeWhile_cons_of_neg (by simp [hs]), List.append_nil]
  rw [chainEntries, List.filterMap_map]
  exact congrArg Except.ok (congrFun (List.filterMap_eq_map _) _)

theorem freeRegBlockList_enumerated_three_blocks :
    FollowsChain (store (store (fun _ => 0) 0x08 4 0x40) 0x48 4 0x20) (.raw 0 0x100) 0 0 0x100 3 ∧
      Terminates 0x100 (blockChain (store (store (fun _ => 0) 0x08 4 0x40) 0x48 4 0x20) (.raw 0 0x100) 0 0) 3 ∧
      ∃ l, enumerateRegBlockList (store (store (fun _ => 0) 0x08 4 0x40) 0x48 4 0x20) (fun _ => true) (.raw 0 0x100) 0 0 0x100 0 0 0 = .ok (some l) ∧
        freeRegBlockList l = .ok ((List.range 3).map fun j =>
          .offset (.raw 0 0x100) (sizeWrap (0 + blockChain (store (store (fun _ => 0) 0x08 4 0x40) 0x48 4 0x20) (.raw 0 0x100) 0 0 j))
            (0x100 - blockChain (store (store (fun _ => 0) 0x08 4 0x40) 0x48 4 0x20) (.raw 0 0x100) 0 0 j)) :=
  ⟨followsChain_three_blocks.1, followsChain_three_blocks.2,
    freeRegBlockList_enumerated followsChain_three_blocks.1 followsChain_three_blocks.2 0 0 0⟩

end Lifecycle

end Pyrite
