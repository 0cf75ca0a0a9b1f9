import Pyrite.RegBlock.Basic

namespace Pyrite

-- `free_reg_block_list` from slot `i` on: it closes the views of the slots before the first NULL
-- one, in order, and reads past the array when no slot from `i` on is NULL.
theorem freeRegBlockList.go_eq (list : List RegBlock) (i : Nat) :
    freeRegBlockList.go list i =
      if (list.drop i).any (·.regs = none) then
        .ok (((list.drop i).takeWhile (·.regs.isSome)).filterMap (·.regs))
      else .error .outOfBounds := by
  induction i using freeRegBlockList.go.induct list with
  | case1 i h hnone =>
    rw [go, dif_pos h, List.drop_eq_getElem_cons h]
    simp only [hnone, List.any_cons, List.takeWhile_cons]
    rfl
  | case2 i h v hsome ih =>
    rw [go, dif_pos h, List.drop_eq_getElem_cons h, ih]
    simp only [hsome, List.any_cons, List.takeWhile_cons, Option.isSome_some, ite_true,
      List.filterMap_cons, reduceCtorEq, decide_False, Bool.false_or]
    split <;> rfl
  | case3 i h =>
    rw [go, dif_neg h, List.drop_of_length_le (by omega)]
    rfl

theorem freeRegBlockList_eq (list : List RegBlock) :
    freeRegBlockList list =
      if list.any (·.regs = none) then .ok ((list.takeWhile (·.regs.isSome)).filterMap (·.regs))
      else .error .outOfBounds :=
  freeRegBlockList.go_eq list 0

-- Two runs with one failed allocation each. Allocation 1, the view of the block at offset 0, fails:
-- the slot keeps a NULL view and the call still returns a list, whose first entry reads as the
-- sentinel. Allocation 9, the first `realloc`, fails after eight chained blocks that all hold a
-- view: `free_reg_block_list` finds no NULL slot and reads slot 8, past the array.
theorem enumerateRegBlockList_alloc_failure :
    enumerateRegBlockList (fun _ => 0) (fun n => decide (n ≠ 1)) (.raw 0 0x100) 0 0 0x100 0 0 0 =
      .ok (some ([⟨0, 0, 0, none⟩, ⟨0, 0, 0, none⟩] ++ List.replicate 6 .zero)) ∧
    enumerateRegBlockList (fun a => if a % 16 = 8 then (a + 8).toUInt8 else 0)
      (fun n => decide (n ≠ 9)) (.raw 0 0x100) 0 0 0x100 0 0 0 = .error .outOfBounds := by
  constructor
  · rw [enumerateRegBlockList, enumerateRegBlockList.walk]
    simp +decide only [ite_true, dite_true, ite_false, dite_false]
    rw [enumerateRegBlockList.walk]
    simp +decide only [ite_true, dite_true, ite_false, dite_false]
    rfl
  · rw [enumerateRegBlockList, enumerateRegBlockList.walk]
    simp +decide only [ite_true, dite_true, ite_false, dite_false]
    iterate 7 (rw [enumerateRegBlockList.walk]; simp +decide only [ite_true, dite_true, ite_false, dite_false])
    simp +decide only [enumerateRegBlockList.fail, freeRegBlockList_eq, ite_false]
    rfl

end Pyrite
