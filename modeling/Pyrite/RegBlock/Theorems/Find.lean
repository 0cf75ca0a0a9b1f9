import Pyrite.RegBlock.Basic

namespace Pyrite

/-! # Looking up a block

`find_reg_block` scans the list up to its sentinel, the first entry with a NULL view, and counts the
entries that match; `index` picks among them. -/

-- A lookup of `type` and `version` takes an entry whose type is `type` and, unless `version` is 0,
-- whose version is `version`.
def RegBlock.Matches (type version : UInt32) (e : RegBlock) : Bool :=
  decide (e.type = type ∧ (version = 0 ∨ e.version = version))

-- The slots of the entries of `es` that a lookup of `type` and `version` takes, in order.
def matchSlots (type version : UInt32) (es : List RegBlock) : List Nat :=
  (es.enum.filter (·.2.Matches type version)).map Prod.fst

theorem enum_drop_eq_cons {es : List RegBlock} {k : Nat} (hk : k < es.length) :
    es.enum.drop k = (k, es[k]) :: es.enum.drop (k + 1) := by
  rw [List.drop_eq_getElem_cons (by simpa only [List.enum_length] using hk), List.getElem_enum]

section Find

variable {es : List RegBlock} {s : RegBlock} (rest : List RegBlock) (type version : UInt32)

-- A slot with a view, at or before the sentinel, holds an entry of `es`.
theorem lt_of_regs_eq_some (hs : s.regs = none) {k : Nat} (hk : k ≤ es.length)
    {h : k < (es ++ s :: rest).length} {v : RegIf} (hv : (es ++ s :: rest)[k].regs = some v) :
    k < es.length := by
  refine Nat.lt_of_le_of_ne hk fun he => ?_
  subst he
  simp [List.getElem_append_right, hs] at hv

-- From a slot `k` at or before the sentinel on, the scan returns the `index`-th slot the lookup
-- takes (a negative `index` counts as 0).
theorem findRegBlock.go_sentinel (hes : ∀ e ∈ es, e.regs.isSome) (hs : s.regs = none) (k : Nat)
    (index : Int) (hk : k ≤ es.length) :
    findRegBlock.go (es ++ s :: rest) type version k index =
      .ok (((es.enum.drop k).filter (·.2.Matches type version)).map Prod.fst)[index.toNat]? := by
  induction k, index using findRegBlock.go.induct (es ++ s :: rest) type version with
  | case1 k index h hnone =>
    -- the sentinel
    have hk' : k = es.length := by
      refine (Nat.eq_or_lt_of_le hk).resolve_right fun hlt => ?_
      rw [List.getElem_append_left hlt] at hnone
      simpa [hnone] using hes _ (List.getElem_mem hlt)
    subst hk'
    rw [findRegBlock.go, dif_pos h]
    simp only [hnone, List.drop_of_length_le (le_of_eq List.enum_length), List.filter_nil, List.map_nil,
      List.getElem?_nil]
  | case2 k index h v hv hm hpos ih =>
    -- a match that `index` skips
    have hlt := lt_of_regs_eq_some rest hs hk hv
    rw [findRegBlock.go, dif_pos h]
    simp only [hv, if_pos hm, if_pos hpos, ih hlt, enum_drop_eq_cons hlt]
    rw [List.getElem_append_left hlt] at hm
    rw [List.filter_cons_of_pos (p := fun x : Nat × RegBlock => x.2.Matches type version)
      (decide_eq_true hm), List.map_cons, show index.toNat = (index - 1).toNat + 1 by omega,
      List.getElem?_cons_succ]
  | case3 k index h v hv hm hpos =>
    -- the match `index` asks for
    have hlt := lt_of_regs_eq_some rest hs hk hv
    rw [findRegBlock.go, dif_pos h]
    simp only [hv, if_pos hm, if_neg hpos, enum_drop_eq_cons hlt]
    rw [List.getElem_append_left hlt] at hm
    rw [List.filter_cons_of_pos (p := fun x : Nat × RegBlock => x.2.Matches type version)
      (decide_eq_true hm), List.map_cons, show index.toNat = 0 by omega, List.getElem?_cons_zero]
  | case4 k index h v hv hm ih =>
    -- an entry that does not match
    have hlt := lt_of_regs_eq_some rest hs hk hv
    rw [findRegBlock.go, dif_pos h]
    simp only [hv, if_neg hm, ih hlt, enum_drop_eq_cons hlt]
    rw [List.getElem_append_left hlt] at hm
    rw [List.filter_cons_of_neg (p := fun x : Nat × RegBlock => x.2.Matches type version)
      (by simpa only [RegBlock.Matches, decide_eq_true_eq] using hm)]
  | case5 k index h => exact absurd (by simp only [List.length_append, List.length_cons]; omega) h

end Find

-- `find_reg_block` on entries with views closed by a sentinel returns the `i`-th slot that matches,
-- or NULL when fewer than `i + 1` entries match, whatever lies past the sentinel.
theorem findRegBlock_nth_match (es : List RegBlock) (hes : ∀ e ∈ es, e.regs.isSome) (s : RegBlock)
    (hs : s.regs = none) (rest : List RegBlock) (type version : UInt32) (i : Nat) :
    findRegBlock (es ++ s :: rest) type version i = .ok (matchSlots type version es)[i]? :=
  findRegBlock.go_sentinel rest type version hes hs 0 i (Nat.zero_le _)

-- Types 1, 2, 1, 1 with versions 1, 1, 2, 3: a lookup of type 1 with the version wildcard skips the
-- type-2 entry and takes slot 2 for index 1.
theorem findRegBlock_nth_match_interleaved :
    (∀ e ∈ [(⟨1, 1, 0, some (.raw 0 0x10)⟩ : RegBlock), ⟨2, 1, 0x10, some (.raw 0x10 0x10)⟩,
        ⟨1, 2, 0x20, some (.raw 0x20 0x10)⟩, ⟨1, 3, 0x30, some (.raw 0x30 0x10)⟩], e.regs.isSome) ∧
      RegBlock.zero.regs = none ∧
      findRegBlock ([⟨1, 1, 0, some (.raw 0 0x10)⟩, ⟨2, 1, 0x10, some (.raw 0x10 0x10)⟩,
        ⟨1, 2, 0x20, some (.raw 0x20 0x10)⟩, ⟨1, 3, 0x30, some (.raw 0x30 0x10)⟩] ++ [.zero]) 1 0 1 =
        .ok (some 2) :=
  ⟨by decide, rfl, (findRegBlock_nth_match _ (by decide) .zero rfl [] 1 0 1).trans rfl⟩

end Pyrite
