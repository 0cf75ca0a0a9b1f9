import Pyrite.RegBlock.Basic

namespace Pyrite

open RegIf

-- `free_reg_block_list` stops without fault at a NULL view that lies inside the array.
theorem freeRegBlockList.go_ok {list : List RegBlock} {k : Nat} (hk : k < list.length)
    (hnull : list[k].regs = none) :
    ∀ i ≤ k, ∃ vs, freeRegBlockList.go list i = .ok vs := by
  intro i
  induction i using freeRegBlockList.go.induct list with
  | case1 i hi hn => intro; exact ⟨[], by rw [freeRegBlockList.go, dif_pos hi]; simp [hn]⟩
  | case2 i hi v hv ih =>
    intro hik
    have hik' : i < k := lt_of_le_of_ne hik fun h => by subst h; simp [hnull] at hv
    obtain ⟨vs, hvs⟩ := ih hik'
    exact ⟨v :: vs, by rw [freeRegBlockList.go, dif_pos hi]; simp [hv, hvs]⟩
  | case3 i hi => intro hik; omega

-- The failure path never returns a list.
theorem enumerateRegBlockList.fail_ne_some (list : List RegBlock) (r : List RegBlock × Nat) :
    enumerateRegBlockList.fail list ≠ .ok (some r) := by
  unfold enumerateRegBlockList.fail
  cases freeRegBlockList list <;> simp [Except.map]

-- What the walk has recorded in the first `count` slots: pairwise distinct absolute offsets
-- `base + o` with `o < size`.
structure Recorded (base size : Nat) (list : List RegBlock) (count : Nat) : Prop where
  nodup : ((list.take count).map (·.offset)).Nodup
  inRange : ∀ e ∈ list.take count, ∃ o < size, e.offset = sizeWrap (base + o)

theorem Recorded.push {base size : Nat} {list : List RegBlock} {count offset : Nat}
    (r : Recorded base size list count) (hc : count < list.length) (ho : offset < size)
    (hn : sizeWrap (base + offset) ∉ (list.take count).map (·.offset)) (t v : UInt32)
    (view : Option RegIf) (extra : List RegBlock) :
    Recorded base size (list.set count ⟨t, v, sizeWrap (base + offset), view⟩ ++ extra) (count + 1) := by
  have ht : (list.set count ⟨t, v, sizeWrap (base + offset), view⟩ ++ extra).take (count + 1) =
      list.take count ++ [⟨t, v, sizeWrap (base + offset), view⟩] := by
    rw [List.take_append_of_le_length (by simpa using hc), List.take_succ,
      List.getElem?_set_self hc, take_set_self]
    rfl
  constructor
  · rw [ht, List.map_append, List.nodup_append]
    exact ⟨r.nodup, by simp, by simpa using hn⟩
  · rw [ht]
    rintro x hx
    rcases List.mem_append.mp hx with hx | hx
    · exact r.inRange x hx
    · exact ⟨offset, ho, by simp_all⟩

theorem Recorded.set_self {base size : Nat} {list : List RegBlock} {count : Nat}
    (r : Recorded base size list count) (e : RegBlock) : Recorded base size (list.set count e) count :=
  ⟨by rw [take_set_self]; exact r.nodup, by rw [take_set_self]; exact r.inRange⟩

theorem walk_recorded (mem : Mem) (alloc : Alloc) (regs : RegIf) (base size : Nat)
    (list : List RegBlock) (count offset : Nat) (t v w : UInt32) (n : Nat)
    (r : Recorded base size list count) (l : List RegBlock) (c : Nat)
    (h : enumerateRegBlockList.walk mem alloc regs base size list count offset t v w n =
      .ok (some (l, c))) :
    Recorded base size l c ∧ ∃ h : c < l.length, l[c].regs = none := by
  induction list, count, offset, t, v, w, n using enumerateRegBlockList.walk.induct mem alloc regs
    base size generalizing l c with
  | case1 list count offset t v w n hc hb =>
    rw [enumerateRegBlockList.walk, dif_pos hc] at h
    simp only [dif_pos hb, Except.ok.injEq, Option.some.injEq, Prod.mk.injEq] at h
    obtain ⟨rfl, rfl⟩ := h
    exact ⟨r.set_self _, by simpa using hc, by simp⟩
  | case2 list count offset t v w n hc _ hb _ hl =>
    rw [enumerateRegBlockList.walk, dif_pos hc] at h
    simp only [dif_neg hb, dif_pos hl] at h
    exact absurd h (enumerateRegBlockList.fail_ne_some _ _)
  | case3 list count offset t v w n hc _ hb _ hl _ _ _ _ _ hlen ha ih =>
    rw [enumerateRegBlockList.walk, dif_pos hc] at h
    simp only [dif_neg hb, dif_neg hl, if_pos hlen, if_pos ha] at h
    exact ih ((r.set_self _).push (by simpa using hc) (by omega) (not_mem_offsets hl) _ _ _ _) l c h
  | case4 list count offset t v w n hc _ hb _ hl _ _ _ _ hlen ha =>
    rw [enumerateRegBlockList.walk, dif_pos hc] at h
    simp only [dif_neg hb, dif_neg hl, if_pos hlen, if_neg ha] at h
    exact absurd h (enumerateRegBlockList.fail_ne_some _ _)
  | case5 list count offset t v w n hc _ hb _ hl t' v' _ view _ hlen ih =>
    rw [enumerateRegBlockList.walk, dif_pos hc] at h
    simp only [dif_neg hb, dif_neg hl, if_neg hlen] at h
    have r' := (r.set_self _).push (by simpa using hc) (by omega) (not_mem_offsets hl) t' v' view.1 []
    rw [List.append_nil] at r'
    exact ih r' l c h
  | case6 list count offset t v w n hc =>
    rw [enumerateRegBlockList.walk, dif_neg hc] at h
    cases h

section Chain

variable (mem : Mem) (regs : RegIf) (base : Nat)

-- The header word `k` bytes into the block at offset `o`, as the walk reads it.
def headerWord (o k : Nat) : Option UInt32 :=
  regIfRead32 mem regs (sizeWrap (sizeWrap (base + o) + k))

-- The offsets o₀ = `offset`, oⱼ₊₁ = the next-offset word of block oⱼ.
def blockChain (offset : Nat) : Nat → Nat
  | 0 => offset
  | j + 1 => ((headerWord mem regs base (blockChain offset j) 0x08).getD 0).toNat

-- The slot the walk fills for the block at offset `o`: its type and version words, its absolute
-- offset and the view from there to the end of the window.
def blockEntry (size o : Nat) : RegBlock :=
  ⟨(headerWord mem regs base o 0x00).getD 0, (headerWord mem regs base o 0x04).getD 0,
    sizeWrap (base + o), some (.offset regs (sizeWrap (base + o)) (size - o))⟩

end Chain

-- Block `j` of a chain ends the walk: offset zero after the first block, or past the window.
def Terminates (size : Nat) (c : Nat → Nat) (j : Nat) : Prop := (c j = 0 ∧ j ≠ 0) ∨ size ≤ c j

-- Block `j` of a chain comes back to an earlier offset.
def Revisits (c : Nat → Nat) (j : Nat) : Prop := ∃ i < j, c i = c j

-- Every chain stops within `size + 1` blocks: `size + 1` offsets below `size` must repeat.
theorem exists_first_stop (size : Nat) (c : Nat → Nat) :
    ∃ k, (∀ j < k, ¬Terminates size c j ∧ ¬Revisits c j) ∧ (Terminates size c k ∨ Revisits c k) := by
  classical
  have hex : ∃ j, Terminates size c j ∨ Revisits c j := by
    by_contra hno
    push_neg at hno
    have hinj : Set.InjOn c (Finset.range (size + 1) : Set Nat) := by
      intro i _ j _ he
      rcases lt_trichotomy i j with h | h | h
      · exact absurd ⟨i, h, he⟩ (hno j).2
      · exact h
      · exact absurd ⟨j, h, he.symm⟩ (hno i).2
    have hmaps : ∀ j ∈ Finset.range (size + 1), c j ∈ Finset.range size := fun j _ => by
      have := (hno j).1; simp only [Terminates, not_or, not_le] at this; simpa using this.2
    exact absurd (Finset.card_le_card_of_injOn c hmaps hinj) (by simp)
  exact ⟨Nat.find hex, fun j hj => by simpa [not_or] using Nat.find_min hex hj, Nat.find_spec hex⟩

theorem sizeWrap_le (n : Nat) : sizeWrap n ≤ n := Nat.mod_le _ _

theorem sizeWrap_add_inj {b x y : Nat} (hx : x < 2 ^ 64) (hy : y < 2 ^ 64)
    (h : sizeWrap (b + x) = sizeWrap (b + y)) : x = y := by
  unfold sizeWrap at h; omega

-- With the window of the walk inside `regs`, every block's view opens unclamped.
theorem regIfOpenOffset_window {regs : RegIf} {base size o : Nat}
    (hwin : regs.size = 0 ∨ base + size ≤ regs.size) (ho : o < size) (n : Nat) :
    regIfOpenOffset (fun _ => true) n regs (sizeWrap (base + o)) (size - o) =
      (some (.offset regs (sizeWrap (base + o)) (size - o)), n + 1) := by
  have := sizeWrap_le (base + o)
  unfold regIfOpenOffset
  rw [if_neg (by omega)]
  by_cases hc : regs.size ≠ 0 ∧ (size - o = 0 ∨ regs.size ≤ size - o)
  · obtain ⟨rfl, rfl, hs⟩ : base = 0 ∧ o = 0 ∧ regs.size = size := by omega
    simp [if_pos hc, sizeWrap, hs]
  · simp only [if_neg hc, ite_true]

theorem Option.getD_of_isSome {α : Type} {o : Option α} (h : o.isSome) (a b : α) :
    o.getD a = o.getD b := by
  cases o <;> simp_all

theorem take_eq_map_of_getElem? {list : List RegBlock} {j : Nat} {f : Nat → RegBlock}
    (hj : j ≤ list.length) (h : ∀ i < j, list[i]? = some (f i)) :
    list.take j = (List.range j).map f := by
  apply List.ext_getElem (by simp [hj])
  intro i h1 h2
  have hi : i < j := by simpa using h2
  have := h i hi
  rw [List.getElem?_eq_getElem (by omega)] at this
  simpa using Option.some.inj this

theorem getElem?_set_set_append {list : List RegBlock} {j : Nat} {f : Nat → RegBlock}
    (hj : j < list.length) (h : ∀ i < j, list[i]? = some (f i)) (z : RegBlock) {e : RegBlock}
    (he : e = f j) (extra : List RegBlock) :
    ∀ i < j + 1, ((list.set j z).set j e ++ extra)[i]? = some (f i) := by
  intro i hi
  rw [List.getElem?_append_left (by simp; omega)]
  rcases Nat.lt_succ_iff_lt_or_eq.mp hi with hi | rfl
  · rw [List.getElem?_set_ne (by omega), List.getElem?_set_ne (by omega), h i hi]
  · rw [List.getElem?_set_self (by simpa using hj), he]

-- The assumptions under which the walk follows the chain from `offset` to its first stop `k`:
-- a `size_t` window inside `regs` (or `regs` unbounded), and readable headers on every visited
-- block.
structure FollowsChain (mem : Mem) (regs : RegIf) (base offset size k : Nat) : Prop where
  size_lt : size < 2 ^ 64
  window : regs.size = 0 ∨ base + size ≤ regs.size
  before : ∀ j < k, ¬Terminates size (blockChain mem regs base offset) j ∧
    ¬Revisits (blockChain mem regs base offset) j
  stop : Terminates size (blockChain mem regs base offset) k ∨
    Revisits (blockChain mem regs base offset) k
  readable : ∀ j < k, ∀ w ∈ [0x00, 0x04, 0x08],
    (headerWord mem regs base (blockChain mem regs base offset j) w).isSome

-- What the walk returns once the chain first stops at block `k`: the blocks before `k` and a
-- sentinel when the chain ends there, NULL when it comes back to an earlier block.
def ChainOutcome (mem : Mem) (regs : RegIf) (base offset size k : Nat)
    (r : Except Fault (Option (List RegBlock × Nat))) : Prop :=
  (Terminates size (blockChain mem regs base offset) k → ∃ l, r = .ok (some (l, k)) ∧
    (∀ i < k, l[i]? = some (blockEntry mem regs base size (blockChain mem regs base offset i))) ∧
    l[k]?.map (·.regs) = some none) ∧
  (¬Terminates size (blockChain mem regs base offset) k → r = .ok none)

namespace FollowsChain

variable {mem : Mem} {regs : RegIf} {base offset size k : Nat}
  (hw : FollowsChain mem regs base offset size k)
include hw

theorem chain_lt {j : Nat} (hj : j < k) : blockChain mem regs base offset j < size := by
  have := (hw.before j hj).1; simp only [Terminates, not_or, not_le] at this; exact this.2

theorem eq_of_stop {j : Nat} (hj : j ≤ k) (hs : Terminates size (blockChain mem regs base offset) j ∨
    Revisits (blockChain mem regs base offset) j) : j = k :=
  le_antisymm hj (not_lt.mp fun h => by rcases hs with hs | hs <;> simp_all [hw.before j h])

theorem any_iff {list : List RegBlock} {j : Nat} (hj : j ≤ k) (hlen : j ≤ list.length)
    (hent : ∀ i < j, list[i]? = some (blockEntry mem regs base size (blockChain mem regs base offset i)))
    (hoj : blockChain mem regs base offset j < size) :
    (list.take j).any (·.offset = sizeWrap (base + blockChain mem regs base offset j)) = true ↔
      Revisits (blockChain mem regs base offset) j := by
  rw [take_eq_map_of_getElem? hlen hent]
  simp only [List.any_eq_true, List.mem_map, List.mem_range, decide_eq_true_eq, Revisits]
  constructor
  · rintro ⟨_, ⟨i, hi, rfl⟩, he⟩
    refine ⟨i, hi, ?_⟩
    exact sizeWrap_add_inj (by have := hw.chain_lt (by omega : i < k); have := hw.size_lt; omega)
      (by have := hw.size_lt; omega) he
  · rintro ⟨i, hi, he⟩
    exact ⟨_, ⟨i, hi, rfl⟩, by simp [blockEntry, he]⟩

theorem entry_eq {j : Nat} (hj : j < k) (t v : UInt32) (n : Nat) :
    (⟨(regIfRead32 mem regs (sizeWrap (sizeWrap (base + blockChain mem regs base offset j) + 0x00))).getD t,
      (regIfRead32 mem regs (sizeWrap (sizeWrap (base + blockChain mem regs base offset j) + 0x04))).getD v,
      sizeWrap (base + blockChain mem regs base offset j),
      (regIfOpenOffset (fun _ => true) n regs (sizeWrap (base + blockChain mem regs base offset j))
        (size - blockChain mem regs base offset j)).1⟩ : RegBlock) =
      blockEntry mem regs base size (blockChain mem regs base offset j) := by
  have h0 := hw.readable j hj 0 (by simp)
  have h4 := hw.readable j hj 4 (by simp)
  simp only [headerWord] at h0 h4
  rw [regIfOpenOffset_window hw.window (hw.chain_lt hj), Option.getD_of_isSome h0 t 0,
    Option.getD_of_isSome h4 v 0]
  rfl

theorem next_eq {j : Nat} (hj : j < k) (w : UInt32) :
    ((regIfRead32 mem regs (sizeWrap (sizeWrap (base + blockChain mem regs base offset j) + 0x08))).getD
      w).toNat = blockChain mem regs base offset (j + 1) := by
  have h8 := hw.readable j hj 8 (by simp)
  simp only [headerWord] at h8
  rw [Option.getD_of_isSome h8 w 0]
  rfl

theorem walk (list : List RegBlock) (count o : Nat) (t v w : UInt32) (n : Nat) :
    count ≤ k → count < list.length → o = blockChain mem regs base offset count →
    (∀ i < count, list[i]? = some (blockEntry mem regs base size (blockChain mem regs base offset i))) →
    ChainOutcome mem regs base offset size k (enumerateRegBlockList.walk mem (fun _ => true) regs base size list count o t v w n) := by
  induction list, count, o, t, v, w, n using enumerateRegBlockList.walk.induct mem (fun _ => true)
    regs base size with
  | case1 list count o t v w n hc hb =>
    intro hk _ ho hent
    subst ho
    have hkc := hw.eq_of_stop hk (.inl hb)
    subst hkc
    rw [enumerateRegBlockList.walk, dif_pos hc]
    simp only [dif_pos hb]
    refine ⟨fun _ => ⟨_, rfl, fun i hi => ?_, by simp [hc]⟩, fun hn => absurd hb hn⟩
    rw [List.getElem?_set_ne (by omega), hent i hi]
  | case2 list count o t v w n hc _ hb _ hl =>
    intro hk _ ho hent
    subst ho
    have hlt : blockChain mem regs base offset count < size := by omega
    have hrev := (hw.any_iff hk hc.le hent hlt).mp (by simpa +zetaDelta [take_set_self] using hl)
    have hkc := hw.eq_of_stop hk (.inr hrev)
    subst hkc
    rw [enumerateRegBlockList.walk, dif_pos hc]
    simp only [dif_neg hb, dif_pos hl]
    refine ⟨fun ht => absurd ht hb, fun _ => ?_⟩
    obtain ⟨vs, hvs⟩ := freeRegBlockList.go_ok
      (show count < (list.set count { list[count] with type := 0, version := 0, regs := none }).length
        by simpa using hc) (by simp) 0 (Nat.zero_le _)
    simp [enumerateRegBlockList.fail, freeRegBlockList, hvs, Except.map]
  | case3 list count o t v w n hc _ hb _ hl t' v' val' view list2 hlen ha ih =>
    intro hk _ ho hent
    subst ho
    have hlt : blockChain mem regs base offset count < size := by omega
    have hnrev : ¬Revisits (blockChain mem regs base offset) count := fun hr =>
      hl (by simpa +zetaDelta [take_set_self] using (hw.any_iff hk hc.le hent hlt).mpr hr)
    have hck : count < k := lt_of_le_of_ne hk fun he => by
      subst he; rcases hw.stop with h | h; exact hb h; exact hnrev h
    rw [enumerateRegBlockList.walk, dif_pos hc]
    simp only [dif_neg hb, dif_neg hl, if_pos hlen, if_pos ha]
    exact ih hck (by simp +zetaDelta; omega) (hw.next_eq hck w)
      (getElem?_set_set_append hc hent _ (hw.entry_eq hck t v n) _)
  | case4 list count o t v w n hc _ hb _ hl _ _ _ _ hlen ha => exact absurd rfl ha
  | case5 list count o t v w n hc _ hb _ hl t' v' val' view list2 hlen ih =>
    intro hk _ ho hent
    subst ho
    have hlt : blockChain mem regs base offset count < size := by omega
    have hnrev : ¬Revisits (blockChain mem regs base offset) count := fun hr =>
      hl (by simpa +zetaDelta [take_set_self] using (hw.any_iff hk hc.le hent hlt).mpr hr)
    have hck : count < k := lt_of_le_of_ne hk fun he => by
      subst he; rcases hw.stop with h | h; exact hb h; exact hnrev h
    rw [enumerateRegBlockList.walk, dif_pos hc]
    simp only [dif_neg hb, dif_neg hl, if_neg hlen]
    exact ih hck (by simp +zetaDelta at hlen ⊢; omega) (hw.next_eq hck w) fun i hi => by
      rw [← List.append_nil list2]
      exact getElem?_set_set_append hc hent _ (hw.entry_eq hck t v n) [] i hi
  | case6 list count o t v w n hc => intro _ hlen; exact absurd hlen hc

end FollowsChain

-- What `enumerate_reg_block_list` promises for the chain o₀ = `offset`, oⱼ₊₁ = next word of block
-- oⱼ: the chain first stops at some block `k`, and when the headers of the visited blocks are
-- readable the result is NULL if oₖ revisits an earlier offset, and otherwise the blocks
-- o₀ .. oₖ₋₁ in order followed by a sentinel.
def FollowsBlockChain (mem : Mem) (regs : RegIf) (base offset size : Nat)
    (r : Except Fault (Option (List RegBlock))) : Prop :=
  ∃ k, (∀ j < k, ¬Terminates size (blockChain mem regs base offset) j ∧
      ¬Revisits (blockChain mem regs base offset) j) ∧
    (Terminates size (blockChain mem regs base offset) k ∨
      Revisits (blockChain mem regs base offset) k) ∧
    ((∀ j < k, ∀ w ∈ [0x00, 0x04, 0x08],
        (headerWord mem regs base (blockChain mem regs base offset j) w).isSome) →
      (Terminates size (blockChain mem regs base offset) k →
        ∃ l, r = .ok (some l) ∧
          (∀ i < k, l[i]? = some (blockEntry mem regs base size (blockChain mem regs base offset i))) ∧
          l[k]?.map (·.regs) = some none) ∧
      (¬Terminates size (blockChain mem regs base offset) k → r = .ok none))

-- `enumerate_reg_block_list`: every run records pairwise distinct absolute offsets `base + o` with
-- `o < size` before its sentinel; with no allocation failure and the window inside `regs`, the
-- result follows the block chain.
theorem enumerateRegBlockList_spec (mem : Mem) (alloc : Alloc) (regs : RegIf)
    (base offset size : Nat) (t v w : UInt32) :
    (∀ l c, enumerateRegBlockList.walk mem alloc regs base size (List.replicate 8 .zero) 0 offset t v w
        1 = .ok (some (l, c)) → Recorded base size l c ∧ l[c]?.map (·.regs) = some none) ∧
    (size < 2 ^ 64 → (regs.size = 0 ∨ base + size ≤ regs.size) →
      FollowsBlockChain mem regs base offset size
        (enumerateRegBlockList mem (fun _ => true) regs base offset size t v w)) := by
  refine ⟨fun l c h => ?_, fun hsize hwin => ?_⟩
  · obtain ⟨r, hc, hn⟩ := walk_recorded mem alloc regs base size _ 0 offset t v w 1
      ⟨by simp, by simp⟩ l c h
    exact ⟨r, by simp [hc, hn]⟩
  · obtain ⟨k, hbefore, hstop⟩ := exists_first_stop size (blockChain mem regs base offset)
    refine ⟨k, hbefore, hstop, fun hread => ?_⟩
    have hw : FollowsChain mem regs base offset size k := ⟨hsize, hwin, hbefore, hstop, hread⟩
    obtain ⟨hterm, hloop⟩ := hw.walk (List.replicate 8 .zero) 0 offset t v w 1 (Nat.zero_le _)
      (by simp) rfl (fun _ h => absurd h (Nat.not_lt_zero _))
    simp only [enumerateRegBlockList, ite_true]
    refine ⟨fun ht => ?_, fun ht => by rw [hloop ht]; rfl⟩
    obtain ⟨l, hl, hent, hs⟩ := hterm ht
    exact ⟨l, by rw [hl]; rfl, hent, hs⟩

-- A 256-byte window holding the chain 0 → 0x40 → 0x20: the next word of the block at 0 is 0x40,
-- that of the block at 0x40 is 0x20, and that of the block at 0x20 is 0, which ends the chain.
theorem enumerateRegBlockList_three_blocks :
    (0x100 : Nat) < 2 ^ 64 ∧ ((RegIf.raw 0 0x100).size = 0 ∨ 0 + 0x100 ≤ (RegIf.raw 0 0x100).size) ∧
      FollowsBlockChain (store (store (fun _ => 0) 0x08 4 0x40) 0x48 4 0x20) (.raw 0 0x100) 0 0 0x100
        (enumerateRegBlockList (store (store (fun _ => 0) 0x08 4 0x40) 0x48 4 0x20) (fun _ => true) (.raw 0 0x100) 0 0 0x100 0 0 0) :=
  ⟨by decide, by decide,
    (enumerateRegBlockList_spec (store (store (fun _ => 0) 0x08 4 0x40) 0x48 4 0x20) (fun _ => true) (.raw 0 0x100) 0 0 0x100 0 0 0).2
      (by decide) (by decide)⟩

end Pyrite
