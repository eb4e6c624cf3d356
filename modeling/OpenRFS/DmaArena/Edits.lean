import OpenRFS.DmaArena.Arena
import OpenRFS.Region.Merge

/-!
# What the edits of the arena's table do

An edit happens at one block, so its effect is stated for a table cut there, as
`front ++ block :: back`. An allocation exchanges the block for a run of blocks over
the same range (`carved`), a release joins it with its free neighbours. Both keep the
table laid out and coalesced, and they move no other block in use.
-/

namespace OpenRFS.DmaArena

open Region List

variable {blocks : List Block} {block : Block}

/-- The table covers the arena, with no two free neighbours. -/
structure Laid (blocks : List Block) (size : ℕ) : Prop where
  tiles : Tiles Block.offset Block.size 0 blocks size
  spaced : blocks.IsChain (Spaced Block.used)

abbrev usedBlocks (blocks : List Block) : List Block := taken Block.used blocks

/-! ### Searches -/

theorem findFit_cut {base rounded alignment index pad : ℕ}
    (h : findFit base rounded alignment blocks = some (index, block, pad)) :
    ∃ front back, blocks = front ++ block :: back ∧ front.length = index ∧
      padOf base rounded alignment block = some pad := by
  induction blocks generalizing index with
  | nil => cases h
  | cons first blocks ih =>
    rw [findFit] at h
    cases hpad : padOf base rounded alignment first with
    | some found =>
      rw [hpad] at h
      cases h
      exact ⟨[], blocks, rfl, rfl, hpad⟩
    | none =>
      rw [hpad] at h
      obtain ⟨⟨index', found⟩, hfound, heq⟩ := Option.map_eq_some_iff.mp h
      cases heq
      obtain ⟨front, back, rfl, hlength, hpad'⟩ := ih hfound
      exact ⟨first :: front, back, rfl, by simp [hlength], hpad'⟩

theorem roundUp_eq_some {value alignment rounded : ℕ} (h : roundUp value alignment = some rounded)
    (hpos : 0 < alignment) : value ≤ rounded ∧ alignment ∣ rounded := by
  rw [roundUp] at h
  split_ifs at h
  cases h
  have hdiv := Nat.div_add_mod (value + (alignment - 1)) alignment
  have hmod := Nat.mod_lt (value + (alignment - 1)) hpos
  rw [Nat.mul_comm] at hdiv
  exact ⟨by omega, Nat.dvd_mul_left _ _⟩

theorem padOf_eq_some {base rounded alignment pad : ℕ}
    (h : padOf base rounded alignment block = some pad) :
    block.used = false ∧ pad + rounded ≤ block.size ∧
      (0 < alignment → alignment ∣ base + (block.offset + pad)) := by
  rw [padOf] at h
  split_ifs at h with hused
  cases hround : roundUp (base + block.offset) alignment with
  | none => simp [hround] at h
  | some aligned =>
    simp only [hround] at h
    split_ifs at h with hroom
    cases h
    refine ⟨by simpa using hused, by omega, fun hpos => ?_⟩
    obtain ⟨hle, hdvd⟩ := roundUp_eq_some hround hpos
    rwa [show base + (block.offset + (aligned - (base + block.offset))) = aligned by omega]

theorem findOffset_eq_none {offset : ℕ} {a c : ℕ}
    (htiles : Tiles Block.offset Block.size a blocks c) :
    findOffset offset blocks = none ↔ ∀ block ∈ blocks, block.offset ≠ offset := by
  induction blocks generalizing a with
  | nil => simp [findOffset]
  | cons first blocks ih =>
    rw [findOffset]
    split_ifs with hne hlt
    · -- the table ascends, so nothing behind the first block is at the offset
      refine iff_of_true rfl (forall_mem_cons.mpr ⟨hne, fun block hblock => ?_⟩)
      have := (htiles.2.2.bounds hblock).1
      have := htiles.1
      omega
    · rw [Option.map_eq_none_iff, ih htiles.2.2]
      simp only [mem_cons, forall_eq_or_imp]
      exact ⟨fun h => ⟨hne, h⟩, fun h => h.2⟩
    · refine iff_of_false nofun fun h => hne ?_
      exact h first mem_cons_self

theorem findOffset_cut {offset index : ℕ} (h : findOffset offset blocks = some (index, block)) :
    ∃ front back, blocks = front ++ block :: back ∧ front.length = index ∧
      block.offset = offset := by
  induction blocks generalizing index with
  | nil => cases h
  | cons first blocks ih =>
    rw [findOffset] at h
    split_ifs at h with hne hlt
    · obtain ⟨⟨index', found⟩, hfound, heq⟩ := Option.map_eq_some_iff.mp h
      cases heq
      obtain ⟨front, back, rfl, hlength, hoffset⟩ := ih hfound
      exact ⟨first :: front, back, rfl, by simp [hlength], hoffset⟩
    · cases h
      exact ⟨[], blocks, rfl, rfl, not_not.mp hne⟩

theorem allocationSizeIn_of_mem {a c : ℕ} (htiles : Tiles Block.offset Block.size a blocks c)
    (hblock : block ∈ blocks) (hused : block.used) :
    allocationSizeIn block.offset blocks = block.size := by
  induction blocks generalizing a with
  | nil => cases hblock
  | cons first blocks ih =>
    rw [allocationSizeIn]
    rcases mem_cons.mp hblock with rfl | hblock
    · rw [if_pos rfl, if_pos hused]
    · have hstart := (htiles.2.2.bounds hblock).1
      have hfirst := htiles.1
      have hpos := htiles.2.1
      rw [if_neg (by omega), if_neg (by omega)]
      exact ih htiles.2.2 hblock

/-! ### Allocation -/

section Carve

variable {front back : List Block} {block : Block} {pad rounded size : ℕ}

/-- The run of blocks an allocation puts in the place of the block it has found. -/
def carved (block : Block) (pad rounded : ℕ) : List Block :=
  (if pad ≠ 0 then [{ block with size := pad }] else []) ++
    { offset := block.offset + pad, size := rounded, used := true } ::
      if block.size - pad - rounded ≠ 0 then
        [{ offset := block.offset + pad + rounded, size := block.size - pad - rounded,
           used := false }]
      else []

theorem insertBlock_cut (xs ys : List Block) (b : Block) (hroom : (xs ++ ys).length < maxBlocks) :
    insertBlock (xs ++ ys) xs.length b = (true, xs ++ b :: ys) := by
  have hinsert : (xs ++ ys).insertIdx xs.length b = xs ++ b :: ys := by
    induction xs with
    | nil => rfl
    | cons x xs ih =>
      simp only [cons_append, length_cons, insertIdx_succ_cons]
      rw [ih (by simp only [cons_append, length_cons] at hroom; omega)]
  rw [insertBlock, if_neg (by simp only [length_append] at hroom ⊢; omega), hinsert]

theorem splitFound_cut (hroom : (front ++ block :: back).length + ((if pad ≠ 0 then 1 else 0) +
    (if block.size - pad - rounded ≠ 0 then 1 else 0)) ≤ maxBlocks) :
    splitFound (front ++ block :: back) front.length block pad rounded =
      (true, front ++ carved block pad rounded ++ back) := by
  have hset : ∀ b : Block, (front ++ block :: back).set front.length b = front ++ b :: back := by
    intro b
    rw [set_append_right _ _ le_rfl, Nat.sub_self, set_cons_zero]
  simp only [length_append, length_cons] at hroom
  simp only [splitFound, carved, hset]
  by_cases hpad : pad = 0
  · simp only [hpad, ne_eq, not_true_eq_false, if_false, Bool.not_true, Bool.false_eq_true,
      Nat.add_zero, nil_append, Nat.sub_zero] at hroom ⊢
    by_cases htail : block.size - rounded = 0
    · simp [htail]
    · simp only [htail, not_false_eq_true, if_true] at hroom ⊢
      have := insertBlock_cut (front ++ [{ block with size := rounded, used := true }]) back
        { offset := block.offset + rounded, size := block.size - rounded, used := false }
        (by simp only [length_append, length_singleton]; omega)
      simpa using this
  · simp only [hpad, ne_eq, not_false_eq_true, if_true] at hroom ⊢
    have hfirst := insertBlock_cut (front ++ [{ block with size := pad }]) back
      { offset := block.offset + pad, size := rounded, used := true }
      (by simp only [length_append, length_singleton]; omega)
    simp only [append_assoc, singleton_append, length_append, length_singleton] at hfirst
    simp only [hfirst, Bool.not_true, Bool.false_eq_true, if_false]
    by_cases htail : block.size - pad - rounded = 0
    · simp [htail]
    · simp only [htail, not_false_eq_true, if_true] at hroom ⊢
      have := insertBlock_cut (front ++ [{ block with size := pad },
          { offset := block.offset + pad, size := rounded, used := true }]) back
        { offset := block.offset + pad + rounded, size := block.size - pad - rounded,
          used := false }
        (by simp only [length_append, length_cons, length_nil]; omega)
      simpa using this

theorem usedBlocks_carved (hfree : block.used = false) : usedBlocks (carved block pad rounded) =
    [{ offset := block.offset + pad, size := rounded, used := true }] := by
  rw [usedBlocks, carved, taken_append, taken_cons_of_used rfl]
  have hpad : taken Block.used (if pad ≠ 0 then [{ block with size := pad }] else []) = [] := by
    split_ifs <;> simp [taken, hfree]
  rw [hpad, nil_append]
  congr 1
  split_ifs <;> simp [taken]

theorem length_carved : (carved block pad rounded).length =
    1 + ((if pad ≠ 0 then 1 else 0) + (if block.size - pad - rounded ≠ 0 then 1 else 0)) := by
  simp only [carved]
  split_ifs <;> simp

theorem Laid.carve (h : Laid (front ++ block :: back) size) (hfree : block.used = false)
    (hroom : pad + rounded ≤ block.size) (hpos : 0 < rounded) :
    Laid (front ++ carved block pad rounded ++ back) size := by
  have htiles : Tiles Block.offset Block.size 0 (front ++ [block] ++ back) size := by
    simpa using h.tiles
  obtain ⟨hfront, hback⟩ := isChain_cut.mp h.spaced
  have hfront' := (isChain_append.mp hfront).1
  have hback' := (isChain_cons.mp hback).2
  refine ⟨htiles.replace fun m n hmn => ?_, ?_⟩
  · simp only [tiles_cons, tiles_nil] at hmn
    simp only [carved]
    split_ifs <;> simp only [nil_append, cons_append, tiles_cons, tiles_nil] <;> omega
  · -- the used block of the run stands next to anything, its free blocks in the place of the old one
    simp only [carved, append_assoc, cons_append]
    rw [← append_assoc]
    refine isChain_cut.mpr ⟨isChain_concat_used ?_ rfl, isChain_cons_used ?_ rfl⟩
    · split_ifs
      · exact isChain_concat_congr (b := block) rfl hfront
      · simpa using hfront'
    · split_ifs
      · exact isChain_cons_congr (b := block) hfree.symm hback
      · exact hback'

end Carve

/-! ### Release -/

section Join

variable {front back : List Block} {block : Block} {size : ℕ}

def joined (a b : Block) : Block := { a with size := a.size + b.size }

theorem joinNext_eq (index : ℕ) :
    joinNext blocks index = mergeNext Block.used joined blocks index := by
  unfold joinNext mergeNext
  cases blocks[index]? <;> cases blocks[index + 1]? <;> rfl

theorem joinPrevious_eq (index : ℕ) :
    joinPrevious blocks index = mergePrevious Block.used joined blocks index := by
  cases index with
  | zero => rfl
  | succ index =>
    simp only [joinPrevious, mergePrevious]
    cases blocks[index]? <;> cases blocks[index + 1]? <;> rfl

theorem tiles_join {a b : Block} (h : Tiles Block.offset Block.size 0 (front ++ a :: b :: back) size) :
    Tiles Block.offset Block.size 0 (front ++ joined a b :: back) size := by
  have hcut : Tiles Block.offset Block.size 0 (front ++ [a, b] ++ back) size := by simpa using h
  have hjoined : Tiles Block.offset Block.size 0
      (front ++ [joined a b] ++ back) size := by
    refine hcut.replace fun m n hmn => ?_
    simp only [tiles_cons, tiles_nil, joined] at hmn ⊢
    omega
  simpa using hjoined

theorem Laid.release (h : Laid (front ++ block :: back) size) :
    let freed := (front ++ block :: back).set front.length { block with used := false }
    let merged := joinPrevious (joinNext freed front.length) front.length
    Laid merged size ∧ merged.length ≤ (front ++ block :: back).length ∧
      usedBlocks merged = usedBlocks front ++ usedBlocks back := by
  intro freed merged
  obtain ⟨hfront, hback⟩ := isChain_cut.mp h.spaced
  have hfreed : freed = front ++ { block with used := false } :: back := by
    simp [freed, set_append_right]
  have hcut : Tiles Block.offset Block.size 0 (front ++ [block] ++ back) size := by
    simpa using h.tiles
  have hmarked : Tiles Block.offset Block.size 0
      (front ++ [{ block with used := false }] ++ back) size := hcut.replace fun m n hmn => hmn
  obtain ⟨htiles, hspaced, hshort, hused⟩ := merge_spec joined
    (P := (Tiles Block.offset Block.size 0 · size)) (fun _ _ => rfl) tiles_join
    (by simpa using hmarked) rfl (isChain_append.mp hfront).1 (isChain_cons.mp hback).2
  rw [← hfreed, ← joinNext_eq, ← joinPrevious_eq] at htiles hspaced hshort hused
  exact ⟨⟨htiles, hspaced⟩, hshort.trans_eq length_set, hused⟩

end Join

end OpenRFS.DmaArena
