import OpenRFS.Heap.Table
import OpenRFS.Region.Merge

/-!
# What the edits of the block table do

An edit happens at one block, so its effect is stated for a table cut there, as
`front ++ block :: back`. Each edit keeps the table valid, and its effect on the
used blocks is one block more, one block less or none at all: splitting and
merging free blocks does not move the blocks that are handed out.
-/

namespace OpenRFS.Heap

open Region List Block

variable {table : List Block}

/-! ### Searches -/

theorem exists_cut_of_findIdx? {p : Block → Bool} {index : ℕ} (h : table.findIdx? p = some index) :
    ∃ front block back, table = front ++ block :: back ∧ front.length = index ∧ p block := by
  obtain ⟨hlt, hp, _⟩ := findIdx?_eq_some_iff_getElem.mp h
  refine ⟨table.take index, table[index], table.drop (index + 1), ?_, ?_, hp⟩
  · rw [← drop_eq_getElem_cons, take_append_drop]
  · exact length_take_of_le hlt.le

theorem findFit_cut {size index : ℕ} (h : findFit table size = some index) :
    ∃ front block back, table = front ++ block :: back ∧ front.length = index ∧
      block.used = false ∧ size ≤ block.size := by
  obtain ⟨front, block, back, htable, hindex, hp⟩ := exists_cut_of_findIdx? h
  simp only [Bool.and_eq_true, Bool.not_eq_true', decide_eq_true_eq] at hp
  exact ⟨front, block, back, htable, hindex, hp.1, hp.2⟩

theorem lt_of_findFit_eq_none {size : ℕ} (h : findFit table size = none) {block : Block}
    (hmem : block ∈ table) (hfree : block.used = false) : block.size < size := by
  have := findIdx?_eq_none_iff.mp h block hmem
  simpa [hfree] using this

theorem blockIndexForOffset_eq_none {offset : ℕ} :
    blockIndexForOffset table offset = none ↔ ∀ block ∈ table, block.offset ≠ offset := by
  simp [blockIndexForOffset, findIdx?_eq_none_iff]

/-! ### Layout -/

theorem Laid.replace {front ys back : List Block} {committed : ℕ}
    (h : Laid (front ++ ys ++ back) committed) (ys' : List Block)
    (htiles : ∀ m n, Tiles offset size m ys n → Tiles offset size m ys' n)
    (haligned : ∀ b ∈ ys', heapAlignment ∣ b.size) : Laid (front ++ ys' ++ back) committed := by
  obtain ⟨hfront, hback⟩ := forall_mem_append.mp h.aligned
  exact ⟨h.tiles.replace htiles, forall_mem_append.mpr
    ⟨forall_mem_append.mpr ⟨(forall_mem_append.mp hfront).1, haligned⟩, hback⟩⟩

/-! ### Growth -/

/-- The last block may be extended. -/
theorem TableValid.extendLast {front : List Block} {block : Block} {committed growth : ℕ}
    (h : TableValid (front ++ [block]) committed) (hdvd : heapAlignment ∣ growth) :
    TableValid (front ++ [{ block with size := block.size + growth }]) (committed + growth) := by
  obtain ⟨m, hfront, hlast⟩ := tiles_append.mp h.tiles
  simp only [tiles_cons, tiles_nil] at hlast
  refine ⟨⟨tiles_append.mpr ⟨m, hfront, ?_⟩,
    forall_mem_append.mpr ⟨(forall_mem_append.mp h.aligned).1, forall_mem_singleton.mpr ?_⟩⟩,
    isChain_concat_congr (b := block) rfl h.coalesced, by simpa using h.bounded⟩
  · simp only [tiles_cons, tiles_nil]
    omega
  · exact Nat.dvd_add (h.aligned block (by simp)) hdvd

/-- A free block may be appended behind a used one, if the table has room. -/
theorem TableValid.appendFree {committed : ℕ} (h : TableValid table committed) (growth : ℕ)
    (hlast : ∀ b ∈ table.getLast?, b.used) (hroom : table.length < heapMaxBlocks)
    (hpos : 0 < growth) (hdvd : heapAlignment ∣ growth) :
    TableValid (table ++ [{ offset := committed, size := growth, used := false }])
      (committed + growth) := by
  exact ⟨⟨tiles_append.mpr ⟨committed, h.tiles, by simpa using hpos⟩,
    forall_mem_append.mpr ⟨h.aligned, forall_mem_singleton.mpr hdvd⟩⟩,
    isChain_append.mpr ⟨h.coalesced, isChain_singleton _,
      fun x hx _ _ => .inl (hlast x hx)⟩, by simpa [Nat.succ_le_iff] using hroom⟩

/-! ### Splitting -/

section Split

variable {front back : List Block} {block : Block} {size committed : ℕ}

theorem splitBlock_cut : splitBlock (front ++ block :: back) front.length size =
    if heapAlignment ≤ block.size - size then
      if (front ++ block :: back).length = heapMaxBlocks then none
      else some (front ++ { block with size := size, used := true } ::
        { offset := block.offset + size, size := block.size - size, used := false } :: back)
    else some (front ++ { block with used := true } :: back) := by
  have hget : (front ++ block :: back)[front.length]? = some block := by simp
  have hdrop : (front ++ block :: back).drop (front.length + 1) = back := by simp
  simp only [splitBlock, hget, take_left, hdrop, set_append_right _ _ le_rfl,
    Nat.sub_self, set_cons_zero]

theorem splitBlock_spec (hvalid : TableValid (front ++ block :: back) committed)
    (hfree : block.used = false) (hsize : size ≤ block.size) (hpos : 0 < size)
    (hdvd : heapAlignment ∣ size)
    (h : splitBlock (front ++ block :: back) front.length size = some table) :
    TableValid table committed ∧ ∃ block', block'.offset = block.offset ∧ size ≤ block'.size ∧
      table[front.length]? = some block' ∧
      taken used table = taken used front ++ block' :: taken used back := by
  have hdvdBlock := hvalid.aligned block (by simp)
  have hlaid : Laid (front ++ [block] ++ back) committed := by simpa using hvalid.toLaid
  obtain ⟨hfront, hback⟩ := isChain_cut.mp hvalid.coalesced
  have hfront' := (isChain_append.mp hfront).1
  rw [splitBlock_cut] at h
  split_ifs at h with hrem hfull
  · cases h
    have hrempos : 0 < block.size - size := lt_of_lt_of_le (by decide) hrem
    refine ⟨⟨?_, ?_, ?_⟩, { block with size := size, used := true }, rfl, le_rfl, by simp, by simp⟩
    · have := hlaid.replace [{ block with size := size, used := true },
        { offset := block.offset + size, size := block.size - size, used := false }] (by
          intro m n hmn
          simp only [tiles_cons, tiles_nil] at hmn ⊢
          omega) (by simpa using ⟨hdvd, Nat.dvd_sub hdvdBlock hdvd⟩)
      simpa using this
    · exact isChain_cut.mpr ⟨isChain_concat_used hfront' rfl,
        isChain_cons_used (isChain_cons_congr hfree.symm hback) rfl⟩
    · have hbounded := hvalid.bounded
      simp only [length_append, length_cons] at hbounded hfull ⊢
      omega
  · cases h
    -- sizes are multiples of the alignment, so a short remainder is none at all
    have heq : block.size = size := by
      obtain ⟨k, hk⟩ := Nat.dvd_sub hdvdBlock hdvd
      rcases Nat.eq_zero_or_pos k with hk0 | hk0
      · rw [hk0] at hk
        omega
      · exact absurd (hk ▸ Nat.le_mul_of_pos_right _ hk0) hrem
    refine ⟨⟨?_, ?_, ?_⟩, { block with used := true }, rfl, heq.ge, by simp, by simp⟩
    · have := hlaid.replace [{ block with used := true }] (fun m n hmn => hmn)
        (by simpa using hdvdBlock)
      simpa using this
    · exact isChain_cut.mpr ⟨isChain_concat_used hfront' rfl,
        isChain_cons_used (isChain_cons.mp hback).2 rfl⟩
    · simpa using hvalid.bounded

end Split

/-! ### Merging -/

section Merge

variable {front back : List Block} {block : Block} {committed : ℕ}

def joined (a b : Block) : Block := { a with size := a.size + b.size }

theorem mergeFreeNeighbours_eq (index : ℕ) :
    mergeFreeNeighbours table index =
      mergePrevious used joined (mergeNext used joined table index) index := by
  have hnext : absorbNext table index = mergeNext used joined table index := by
    unfold absorbNext mergeNext
    cases table[index]? <;> cases table[index + 1]? <;> rfl
  rw [mergeFreeNeighbours, hnext]
  generalize mergeNext used joined table index = table
  cases index with
  | zero => rfl
  | succ index =>
    simp only [absorbPrevious, mergePrevious]
    cases table[index]? <;> cases table[index + 1]? <;> rfl

theorem Laid.join {a b : Block} (h : Laid (front ++ a :: b :: back) committed) :
    Laid (front ++ joined a b :: back) committed := by
  have hlaid : Laid (front ++ [a, b] ++ back) committed := by simpa using h
  have := hlaid.replace [joined a b]
    (by
      intro m n hmn
      simp only [tiles_cons, tiles_nil, joined] at hmn ⊢
      omega)
    (by simpa [joined] using Nat.dvd_add (h.aligned a (by simp)) (h.aligned b (by simp)))
  simpa using this

/-- Freeing a block and merging it with its neighbours keeps the table valid; the
used blocks lose that block and no other. -/
theorem mergeFreeNeighbours_spec (hvalid : TableValid (front ++ block :: back) committed) :
    TableValid (mergeFreeNeighbours (front ++ { block with used := false } :: back) front.length)
      committed ∧
    taken used (mergeFreeNeighbours (front ++ { block with used := false } :: back) front.length) =
      taken used front ++ taken used back := by
  obtain ⟨hfront, hback⟩ := isChain_cut.mp hvalid.coalesced
  have hlaid : Laid (front ++ [block] ++ back) committed := by simpa using hvalid.toLaid
  have hfreed : Laid (front ++ { block with used := false } :: back) committed := by
    have := hlaid.replace [{ block with used := false }] (fun m n hmn => hmn)
      (by simpa using hvalid.aligned block (by simp))
    simpa using this
  obtain ⟨hmerged, hspaced, hshort, hused⟩ := merge_spec joined (P := (Laid · committed))
    (fun _ _ => rfl) Laid.join hfreed rfl (isChain_append.mp hfront).1
    (isChain_cons.mp hback).2
  rw [← mergeFreeNeighbours_eq] at hmerged hspaced hshort hused
  exact ⟨⟨hmerged, hspaced, hshort.trans (by simpa using hvalid.bounded)⟩, hused⟩

end Merge

end OpenRFS.Heap
