import OpenRFS.Region.Coalesced

/-!
# Giving a block back

A block that is given back is merged with the free blocks on its two sides, the one
behind it first. What else a table is required to keep is a parameter `P`: it is
enough that joining two neighbours keeps it.

On the side of the holders, every allocation stands for one block in use, at the
block's start. Handing a block out adds an allocation there, giving it back removes
that allocation and no other.
-/

namespace OpenRFS.Region

open List

variable {α β κ : Type*}

section Merge

variable {used : β → Bool} {join : β → β → β} {P : List β → Prop}
variable {front back : List β} {block : β}

def mergeNext (used : β → Bool) (join : β → β → β) (bs : List β) (index : ℕ) : List β :=
  match bs[index]?, bs[index + 1]? with
  | some block, some next =>
    if used next then bs else (bs.set index (join block next)).eraseIdx (index + 1)
  | _, _ => bs

/-- The block at an index is taken in by the one before it, if that is free. -/
def mergePrevious (used : β → Bool) (join : β → β → β) (bs : List β) : ℕ → List β
  | 0 => bs
  | index + 1 =>
    match bs[index]?, bs[index + 1]? with
    | some previous, some block =>
      if used previous then bs else (bs.set index (join previous block)).eraseIdx (index + 1)
    | _, _ => bs

theorem mergeNext_cons (next : β) :
    mergeNext used join (front ++ block :: next :: back) front.length =
      if used next then front ++ block :: next :: back else front ++ join block next :: back := by
  obtain ⟨hget, hnext⟩ := getElem?_cut front back block next
  simp only [mergeNext, hget, hnext, eraseIdx_set_cut]

theorem mergePrevious_concat (previous : β) :
    mergePrevious used join (front ++ previous :: block :: back) (front.length + 1) =
      if used previous then front ++ previous :: block :: back
      else front ++ join previous block :: back := by
  obtain ⟨hget, hnext⟩ := getElem?_cut front back previous block
  simp only [mergePrevious, hget, hnext, eraseIdx_set_cut]

variable (hused : ∀ a b, used (join a b) = used a)
  (hjoin : ∀ {front back a b}, P (front ++ a :: b :: back) → P (front ++ join a b :: back))
include hused hjoin

theorem mergeNext_spec (hP : P (front ++ block :: back)) (hfree : used block = false)
    (hback : back.IsChain (Spaced used)) :
    ∃ block' back', mergeNext used join (front ++ block :: back) front.length =
        front ++ block' :: back' ∧ used block' = false ∧ P (front ++ block' :: back') ∧
      (block' :: back').IsChain (Spaced used) ∧ back'.length ≤ back.length ∧
      taken used back' = taken used back := by
  cases back with
  | nil =>
    exact ⟨block, [], by simp [mergeNext], hfree, hP, isChain_singleton _, le_rfl, rfl⟩
  | cons next back =>
    rw [mergeNext_cons]
    cases hnext : used next with
    | true =>
      exact ⟨block, next :: back, rfl, hfree, hP,
        isChain_cons.mpr ⟨fun y hy => .inr (Option.some.inj hy ▸ hnext), hback⟩, le_rfl, rfl⟩
    | false =>
      have hsame : used (join block next) = used next := by rw [hused, hfree, hnext]
      exact ⟨join block next, back, rfl, hsame.trans hnext, hjoin hP,
        isChain_cons_congr hsame hback, Nat.le_succ _, (taken_cons_of_free hnext _).symm⟩

theorem mergePrevious_spec (hP : P (front ++ block :: back)) (hfree : used block = false)
    (hfront : front.IsChain (Spaced used)) (hback : (block :: back).IsChain (Spaced used)) :
    let merged := mergePrevious used join (front ++ block :: back) front.length
    P merged ∧ merged.IsChain (Spaced used) ∧ merged.length ≤ (front ++ block :: back).length ∧
      taken used merged = taken used front ++ taken used back := by
  rcases eq_nil_or_concat' front with rfl | ⟨front, previous, rfl⟩
  · exact ⟨hP, hback, le_rfl, taken_cons_of_free hfree back⟩
  · rw [append_assoc, singleton_append] at *
    rw [length_append, length_singleton, mergePrevious_concat]
    cases hprevious : used previous with
    | true =>
      refine ⟨hP, isChain_cut.mpr ⟨hfront, isChain_cons_used hback hprevious⟩, le_rfl, ?_⟩
      simp [taken_cons_of_used hprevious, taken_cons_of_free hfree]
    | false =>
      have hsame : used (join previous block) = used block := by rw [hused, hprevious, hfree]
      refine ⟨hjoin hP, isChain_cut.mpr ⟨isChain_concat_congr (hused previous block) hfront,
        isChain_cons_congr hsame hback⟩, by simp, ?_⟩
      simp [taken_cons_of_free, hprevious, hsame.trans hfree]

variable (join) in
/-- A block that became free and was merged with its neighbours leaves a coalesced
table that is not longer, and no other block in use is touched. -/
theorem merge_spec (hP : P (front ++ block :: back)) (hfree : used block = false)
    (hfront : front.IsChain (Spaced used)) (hback : back.IsChain (Spaced used)) :
    let merged := mergePrevious used join
      (mergeNext used join (front ++ block :: back) front.length) front.length
    P merged ∧ merged.IsChain (Spaced used) ∧ merged.length ≤ (front ++ block :: back).length ∧
      taken used merged = taken used front ++ taken used back := by
  obtain ⟨block', back', hnext, hfree', hP', hback', hlength, htaken⟩ :=
    mergeNext_spec hused hjoin hP hfree hback
  obtain ⟨hmerged, hspaced, hshort, hkept⟩ :=
    mergePrevious_spec hused hjoin hP' hfree' hfront hback'
  rw [hnext]
  refine ⟨hmerged, hspaced, hshort.trans ?_, hkept.trans (by rw [htaken])⟩
  simpa using hlength

end Merge

section Holders

variable {place : α → κ} {start : β → κ} {fits : α → β → Prop}
variable {live : List α} {xs ys : List β} {a : α} {b : β}

/-- Every allocation has a block at its place that it fits, every block has an
allocation, and no two allocations have one place. -/
structure Holds (place : α → κ) (start : β → κ) (fits : α → β → Prop) (live : List α)
    (blocks : List β) : Prop where
  nodup : (live.map place).Nodup
  fits : ∀ a ∈ live, ∃ b ∈ blocks, place a = start b ∧ fits a b
  covers : ∀ b ∈ blocks, ∃ a ∈ live, place a = start b

theorem Holds.eq_nil {blocks : List β} (h : Holds place start fits live blocks)
    (hlive : live = []) : blocks = [] := by
  refine eq_nil_iff_forall_not_mem.mpr fun b hb => ?_
  obtain ⟨a, ha, -⟩ := h.covers b hb
  simp [hlive] at ha

theorem not_mem_of_nodup_starts (hstarts : ((xs ++ b :: ys).map start).Nodup) {c : β}
    (hc : c ∈ xs ++ ys) : start c ≠ start b := by
  have hnodup : (start b :: (xs ++ ys).map start).Nodup := by
    simpa [nodup_middle] using hstarts
  exact fun heq => (nodup_cons.mp hnodup).1 (heq ▸ mem_map_of_mem hc)

theorem Holds.cons (h : Holds place start fits live (xs ++ ys))
    (hstarts : ((xs ++ b :: ys).map start).Nodup) (hplace : place a = start b) (hfits : fits a b) :
    Holds place start fits (a :: live) (xs ++ b :: ys) := by
  have hmem : ∀ c, c ∈ xs ++ b :: ys ↔ c = b ∨ c ∈ xs ++ ys := by
    simp only [mem_append, mem_cons]
    tauto
  refine ⟨nodup_cons.mpr ⟨fun hin => ?_, h.nodup⟩,
    forall_mem_cons.mpr ⟨⟨b, (hmem b).mpr (.inl rfl), hplace, hfits⟩, fun a' ha' => ?_⟩,
    fun c hc => ?_⟩
  · obtain ⟨a', ha', heq⟩ := mem_map.mp hin
    obtain ⟨c, hc, hp, -⟩ := h.fits a' ha'
    exact not_mem_of_nodup_starts hstarts hc (hp.symm.trans (heq.trans hplace))
  · obtain ⟨c, hc, hfit⟩ := h.fits a' ha'
    exact ⟨c, (hmem c).mpr (.inr hc), hfit⟩
  · rcases (hmem c).mp hc with rfl | hc
    · exact ⟨a, mem_cons_self, hplace⟩
    · obtain ⟨a', ha', hp⟩ := h.covers c hc
      exact ⟨a', mem_cons_of_mem _ ha', hp⟩

theorem Holds.filter [BEq κ] [LawfulBEq κ] (h : Holds place start fits live (xs ++ b :: ys))
    (hstarts : ((xs ++ b :: ys).map start).Nodup) :
    Holds place start fits (live.filter (place · != start b)) (xs ++ ys) := by
  have hmem : ∀ c, c ∈ xs ++ b :: ys ↔ c = b ∨ c ∈ xs ++ ys := by
    simp only [mem_append, mem_cons]
    tauto
  refine ⟨h.nodup.sublist (filter_sublist.map _), fun a ha => ?_, fun c hc => ?_⟩
  · obtain ⟨ha, hne⟩ := mem_filter.mp ha
    obtain ⟨c, hc, hp, hfit⟩ := h.fits a ha
    rcases (hmem c).mp hc with rfl | hc
    · simp [hp] at hne
    · exact ⟨c, hc, hp, hfit⟩
  · obtain ⟨a, ha, hp⟩ := h.covers c ((hmem c).mpr (.inr hc))
    refine ⟨a, mem_filter.mpr ⟨ha, ?_⟩, hp⟩
    rw [bne_iff_ne, hp]
    exact not_mem_of_nodup_starts hstarts hc

end Holders

end OpenRFS.Region
