import Mathlib

/-!
# Sorted lists of words

Words are lists over an ordered alphabet, in lexicographic order. A word `p` and the
words that continue it are neighbours in this order: whatever lies between `p` and a
continuation of `p` continues `p` as well, with a letter that is not greater. So in an
ascending list the first word behind `p` that does not continue it with a letter below
`b` continues it with `b`, if any word of the list does.
-/

namespace OpenRFS.Codec

open List

variable {α : Type} [LT α] {p q rest : List α} {b : α}

/-- What lies between a word and a continuation of it continues it too. -/
theorem exists_continuation (h : p < q) (h' : ¬ p ++ b :: rest < q) :
    ∃ c s, q = p ++ c :: s ∧ ¬ b < c := by
  induction p generalizing q with
  | nil =>
    cases q with
    | nil => exact absurd h (by simp)
    | cons c s => exact ⟨c, s, rfl, fun hbc => h' (List.Lex.rel hbc)⟩
  | cons a p ih =>
    cases h with
    | rel hac => exact absurd (List.Lex.rel hac) h'
    | cons htail =>
      obtain ⟨c, s, rfl, hbc⟩ := ih htail fun h => h' (List.Lex.cons h)
      exact ⟨c, s, rfl, hbc⟩

theorem lt_append_cons (p : List α) (b : α) (rest : List α) : p < p ++ b :: rest := by
  induction p with
  | nil => exact List.Lex.nil
  | cons a p ih => exact List.Lex.cons ih

/-- The first word behind `p` that does not continue it with a letter below `b`. -/
theorem head?_dropWhile_continuation [Std.Asymm (α := α) (· < ·)]
    [Std.Trichotomous (α := α) (· < ·)] {l : List (List α)} {below : List α → Bool}
    (hbelow : ∀ q, below q ↔ ∃ c s, q = p ++ c :: s ∧ c < b)
    (hsorted : (p :: l).Pairwise (· < ·)) (hmem : p ++ b :: rest ∈ l) :
    ∃ s, (l.dropWhile below).head? = some (p ++ b :: s) := by
  have hirrefl : ∀ a : α, ¬ a < a := fun a h => Std.Asymm.asymm a a h h
  induction l with
  | nil => simp at hmem
  | cons x l ih =>
    obtain ⟨hp, hx, hl⟩ : (∀ y ∈ x :: l, p < y) ∧ (∀ y ∈ l, x < y) ∧ l.Pairwise (· < ·) := by
      simpa only [pairwise_cons] using hsorted
    by_cases hfx : below x
    · -- words that continue `p` with a smaller letter are skipped
      rw [dropWhile_cons_of_pos hfx]
      rcases mem_cons.mp hmem with rfl | hmem
      · obtain ⟨c, s, heq, hc⟩ := (hbelow _).mp hfx
        obtain ⟨rfl, -⟩ := List.cons.inj (append_cancel_left heq)
        exact absurd hc (hirrefl _)
      · exact ih (pairwise_cons.mpr ⟨fun y hy => hp y (mem_cons_of_mem _ hy), hl⟩) hmem
    · rw [dropWhile_cons_of_neg hfx, head?_cons]
      rcases mem_cons.mp hmem with heq | hmem
      · exact ⟨rest, congrArg some heq.symm⟩
      · have hbetween : ¬ p ++ b :: rest < x :=
          fun h => Std.Asymm.asymm x (p ++ b :: rest) (hx _ hmem) h
        obtain ⟨c, s, rfl, hbc⟩ := exists_continuation (hp x mem_cons_self) hbetween
        have hcb : ¬ c < b := fun h => hfx ((hbelow _).mpr ⟨c, s, rfl, h⟩)
        exact ⟨s, by rw [Std.Trichotomous.trichotomous c b hcb hbc]⟩

end OpenRFS.Codec
