import Mathlib

/-!
# A picture, a screen and the damage between them

A picture is drawn in one place and shown in another one. What was drawn since the
last time it was shown is remembered as damage, and showing copies the damage only.
As long as the damage covers every place at which the two differ, this is as good as
showing everything: `Covers` is that relation, and it is all that drawing has to keep.
-/

namespace OpenRFS.Refresh

variable {κ α : Type*} {picture picture' screen screen' : κ → α} {damage damage' : Set κ}

/-- Every place at which the screen and the picture differ is damaged. -/
def Covers (picture screen : κ → α) (damage : Set κ) : Prop :=
  ∀ k, screen k ≠ picture k → k ∈ damage

theorem covers_of_eq (h : ∀ k, screen k = picture k) (damage : Set κ) :
    Covers picture screen damage := fun k hk => absurd (h k) hk

/-- Drawing keeps the damage a cover if it adds the places it draws at. -/
theorem Covers.draw (h : Covers picture screen damage) (drawn : Set κ)
    (hkept : ∀ k ∉ drawn, picture' k = picture k) (hdamage : damage ∪ drawn ⊆ damage') :
    Covers picture' screen damage' := by
  intro k hk
  by_cases hdrawn : k ∈ drawn
  · exact hdamage (.inr hdrawn)
  · rw [hkept k hdrawn] at hk
    exact hdamage (.inl (h k hk))

/-- Showing the damage shows the whole picture. -/
theorem Covers.shown (h : Covers picture screen damage)
    (hshown : ∀ k ∈ damage, screen' k = picture k) (hkept : ∀ k ∉ damage, screen' k = screen k)
    (k : κ) : screen' k = picture k := by
  by_cases hk : k ∈ damage
  · exact hshown k hk
  · rw [hkept k hk]
    by_contra hne
    exact hk (h k hne)

/-! ### What a loop of stores writes

A loop of stores is described by the cells it may write and by what is known of the
values it leaves there. Cells outside are as before. The description of a loop is
put together from that of its steps, whatever order they are taken in.
-/

/-- The cells in `S` were written with values as `R` says, and no other cell. -/
structure Wrote (S : Set κ) (R : κ → α → Prop) (m m' : κ → α) : Prop where
  written : ∀ k ∈ S, R k (m' k)
  kept : ∀ k ∉ S, m' k = m k

variable {ι : Type*} {R : κ → α → Prop}

theorem wrote_empty (m : κ → α) : Wrote ∅ R m m :=
  ⟨fun _ hk => hk.elim, fun _ _ => rfl⟩

/-- One store. -/
theorem wrote_update [DecidableEq κ] (m : κ → α) {key : κ} {value : α} (h : R key value) :
    Wrote {key} R m (Function.update m key value) := by
  refine ⟨fun k hk => ?_, fun k hk => Function.update_of_ne hk _ _⟩
  rw [Set.mem_singleton_iff.mp hk, Function.update_self]
  exact h

/-- Two runs of stores, one after the other. -/
theorem Wrote.trans {S T : Set κ} {m m' m'' : κ → α} (h : Wrote S R m m') (h' : Wrote T R m' m'') :
    Wrote (S ∪ T) R m m'' := by
  refine ⟨fun k hk => ?_, fun k hk => ?_⟩
  · by_cases hT : k ∈ T
    · exact h'.written k hT
    · rw [h'.kept k hT]
      exact h.written k (hk.resolve_right hT)
  · rw [Set.mem_union, not_or] at hk
    rw [h'.kept k hk.2, h.kept k hk.1]

/-- A loop of runs of stores. -/
theorem Wrote.foldl {S : ι → Set κ} {f : (κ → α) → ι → κ → α} {l : List ι}
    (h : ∀ i ∈ l, ∀ m, Wrote (S i) R m (f m i)) (m : κ → α) :
    Wrote {k | ∃ i ∈ l, k ∈ S i} R m (l.foldl f m) := by
  induction l generalizing m with
  | nil => simpa using wrote_empty m
  | cons i l ih =>
    have hrest := (h i List.mem_cons_self m).trans
      (ih (fun j hj => h j (List.mem_cons_of_mem _ hj)) (f m i))
    have hcells : {k | ∃ j ∈ i :: l, k ∈ S j} = S i ∪ {k | ∃ j ∈ l, k ∈ S j} := by
      ext k
      simp
    rw [hcells]
    exact hrest

/-- A loop that reads one cell and stores it in another moves the old values, if no cell is
stored twice or read after it was stored. -/
theorem foldl_move [DecidableEq κ] {source target : ι → κ} {l : List ι}
    (h : l.Pairwise fun i j => target i ≠ target j ∧ target i ≠ source j) (m : κ → α) :
    let m' := l.foldl (fun m i => Function.update m (target i) (m (source i))) m
    (∀ i ∈ l, m' (target i) = m (source i)) ∧ ∀ k, (∀ i ∈ l, k ≠ target i) → m' k = m k := by
  induction l generalizing m with
  | nil => simp
  | cons i l ih =>
    obtain ⟨hfirst, hrest⟩ := List.pairwise_cons.mp h
    obtain ⟨hmoved, hkept⟩ := ih hrest (Function.update m (target i) (m (source i)))
    rw [List.foldl_cons]
    constructor
    · intro j hj
      rcases List.mem_cons.mp hj with rfl | hj
      · rw [hkept _ fun i hi => (hfirst i hi).1, Function.update_self]
      · rw [hmoved j hj, Function.update_of_ne (hfirst j hj).2.symm]
    · intro k hk
      rw [hkept k fun j hj => hk j (List.mem_cons_of_mem _ hj),
        Function.update_of_ne (hk i List.mem_cons_self)]

end OpenRFS.Refresh
