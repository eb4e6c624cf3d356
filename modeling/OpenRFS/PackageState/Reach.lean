import OpenRFS.PackageState.Database

/-!
# The reachability loop

`reachLoop` marks what is reachable in a graph of positions. A position joins the queue
when it is marked, so the positions that are not marked and the queue together get
smaller with every pass.
-/

namespace OpenRFS.PackageState

open List

/-- A position is reachable from the roots over the edges of the graph. -/
inductive Reaches (graph : List (List ℕ)) (roots : List Bool) : ℕ → Prop
  | root {i : ℕ} (h : roots.getD i false = true) : Reaches graph roots i
  | provider {i j : ℕ} (h : Reaches graph roots i) (hj : j ∈ graph.getD i []) :
      Reaches graph roots j

section Mark

variable {providers queue : List ℕ} {flags : List Bool}

theorem getD_set_true (flags : List Bool) {i : ℕ} (hi : i < flags.length) (j : ℕ) :
    (flags.set i true).getD j false ↔ flags.getD j false ∨ j = i := by
  rcases eq_or_ne j i with rfl | hne
  · simp [getD_eq_getElem?_getD, hi]
  · simp [getD_eq_getElem?_getD, getElem?_set_ne hne.symm, hne]

/-- What `reachProviders` does: it marks the providers, and those that were not marked
join the queue. -/
structure Marks (providers : List ℕ) (flags : List Bool) (queue : List ℕ)
    (flags' : List Bool) (queue' : List ℕ) : Prop where
  length : flags'.length = flags.length
  marked : ∀ j, flags'.getD j false = true ↔ flags.getD j false = true ∨ j ∈ providers
  queued : ∀ j, j ∈ queue' ↔ j ∈ queue ∨ j ∈ providers ∧ flags.getD j false = false
  measure : flags'.count false + queue'.length = flags.count false + queue.length

theorem reachProviders_marks (hrange : ∀ j ∈ providers, j < flags.length) (queue : List ℕ) :
    Marks providers flags queue (reachProviders providers flags queue).1
      (reachProviders providers flags queue).2 := by
  induction providers generalizing flags queue with
  | nil => exact ⟨rfl, by simp [reachProviders], by simp [reachProviders], rfl⟩
  | cons provider providers ih =>
    have hprovider := hrange provider mem_cons_self
    have hrest := fun j hj => hrange j (mem_cons_of_mem _ hj)
    rw [reachProviders]
    split_ifs with hmarked
    · have h := ih hrest queue
      refine ⟨h.length, fun j => ?_, fun j => ?_, h.measure⟩
      · rw [h.marked, mem_cons]
        constructor
        · exact fun hj => hj.imp_right .inr
        · rintro (hj | rfl | hj)
          exacts [.inl hj, .inl hmarked, .inr hj]
      · rw [h.queued, mem_cons]
        constructor
        · exact fun hj => hj.imp_right fun hj => ⟨.inr hj.1, hj.2⟩
        · rintro (hj | ⟨rfl | hj, hflag⟩)
          · exact .inl hj
          · rw [hmarked] at hflag
            cases hflag
          · exact .inr ⟨hj, hflag⟩
    · have hfalse : flags.getD provider false = false := by simpa using hmarked
      have hset : ∀ j ∈ providers, j < (flags.set provider true).length := fun j hj => by
        rw [length_set]
        exact hrest j hj
      have h := ih hset (queue ++ [provider])
      refine ⟨h.length.trans length_set, fun j => ?_, fun j => ?_, ?_⟩
      · rw [h.marked, getD_set_true flags hprovider, mem_cons, or_assoc]
      · rw [h.queued, mem_append, mem_singleton, mem_cons]
        have hgetD : (flags.set provider true).getD j false = false ↔
            flags.getD j false = false ∧ j ≠ provider := by
          rw [← Bool.not_eq_true, getD_set_true flags hprovider, not_or, Bool.not_eq_true]
        rw [hgetD]
        constructor
        · rintro ((hj | rfl) | ⟨hj, hflag, -⟩)
          exacts [.inl hj, .inr ⟨.inl rfl, hfalse⟩, .inr ⟨.inr hj, hflag⟩]
        · rintro (hj | ⟨hj, hflag⟩)
          · exact .inl (.inl hj)
          · rcases eq_or_ne j provider with rfl | hne
            · exact .inl (.inr rfl)
            · exact .inr ⟨hj.resolve_left hne, hflag, hne⟩
      · have hcount : (flags.set provider true).count false + 1 = flags.count false := by
          have hget : flags[provider] = false := by
            simpa [getD_eq_getElem?_getD, hprovider] using hfalse
          have hpos : 0 < flags.count false := count_pos_iff.mpr (hget ▸ getElem_mem hprovider)
          rw [count_set hprovider, hget]
          simp
          omega
        rw [h.measure, length_append, length_singleton]
        omega

end Mark

section Explore

variable {graph : List (List ℕ)} {roots flags : List Bool} {queue : List ℕ}

/-- What the loop keeps: what is marked is reachable, and a marked position is waiting in
the queue or its providers are marked too. -/
structure Explores (graph : List (List ℕ)) (roots flags : List Bool) (queue : List ℕ) : Prop where
  range : ∀ i, ∀ j ∈ graph.getD i [], j < flags.length
  sound : ∀ j, flags.getD j false = true → Reaches graph roots j
  roots : ∀ j, roots.getD j false = true → flags.getD j false = true
  queued : ∀ j ∈ queue, flags.getD j false = true
  closed : ∀ i, flags.getD i false = true → i ∈ queue ∨
    ∀ j ∈ graph.getD i [], flags.getD j false = true

theorem Explores.pass {owner : ℕ} (h : Explores graph roots flags (owner :: queue)) :
    Explores graph roots (reachProviders (graph.getD owner []) flags queue).1
      (reachProviders (graph.getD owner []) flags queue).2 := by
  have hmarks := reachProviders_marks (h.range owner) queue
  have howner := h.sound owner (h.queued owner mem_cons_self)
  refine ⟨fun i j hj => hmarks.length ▸ h.range i j hj, fun j hj => ?_, fun j hj => ?_,
    fun j hj => ?_, fun i hi => ?_⟩
  · rcases (hmarks.marked j).mp hj with hj | hj
    · exact h.sound j hj
    · exact howner.provider hj
  · exact (hmarks.marked j).mpr (.inl (h.roots j hj))
  · refine (hmarks.marked j).mpr ?_
    rcases (hmarks.queued j).mp hj with hj | hj
    · exact .inl (h.queued j (mem_cons_of_mem _ hj))
    · exact .inr hj.1
  · rw [hmarks.queued]
    by_cases hold : flags.getD i false
    · rcases h.closed i hold with hqueue | hproviders
      · rcases mem_cons.mp hqueue with rfl | hqueue
        · exact .inr fun j hj => (hmarks.marked j).mpr (.inr hj)
        · exact .inl (.inl hqueue)
      · exact .inr fun j hj => (hmarks.marked j).mpr (.inl (hproviders j hj))
    · have hnew := ((hmarks.marked i).mp hi).resolve_left hold
      exact .inl (.inr ⟨hnew, by simpa using hold⟩)

theorem Explores.done (h : Explores graph roots flags []) (j : ℕ) :
    flags.getD j false ↔ Reaches graph roots j := by
  refine ⟨h.sound j, fun hj => ?_⟩
  induction hj with
  | root hroot => exact h.roots _ hroot
  | provider _ hj ih => exact (h.closed _ ih).resolve_left not_mem_nil _ hj

theorem length_reachLoop (graph : List (List ℕ)) (passes : ℕ) (queue : List ℕ)
    (flags : List Bool) : (reachLoop graph passes queue flags).length = flags.length := by
  have hproviders (providers : List ℕ) (flags : List Bool) (queue : List ℕ) :
      (reachProviders providers flags queue).1.length = flags.length := by
    induction providers generalizing flags queue with
    | nil => rfl
    | cons provider providers ih =>
      rw [reachProviders]
      split_ifs
      · exact ih flags queue
      · rw [ih, length_set]
  induction passes generalizing queue flags with
  | zero => cases queue <;> rfl
  | succ passes ih =>
    cases queue with
    | nil => rfl
    | cons owner queue =>
      rw [reachLoop, ih]
      exact hproviders _ flags queue

/-- With enough passes the loop marks exactly what is reachable. -/
theorem reachLoop_eq_true_iff {passes : ℕ} (h : Explores graph roots flags queue)
    (hpasses : flags.count false + queue.length ≤ passes) (j : ℕ) :
    (reachLoop graph passes queue flags).getD j false ↔ Reaches graph roots j := by
  induction passes generalizing flags queue with
  | zero =>
    have hempty : queue = [] := length_eq_zero_iff.mp (by omega)
    subst hempty
    rw [reachLoop]
    exact h.done j
  | succ passes ih =>
    cases queue with
    | nil =>
      exact h.done j
    | cons owner queue =>
      have hmarks := reachProviders_marks (h.range owner) queue
      refine ih h.pass ?_
      have hmeasure := hmarks.measure
      rw [length_cons] at hpasses
      omega

theorem count_roots (roots : List Bool) :
    roots.count false + ((List.range roots.length).filter fun index =>
      roots.getD index false).length = roots.length := by
  have hroots : roots = (List.range roots.length).map fun i => roots.getD i false := by
    refine ext_getElem (by simp) fun i hi _ => ?_
    simp [getD_eq_getElem?_getD, hi]
  have hsplit := length_eq_countP_add_countP (fun i => roots.getD i false)
    (l := List.range roots.length)
  have hcount : roots.count false = (List.range roots.length).countP fun i =>
      decide ¬ roots.getD i false := by
    conv_lhs => rw [hroots, count_eq_countP, countP_map]
    refine countP_congr fun i _ => ?_
    simp
  rw [length_range] at hsplit
  rw [← countP_eq_length_filter, hcount]
  omega

theorem reachLoop_roots (hrange : ∀ i, ∀ j ∈ graph.getD i [], j < roots.length) (j : ℕ) :
    (reachLoop graph (roots.length + 1)
      ((List.range roots.length).filter fun index => roots.getD index false) roots).getD j false =
      true ↔ Reaches graph roots j := by
  have hqueued : ∀ i, roots.getD i false → i ∈ (List.range roots.length).filter fun index =>
      roots.getD index false := by
    intro i hi
    refine mem_filter.mpr ⟨mem_range.mpr ?_, hi⟩
    by_contra hout
    simp [getD_eq_getElem?_getD, getElem?_eq_none (le_of_not_gt hout)] at hi
  refine reachLoop_eq_true_iff ⟨hrange, fun j hj => .root hj, fun j hj => hj,
    fun j hj => (mem_filter.mp hj).2, fun i hi => .inl (hqueued i hi)⟩ ?_ j
  exact (count_roots roots).le.trans (Nat.le_succ _)

end Explore

end OpenRFS.PackageState
