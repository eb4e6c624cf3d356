import OpenRFS.Schedule.Rotation

/-!
# Open addressing

A table of cells, each of them empty, a tombstone or live with a key and a value.
`find` probes the cells from the place the key hashes to and stops at the key or at
the first empty cell; a new key goes to the first tombstone it met. A key is found as
long as no cell between its hash and its place is empty, and `Sound` says that of all
keys. Every change that fills a cell, or leaves a tombstone in it, keeps that.
-/

namespace OpenRFS.Probe

open Schedule Function

inductive Cell (κ ν : Type)
  | empty
  | tombstone
  | live (key : κ) (value : ν)

inductive Place (n : ℕ)
  | found (slot : Fin n)
  | vacant (slot : Fin n)
  | full

variable {κ ν : Type} {n : ℕ}

def scan [DecidableEq κ] (t : Fin n → Cell κ ν) (start : Fin n) (key : κ) (tombstone : Option (Fin n)) (probe : ℕ) :
    ℕ → Place n
  | 0 =>
    match tombstone with
    | some slot => .vacant slot
    | none => .full
  | left + 1 =>
    match t (behind start probe) with
    | .live k _ =>
      if k = key then .found (behind start probe)
      else scan t start key tombstone (probe + 1) left
    | .tombstone =>
      scan t start key (some (tombstone.getD (behind start probe))) (probe + 1) left
    | .empty => .vacant (tombstone.getD (behind start probe))

def find [DecidableEq κ] (hash : κ → Fin n) (t : Fin n → Cell κ ν) (key : κ) : Place n :=
  scan t (hash key) key none 0 n

/-- No cell between the start and a slot is empty. -/
def Reaches (t : Fin n → Cell κ ν) (start slot : Fin n) : Prop :=
  ∀ j < distance start slot, t (behind start j) ≠ .empty

structure Sound (hash : κ → Fin n) (t : Fin n → Cell κ ν) : Prop where
  reaches : ∀ {slot key value}, t slot = .live key value → Reaches t (hash key) slot
  unique : ∀ {slot slot' key value value'}, t slot = .live key value →
    t slot' = .live key value' → slot = slot'

structure Vacant (hash : κ → Fin n) (t : Fin n → Cell κ ν) (key : κ) (slot : Fin n) : Prop where
  free : ∀ k v, t slot ≠ .live k v
  absent : ∀ s v, t s ≠ .live key v
  reaches : Reaches t (hash key) slot

theorem distance_behind_self (i : Fin n) {k : ℕ} (h : k < n) : distance i (behind i k) = k := by
  have hi := i.isLt
  unfold distance behind
  dsimp only
  rcases lt_or_ge (i.val + k) n with hk | hk
  · rw [Nat.mod_eq_of_lt hk, Nat.mod_eq_sub_mod (by omega), Nat.mod_eq_of_lt (by omega)]
    omega
  · rw [Nat.mod_eq_sub_mod hk, Nat.mod_eq_of_lt (by omega : i.val + k - n < n),
      Nat.mod_eq_of_lt (by omega)]
    omega

/-- The cells already probed hold no end of the search, and the remembered tombstone is
one of them. -/
structure Probed (t : Fin n → Cell κ ν) (start : Fin n) (key : κ) (tombstone : Option (Fin n))
    (probe : ℕ) : Prop where
  passed : ∀ j < probe, t (behind start j) ≠ .empty ∧ ∀ v, t (behind start j) ≠ .live key v
  kept : ∀ slot, tombstone = some slot → ∃ j < probe, slot = behind start j ∧ t slot = .tombstone

variable {hash : κ → Fin n} {t : Fin n → Cell κ ν} {key : κ} {start : Fin n}
  {tombstone : Option (Fin n)} {probe : ℕ}

theorem Probed.next (h : Probed t start key tombstone probe)
    (hcell : t (behind start probe) ≠ .empty ∧ ∀ v, t (behind start probe) ≠ .live key v) :
    Probed t start key tombstone (probe + 1) where
  passed j hj := by
    rcases lt_or_eq_of_le (Nat.le_of_lt_succ hj) with hlt | rfl
    · exact h.passed j hlt
    · exact hcell
  kept slot hslot := by
    obtain ⟨j, hj, hrest⟩ := h.kept slot hslot
    exact ⟨j, hj.trans (Nat.lt_succ_self _), hrest⟩

/-- A tombstone is remembered if it is the first one. -/
theorem Probed.bury (h : Probed t start key tombstone probe)
    (hcell : t (behind start probe) = .tombstone) :
    Probed t start key (some (tombstone.getD (behind start probe))) (probe + 1) where
  passed := (h.next ⟨by simp [hcell], by simp [hcell]⟩).passed
  kept slot hslot := by
    cases tombstone with
    | none =>
      cases hslot
      exact ⟨probe, Nat.lt_succ_self _, rfl, hcell⟩
    | some first =>
      cases hslot
      exact (h.next ⟨by simp [hcell], by simp [hcell]⟩).kept _ rfl

/-- A key that was not met before an empty cell, or in the whole table, is not there. -/
theorem Probed.absent (hsound : Sound hash t) (h : Probed t (hash key) key tombstone probe)
    (hend : t (behind (hash key) probe) = .empty ∨ n ≤ probe) (s : Fin n) (v : ν) :
    t s ≠ .live key v := by
  intro hlive
  have hat := behind_distance (hash key) s
  have hlt := distance_lt (hash key) s
  rcases lt_trichotomy (distance (hash key) s) probe with hbefore | heq | hafter
  · exact (h.passed _ hbefore).2 v (by rw [hat, hlive])
  · rcases hend with hempty | hge
    · rw [← heq, hat, hlive] at hempty
      cases hempty
    · omega
  · rcases hend with hempty | hge
    · exact hsound.reaches hlive probe hafter hempty
    · omega

/-- The remembered tombstone is a place for the key. -/
theorem Probed.vacant (h : Probed t (hash key) key (some slot) probe) (hn : probe ≤ n)
    (habsent : ∀ s v, t s ≠ .live key v) : Vacant hash t key slot := by
  obtain ⟨j, hj, rfl, hcell⟩ := h.kept slot rfl
  refine ⟨by simp [hcell], habsent, fun i hi => ?_⟩
  rw [distance_behind_self _ (by omega)] at hi
  exact (h.passed i (by omega)).1

/-- What an answer of the search means. -/
def Answers (hash : κ → Fin n) (t : Fin n → Cell κ ν) (key : κ) : Place n → Prop
  | .found slot => ∃ v, t slot = .live key v
  | .vacant slot => Vacant hash t key slot
  | .full => ∀ s v, t s ≠ .live key v

theorem answers_scan [DecidableEq κ] (hsound : Sound hash t) (left : ℕ) (hn : probe + left = n)
    (h : Probed t (hash key) key tombstone probe) :
    Answers hash t key (scan t (hash key) key tombstone probe left) := by
  induction left generalizing probe tombstone with
  | zero =>
    have habsent := h.absent hsound (.inr (by omega))
    cases tombstone with
    | none => exact habsent
    | some slot => exact h.vacant (by omega) habsent
  | succ left ih =>
    rw [scan]
    cases hcell : t (behind (hash key) probe) with
    | live k v =>
      dsimp only
      by_cases hk : k = key
      · rw [if_pos hk]
        exact ⟨v, hk ▸ hcell⟩
      · rw [if_neg hk]
        refine ih (by omega) (h.next ⟨by simp [hcell], fun v' hv' => ?_⟩)
        rw [hcell] at hv'
        cases hv'
        exact hk rfl
    | tombstone => exact ih (by omega) (h.bury hcell)
    | empty =>
      have habsent := h.absent hsound (.inl hcell)
      cases tombstone with
      | none =>
        refine ⟨by simp [hcell], habsent, fun i hi => ?_⟩
        rw [Option.getD_none, distance_behind_self _ (by omega)] at hi
        exact (h.passed i hi).1
      | some slot => exact h.vacant (by omega) habsent

theorem answers_find [DecidableEq κ] (hsound : Sound hash t) (key : κ) : Answers hash t key (find hash t key) :=
  answers_scan hsound n (zero_add n)
    ⟨nofun, nofun⟩

/-! ### Changes of one cell -/

variable (h : Sound hash t)
include h

/-- Filling a cell keeps the others within reach. -/
theorem Sound.update {s : Fin n} {c : Cell κ ν} (hc : c ≠ .empty)
    (hnew : ∀ k v, c = .live k v → Reaches t (hash k) s ∧ ∀ s' v', t s' = .live k v' → s' = s) :
    Sound hash (Function.update t s c) where
  reaches := by
    intro slot k v hlive j hj
    by_cases hat : behind (hash k) j = s
    · rw [hat, update_self]
      exact hc
    · rw [update_of_ne hat]
      by_cases hslot : slot = s
      · subst hslot
        rw [update_self] at hlive
        exact (hnew k v hlive).1 j hj
      · rw [update_of_ne hslot] at hlive
        exact h.reaches hlive j hj
  unique := by
    intro slot slot' k v v' hlive hlive'
    rw [update_apply] at hlive hlive'
    split_ifs at hlive hlive' with hs hs' hs'
    · rw [hs, hs']
    · rw [hs, (hnew k v hlive).2 slot' v' hlive']
    · rw [hs', (hnew k v' hlive').2 slot v hlive]
    · exact h.unique hlive hlive'

theorem Sound.insert {s : Fin n} (hvacant : Vacant hash t key s) (v : ν) :
    Sound hash (Function.update t s (.live key v)) :=
  h.update (nofun) fun k _ hc => by
    cases hc
    exact ⟨hvacant.reaches, fun s' v' hlive => absurd hlive (hvacant.absent s' v')⟩

theorem Sound.assign {s : Fin n} {v : ν} (hlive : t s = .live key v) (v' : ν) :
    Sound hash (Function.update t s (.live key v')) :=
  h.update (nofun) fun k _ hc => by
    cases hc
    exact ⟨h.reaches hlive, fun s' _ hlive' => h.unique hlive' hlive⟩

theorem Sound.bury (s : Fin n) : Sound hash (Function.update t s .tombstone) :=
  h.update (nofun) nofun

omit h

theorem Sound.clear (hash : κ → Fin n) : Sound hash fun _ => (Cell.empty : Cell κ ν) :=
  ⟨nofun, nofun⟩

end OpenRFS.Probe
