import Mathlib

/-!
# Tables sorted by a key

A list of records that is strictly increasing in a key, with a binary search for the
place of a key, insertion there and removal. The search is the loop over an interval,
as a program has it; `lowerBound_spec` says what the place is, and everything else
follows from that.
-/

namespace OpenRFS.Sorted

open List

variable {α : Type} (key : α → ℕ)

/-- The records are strictly increasing in their keys. -/
def Increasing (l : List α) : Prop := l.Pairwise fun a b => key a < key b

def keyAt (l : List α) (i : ℕ) : ℕ := ((l[i]?).map key).getD 0

/-- The search between `low` and `high` for the first record whose key is at least `x`. -/
def search (l : List α) (x low high : ℕ) : ℕ :=
  if low < high then
    let middle := low + (high - low) / 2
    if keyAt key l middle < x then search l x (middle + 1) high else search l x low middle
  else low
  termination_by high - low

def lowerBound (l : List α) (x : ℕ) : ℕ := search key l x 0 l.length

def lookup (l : List α) (x : ℕ) : Option α :=
  match l[lowerBound key l x]? with
  | some a => if key a = x then some a else none
  | none => none

def insertAt (l : List α) (i : ℕ) (a : α) : List α := l.take i ++ a :: l.drop i

/-- The list without the record at a place. -/
def removeAt (l : List α) (i : ℕ) : List α := l.take i ++ l.drop (i + 1)

variable {key} {l : List α} {x : ℕ} {a : α}

theorem keyAt_of_lt {i : ℕ} (h : i < l.length) : keyAt key l i = key l[i] := by
  simp [keyAt, h]

theorem Increasing.key_lt (h : Increasing key l) {i j : ℕ} (hij : i < j) (hj : j < l.length) :
    key l[i] < key l[j] :=
  pairwise_iff_getElem.mp h i j (hij.trans hj) hj hij

/-- The records before `low` have keys below `x` and those from `high` on do not. -/
structure Around (key : α → ℕ) (l : List α) (x low high : ℕ) : Prop where
  below : ∀ i (h : i < l.length), i < low → key l[i] < x
  above : ∀ i (h : i < l.length), high ≤ i → x ≤ key l[i]
  low_le : low ≤ high
  high_le : high ≤ l.length

theorem insertAt_perm (l : List α) (i : ℕ) (a : α) : (insertAt l i a).Perm (a :: l) := by
  have hmiddle : (insertAt l i a).Perm (a :: (l.take i ++ l.drop i)) := perm_middle
  rwa [take_append_drop] at hmiddle

variable (hl : Increasing key l)
include hl

theorem search_spec {low high : ℕ} (h : Around key l x low high) :
    Around key l x (search key l x low high) (search key l x low high) := by
  induction hn : high - low using Nat.strong_induction_on generalizing low high with
  | _ n ih =>
    rw [search]
    by_cases hlt : low < high
    · have hhigh := h.high_le
      have hmid : low + (high - low) / 2 < l.length := by omega
      dsimp only
      rw [keyAt_of_lt hmid]
      split_ifs with hkey
      · refine ih _ (by omega) ⟨fun i hi hlow => ?_, h.above, by omega, hhigh⟩ rfl
        rcases lt_or_eq_of_le (Nat.le_of_lt_succ hlow) with hbefore | rfl
        · exact (hl.key_lt hbefore hmid).trans hkey
        · exact hkey
      · refine ih _ (by omega) ⟨h.below, fun i hi hge => ?_, by omega, by omega⟩ rfl
        rcases lt_or_eq_of_le hge with hafter | rfl
        · exact (not_lt.mp hkey).trans (hl.key_lt hafter hi).le
        · exact not_lt.mp hkey
    · rw [if_neg hlt]
      have heq : low = high := le_antisymm h.low_le (not_lt.mp hlt)
      exact ⟨h.below, heq ▸ h.above, le_rfl, heq ▸ h.high_le⟩

theorem lowerBound_spec (x : ℕ) : Around key l x (lowerBound key l x) (lowerBound key l x) :=
  search_spec hl ⟨nofun, fun _ hi hge => absurd hi (not_lt.mpr hge), Nat.zero_le _, le_rfl⟩

/-! ### The parts around a key -/

theorem key_lt_of_mem_take {b : α} (hb : b ∈ l.take (lowerBound key l x)) : key b < x := by
  obtain ⟨i, hi, rfl⟩ := mem_iff_getElem.mp hb
  rw [length_take] at hi
  rw [getElem_take]
  exact (lowerBound_spec hl x).below i (by omega) (by omega)

theorem le_key_of_mem_drop {b : α} (hb : b ∈ l.drop (lowerBound key l x)) : x ≤ key b := by
  obtain ⟨i, hi, rfl⟩ := mem_iff_getElem.mp hb
  rw [length_drop] at hi
  rw [getElem_drop]
  exact (lowerBound_spec hl x).above _ (by omega) (by omega)

/-- A record stands at the place of its key. -/
theorem getElem?_lowerBound (ha : a ∈ l) : l[lowerBound key l (key a)]? = some a := by
  obtain ⟨i, hi, rfl⟩ := mem_iff_getElem.mp ha
  have haround := lowerBound_spec hl (key l[i])
  -- the record stands neither before its place nor behind it
  have hplace : lowerBound key l (key l[i]) = i := by
    rcases lt_trichotomy i (lowerBound key l (key l[i])) with hlt | heq | hgt
    · exact absurd (haround.below i hi hlt) (lt_irrefl _)
    · exact heq.symm
    · have hless := hl.key_lt hgt hi
      have hge := haround.above (lowerBound key l (key l[i])) (hgt.trans hi) le_rfl
      omega
  rw [hplace, getElem?_eq_getElem hi]

theorem lookup_eq_some : lookup key l x = some a ↔ a ∈ l ∧ key a = x := by
  unfold lookup
  constructor
  · intro h
    cases hat : l[lowerBound key l x]? with
    | none =>
      rw [hat] at h
      cases h
    | some b =>
      simp only [hat] at h
      split_ifs at h with hkey
      cases h
      exact ⟨mem_of_getElem? hat, hkey⟩
  · rintro ⟨hmem, rfl⟩
    rw [getElem?_lowerBound hl hmem]
    exact if_pos rfl

theorem lookup_eq_none : lookup key l x = none ↔ ∀ a ∈ l, key a ≠ x := by
  constructor
  · intro h a ha hkey
    have hsome := (lookup_eq_some hl).mpr ⟨ha, hkey⟩
    rw [h] at hsome
    cases hsome
  · intro h
    cases hlook : lookup key l x with
    | none => rfl
    | some a =>
      obtain ⟨ha, hkey⟩ := (lookup_eq_some hl).mp hlook
      exact absurd hkey (h a ha)

/-- Two records with one key are the same. -/
theorem Increasing.eq_of_key {b : α} (ha : a ∈ l) (hb : b ∈ l) (h : key a = key b) : a = b := by
  have hfirst := (lookup_eq_some hl).mpr ⟨ha, rfl⟩
  have hsecond := (lookup_eq_some hl).mpr ⟨hb, h.symm⟩
  exact Option.some.inj (hfirst.symm.trans hsecond)

/-- Two tables with the same records are the same. -/
theorem Increasing.ext {l' : List α} (hl' : Increasing key l')
    (h : ∀ a, a ∈ l ↔ a ∈ l') : l = l' := by
  have : Std.Irrefl fun a b : α => key a < key b := ⟨fun a => lt_irrefl (key a)⟩
  have : Std.Antisymm fun a b : α => key a < key b := ⟨fun a b h h' => absurd h' h.asymm⟩
  exact List.Pairwise.eq_of_mem_iff hl hl' h

/-- A record has a key of its own. -/
theorem Increasing.key_ne_of_perm {l' : List α} (h : (a :: l').Perm l)
    {b : α} (hb : b ∈ l') : key b ≠ key a := by
  have hne : l.Pairwise fun a b => key a ≠ key b := hl.imp fun hlt => hlt.ne
  have hcons := (h.pairwise_iff fun hab => hab.symm).mpr hne
  exact ((pairwise_cons.mp hcons).1 b hb).symm

/-! ### Insertion and removal -/

theorem Increasing.insertAt (hnew : ∀ b ∈ l, key b ≠ key a) :
    Increasing key (insertAt l (lowerBound key l (key a)) a) := by
  have hafter : ∀ b ∈ l.drop (lowerBound key l (key a)), key a < key b := fun b hb =>
    Nat.lt_of_le_of_ne (le_key_of_mem_drop hl hb) (hnew b (mem_of_mem_drop hb)).symm
  refine pairwise_append.mpr ⟨hl.sublist (take_sublist _ _), ?_, fun b hb => ?_⟩
  · exact pairwise_cons.mpr ⟨hafter, hl.sublist (drop_sublist _ _)⟩
  · have hbefore := key_lt_of_mem_take hl hb
    exact forall_mem_cons.mpr ⟨hbefore, fun c hc => hbefore.trans (hafter c hc)⟩

/-- The record with a key, taken out of its table. -/
theorem cons_removeAt_perm (ha : a ∈ l) : (a :: removeAt l (lowerBound key l (key a))).Perm l := by
  obtain ⟨hi, hat⟩ := List.getElem?_eq_some_iff.mp (getElem?_lowerBound hl ha)
  have hsplit : l.take (lowerBound key l (key a)) ++ a :: l.drop (lowerBound key l (key a) + 1) =
      l := by
    nth_rewrite 2 [← hat]
    rw [getElem_cons_drop, take_append_drop]
  exact perm_middle.symm.trans (.of_eq hsplit)

theorem Increasing.removeAt (i : ℕ) : Increasing key (removeAt l i) := by
  have hsub : (Sorted.removeAt l i).Sublist (l.take i ++ l.drop i) :=
    (List.Sublist.refl _).append (drop_sublist_drop_left l (Nat.le_succ i))
  rw [take_append_drop] at hsub
  exact hl.sublist hsub

end OpenRFS.Sorted
