import OpenRFS.Volume.Operations

/-!
# Subtrees and the frame of an operation

`under d` lists the nodes at and below the path `d`, with their contents and in
their order. An operation touches one path or two; `Frame ps s s'` says that the
stores `s` and `s'` differ at the paths `ps` only, so that every subtree in which
none of these paths lies is the same in both. Each mutation is described by its
frame and by the nodes at the paths it touches.
-/

namespace OpenRFS.Volume

open Codec List

namespace Store

variable {s s' t : Store} {p q d : Path} {n : Node} {f g : File} {ps qs : List Path}

def under (s : Store) (d : Path) : List (Path × Node) :=
  s.nodes.filter fun e => decide (d <+: e.1)

/-- The two stores differ at the paths `ps` only. -/
structure Frame (ps : List Path) (s s' : Store) : Prop where
  get? : ∀ q, q ∉ ps → s'.get? q = s.get? q
  under : ∀ d, (∀ p ∈ ps, ¬ d <+: p) → s'.under d = s.under d

theorem Frame.refl (s : Store) : Frame ps s s :=
  ⟨fun _ _ => rfl, fun _ _ => rfl⟩

theorem Frame.trans (h : Frame ps s s') (h' : Frame qs s' t) : Frame (ps ++ qs) s t where
  get? q hq := by
    rw [mem_append, not_or] at hq
    rw [h'.get? q hq.2, h.get? q hq.1]
  under d hd := by
    rw [forall_mem_append] at hd
    rw [h'.under d hd.2, h.under d hd.1]

theorem Frame.mono (h : Frame ps s s') (hps : ∀ p ∈ ps, p ∈ qs) : Frame qs s s' where
  get? q hq := h.get? q fun hp => hq (hps q hp)
  under d hd := h.under d fun p hp => hd p (hps p hp)

theorem Frame.step (h : Frame ps s s') (h' : Frame ps s' t) : Frame ps s t :=
  (h.trans h').mono fun _ hp => (mem_append.mp hp).elim id id

theorem frame_insert {hvalid : pathStatus p = .ok} {hnew : s.get? p = none}
    {hparent : s.parentReady p} : Frame [p] s (s.insert p n hvalid hnew hparent) where
  get? q hq := by
    rw [get?_insert, if_neg (by simpa using hq)]
  under d hd := by
    simp [under, insert, hd]

theorem frame_erase {hleaf : s.childless p} : Frame [p] s (s.erase p hleaf) where
  get? q hq := by
    rw [get?_erase, if_neg (by simpa using hq)]
  under d hd := by
    simp only [under, erase, filter_filter]
    apply filter_congr
    intro e _
    by_cases he : e.1 = p
    · simp [he, hd]
    · simp [he]

theorem filter_map_of_hidden {α : Type} {φ : α → α} {P : α → Bool} {l : List α}
    (h : ∀ e, φ e = e ∨ P (φ e) = false ∧ P e = false) : (l.map φ).filter P = l.filter P := by
  induction l with
  | nil => rfl
  | cons e l ih =>
    rw [map_cons, filter_cons, filter_cons, ih]
    rcases h e with he | ⟨hφ, he⟩
    · rw [he]
    · simp [hφ, he]

theorem frame_setFile {hfile : s.get? p = some (.file g)} : Frame [p] s (s.setFile p f hfile) where
  get? q hq := by
    rw [get?_setFile, if_neg (by simpa using hq)]
  under d hd := by
    refine filter_map_of_hidden fun e => ?_
    by_cases he : e.1 = p
    · right
      simp [he, hd]
    · left
      simp [he]

theorem frame_move {hfile : s.get? p = some (.file g)} {hvalid : pathStatus q = .ok}
    {hnew : s.get? q = none} {hparent : s.parentReady q} :
    Frame [p, q] s (s.move p q hfile hvalid hnew hparent) where
  get? r hr := by
    simp only [mem_cons, not_mem_nil, or_false, not_or] at hr
    rw [get?_move, if_neg hr.2, if_neg hr.1]
  under d hd := by
    simp only [forall_mem_cons, not_mem_nil, false_imp_iff, implies_true, and_true] at hd
    refine filter_map_of_hidden fun e => ?_
    by_cases he : e.1 = p
    · right
      simp [he, hd]
    · left
      simp [he]

theorem checkPath_of_valid {α : Type} {x : Except FsStatus α} (hp : pathStatus p = .ok) :
    checkPath p x = x :=
  if_pos hp

theorem checkPath_eq_ok {α : Type} {x : Except FsStatus α} {a : α} :
    checkPath p x = .ok a ↔ pathStatus p = .ok ∧ x = .ok a := by
  rw [checkPath]
  split_ifs with h <;> simp [h]

theorem stat_of_get? (h : s.get? p = some n) : s.stat p = .ok n.stat := by
  rw [stat, checkPath_of_valid (valid_of_get? h), h]

theorem stat_of_none (hp : pathStatus p = .ok) (h : s.get? p = none) :
    s.stat p = .error .notFound := by
  rw [stat, checkPath_of_valid hp, h]

theorem stat_of_invalid (hp : pathStatus p ≠ .ok) : s.stat p = .error (pathStatus p) :=
  if_neg hp

theorem openFile_of_file (h : s.get? p = some (.file f)) : s.openFile p = .ok () := by
  rw [openFile, checkPath_of_valid (valid_of_get? h), h]

theorem read_of_file (h : s.get? p = some (.file f)) (off n : ℕ) :
    s.read p off n = .ok (slice f.bytes off n) := by
  rw [read, h]

theorem add_spec (h : s.add p n = .ok s') :
    s.get? p = none ∧ Frame [p] s s' ∧ s'.get? p = some n := by
  obtain ⟨hp, h⟩ := checkPath_eq_ok.mp h
  split_ifs at h with hnew hready
  cases h
  exact ⟨hnew, frame_insert, by simp⟩

theorem add_isOk (hp : pathStatus p = .ok) (hnew : s.get? p = none) (hready : s.parentReady p) :
    ∃ s', s.add p n = .ok s' := by
  refine ⟨s.insert p n hp hnew hready, ?_⟩
  rw [add, checkPath_of_valid hp, dif_pos hnew, dif_pos ⟨hp, hready⟩]

theorem write_spec (h : s.get? p = some (.file f)) (off : ℕ) (bytes : Bytes) :
    ∃ s', s.write p off bytes = .ok s' ∧ Frame [p] s s' ∧
      s'.get? p = some (.file (f.write off bytes)) := by
  refine ⟨s.setFile p (f.write off bytes) h, ?_, frame_setFile, by simp⟩
  rw [write]
  split
  · rename_i g hg
    obtain rfl : f = g := by simpa [h] using hg
    rfl
  · rename_i hne
    exact absurd h (hne f)

theorem unlink_spec (h : s.get? p = some (.file f)) :
    ∃ s', s.unlink p = .ok s' ∧ Frame [p] s s' ∧ s'.get? p = none := by
  refine ⟨s.erase p (childless_of_file h), ?_, frame_erase, by simp⟩
  rw [unlink, checkPath_of_valid (valid_of_get? h)]
  split <;> rename_i hg
  · cases h.symm.trans hg
  · cases h.symm.trans hg
  · rfl

theorem unlink_of_none (hp : pathStatus p = .ok) (h : s.get? p = none) :
    s.unlink p = .error .notFound := by
  rw [unlink, checkPath_of_valid hp]
  split <;> rename_i hg
  · rfl
  · cases h.symm.trans hg
  · cases h.symm.trans hg

theorem rename_spec (h : s.get? p = some (.file f)) (hq : pathStatus q = .ok)
    (hnew : s.get? q = none) (hready : s.parentReady q) :
    ∃ s', s.rename p q = .ok s' ∧ Frame [p, q] s s' ∧ s'.get? p = none ∧
      s'.get? q = some (.file f) := by
  have hne : p ≠ q := by
    rintro rfl
    cases h.symm.trans hnew
  refine ⟨s.move p q h hq hnew hready, ?_, frame_move, by simp [hne], by simp⟩
  rw [rename, checkPath_of_valid (valid_of_get? h), checkPath_of_valid hq]
  split <;> rename_i hg
  · cases h.symm.trans hg
  · cases h.symm.trans hg
  · cases h.symm.trans hg
    rw [dif_pos hnew, dif_pos ⟨hq, hready⟩]

end Store

end OpenRFS.Volume
