import OpenRFS.Codec.LittleEndian

/-!
# The store of a volume

The files and directories of a volume, as the virtual filesystem shows them. A
path is the list of its components; as a text it has a separator between two of
them, so that its length is `textLength`. A `Store` lists its nodes in the order
in which a directory is read out. Its fields say that no path occurs twice, that
every path is one the filesystem accepts, and that the parent of every node is a
directory; the top directory is not a node of its own.

Four edits change a store: a node is inserted, an entry without children is
erased, a file is given a new content, and a file is moved. Each comes with its
effect on `get?`.
-/

namespace OpenRFS.Volume

open List

inductive FsStatus
  | ok | absent | corrupt | io | invalidArgument | notMounted | alreadyMounted | readOnly
  | notFound | entryExists | notDirectory | isDirectory | notEmpty | busy | noHandles
  | staleHandle | access | range | full | directoryFull | name | path | writeback | reset
  | nameTooLong | symlinkLoop
  deriving DecidableEq, Repr

abbrev Path := List Bytes

def maxPath : ℕ := 127

def maxDepth : ℕ := 16

def textLength (p : Path) : ℕ :=
  (p.map List.length).sum + (p.length - 1)

def componentValid (c : Bytes) : Bool :=
  c ≠ [] && c.all (fun b => b ≠ 0x2f && b ≠ 0x5c && b ≠ 0x3a) && c ≠ [0x2e] && c ≠ [0x2e, 0x2e]

def pathStatus (p : Path) : FsStatus :=
  if maxPath ≤ textLength p then .nameTooLong
  else if p = [] ∨ maxDepth < p.length ∨ ¬ p.all componentValid then .path
  else .ok

theorem pathStatus_eq_ok {p : Path} : pathStatus p = .ok ↔
    textLength p < maxPath ∧ p ≠ [] ∧ p.length ≤ maxDepth ∧ ∀ c ∈ p, componentValid c := by
  rw [pathStatus]
  split_ifs with hlong hshape
  · simp [not_lt.mpr hlong]
  · simp only [false_iff, not_and]
    intro _ hne hdepth hall
    exact hshape.elim hne fun h => h.elim (fun h => absurd hdepth (not_le.mpr h))
      fun h => h (all_eq_true.mpr hall)
  · simp only [not_or, not_not] at hshape
    exact iff_of_true rfl ⟨not_le.mp hlong, hshape.1, not_lt.mp hshape.2.1,
      all_eq_true.mp hshape.2.2⟩

theorem pathStatus_ne_notFound (p : Path) : pathStatus p ≠ .notFound := by
  rw [pathStatus]
  split_ifs <;> decide

theorem textLength_concat {p : Path} (hp : p ≠ []) (c : Bytes) :
    textLength (p ++ [c]) = textLength p + 1 + c.length := by
  have hpos := length_pos_of_ne_nil hp
  simp only [textLength, map_append, sum_append, map_cons, map_nil,
    sum_cons, sum_nil, length_append, length_cons, length_nil]
  omega

structure File where
  mode : UInt16
  links : UInt16
  objectId : ℕ
  bytes : Bytes
  deriving DecidableEq

inductive Node
  | directory
  | file (f : File)
  deriving DecidableEq

structure Store where
  nodes : List (Path × Node)
  /-- The identity of the next file. -/
  nextObject : ℕ
  nodup : (nodes.map Prod.fst).Nodup
  valid : ∀ e ∈ nodes, pathStatus e.1 = .ok
  parent : ∀ e ∈ nodes, 1 < e.1.length → (e.1.dropLast, Node.directory) ∈ nodes

namespace Store

/-- The store of a volume without any entry. -/
def empty : Store where
  nodes := []
  nextObject := 1
  nodup := List.nodup_nil
  valid := by simp
  parent := by simp

def get? (s : Store) (p : Path) : Option Node :=
  s.nodes.lookup p

variable {s : Store} {p q : Path} {n m : Node} {f g : File}

theorem lookup_eq_some_iff {l : List (Path × Node)} (hl : (l.map Prod.fst).Nodup) :
    l.lookup p = some n ↔ (p, n) ∈ l := by
  induction l with
  | nil => simp
  | cons e l ih =>
    obtain ⟨q, m⟩ := e
    rw [map_cons, nodup_cons] at hl
    rw [lookup_cons, mem_cons, ← ih hl.2]
    by_cases h : p = q
    · subst h
      have hnot : l.lookup p ≠ some n := by
        rw [Ne, ih hl.2]
        exact fun h => hl.1 (mem_map.mpr ⟨_, h, rfl⟩)
      simp [hnot, eq_comm]
    · have hbeq : (p == q) = false := by simpa using h
      simp [hbeq, h]

theorem get?_eq_some : s.get? p = some n ↔ (p, n) ∈ s.nodes :=
  lookup_eq_some_iff s.nodup

theorem get?_eq_none : s.get? p = none ↔ p ∉ s.nodes.map Prod.fst := by
  rw [Option.eq_none_iff_forall_ne_some]
  simp only [Ne, get?_eq_some, mem_map, Prod.exists, exists_and_right, exists_eq_right, not_exists]

theorem valid_of_get? (h : s.get? p = some n) : pathStatus p = .ok :=
  s.valid _ (get?_eq_some.mp h)

theorem get?_parent {c : Bytes} (h : s.get? (p ++ [c]) = some n) (hp : p ≠ []) :
    s.get? p = some .directory := by
  have hlen := length_pos_of_ne_nil hp
  have := s.parent _ (get?_eq_some.mp h) (by simp; omega)
  rw [dropLast_concat] at this
  exact get?_eq_some.mpr this

/-- The directory that a new entry at `p` would stand in is there. -/
def parentReady (s : Store) (p : Path) : Prop :=
  1 < p.length → s.get? p.dropLast = some .directory

instance : Decidable (s.parentReady p) :=
  inferInstanceAs (Decidable (_ → _))

def childless (s : Store) (p : Path) : Prop :=
  ∀ e ∈ s.nodes, 1 < e.1.length → e.1.dropLast ≠ p

theorem childless_of_file (h : s.get? p = some (.file f)) : s.childless p := by
  rintro e he hlen rfl
  have := get?_eq_some.mpr (s.parent e he hlen)
  rw [h] at this
  cases this

def insert (s : Store) (p : Path) (n : Node) (hvalid : pathStatus p = .ok)
    (hnew : s.get? p = none) (hparent : s.parentReady p) : Store where
  nodes := s.nodes ++ [(p, n)]
  nextObject := s.nextObject + 1
  nodup := by
    rw [List.map_append, List.map_singleton, List.nodup_append]
    refine ⟨s.nodup, List.nodup_singleton p, ?_⟩
    rintro a ha b hb rfl
    rw [List.mem_singleton.mp hb] at ha
    exact get?_eq_none.mp hnew ha
  valid := by
    rw [List.forall_mem_append]
    exact ⟨s.valid, List.forall_mem_singleton.mpr hvalid⟩
  parent := by
    rw [List.forall_mem_append, List.forall_mem_singleton]
    refine ⟨fun e he hlen => List.mem_append_left _ (s.parent e he hlen), fun hlen => ?_⟩
    exact List.mem_append_left _ (get?_eq_some.mp (hparent hlen))

/-- The store without an entry that has no children. -/
def erase (s : Store) (p : Path) (hleaf : s.childless p) : Store where
  nodes := s.nodes.filter fun e => e.1 ≠ p
  nextObject := s.nextObject
  nodup := s.nodup.sublist (List.filter_sublist.map _)
  valid := fun e he => s.valid e (List.mem_of_mem_filter he)
  parent := by
    intro e he hlen
    have he := List.mem_of_mem_filter he
    rw [List.mem_filter]
    exact ⟨s.parent e he hlen, by simpa using hleaf e he hlen⟩

def setFile (s : Store) (p : Path) (f : File) (hfile : s.get? p = some (.file g)) : Store where
  nodes := s.nodes.map fun e => if e.1 = p then (p, .file f) else e
  nextObject := s.nextObject
  nodup := by
    have : (s.nodes.map fun e => if e.1 = p then (p, Node.file f) else e).map Prod.fst =
        s.nodes.map Prod.fst := by
      rw [List.map_map]
      apply List.map_congr_left
      intro e _
      by_cases h : e.1 = p <;> simp [h]
    rw [this]
    exact s.nodup
  valid := by
    intro e he
    obtain ⟨a, ha, rfl⟩ := List.mem_map.mp he
    split_ifs with h
    · exact h ▸ s.valid a ha
    · exact s.valid a ha
  parent := by
    intro e he hlen
    obtain ⟨a, ha, rfl⟩ := List.mem_map.mp he
    have hpath : (if a.1 = p then (p, Node.file f) else a).1 = a.1 := by
      by_cases h : a.1 = p <;> simp [h]
    rw [hpath] at hlen ⊢
    refine List.mem_map.mpr ⟨_, s.parent a ha hlen, ?_⟩
    exact if_neg (childless_of_file hfile a ha hlen)

def move (s : Store) (p q : Path) (hfile : s.get? p = some (.file g))
    (hvalid : pathStatus q = .ok) (hnew : s.get? q = none) (hparent : s.parentReady q) :
    Store where
  nodes := s.nodes.map fun e => if e.1 = p then (q, e.2) else e
  nextObject := s.nextObject
  nodup := by
    have hkeys : (s.nodes.map fun e => if e.1 = p then (q, e.2) else e).map Prod.fst =
        (s.nodes.map Prod.fst).map fun k => if k = p then q else k := by
      rw [List.map_map, List.map_map]
      apply List.map_congr_left
      intro e _
      by_cases h : e.1 = p <;> simp [h]
    have hq := get?_eq_none.mp hnew
    rw [hkeys]
    refine List.Nodup.map_on (fun a ha b hb hab => ?_) s.nodup
    -- only `p` is sent to `q`, since `q` is no key of the store
    by_cases hap : a = p <;> by_cases hbp : b = p <;> simp only [hap, hbp, if_true, if_false] at hab
    · rw [hap, hbp]
    · exact absurd (hab ▸ hb) hq
    · exact absurd (hab ▸ ha) hq
    · exact hab
  valid := by
    intro e he
    obtain ⟨a, ha, rfl⟩ := List.mem_map.mp he
    split_ifs with h
    · exact hvalid
    · exact s.valid a ha
  parent := by
    intro e he hlen
    obtain ⟨a, ha, rfl⟩ := List.mem_map.mp he
    have hkept : ∀ d, (d, Node.directory) ∈ s.nodes →
        (d, Node.directory) ∈ s.nodes.map fun e => if e.1 = p then (q, e.2) else e := by
      intro d hd
      refine List.mem_map.mpr ⟨_, hd, if_neg ?_⟩
      rintro rfl
      rw [get?_eq_some.mpr hd] at hfile
      cases hfile
    split_ifs at hlen ⊢ with h
    · exact hkept _ (get?_eq_some.mp (hparent hlen))
    · exact hkept _ (s.parent a ha hlen)

@[simp] theorem get?_insert {hvalid : pathStatus p = .ok} {hnew : s.get? p = none}
    {hparent : s.parentReady p} (q : Path) :
    (s.insert p n hvalid hnew hparent).get? q = if q = p then some n else s.get? q := by
  ext m
  rw [get?_eq_some]
  simp only [insert, mem_append, mem_singleton, Prod.mk.injEq]
  split_ifs with h
  · subst h
    have : (q, m) ∉ s.nodes := fun hm => by simp [get?_eq_some.mpr hm] at hnew
    simp [this, eq_comm]
  · simp [h, get?_eq_some]

@[simp] theorem get?_erase {hleaf : s.childless p} (q : Path) :
    (s.erase p hleaf).get? q = if q = p then none else s.get? q := by
  ext m
  rw [get?_eq_some]
  simp only [erase, mem_filter]
  split_ifs with h
  · simp [h]
  · simp [h, get?_eq_some]

@[simp] theorem get?_setFile {hfile : s.get? p = some (.file g)} (q : Path) :
    (s.setFile p f hfile).get? q = if q = p then some (.file f) else s.get? q := by
  ext m
  rw [get?_eq_some]
  simp only [setFile, mem_map]
  split_ifs with h
  · subst h
    constructor
    · rintro ⟨e, _, he⟩
      split_ifs at he with h
      · rw [Prod.mk.injEq] at he
        rw [he.2]
      · exact absurd (congrArg Prod.fst he) h
    · intro hm
      refine ⟨_, get?_eq_some.mp hfile, ?_⟩
      rw [if_pos rfl, Option.some.inj hm]
  · rw [get?_eq_some]
    constructor
    · rintro ⟨e, he, heq⟩
      split_ifs at heq with hp
      · exact absurd (congrArg Prod.fst heq).symm h
      · exact heq ▸ he
    · exact fun hm => ⟨_, hm, if_neg h⟩

@[simp] theorem get?_move {hfile : s.get? p = some (.file g)} {hvalid : pathStatus q = .ok}
    {hnew : s.get? q = none} {hparent : s.parentReady q} (r : Path) :
    (s.move p q hfile hvalid hnew hparent).get? r =
      if r = q then some (.file g) else if r = p then none else s.get? r := by
  ext m
  rw [get?_eq_some]
  simp only [move, mem_map]
  have hmem := get?_eq_some.mp hfile
  split_ifs with hq hp
  · subst hq
    constructor
    · rintro ⟨⟨k, n⟩, he, heq⟩
      split_ifs at heq with h
      · simp only at h
        rw [h, ← get?_eq_some, hfile] at he
        exact he.trans (congrArg some (Prod.mk.inj heq).2)
      · rw [heq, ← get?_eq_some, hnew] at he
        cases he
    · intro hm
      exact ⟨_, hmem, by rw [if_pos rfl, Option.some.inj hm]⟩
  · subst hp
    simp only [iff_false, not_exists, not_and]
    intro e _ heq
    split_ifs at heq with h
    · exact hq (congrArg Prod.fst heq).symm
    · exact h (congrArg Prod.fst heq)
  · rw [get?_eq_some]
    constructor
    · rintro ⟨e, he, heq⟩
      split_ifs at heq with h
      · exact absurd (congrArg Prod.fst heq).symm hq
      · exact heq ▸ he
    · exact fun hm => ⟨_, hm, if_neg hp⟩

end Store

end OpenRFS.Volume
