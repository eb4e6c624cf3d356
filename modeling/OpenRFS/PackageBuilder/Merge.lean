import OpenRFS.PackageBuilder.Build
import OpenRFS.PackageManager.FileTables
import OpenRFS.PackageState.Reach

/-!
# What the builder merges and keeps

The new generation is made of the installed packages that the plan does not name and of
the planned ones. Of these it keeps what an explicit root needs.
-/

namespace OpenRFS.PackageBuilder

open Codec PackageState PackageManager List

variable {candidate : Candidate} {candidates : List Candidate}

section Select

variable {workspace : Workspace} {catalog : List Item}

theorem mem_of_leastCandidate (h : leastCandidate candidates = some candidate) :
    candidate ∈ candidates := by
  cases candidates with
  | nil => cases h
  | cons first rest =>
    cases h
    refine List.foldlRecOn (motive := fun least => least ∈ first :: rest) _ _
      mem_cons_self fun least hleast other hother => ?_
    split_ifs
    · exact mem_cons_of_mem _ hother
    · exact hleast

theorem mem_eraseP_source (hnodup : (candidates.map Candidate.source).Nodup)
    (hmem : candidate ∈ candidates) :
    (candidates.eraseP (·.source == candidate.source)).length + 1 = candidates.length ∧
      ∀ other ∈ candidates, other = candidate ∨
        other ∈ candidates.eraseP (·.source == candidate.source) := by
  obtain ⟨found, front, back, -, hfound, hsplit, herase⟩ :=
    exists_of_eraseP (p := (·.source == candidate.source)) hmem (beq_self_eq_true _)
  have heq : found = candidate := by
    refine inj_on_of_nodup_map hnodup ?_ hmem (beq_iff_eq.mp hfound)
    rw [hsplit]
    exact mem_append_right _ mem_cons_self
  rw [herase]
  refine ⟨by rw [hsplit]; simp [add_assoc], fun other hother => ?_⟩
  rw [hsplit, mem_append, mem_cons] at hother
  rcases hother with hfront | rfl | hback
  · exact .inr (mem_append_left _ hfront)
  · exact .inl heq
  · exact .inr (mem_append_right _ hback)

/-- The outputs are those of the candidates, in ascending order. -/
structure Merges (workspace : Workspace) (catalog : List Item) (candidates : List Candidate)
    (outputs : List Output) : Prop where
  sound : ∀ output ∈ outputs, ∃ candidate ∈ candidates, ∃ count,
    outputFor workspace catalog count candidate = .ok output
  complete : ∀ candidate ∈ candidates, ∃ output ∈ outputs, ∃ count,
    outputFor workspace catalog count candidate = .ok output
  ascending : (outputs.map (·.identifier)).IsChain (· < ·)

theorem identifier_of_outputFor {count : ℕ} {output : Output}
    (h : outputFor workspace catalog count candidate = .ok output) :
    output.identifier = candidate.identifier ∧ output.source = candidate.source := by
  cases candidate with
  | installed index package =>
    rw [outputFor] at h
    split at h
    · cases h
    · obtain ⟨dependencies, -, h⟩ := bind_eq_ok.mp h
      cases h
      exact ⟨rfl, rfl⟩
  | staged index package item =>
    obtain ⟨dependencies, -, h⟩ := bind_eq_ok.mp h
    cases h
    exact ⟨rfl, rfl⟩

theorem merges_selectLoop {outputs : ℕ} {previous : Option Bytes} {count : ℕ}
    {selected : List Output} (hnodup : (candidates.map Candidate.source).Nodup)
    (hlength : candidates.length = outputs)
    (h : selectLoop workspace catalog outputs candidates previous count = .ok selected) :
    Merges workspace catalog candidates selected ∧
      ∀ p, previous = some p → ∀ first ∈ selected.head?, p < first.identifier := by
  induction outputs generalizing candidates previous count selected with
  | zero =>
    cases h
    obtain rfl := length_eq_zero_iff.mp hlength
    exact ⟨⟨nofun, nofun, .nil⟩, nofun⟩
  | succ outputs ih =>
    rw [selectLoop] at h
    split at h
    · cases h
    · rename_i candidate hleast
      have hmem := mem_of_leastCandidate hleast
      obtain ⟨hshorter, hothers⟩ := mem_eraseP_source hnodup hmem
      split_ifs at h with hordered
      obtain ⟨output, houtput, h⟩ := bind_eq_ok.mp h
      obtain ⟨rest, hrest, h⟩ := bind_eq_ok.mp h
      cases h
      have hidentifier := (identifier_of_outputFor houtput).1
      obtain ⟨hmerges, hnext⟩ := ih
        (hnodup.sublist ((eraseP_sublist).map _)) (by omega) hrest
      refine ⟨⟨forall_mem_cons.mpr ⟨⟨candidate, hmem, count, houtput⟩, fun other hother => ?_⟩,
        fun other hother => ?_, ?_⟩, fun p hp first hfirst => ?_⟩
      · obtain ⟨c, hc, rest⟩ := hmerges.sound other hother
        exact ⟨c, mem_of_mem_eraseP hc, rest⟩
      · rcases hothers other hother with rfl | herased
        · exact ⟨output, mem_cons_self, count, houtput⟩
        · obtain ⟨o, ho, rest⟩ := hmerges.complete other herased
          exact ⟨o, mem_cons_of_mem _ ho, rest⟩
      · cases rest with
        | nil => exact .singleton _
        | cons first rest =>
          refine isChain_cons_cons.mpr ⟨?_, hmerges.ascending⟩
          show output.identifier < first.identifier
          rw [hidentifier]
          exact hnext _ rfl first rfl
      · cases hfirst
        subst hp
        simp only [Option.any_some, bne_iff_ne, ne_eq, not_not] at hordered
        rw [hidentifier]
        exact compareFields_eq_lt.mp hordered

end Select

section Prune

variable {outputs retained : List Output}

/-- What an explicit root of the merged packages needs: itself, and the providers of its
dependencies with all that they need. -/
inductive Needed (outputs : List Output) : Bytes → Prop
  | root {output : Output} (h : output ∈ outputs) (explicit : output.explicitRoot = true) :
      Needed outputs output.identifier
  | dependency {output : Output} {dependency : DependencyRecord} (h : output ∈ outputs)
      (needed : Needed outputs output.identifier) (hd : dependency ∈ output.dependencies) :
      Needed outputs dependency.provider

/-- The indices of the providers of some dependencies. -/
abbrev Provides (outputs : List Output) : List DependencyRecord → List ℕ → Prop :=
  List.Forall₂ fun dependency provider =>
    outputIndexFor outputs dependency.provider = some provider

theorem resolveProviders_eq_ok {dependencies : List DependencyRecord} {incoming : List ℕ}
    {result : List ℕ × List ℕ} (h : resolveProviders outputs dependencies incoming = .ok result) :
    Provides outputs dependencies result.1 := by
  induction dependencies generalizing incoming result with
  | nil =>
    cases h
    exact .nil
  | cons dependency dependencies ih =>
    rw [resolveProviders] at h
    split at h
    · cases h
    · rename_i provider hprovider
      split_ifs at h
      obtain ⟨rest, hrest, h⟩ := bind_eq_ok.mp h
      cases h
      exact .cons hprovider (ih hrest)

theorem providerGraph_eq_ok {rest : List Output} {incoming : List ℕ}
    {result : List (List ℕ) × List ℕ} (h : providerGraph outputs rest incoming = .ok result) :
    List.Forall₂ (Provides outputs ·.dependencies) rest result.1 := by
  induction rest generalizing incoming result with
  | nil =>
    cases h
    exact .nil
  | cons output rest ih =>
    obtain ⟨first, hfirst, h⟩ := bind_eq_ok.mp h
    obtain ⟨others, hothers, h⟩ := bind_eq_ok.mp h
    cases h
    exact .cons (resolveProviders_eq_ok hfirst) (ih hothers)

theorem retainReachable_eq_ok {marked : List (Bool × Output)}
    (h : retainReachable marked = .ok retained) :
    retained = (marked.filter (·.1)).map (·.2) ∧
      ∀ output index, (false, output) ∈ marked → output.source ≠ .staged index := by
  induction marked generalizing retained with
  | nil =>
    cases h
    exact ⟨rfl, nofun⟩
  | cons entry marked ih =>
    obtain ⟨reachable, output⟩ := entry
    rw [retainReachable] at h
    split_ifs at h with hreachable
    · obtain ⟨others, hothers, h⟩ := bind_eq_ok.mp h
      cases h
      obtain ⟨heq, hstaged⟩ := ih hothers
      refine ⟨by rw [heq, hreachable]; rfl, fun other index hother => ?_⟩
      rcases mem_cons.mp hother with hhead | hother
      · rw [hreachable] at hhead
        cases hhead
      · exact hstaged other index hother
    · rw [Bool.not_eq_true] at hreachable
      subst hreachable
      split at h
      · cases h
      · rename_i position hsource
        obtain ⟨heq, hstaged⟩ := ih h
        refine ⟨by rw [heq]; rfl, fun other index hother => ?_⟩
        rcases mem_cons.mp hother with hhead | hother
        · cases hhead
          rw [hsource]
          nofun
        · exact hstaged other index hother

theorem outputIndexFor_eq_some {identifier : Bytes} {index : ℕ}
    (h : outputIndexFor outputs identifier = some index) :
    ∃ output, outputs[index]? = some output ∧ output.identifier = identifier := by
  obtain ⟨hindex, hfound, -⟩ := findIdx?_eq_some_iff_getElem.mp h
  exact ⟨outputs[index], List.getElem?_eq_getElem hindex, beq_iff_eq.mp hfound⟩

theorem index_eq_of_identifier (hnodup : (outputs.map (·.identifier)).Nodup) {i j : ℕ}
    {left right : Output} (hi : outputs[i]? = some left) (hj : outputs[j]? = some right)
    (h : left.identifier = right.identifier) : i = j := by
  have hlt : i < (outputs.map (·.identifier)).length := by
    rw [length_map]
    exact (List.getElem?_eq_some_iff.mp hi).1
  refine (List.getElem?_inj hlt hnodup).mp ?_
  rw [List.getElem?_map, List.getElem?_map, hi, hj]
  exact congrArg some h

section Graph

variable {graph : List (List ℕ)} (hgraph : List.Forall₂ (Provides outputs ·.dependencies) outputs graph)
  {i j : ℕ} {output : Output}

include hgraph

theorem provides_getD (hi : outputs[i]? = some output) :
    Provides outputs output.dependencies (graph.getD i []) := by
  obtain ⟨hlt, rfl⟩ := List.getElem?_eq_some_iff.mp hi
  have hi' : i < graph.length := hgraph.length_eq ▸ hlt
  rw [List.getD_eq_getElem?_getD, List.getElem?_eq_getElem hi', Option.getD_some]
  exact hgraph.get hlt hi'

theorem exists_owner (hj : j ∈ graph.getD i []) : ∃ owner, outputs[i]? = some owner ∧
    ∃ dependency ∈ owner.dependencies, outputIndexFor outputs dependency.provider = some j := by
  cases hi : outputs[i]? with
  | none =>
    have hle : graph.length ≤ i := hgraph.length_eq ▸ getElem?_eq_none_iff.mp hi
    rw [List.getD_eq_getElem?_getD, getElem?_eq_none hle] at hj
    cases hj
  | some owner => exact ⟨owner, rfl, exists_mem_left_of_forall₂ (provides_getD hgraph hi) hj⟩

theorem reaches_iff_needed (hnodup : (outputs.map (·.identifier)).Nodup)
    (hi : outputs[i]? = some output) :
    Reaches graph (outputs.map (·.explicitRoot)) i ↔ Needed outputs output.identifier := by
  constructor
  · intro h
    induction h generalizing output with
    | root hroot =>
      rw [List.getD_eq_getElem?_getD, List.getElem?_map, hi] at hroot
      exact .root (List.mem_of_getElem? hi) hroot
    | @provider k j _ hj ih =>
      obtain ⟨owner, howner, dependency, hdependency, hindex⟩ := exists_owner hgraph hj
      obtain ⟨found, hfound, hprovider⟩ := outputIndexFor_eq_some hindex
      rw [hi] at hfound
      cases hfound
      rw [hprovider]
      exact .dependency (List.mem_of_getElem? howner) (ih howner) hdependency
  · intro h
    generalize hidentifier : output.identifier = identifier at h
    induction h generalizing i output with
    | @root other hother hexplicit =>
      obtain ⟨j, hj⟩ := getElem?_of_mem hother
      obtain rfl := index_eq_of_identifier hnodup hi hj hidentifier
      refine .root ?_
      rw [List.getD_eq_getElem?_getD, List.getElem?_map, hj]
      exact hexplicit
    | @dependency owner dependency howner _ hd ih =>
      obtain ⟨k, hk⟩ := getElem?_of_mem howner
      obtain ⟨j, hj, hindex⟩ := exists_mem_right_of_forall₂ (provides_getD hgraph hk) hd
      obtain ⟨provider, hprovider, heq⟩ := outputIndexFor_eq_some hindex
      obtain rfl := index_eq_of_identifier hnodup hi hprovider (hidentifier.trans heq.symm)
      exact .provider (ih hk rfl) hj

end Graph

/-- What the pruning keeps of the merged packages. -/
structure Prunes (outputs retained : List Output) : Prop where
  needed : ∀ output, output ∈ retained ↔ output ∈ outputs ∧ Needed outputs output.identifier
  staged : ∀ output ∈ outputs, ∀ index, output.source = .staged index → output ∈ retained
  provided : ∀ output ∈ outputs, ∀ dependency ∈ output.dependencies,
    ∃ provider ∈ outputs, provider.identifier = dependency.provider

theorem pruneAndValidateGraph_eq_ok (hnodup : (outputs.map (·.identifier)).Nodup)
    (h : pruneAndValidateGraph outputs = .ok retained) : Prunes outputs retained := by
  obtain ⟨⟨graph, incoming⟩, hgraph, h⟩ := bind_eq_ok.mp h
  obtain ⟨removedCount, -, h⟩ := bind_eq_ok.mp h
  split_ifs at h
  have hproviders := providerGraph_eq_ok hgraph
  have hrange : ∀ i, ∀ j ∈ graph.getD i [], j < (outputs.map (·.explicitRoot)).length := by
    intro i j hj
    obtain ⟨owner, -, dependency, -, hindex⟩ := exists_owner hproviders hj
    obtain ⟨provider, hprovider, -⟩ := outputIndexFor_eq_some hindex
    rw [length_map]
    exact (List.getElem?_eq_some_iff.mp hprovider).1
  have hreach := reachLoop_roots hrange
  have hlength := length_reachLoop graph (outputs.length + 1)
    ((List.range outputs.length).filter fun index =>
      (outputs.map (·.explicitRoot)).getD index false) (outputs.map (·.explicitRoot))
  rw [length_map] at hreach hlength
  dsimp only at h
  generalize reachLoop graph (outputs.length + 1) _ _ = reachable at h hreach hlength
  have hmarked : ∀ i output, outputs[i]? = some output →
      (reachable.getD i false ↔ Needed outputs output.identifier) := fun i output hi =>
    (hreach i).trans (reaches_iff_needed hproviders hnodup hi)
  classical
  have hflags : reachable = outputs.map fun output => decide (Needed outputs output.identifier) := by
    refine List.ext_getElem (by rw [hlength, length_map]) fun i hi hi' => ?_
    rw [length_map] at hi'
    rw [getElem_map, Bool.eq_iff_iff, decide_eq_true_iff,
      ← hmarked i _ (List.getElem?_eq_getElem hi'), List.getD_eq_getElem?_getD,
      List.getElem?_eq_getElem hi, Option.getD_some]
  have hzip : ∀ flag output, (flag, output) ∈ reachable.zip outputs ↔
      output ∈ outputs ∧ (flag ↔ Needed outputs output.identifier) := by
    intro flag output
    rw [hflags, ← map_prod_right_eq_zip, mem_map]
    constructor
    · rintro ⟨_, hmem, ⟨⟩⟩
      exact ⟨hmem, decide_eq_true_iff⟩
    · rintro ⟨hmem, hflag⟩
      exact ⟨output, hmem, Prod.ext (Bool.eq_iff_iff.mpr (decide_eq_true_iff.trans hflag.symm)) rfl⟩
  obtain ⟨hretained, hstaged⟩ := retainReachable_eq_ok h
  have hneeded : ∀ output, output ∈ retained ↔
      output ∈ outputs ∧ Needed outputs output.identifier := by
    intro output
    rw [hretained, mem_map]
    constructor
    · rintro ⟨⟨flag, other⟩, hmem, rfl⟩
      obtain ⟨hmem, hflag⟩ := mem_filter.mp hmem
      obtain ⟨houtput, hiff⟩ := (hzip flag other).mp hmem
      exact ⟨houtput, hiff.mp hflag⟩
    · rintro ⟨houtput, hneeded⟩
      exact ⟨(true, output), mem_filter.mpr
        ⟨(hzip true output).mpr ⟨houtput, iff_of_true rfl hneeded⟩, rfl⟩, rfl⟩
  refine ⟨hneeded, fun output houtput index hsource => ?_, fun output houtput dependency hd => ?_⟩
  · by_contra hnot
    have hunneeded : ¬ Needed outputs output.identifier := fun hn =>
      hnot ((hneeded output).mpr ⟨houtput, hn⟩)
    exact hstaged output index
      ((hzip false output).mpr ⟨houtput, iff_of_false nofun hunneeded⟩) hsource
  · obtain ⟨i, hi⟩ := getElem?_of_mem houtput
    obtain ⟨j, -, hindex⟩ := exists_mem_right_of_forall₂ (provides_getD hproviders hi) hd
    obtain ⟨provider, hprovider, heq⟩ := outputIndexFor_eq_some hindex
    exact ⟨provider, List.mem_of_getElem? hprovider, heq⟩

end Prune

end OpenRFS.PackageBuilder
