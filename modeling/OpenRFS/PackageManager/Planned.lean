import OpenRFS.PackageManager.Ordering
import OpenRFS.PackageManager.Resolution

/-!
# What a plan contains

A plan for an installation names the selected entries, apart from those that are
installed at the same version.
-/

namespace OpenRFS.PackageManager

open Codec PackageState List

section Items

variable {installed : Option DatabaseView} {policy : Policy} {trust : Option Trust} {root : Bytes}

def InstalledAlike (installed : Option DatabaseView) (entry : CatalogEntry) : Prop :=
  ∃ index package, installedPackage installed entry.identifier = some (index, package) ∧
    compareSemverText entry.version package.version = .eq

/-- The items are those so far and some of the listed entries; an entry that is left out is
installed. -/
theorem planItems_eq_ok {listed : List Item} {items : List PlanItem} {target : Option Bool}
    {result : List PlanItem × Option Bool}
    (h : planItems installed policy trust root listed items target = .ok result) :
    (∀ item ∈ result.1, item ∈ items ∨ ∃ listed' ∈ listed, item = planItem listed'.entry) ∧
      (∀ item ∈ items, item ∈ result.1) ∧
      ∀ item ∈ listed, planItem item.entry ∈ result.1 ∨ InstalledAlike installed item.entry := by
  induction listed generalizing items target with
  | nil =>
    cases h
    exact ⟨fun _ hitem => .inl hitem, fun _ hitem => hitem, nofun⟩
  | cons first listed ih =>
    -- the two ways to go on: the entry becomes an item, or it is installed
    have hnext : (∃ target, planItems installed policy trust root listed
          (items ++ [planItem first.entry]) target = .ok result) ∨
        InstalledAlike installed first.entry ∧
          ∃ target, planItems installed policy trust root listed items target = .ok result := by
      obtain ⟨⟨⟩, -, h⟩ := bind_eq_ok.mp h
      split at h
      · rename_i index package hpackage
        dsimp only at h
        split at h
        · cases h
        split at h
        · cases h
        split at h
        · rename_i hequal
          exact .inr ⟨⟨index, package, hpackage, hequal⟩, _, h⟩
        split at h
        · cases h
        · exact .inl ⟨_, h⟩
      · split at h
        · cases h
        · exact .inl ⟨_, h⟩
    rcases hnext with ⟨_, h⟩ | ⟨halike, _, h⟩
    · obtain ⟨hsound, hkept, hlisted⟩ := ih h
      refine ⟨fun item hitem => ?_, fun item hitem => hkept item (mem_append_left _ hitem),
        forall_mem_cons.mpr ⟨.inl (hkept _ (mem_append_right _ (mem_singleton_self _))), hlisted⟩⟩
      rcases hsound item hitem with hitem | ⟨other, hother, heq⟩
      · rcases mem_append.mp hitem with hitem | hitem
        · exact .inl hitem
        · exact .inr ⟨first, mem_cons_self, mem_singleton.mp hitem⟩
      · exact .inr ⟨other, mem_cons_of_mem _ hother, heq⟩
    · obtain ⟨hsound, hkept, hlisted⟩ := ih h
      exact ⟨fun item hitem => (hsound item hitem).imp_right fun ⟨other, hother, heq⟩ =>
        ⟨other, mem_cons_of_mem _ hother, heq⟩, hkept, forall_mem_cons.mpr ⟨.inr halike, hlisted⟩⟩

/-- A plan for an installation, with the search it was made from. -/
structure Planned (catalog : List Item) (installed : Option DatabaseView) (plan : Plan)
    (solver : Solver) : Prop where
  solved : solveTarget catalog plan.target = (.ok, solver)
  items : ∀ item ∈ plan.items, ∃ entry ∈ solver.selected, item = planItem entry.entry
  selected : ∀ entry ∈ solver.selected, planItem entry.entry ∈ plan.items ∨
    InstalledAlike installed entry.entry

theorem planInstall_eq_ok {repository : RepositoryView} {identifier : Bytes} {plan : Plan}
    (h : planInstall repository installed identifier policy trust = .ok plan) :
    ∃ catalog solver, readCatalog repository = .ok catalog ∧ plan.target = identifier ∧
      (plan.operation = .install ∨ plan.operation = .update) ∧
      Planned catalog installed plan solver := by
  rw [planInstall] at h
  split at h
  · cases h
  obtain ⟨catalog, hcatalog, h⟩ := bind_eq_ok.mp h
  split at h
  · rename_i solver hsolved
    split at h
    · cases h
    · rename_i root hroot
      obtain ⟨order, horder, h⟩ := bind_eq_ok.mp h
      obtain ⟨⟨items, target⟩, hitems, h⟩ := bind_eq_ok.mp h
      obtain ⟨hsound, -, hlisted⟩ := planItems_eq_ok hitems
      have hplan : plan.target = identifier ∧
          (plan.operation = .install ∨ plan.operation = .update) ∧ plan.items = items := by
        dsimp only at h
        split_ifs at h with hempty
        all_goals cases h
        exacts [⟨rfl, .inl rfl, hempty.symm⟩, ⟨rfl, .inr rfl, rfl⟩, ⟨rfl, .inl rfl, rfl⟩]
      have hordered : ∀ entry, entry ∈ order.filterMap (fun position => solver.selected[position]?) ↔
          entry ∈ solver.selected := by
        intro entry
        rw [mem_filterMap]
        constructor
        · rintro ⟨position, -, hposition⟩
          exact mem_of_getElem? hposition
        · intro hentry
          obtain ⟨position, hposition⟩ := List.getElem?_of_mem hentry
          refine ⟨position, ?_, hposition⟩
          exact (orderPackages_perm horder).mem_iff.mpr
            (List.mem_range.mpr (List.getElem?_eq_some_iff.mp hposition).1)
      refine ⟨catalog, solver, hcatalog, hplan.1, hplan.2.1, by rw [hplan.1]; exact hsolved,
        fun item hitem => ?_, fun entry hentry => ?_⟩
      · rw [hplan.2.2] at hitem
        obtain ⟨entry, hentry, heq⟩ := (hsound item hitem).resolve_left not_mem_nil
        exact ⟨entry, (hordered entry).mp hentry, heq⟩
      · rw [hplan.2.2]
        exact hlisted entry ((hordered entry).mpr hentry)
  · cases h

end Items

section Catalog

variable {repository : RepositoryView} {catalog : List Item}

theorem readItem_entry {index : ℕ} {item : Item} (h : readItem repository index = .ok item) :
    repositoryEntry repository index = .ok item.entry ∧ item.entry.repositoryIndex = index := by
  obtain ⟨entry, hentry, h⟩ := bind_eq_ok.mp h
  obtain ⟨dependencies, -, h⟩ := bind_eq_ok.mp h
  obtain ⟨conflicts, -, h⟩ := bind_eq_ok.mp h
  obtain ⟨provides, -, h⟩ := bind_eq_ok.mp h
  cases h
  refine ⟨hentry, ?_⟩
  rw [repositoryEntry] at hentry
  split_ifs at hentry
  obtain ⟨identifier, -, hentry⟩ := bind_eq_ok.mp hentry
  obtain ⟨version, -, hentry⟩ := bind_eq_ok.mp hentry
  obtain ⟨downloadPath, -, hentry⟩ := bind_eq_ok.mp hentry
  cases hentry
  rfl

theorem catalog_repositoryIndex (h : readCatalog repository = .ok catalog) {item : Item}
    (hitem : item ∈ catalog) :
    catalog[item.entry.repositoryIndex]? = some item ∧
      repositoryEntry repository item.entry.repositoryIndex = .ok item.entry := by
  have hread := mapM_eq_ok_iff.mp h
  obtain ⟨index, hindex⟩ := List.getElem?_of_mem hitem
  have hlt := (List.getElem?_eq_some_iff.mp hindex).1
  have hget := hread.get (hread.length_eq ▸ hlt) hlt
  have hitem' : catalog.get ⟨index, hlt⟩ = item := (List.getElem?_eq_some_iff.mp hindex).2
  rw [hitem'] at hget
  have hentry := readItem_entry hget
  simp only [get_eq_getElem, getElem_range] at hentry
  rw [hentry.2]
  exact ⟨hindex, hentry.1⟩

end Catalog

section Bindings

theorem findInstalled_eq_some {view : DatabaseView} {identifier : Bytes} {indices : List ℕ}
    {index : ℕ} {package : PackageRecord}
    (h : findInstalled view identifier indices = some (index, package)) :
    databasePackage view index = .ok package ∧ package.identifier = identifier := by
  induction indices with
  | nil => cases h
  | cons first indices ih =>
    rw [findInstalled] at h
    split at h
    · cases h
    · rename_i found hfound
      split_ifs at h with hsame
      · cases h
        exact ⟨hfound, hsame⟩
      · exact ih h

theorem installedPackage_eq_some {installed : Option DatabaseView} {identifier : Bytes}
    {index : ℕ} {package : PackageRecord}
    (h : installedPackage installed identifier = some (index, package)) :
    ∃ view, installed = some view ∧ databasePackage view index = .ok package ∧
      package.identifier = identifier := by
  cases installed with
  | none => cases h
  | some view => exact ⟨view, rfl, findInstalled_eq_some h⟩

/-- Every dependency of a planned item has a binding, which is the one of the search the plan was
made from. It names a package that is planned or installed. -/
theorem planDependencyBinding_of_planInstall {repository : RepositoryView}
    {installed : Option DatabaseView} {identifier : Bytes} {policy : Policy} {trust : Option Trust}
    {plan : Plan} (h : planInstall repository installed identifier policy trust = .ok plan) :
    ∃ catalog solver, readCatalog repository = .ok catalog ∧
      solveTarget catalog identifier = (.ok, solver) ∧
      ∀ planIndex item, plan.items[planIndex]? = some item →
        ∃ consumer, catalog[item.sourceIndex]? = some consumer ∧
          ∀ dependencyIndex dependency, consumer.dependencies[dependencyIndex]? = some dependency →
            ∃ provider, planDependencyBinding catalog plan planIndex dependencyIndex =
                .ok ⟨dependency.identifier, dependency.value, provider⟩ ∧
              bindingFor solver dependency.identifier = some provider ∧
              ((∃ other ∈ plan.items, other.identifier = provider) ∨
                ∃ index package, installedPackage installed provider = some (index, package) ∧
                  package.identifier = provider) := by
  obtain ⟨catalog, solver, hcatalog, htarget, hoperation, hplanned⟩ := planInstall_eq_ok h
  obtain ⟨hconsistent, -, -, hsatisfied⟩ := solveTarget_eq_ok hplanned.solved
  have hresolvable := (solveRequirement_resolvable hplanned.solved).2
  refine ⟨catalog, solver, hcatalog, htarget ▸ hplanned.solved, fun planIndex item hitem => ?_⟩
  obtain ⟨consumer, hconsumer, rfl⟩ := hplanned.items item (mem_of_getElem? hitem)
  have hsource := (catalog_repositoryIndex hcatalog (hconsistent.offered consumer hconsumer)).1
  refine ⟨consumer, hsource, fun dependencyIndex dependency hdependency => ?_⟩
  have hmem := mem_of_getElem? hdependency
  obtain ⟨provider, hprovider⟩ :=
    (hresolvable consumer hconsumer).resolve_left not_mem_nil dependency hmem
  obtain ⟨entry, hentry, hbinding, hmeets⟩ := hsatisfied consumer hconsumer dependency hmem
  -- the search has bound the dependency to an entry that meets it, and all that do are one package
  obtain rfl := identifier_of_uniqueProvider hprovider (hconsistent.offered entry hentry) hmeets
  refine ⟨entry.entry.identifier, ?_, hbinding, ?_⟩
  · have hkind : ¬ (plan.operation ≠ .install ∧ plan.operation ≠ .update) := by tauto
    have hlookup : catalog[(planItem consumer.entry).sourceIndex]? = some consumer := hsource
    simp only [planDependencyBinding, if_neg hkind, hitem, hlookup, hdependency, hprovider, ne_eq,
      not_true_eq_false, if_false, bind, Except.bind]
  · rcases hplanned.selected entry hentry with hitem | ⟨index, package, hpackage, -⟩
    · exact .inl ⟨_, hitem, rfl⟩
    · obtain ⟨-, -, -, hname⟩ := installedPackage_eq_some hpackage
      exact .inr ⟨index, package, hpackage, hname⟩

set_option maxRecDepth 4000 in
theorem planInstall_sample :
    (do
      let repository ← repositoryOpen sampleIndex samplePolicy (some sampleTrust)
      let plan ← planInstall repository none (asciiText ['a', '.', 'p']) samplePolicy
        (some sampleTrust)
      .ok plan.items.length : Except Status ℕ).toOption = some 2 := by
  decide +kernel

/-- The application and its library are planned, from one search. -/
theorem planDependencyBinding_of_planInstall_sample :
    ∃ repository plan catalog solver,
      planInstall repository none (asciiText ['a', '.', 'p']) samplePolicy (some sampleTrust) =
        .ok plan ∧ plan.items.length = 2 ∧ readCatalog repository = .ok catalog ∧
      solveTarget catalog (asciiText ['a', '.', 'p']) = (.ok, solver) := by
  obtain ⟨repository, -, h⟩ := bind_eq_ok.mp (eq_ok_of_toOption planInstall_sample)
  obtain ⟨plan, hplan, h⟩ := bind_eq_ok.mp h
  obtain ⟨catalog, solver, hcatalog, hsolved, -⟩ := planDependencyBinding_of_planInstall hplan
  exact ⟨repository, plan, catalog, solver, hplan, Except.ok.inj h, hcatalog, hsolved⟩

end Bindings

section Package

variable {bytes : Bytes} {expected : CatalogEntry} {policy : Policy} {trust : Option Trust}
  {package : PackageView}

theorem packageOpen_identity (h : packageOpen bytes expected policy trust = .ok package) :
    package.identifier = expected.identifier ∧ package.version = expected.version := by
  obtain ⟨parsed, hheader, h⟩ := bind_eq_ok.mp h
  have hsame : package = parsed := by
    obtain ⟨-, h⟩ := ite_error_eq_ok.mp h
    obtain ⟨⟨⟩, -, h⟩ := bind_eq_ok.mp h
    obtain ⟨-, h⟩ := ite_error_eq_ok.mp h
    obtain ⟨⟨⟩, -, h⟩ := bind_eq_ok.mp h
    obtain ⟨payload, -, h⟩ := bind_eq_ok.mp h
    obtain ⟨-, h⟩ := ite_error_eq_ok.mp h
    obtain ⟨⟨⟩, -, h⟩ := bind_eq_ok.mp h
    cases h
    rfl
  subst hsame
  rw [packageHeader] at hheader
  iterate 7 obtain ⟨-, hheader⟩ := ite_error_eq_ok.mp hheader
  obtain ⟨_, -, hheader⟩ := bind_eq_ok.mp hheader
  obtain ⟨identifier, -, hheader⟩ := bind_eq_ok.mp hheader
  obtain ⟨name, -, hheader⟩ := bind_eq_ok.mp hheader
  obtain ⟨version, -, hheader⟩ := bind_eq_ok.mp hheader
  obtain ⟨publisher, -, hheader⟩ := bind_eq_ok.mp hheader
  obtain ⟨hidentity, hheader⟩ := ite_error_eq_ok.mp hheader
  obtain ⟨-, hheader⟩ := ite_error_eq_ok.mp hheader
  obtain ⟨-, hheader⟩ := ite_error_eq_ok.mp hheader
  cases hheader
  simp only [ne_eq, not_or, not_not] at hidentity
  exact ⟨hidentity.2.1, hidentity.2.2.1⟩

end Package

end OpenRFS.PackageManager
