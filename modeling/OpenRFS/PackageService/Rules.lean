import OpenRFS.PackageService.Files
import OpenRFS.Volume.Subtree

/-!
# Rules for calls of the package service

`Safe R w` says that the store of the world `w` satisfies `R`. It is the crash
condition of all statements about the service. A call that does not change the store
keeps it, so its rule has no condition of its own; the rule for a mutation asks for
`R` of the new store, which a failing call may have left as well.
-/

namespace OpenRFS.PackageService

open Volume Crash Machine Service

variable {α : Type} {F : Cmd → Prop} {Q : α → World → Prop} {R : Store → Prop}
variable {w : World}
variable {p : Path} {k : FsStatus → Service α}

def Safe (R : Store → Prop) (w : World) : Prop := R w.store

def World.noted (w : World) (f : Report → Report) : World :=
  { w with memory := { w.memory with report := f w.memory.report } }

def World.failed (w : World) (e : FsStatus) : World :=
  w.noted fun r => { r with filesystemStatus := e }

theorem wp_silent {c : Cmd} {k : Reply c → Service α} (h : (step c w).2 = w) :
    machine.wp F Q (Safe R) (.call c k) w ↔ machine.wp F Q (Safe R) (k (step c w).1) w ∧
        (F c → ∀ r, Fails c r → machine.wp F Q (Safe R) (k r) w) := by
  have hstep : (machine.step c w).2 = w := h
  rw [wp_call, hstep]
  simp only [and_self]
  exact ⟨fun h => h.2, fun h => ⟨wp_here h.1, h⟩⟩

theorem forall_error_iff {β : Type} {X : Except FsStatus β → Prop} :
    (∀ r, (∃ e, Device e ∧ r = .error e) → X r) ↔ ∀ e, Device e → X (.error e) :=
  ⟨fun h e he => h _ ⟨e, he, rfl⟩, fun h _ ⟨e, he, hr⟩ => hr ▸ h e he⟩

theorem wp_statPath {k : Except FsStatus Stat → Service α} :
    machine.wp F Q (Safe R) (statPath p >>= k) w ↔ machine.wp F Q (Safe R) (k (w.store.stat p)) w ∧
        (F (.stat p) → ∀ e, Device e → machine.wp F Q (Safe R) (k (.error e)) w) :=
  (wp_silent (c := .stat p) rfl).trans <|
    and_congr_right fun _ => imp_congr_right fun _ => forall_error_iff

theorem wp_readAt {off n : ℕ} {k : Except FsStatus Bytes → Service α} :
    machine.wp F Q (Safe R) (readAt p off n >>= k) w ↔
      machine.wp F Q (Safe R) (k (w.store.read p off n)) w ∧
        (F (.read p off n) → ∀ e, Device e → machine.wp F Q (Safe R) (k (.error e)) w) :=
  (wp_silent (c := .read p off n) rfl).trans <|
    and_congr_right fun _ => imp_congr_right fun _ => forall_error_iff

theorem wp_openFile :
    machine.wp F Q (Safe R) (openFile p >>= k) w ↔
      machine.wp F Q (Safe R) (k (statusOf (w.store.openFile p))) w ∧
        (F (.openFile p) → ∀ e, Device e → machine.wp F Q (Safe R) (k e) w) :=
  wp_silent (c := .openFile p) rfl

theorem wp_closeHandle :
    machine.wp F Q (Safe R) (closeHandle p >>= k) w ↔ machine.wp F Q (Safe R) (k (.ok)) w ∧
        (F (.close p) → ∀ e, Device e → machine.wp F Q (Safe R) (k e) w) :=
  wp_silent (c := .close p) rfl

theorem wp_syncVolume :
    machine.wp F Q (Safe R) (syncVolume >>= k) w ↔ machine.wp F Q (Safe R) (k .ok) w ∧
        (F .sync → ∀ e, Device e → machine.wp F Q (Safe R) (k e) w) :=
  wp_silent (c := .sync) rfl

@[simp] theorem wp_loadMemory {k : Memory → Service α} :
    machine.wp F Q (Safe R) (loadMemory >>= k) w ↔ machine.wp F Q (Safe R) (k w.memory) w :=
  (wp_silent (c := .load) rfl).trans (and_iff_left fun _ _ h => h.elim)

@[simp] theorem wp_driveInfo {k : Drive → Service α} :
    machine.wp F Q (Safe R) (driveInfo >>= k) w ↔ machine.wp F Q (Safe R) (k w.drive) w :=
  (wp_silent (c := .drive) rfl).trans (and_iff_left fun _ _ h => h.elim)

@[simp] theorem wp_heapIsActive {k : Bool → Service α} :
    machine.wp F Q (Safe R) (heapIsActive >>= k) w ↔ machine.wp F Q (Safe R) (k w.heapActive) w :=
  (wp_silent (c := .heapActive) rfl).trans (and_iff_left fun _ _ h => h.elim)

@[simp] theorem wp_alter {f : Memory → Memory} {k : Unit → Service α} :
    machine.wp F Q (Safe R) (alter f >>= k) w ↔
      machine.wp F Q (Safe R) (k ()) { w with memory := f w.memory } := by
  refine wp_call.trans ⟨fun h => h.2.1, fun h => ⟨?_, h, fun _ _ hr => hr.elim⟩⟩
  exact wp_here (w := { w with memory := f w.memory }) h

@[simp] theorem wp_note {f : Report → Report} {k : Unit → Service α} :
    machine.wp F Q (Safe R) (note f >>= k) w ↔ machine.wp F Q (Safe R) (k ()) (w.noted f) :=
  wp_alter

/-- The rule of a mutation; `result` is what the operation gives. -/
theorem wp_mutation {c : Cmd} {k : Reply c → Service α} {result : Except FsStatus Store}
    (hstep : (step c w).2 = w.mutate result) :
    machine.wp F Q (Safe R) (.call c k) w ↔ R w.store ∧
      machine.wp F Q (Safe R) (k (step c w).1) (w.mutate result) ∧
        (F c → ∀ r, Fails c r → machine.wp F Q (Safe R) (k r) w ∧
          machine.wp F Q (Safe R) (k r) (w.mutate result)) := by
  have hstep' : (machine.step c w).2 = w.mutate result := hstep
  rw [wp_call, hstep']
  rfl

theorem wp_createFile {mode : UInt16} :
    machine.wp F Q (Safe R) (createFile p mode >>= k) w ↔ R w.store ∧
      machine.wp F Q (Safe R) (k (statusOf (w.store.create p mode))) (w.mutate (w.store.create p mode)) ∧
        (F (.create p mode) → ∀ e, Device e → machine.wp F Q (Safe R) (k e) w ∧
          machine.wp F Q (Safe R) (k e) (w.mutate (w.store.create p mode))) :=
  wp_mutation (c := .create p mode) rfl

theorem wp_makeDirectory :
    machine.wp F Q (Safe R) (makeDirectory p >>= k) w ↔ R w.store ∧
      machine.wp F Q (Safe R) (k (statusOf (w.store.mkdir p))) (w.mutate (w.store.mkdir p)) ∧
        (F (.mkdir p) → ∀ e, Device e → machine.wp F Q (Safe R) (k e) w ∧
          machine.wp F Q (Safe R) (k e) (w.mutate (w.store.mkdir p))) :=
  wp_mutation (c := .mkdir p) rfl

theorem wp_renameFile {p q : Path} :
    machine.wp F Q (Safe R) (renameFile p q >>= k) w ↔ R w.store ∧
      machine.wp F Q (Safe R) (k (statusOf (w.store.rename p q))) (w.mutate (w.store.rename p q)) ∧
        (F (.rename p q) → ∀ e, Device e → machine.wp F Q (Safe R) (k e) w ∧
          machine.wp F Q (Safe R) (k e) (w.mutate (w.store.rename p q))) :=
  wp_mutation (c := .rename p q) rfl

theorem wp_unlinkFile :
    machine.wp F Q (Safe R) (unlinkFile p >>= k) w ↔ R w.store ∧
      machine.wp F Q (Safe R) (k (statusOf (w.store.unlink p))) (w.mutate (w.store.unlink p)) ∧
        (F (.unlink p) → ∀ e, Device e → machine.wp F Q (Safe R) (k e) w ∧
          machine.wp F Q (Safe R) (k e) (w.mutate (w.store.unlink p))) :=
  wp_mutation (c := .unlink p) rfl

theorem wp_writeAt {off : ℕ} {bytes : Bytes} {k : Except FsStatus ℕ → Service α} :
    machine.wp F Q (Safe R) (writeAt p off bytes >>= k) w ↔ R w.store ∧
      machine.wp F Q (Safe R) (k ((w.store.write p off bytes).map fun _ => bytes.length))
        (w.mutate (w.store.write p off bytes)) ∧
        (F (.write p off bytes) → ∀ e, Device e → machine.wp F Q (Safe R) (k (.error e)) w ∧
          machine.wp F Q (Safe R) (k (.error e)) (w.mutate (w.store.write p off bytes))) :=
  (wp_mutation (c := .write p off bytes) rfl).trans <|
    and_congr_right fun _ => and_congr_right fun _ => imp_congr_right fun _ => forall_error_iff

end OpenRFS.PackageService
