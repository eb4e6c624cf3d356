import OpenRFS.Ledger.Books

/-!
# The table of native handles of a process

A process names its resources by handles. A slot of the table is behind each handle,
and the slots of one resource name the same object, which counts them. A handle
carries the index, the type and the generation of its slot. Retiring a slot moves its
generation on, so that the handle that was retired is stale.

The table comes with a `log`: the objects that were installed, the callbacks that
were made with their answers, and the slots that were retired. No function of the
table reads it; the results about whole runs are stated over it.
-/

namespace OpenRFS.NativeHandle

abbrev tableLimit : ℕ := 128

-- numerals for the slots and for the words of a resource
scoped instance tableLimit_neZero : NeZero tableLimit := ⟨by decide⟩
scoped instance words_neZero : NeZero 4 := ⟨by decide⟩

/-- `NATIVE_RESOURCE_WORDS` words that the table does not look into. -/
structure Resource where
  words : Fin 4 → UInt64
  deriving DecidableEq

def Resource.zero : Resource := ⟨fun _ => 0⟩

inductive HandleStatus where
  | ok
  | badLimit
  | badType
  | full
  | stale
  | wrongType
  | closeFailed
  deriving DecidableEq, Repr

/-- What a close callback answers. A value that is none of the three of
`enum native_resource_close_result` is `unknown`. -/
inductive CloseResult where
  | retained
  | closed
  | closedWithError
  | unknown
  deriving DecidableEq, Repr

def CloseResult.consuming : CloseResult → Bool
  | .closed | .closedWithError => true
  | .retained | .unknown => false

structure Slot where
  generation : UInt32
  objectIndex : Fin tableLimit
  type : UInt8
  active : Bool
  deriving DecidableEq

structure Object where
  resource : Resource
  references : ℕ
  type : UInt8
  active : Bool
  deriving DecidableEq

def Slot.zero : Slot := ⟨0, 0, 0, false⟩

def Object.zero : Object := ⟨.zero, 0, 0, false⟩

structure Table where
  slots : Fin tableLimit → Slot
  objects : Fin tableLimit → Object
  limit : ℕ
  activeHandles : ℕ
  activeObjects : ℕ
  initialized : Bool

inductive Event where
  | installed (object : Fin tableLimit)
  /-- The callback was asked, while `table` was the table, to close the resource of
  the slot. -/
  | called (table : Table) (slot : Fin tableLimit) (result : CloseResult)
  | retired (slot : Fin tableLimit)

abbrev CloseFn (σ : Type) := UInt8 → Resource → σ → CloseResult × σ

/-- The table, the context of the callbacks, and the log with the newest event
first. -/
structure World (σ : Type) where
  table : Table
  context : σ
  log : List Event

def validType (type : UInt8) : Bool := decide (1 ≤ type ∧ type ≤ 11)

section Handles

def encodeHandle (index : Fin tableLimit) (type : UInt8) (generation : UInt32) : UInt64 :=
  (generation.toUInt64 <<< 32) ||| (type.toUInt64 <<< 16) ||| (UInt64.ofNat (index + 1))

def encodedIndex (handle : UInt64) : ℕ := (handle &&& 0xffff).toNat

def encodedType (handle : UInt64) : UInt8 := (handle >>> 16).toUInt8

def encodedReserved (handle : UInt64) : UInt8 := (handle >>> 24).toUInt8

def encodedGeneration (handle : UInt64) : UInt32 := (handle >>> 32).toUInt32

end Handles

namespace Table

variable (t : Table)

def invalidHandleEncoding (handle : UInt64) : Bool :=
  decide (handle = 0 ∨ encodedIndex handle = 0 ∨ t.limit < encodedIndex handle ∨
    encodedReserved handle ≠ 0 ∨ encodedGeneration handle = 0) || !validType (encodedType handle)

/-- The slot that a handle names, if the handle is not stale. -/
def decodeSlot (handle : UInt64) : Except HandleStatus (Fin tableLimit) :=
  if !t.initialized || decide (t.limit = 0 ∨ tableLimit < t.limit) ||
      t.invalidHandleEncoding handle then .error .stale
  else
    -- the index is within the limit, so the remainder is the index itself
    let index : Fin tableLimit := Fin.ofNat tableLimit (encodedIndex handle - 1)
    if !(t.slots index).active || decide ((t.slots index).generation ≠ encodedGeneration handle ∨
        (t.slots index).type ≠ encodedType handle) then .error .stale
    else .ok index

def tableInitialize (limit : ℕ) : Except HandleStatus Table :=
  if limit = 0 ∨ tableLimit < limit then .error .badLimit
  else .ok
    { slots := fun index => { Slot.zero with generation := if index < limit then 1 else 0 }
      objects := fun _ => .zero
      limit := limit
      activeHandles := 0
      activeObjects := 0
      initialized := true }

/-- The first place below the limit that is not active. -/
def firstInactive (limit : ℕ) (active : Fin tableLimit → Bool) : Option (Fin tableLimit) :=
  (List.finRange tableLimit).find? fun index => decide (index.val < limit) && !active index

def inactiveSlot : Option (Fin tableLimit) := firstInactive t.limit fun i => (t.slots i).active

def inactiveObject : Option (Fin tableLimit) :=
  firstInactive t.limit fun o => (t.objects o).active

def installAt (i o : Fin tableLimit) (type : UInt8) (resource : Resource) : Table :=
  { t with
    objects := Function.update t.objects o ⟨resource, 1, type, true⟩
    slots := Function.update t.slots i ⟨(t.slots i).generation, o, type, true⟩
    activeHandles := t.activeHandles + 1
    activeObjects := t.activeObjects + 1 }

def duplicateAt (i source : Fin tableLimit) : Table :=
  let o := (t.slots source).objectIndex
  { t with
    objects := Function.update t.objects o
      { t.objects o with references := (t.objects o).references + 1 }
    slots := Function.update t.slots i ⟨(t.slots i).generation, o, (t.slots source).type, true⟩
    activeHandles := t.activeHandles + 1 }

/-- The generation after one that is retired: zero is left out. -/
def nextGeneration (generation : UInt32) : UInt32 :=
  if generation + 1 = 0 then 1 else generation + 1

def retireSlot (i : Fin tableLimit) : Table :=
  let o := (t.slots i).objectIndex
  let references := (t.objects o).references - 1
  { t with
    slots := Function.update t.slots i ⟨nextGeneration (t.slots i).generation, 0, 0, false⟩
    objects := Function.update t.objects o
      (if references = 0 then .zero else { t.objects o with references := references })
    activeHandles := t.activeHandles - 1
    activeObjects := if references = 0 then t.activeObjects - 1 else t.activeObjects }

def validSlotObject (i : Fin tableLimit) : Bool :=
  let o := (t.slots i).objectIndex
  decide (o.val < t.limit) && (t.objects o).active &&
    decide ((t.objects o).references ≠ 0 ∧ (t.objects o).type = (t.slots i).type)

/-- `native_handle_resolve`. The expected type zero stands for any type. -/
def resolve (handle : UInt64) (expectedType : UInt8) : Except HandleStatus Resource := do
  let index ← t.decodeSlot handle
  if expectedType ≠ 0 ∧ (t.slots index).type ≠ expectedType then .error .wrongType
  else if !t.validSlotObject index then .error .stale
  else .ok (t.objects (t.slots index).objectIndex).resource

end Table

section Calls

variable {σ : Type}

def install (type : UInt8) (resource : Resource) (w : World σ) :
    Except HandleStatus UInt64 × World σ :=
  if !w.table.initialized then (.error .badLimit, w)
  else if !validType type then (.error .badType, w)
  else
    match w.table.inactiveSlot, w.table.inactiveObject with
    | some i, some o =>
      (.ok (encodeHandle i type (w.table.slots i).generation),
        { w with table := w.table.installAt i o type resource, log := .installed o :: w.log })
    | _, _ => (.error .full, w)

def duplicate (source : UInt64) (w : World σ) : Except HandleStatus UInt64 × World σ :=
  match w.table.decodeSlot source with
  | .error status => (.error status, w)
  | .ok index =>
    match w.table.inactiveSlot with
    | none => (.error .full, w)
    | some i =>
      let object := w.table.objects (w.table.slots index).objectIndex
      if w.table.limit ≤ w.table.activeHandles then (.error .full, w)
      else if !object.active || decide (object.references = 0xffff) then (.error .stale, w)
      else
        (.ok (encodeHandle i (w.table.slots index).type (w.table.slots i).generation),
          { w with table := w.table.duplicateAt i index })

def retire (i : Fin tableLimit) (w : World σ) : World σ :=
  { w with table := w.table.retireSlot i, log := .retired i :: w.log }

/-- Ask the callback to close the resource of the slot `i`. A callback that is not
given counts as closing it. -/
def askClose (closeResource : Option (CloseFn σ)) (i : Fin tableLimit) (w : World σ) :
    CloseResult × World σ :=
  match closeResource with
  | none => (.closed, w)
  | some f =>
    let object := w.table.objects (w.table.slots i).objectIndex
    let answer := f object.type object.resource w.context
    (answer.1, { w with context := answer.2, log := .called w.table i answer.1 :: w.log })

/-- `close_valid_slot`. A slot that is not the last of its object is retired without
the callback. -/
def closeValidSlot (closeResource : Option (CloseFn σ)) (i : Fin tableLimit) (w : World σ) :
    HandleStatus × World σ :=
  if 1 < (w.table.objects (w.table.slots i).objectIndex).references then (.ok, retire i w)
  else
    match askClose closeResource i w with
    | (.closed, w') => (.ok, retire i w')
    | (.closedWithError, w') => (.closeFailed, retire i w')
    | (.retained, w') => (.closeFailed, w')
    -- an unknown answer does not show that the resource is gone
    | (.unknown, w') => (.closeFailed, w')

def close (handle : UInt64) (closeResource : Option (CloseFn σ)) (w : World σ) :
    HandleStatus × World σ :=
  match w.table.decodeSlot handle with
  | .error status => (status, w)
  | .ok i =>
    if !w.table.validSlotObject i then (.stale, w)
    else closeValidSlot closeResource i w

def closeAllSlot (closeResource : Option (CloseFn σ)) (i : Fin tableLimit) (w : World σ) :
    Bool × World σ :=
  if !(w.table.slots i).active then (false, w)
  else if decide ((w.table.slots i).generation = 0) || !validType (w.table.slots i).type then
    (true, w)
  else if !w.table.validSlotObject i then (true, w)
  else
    let closed := closeValidSlot closeResource i w
    (decide (closed.1 ≠ .ok), closed.2)

/-- The loop of `close_all_impl` over the slots; whether one of them failed. -/
def closeAllSlots (closeResource : Option (CloseFn σ)) :
    List (Fin tableLimit) → World σ → Bool × World σ
  | [], w => (false, w)
  | i :: rest, w =>
    let turn := closeAllSlot closeResource i w
    let after := closeAllSlots closeResource rest turn.2
    (turn.1 || after.1, after.2)

def slotsBelow (limit : ℕ) : List (Fin tableLimit) :=
  (List.finRange tableLimit).filter fun i => decide (i.val < limit)

def closeAll (closeResource : Option (CloseFn σ)) (w : World σ) : HandleStatus × World σ :=
  if !w.table.initialized || decide (w.table.limit = 0 ∨ tableLimit < w.table.limit) then
    (.badLimit, w)
  else
    let closed := closeAllSlots closeResource (slotsBelow w.table.limit) w
    (if closed.1 then .closeFailed else .ok, closed.2)

/-- The calls on a table. Every call may come with its own callback. -/
inductive Call (σ : Type) where
  | install (type : UInt8) (resource : Resource)
  | duplicate (source : UInt64)
  | resolve (handle : UInt64) (expectedType : UInt8)
  | close (handle : UInt64) (closeResource : Option (CloseFn σ))
  | closeAll (closeResource : Option (CloseFn σ))

def step (w : World σ) : Call σ → World σ
  | .install type resource => (install type resource w).2
  | .duplicate source => (duplicate source w).2
  | .resolve _ _ => w
  | .close handle closeResource => (close handle closeResource w).2
  | .closeAll closeResource => (closeAll closeResource w).2

def run (w : World σ) (calls : List (Call σ)) : World σ := calls.foldl step w

@[simp] theorem run_nil (w : World σ) : run w [] = w := rfl

@[simp] theorem run_cons (w : World σ) (c : Call σ) (calls : List (Call σ)) :
    run w (c :: calls) = run (step w c) calls := rfl

theorem run_append (w : World σ) (calls calls' : List (Call σ)) :
    run w (calls ++ calls') = run (run w calls) calls' := List.foldl_append

end Calls

end OpenRFS.NativeHandle
