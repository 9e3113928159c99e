-- SUMMARY: Memory with a copy on disk that is written behind it: when the dirty flag tells the truth, and that the disk only ever holds earlier content.
import Mathlib.Data.List.Basic

/-!
# Write-behind

A writer clears the dirty flag, copies the memory, and replaces the content of the disk by
the copy. The memory may change between any two of these, which sets the flag again. So does
a writer that fails.
-/

namespace WriteBehind

variable {σ : Type*}

/-- How far the writer is: it has cleared the flag, or has a copy. -/
inductive Phase (σ : Type*) where
  | idle
  | started
  | holding (copy : σ)

/-- The memory, its flag, the writer, the disk, and the contents that the memory has had. -/
structure Consistent (memory : σ) (dirty : Bool) (phase : Phase σ) (disk : σ) (past : List σ) :
    Prop where
  synced : dirty = false → phase = .idle → disk = memory
  current : ∀ copy, dirty = false → phase = .holding copy → copy = memory
  memory_past : memory ∈ past
  copy_past : ∀ copy, phase = .holding copy → copy ∈ past
  disk_past : disk ∈ past

variable {memory disk held : σ} {dirty : Bool} {phase : Phase σ} {past : List σ}

/-- A process that starts with what is on the disk. -/
theorem Consistent.start (hpast : disk ∈ past) : Consistent disk false .idle disk past where
  synced := fun _ _ => rfl
  current := fun _ _ hphase => by cases hphase
  memory_past := hpast
  copy_past := fun _ hphase => by cases hphase
  disk_past := hpast

theorem Consistent.mutate (h : Consistent memory dirty phase disk past) (memory' : σ) :
    Consistent memory' true phase disk (past ++ [memory']) where
  synced := fun hdirty => by cases hdirty
  current := fun _ hdirty => by cases hdirty
  memory_past := List.mem_append_right _ (List.mem_singleton_self _)
  copy_past := fun copy hphase => List.mem_append_left _ (h.copy_past copy hphase)
  disk_past := List.mem_append_left _ h.disk_past

/-- Something happens that leaves the memory as it is. -/
theorem Consistent.grow (h : Consistent memory dirty phase disk past) (other : σ) :
    Consistent memory dirty phase disk (past ++ [other]) where
  synced := h.synced
  current := h.current
  memory_past := List.mem_append_left _ h.memory_past
  copy_past := fun copy hphase => List.mem_append_left _ (h.copy_past copy hphase)
  disk_past := List.mem_append_left _ h.disk_past

theorem Consistent.clear (h : Consistent memory dirty phase disk past) :
    Consistent memory false .started disk past where
  synced := fun _ hphase => by cases hphase
  current := fun _ _ hphase => by cases hphase
  memory_past := h.memory_past
  copy_past := fun _ hphase => by cases hphase
  disk_past := h.disk_past

theorem Consistent.copy (h : Consistent memory dirty phase disk past) :
    Consistent memory dirty (.holding memory) disk past where
  synced := fun _ hphase => by cases hphase
  current := fun copy _ hphase => by cases hphase; rfl
  memory_past := h.memory_past
  copy_past := fun copy hphase => by cases hphase; exact h.memory_past
  disk_past := h.disk_past

theorem Consistent.commit (h : Consistent memory dirty (.holding held) disk past) :
    Consistent memory dirty .idle held past where
  synced := fun hdirty _ => h.current held hdirty rfl
  current := fun _ _ hphase => by cases hphase
  memory_past := h.memory_past
  copy_past := fun _ hphase => by cases hphase
  disk_past := h.copy_past held rfl

theorem Consistent.fail (h : Consistent memory dirty phase disk past) :
    Consistent memory true .idle disk past where
  synced := fun hdirty => by cases hdirty
  current := fun _ hdirty => by cases hdirty
  memory_past := h.memory_past
  copy_past := fun _ hphase => by cases hphase
  disk_past := h.disk_past

end WriteBehind
