-- SUMMARY: Queues whose entries are removed by acknowledgements that name keys: when no acknowledgement can hit the wrong entry.
import Mathlib.Data.List.Nodup
import Mathlib.Data.Set.Basic
import Mathlib.Order.Basic

/-!
# Outboxes

A sender keeps entries until a receiver acknowledges them. An acknowledgement names keys
only, and may arrive long after the entry it is about is gone. It is sound as long as no
key is given to two entries: new keys are above the last one, and everything that may
still be acknowledged is at most that.
-/

namespace Outbox

variable {ι α : Type*} [Preorder ι]

/-- The queue, the last key given out, and the entries that may still be acknowledged. -/
structure Coherent (queue : List (ι × α)) (last : ι) (out : Set (ι × α)) : Prop where
  nodup : (queue.map Prod.fst).Nodup
  queue_le : ∀ q ∈ queue, q.1 ≤ last
  out_le : ∀ e ∈ out, e.1 ≤ last
  agree : ∀ e ∈ out, ∀ q ∈ queue, q.1 = e.1 → q = e

variable {queue queue' : List (ι × α)} {last key : ι} {out out' : Set (ι × α)}

/-- A new key is above all others. -/
theorem Coherent.push (h : Coherent queue last out) (hkey : last < key) (a : α) :
    Coherent (queue ++ [(key, a)]) key out where
  nodup := by
    rw [List.map_append, List.nodup_append]
    refine ⟨h.nodup, List.nodup_singleton _, ?_⟩
    simp only [List.map_cons, List.map_nil, List.mem_singleton, List.mem_map]
    rintro k ⟨q, hq, rfl⟩ _ rfl heq
    exact absurd (heq ▸ h.queue_le q hq) hkey.not_ge
  queue_le := by
    intro q hq
    rcases List.mem_append.1 hq with hq | hq
    · exact (h.queue_le q hq).trans hkey.le
    · rw [List.mem_singleton.1 hq]
  out_le := fun e he => (h.out_le e he).trans hkey.le
  agree := by
    intro e he q hq heq
    rcases List.mem_append.1 hq with hq | hq
    · exact h.agree e he q hq heq
    · rw [List.mem_singleton.1 hq] at heq
      exact absurd (heq.trans_le (h.out_le e he)) hkey.not_ge

theorem Coherent.shrink (h : Coherent queue last out) (hqueue : queue'.Sublist queue) :
    Coherent queue' last out where
  nodup := h.nodup.sublist (hqueue.map _)
  queue_le := fun q hq => h.queue_le q (hqueue.subset hq)
  out_le := h.out_le
  agree := fun e he q hq => h.agree e he q (hqueue.subset hq)

/-- Entries of the queue may be sent. -/
theorem Coherent.send (h : Coherent queue last out)
    (hout : ∀ e ∈ out', e ∈ out ∨ e ∈ queue) : Coherent queue last out' where
  nodup := h.nodup
  queue_le := h.queue_le
  out_le := fun e he => (hout e he).elim (h.out_le e) (h.queue_le e)
  agree := by
    intro e he q hq heq
    rcases hout e he with he | he
    · exact h.agree e he q hq heq
    · exact List.inj_on_of_nodup_map h.nodup hq he heq

end Outbox
