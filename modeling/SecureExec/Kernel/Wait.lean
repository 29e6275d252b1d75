import Mathlib.Data.List.Basic

/-!
# Kernel — Wait — wait handles and wait queues

`packages/core/src/kernel/wait.ts`.  The handles live in one table that says which of them are
settled; a handle is its index.  A `WaitQueue` is the list of the handles enqueued in it.  What a
caller does after `await handle.wait()` is a step of its own that needs a settled handle.

No modelled caller passes a timeout, so a handle is settled by `wake` only.
-/

namespace SecureExec.Kernel

/-- All the wait handles made so far. -/
structure WaitHandles where
  next : Nat
  settled : Nat → Bool

namespace WaitHandles

def empty : WaitHandles := ⟨0, fun _ => false⟩

/-- `WaitHandle.wake`. -/
def wake (w : WaitHandles) (h : Nat) : WaitHandles :=
  { w with settled := Function.update w.settled h true }

end WaitHandles

abbrev WaitQueue : Type := List Nat

namespace WaitQueue

/-- `enqueue`: the new handle, and the queue with it. -/
def enqueue (w : WaitHandles) (q : WaitQueue) : Nat × WaitHandles × WaitQueue :=
  (w.next, ⟨w.next + 1, Function.update w.settled w.next false⟩, q ++ [w.next])

def remove (q : WaitQueue) (h : Nat) : WaitQueue := q.erase h

/-- `wakeOne`: settled handles at the front are skipped. -/
def wakeOne (w : WaitHandles) : WaitQueue → WaitHandles × WaitQueue
  | [] => (w, [])
  | h :: q => if w.settled h then wakeOne w q else (w.wake h, q)

/-- `wakeAll`. -/
def wakeAll (w : WaitHandles) (q : WaitQueue) : WaitHandles × WaitQueue :=
  (q.foldl (fun w h => w.wake h) w, [])

def pending (w : WaitHandles) (q : WaitQueue) : Nat := q.countP fun h => !w.settled h

/-- A queue with unsettled handles only: `wakeOne` takes the first. -/
theorem wakeOne_cons {w : WaitHandles} {h : Nat} {q : WaitQueue} (hu : w.settled h = false) :
    wakeOne w (h :: q) = (w.wake h, q) := by
  simp [wakeOne, hu]

theorem pending_eq_zero_iff {w : WaitHandles} {q : WaitQueue} :
    pending w q = 0 ↔ ∀ h ∈ q, w.settled h = true := by
  simp [pending, List.countP_eq_zero]

theorem next_wakeAll (w : WaitHandles) (q : WaitQueue) : (wakeAll w q).1.next = w.next := by
  induction q generalizing w with
  | nil => rfl
  | cons k q ih => exact ih (w.wake k)

theorem settled_wakeAll (w : WaitHandles) (q : WaitQueue) (h : Nat) :
    (wakeAll w q).1.settled h = if h ∈ q then true else w.settled h := by
  induction q generalizing w with
  | nil => simp [wakeAll]
  | cons k q ih =>
      have := ih (w.wake k)
      simp only [wakeAll, List.foldl_cons] at this ⊢
      rw [this]
      by_cases hq : h ∈ q
      · simp [hq]
      · by_cases hk : h = k
        · subst hk
          simp [WaitHandles.wake]
        · simp [hq, hk, WaitHandles.wake]

end WaitQueue

end SecureExec.Kernel
