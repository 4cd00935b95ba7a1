import Mathlib.Data.List.Induction
import Mathlib.Logic.Function.Basic

/-! Cells that are written to one after the other: what they hold at the end is what was written to
them last, also where it is not known of some writes whether they have been carried out. -/
namespace Replay
open Function (update update_self update_of_ne)

variable {α β : Type*} [DecidableEq α]

/-- Write to the cells. -/
def replay (cells : α → β) (writes : List (α × β)) : α → β :=
  writes.foldl (fun cells w => update cells w.1 w.2) cells

/-- What has been written to a cell last. -/
def lastWrite (writes : List (α × β)) (a : α) : Option β :=
  (writes.reverse.find? fun w => w.1 = a).map Prod.snd

theorem replay_append (cells : α → β) (writes writes' : List (α × β)) :
    replay cells (writes ++ writes') = replay (replay cells writes) writes' :=
  List.foldl_append ..

theorem replay_apply (cells : α → β) (writes : List (α × β)) (a : α) :
    replay cells writes a = (lastWrite writes a).getD (cells a) := by
  induction writes using List.reverseRecOn with
  | nil => rfl
  | append_singleton writes w ih =>
    rw [replay_append, lastWrite, List.reverse_append, List.reverse_singleton,
      List.singleton_append]
    by_cases hw : w.1 = a
    · subst hw
      simp [replay]
    · rw [List.find?_cons_of_neg (by simpa using hw)]
      exact (update_of_ne (Ne.symm hw) _ _).trans ih

/-- Writing everything once more changes nothing. -/
theorem replay_replay (cells : α → β) (writes : List (α × β)) :
    replay (replay cells writes) writes = replay cells writes := by
  funext a
  rw [replay_apply, replay_apply]
  cases lastWrite writes a <;> rfl

/-- What has been tried to write, all of it or nothing, and whether it is known to be done. -/
structure Attempt (α β : Type*) where
  known : Bool
  writes : List (α × β)

/-- What the attempts may have come to: those that are known to be done, and any others, in their
order. -/
inductive Carried : List (Attempt α β) → List (α × β) → Prop
  | nil : Carried [] []
  | done {xs : List (Attempt α β)} {writes : List (α × β)} (h : Carried xs writes)
      (x : Attempt α β) : Carried (xs ++ [x]) (writes ++ x.writes)
  | lost {xs : List (Attempt α β)} {writes : List (α × β)} (h : Carried xs writes)
      {x : Attempt α β} (hx : x.known = false) : Carried (xs ++ [x]) writes

/-- What the cells may hold after the attempts. -/
def MayHold (cells : α → β) (attempts : List (Attempt α β)) (cells' : α → β) : Prop :=
  ∃ writes, Carried attempts writes ∧ cells' = replay cells writes

variable {cells cells' : α → β} {attempts : List (Attempt α β)}

theorem MayHold.done (h : MayHold cells attempts cells') (x : Attempt α β) :
    MayHold cells (attempts ++ [x]) (replay cells' x.writes) := by
  obtain ⟨writes, hcarried, rfl⟩ := h
  exact ⟨_, hcarried.done x, (replay_append ..).symm⟩

theorem MayHold.lost (h : MayHold cells attempts cells') {x : Attempt α β} (hx : x.known = false) :
    MayHold cells (attempts ++ [x]) cells' := by
  obtain ⟨writes, hcarried, rfl⟩ := h
  exact ⟨_, hcarried.lost hx, rfl⟩

end Replay
