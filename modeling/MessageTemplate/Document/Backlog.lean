/-! # Work that runs out

While a list of pieces of work is worked through, new pieces may be put on it. The list runs out
all the same if every piece is replaced by pieces that are smaller than it, however many they are
and wherever they are put. -/

namespace MessageTemplate.Document

/-- The sizes of the pieces of work that are left. -/
structure Backlog where
  sizes : List Nat

namespace Backlog

/-- A piece of work gives way to smaller ones. -/
def Shrinks (next backlog : Backlog) : Prop :=
  ∃ piece rest smaller, backlog.sizes.Perm (piece :: rest) ∧
    next.sizes.Perm (smaller ++ rest) ∧ ∀ size ∈ smaller, size < piece

theorem acc_of_perm {left right : List Nat} (same : left.Perm right)
    (runsOut : Acc Shrinks ⟨left⟩) : Acc Shrinks ⟨right⟩ :=
  ⟨_, fun _ ⟨piece, rest, smaller, whole, others, less⟩ =>
    runsOut.inv ⟨piece, rest, smaller, same.trans whole, others, less⟩⟩

/-- A piece may be added to work that runs out if every smaller piece may be. -/
theorem acc_cons_of_smaller {piece : Nat}
    (ih : ∀ size < piece, ∀ sizes, Acc Shrinks ⟨sizes⟩ → Acc Shrinks ⟨size :: sizes⟩)
    {sizes : List Nat} (runsOut : Acc Shrinks ⟨sizes⟩) : Acc Shrinks ⟨piece :: sizes⟩ := by
  generalize whole : Backlog.mk sizes = backlog at runsOut
  induction runsOut generalizing sizes with
  | intro backlog before later =>
    subst whole
    refine ⟨_, fun next ⟨removed, rest, smaller, split, others, less⟩ => ?_⟩
    refine acc_of_perm others.symm ?_
    by_cases same : removed = piece
    · -- the added piece itself gives way
      subst same
      have unchanged : sizes.Perm rest := split.cons_inv
      clear others
      induction smaller with
      | nil => exact acc_of_perm unchanged ⟨_, before⟩
      | cons size smaller added =>
        exact ih size (less size List.mem_cons_self) _
          (added fun each member => less each (List.mem_cons_of_mem _ member))
    · -- an older piece gives way
      have member : piece ∈ rest := by
        have := split.mem_iff.mp (List.mem_cons_self (a := piece))
        exact (List.mem_cons.mp this).resolve_left fun equal => same equal.symm
      obtain ⟨kept, removal⟩ : ∃ kept, rest.Perm (piece :: kept) :=
        ⟨rest.erase piece, List.perm_cons_erase member⟩
      have older : sizes.Perm (removed :: kept) :=
        (split.trans ((removal.cons removed).trans (.swap piece removed kept))).cons_inv
      have step : Shrinks ⟨smaller ++ kept⟩ ⟨sizes⟩ := ⟨removed, kept, smaller, older, .rfl, less⟩
      refine acc_of_perm ?_ (later _ step rfl)
      exact List.perm_middle.symm.trans (removal.symm.append_left smaller)

/-- Work runs out. -/
theorem shrinks_wellFounded : WellFounded Shrinks := by
  have added : ∀ piece sizes, Acc Shrinks ⟨sizes⟩ → Acc Shrinks ⟨piece :: sizes⟩ := by
    intro piece
    induction piece using Nat.strongRecOn with
    | ind piece ih => exact fun sizes runsOut => acc_cons_of_smaller ih runsOut
  refine ⟨fun ⟨sizes⟩ => ?_⟩
  induction sizes with
  | nil =>
    refine ⟨_, fun next ⟨piece, rest, smaller, whole, _⟩ => ?_⟩
    exact absurd whole.length_eq (by simp)
  | cons piece sizes ih => exact added piece sizes ih

instance : WellFoundedRelation Backlog := ⟨Shrinks, shrinks_wellFounded⟩

/-- The first piece gives way to smaller ones in front of the others. -/
theorem shrinks_stack {piece : Nat} {rest smaller : List Nat}
    (less : ∀ size ∈ smaller, size < piece) : Shrinks ⟨smaller ++ rest⟩ ⟨piece :: rest⟩ :=
  ⟨piece, rest, smaller, .rfl, .rfl, less⟩

/-- The first piece gives way to smaller ones behind the others. -/
theorem shrinks_queue {piece : Nat} {rest smaller : List Nat}
    (less : ∀ size ∈ smaller, size < piece) : Shrinks ⟨rest ++ smaller⟩ ⟨piece :: rest⟩ :=
  ⟨piece, rest, smaller, .rfl, List.perm_append_comm, less⟩

/-- The first piece is done with. -/
theorem shrinks_tail (piece : Nat) (rest : List Nat) : Shrinks ⟨rest⟩ ⟨piece :: rest⟩ :=
  ⟨piece, rest, [], .rfl, .rfl, by simp⟩

end Backlog

end MessageTemplate.Document
