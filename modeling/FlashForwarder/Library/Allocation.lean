import Mathlib.Data.Set.Insert

/-!
# Blocks handed out and given back

An allocator may hand out a block again once it was freed.  When a sequence of calls is legal, and
nothing is allocated before it or after it, then each block was freed once each time it was handed
out.
-/

namespace Allocation

/-- A call of an allocator. -/
inductive Call (ι : Type*) where
  /-- A block is handed out. -/
  | malloc (block : ι)
  /-- A block is given back. -/
  | free (block : ι)
  deriving DecidableEq

variable {ι : Type*}

/-- The block that a call is about. -/
def Call.block : Call ι → ι
  | .malloc block | .free block => block

/-- With `before` allocated the calls are legal, and they leave `after` allocated. -/
def Follows : Set ι → List (Call ι) → Set ι → Prop
  | before, [], after => before = after
  | before, .malloc block :: calls, after =>
      block ∉ before ∧ Follows (insert block before) calls after
  | before, .free block :: calls, after =>
      block ∈ before ∧ Follows (before \ {block}) calls after

variable {before between after : Set ι} {calls calls' : List (Call ι)}

theorem Follows.refl (before : Set ι) : Follows before [] before := rfl

theorem Follows.append (first : Follows before calls between)
    (second : Follows between calls' after) : Follows before (calls ++ calls') after := by
  induction calls generalizing before with
  | nil =>
      obtain rfl : before = between := first
      exact second
  | cons call calls ih =>
      cases call with
      | malloc block => exact ⟨first.1, ih first.2⟩
      | free block => exact ⟨first.1, ih first.2⟩

/-- Each time the block was handed out it was freed once, before it was handed out again. -/
def FreedOnce [DecidableEq ι] (block : ι) (calls : List (Call ι)) : Prop :=
  ∃ times, calls.filter (fun call => call.block = block) =
    (List.replicate times [Call.malloc block, .free block]).flatten

/-- When nothing is allocated in the end, what is left to do with a block is to free it if it is
allocated, and then to hand it out and free it any number of times. -/
theorem Follows.pairs [DecidableEq ι] (follows : Follows before calls ∅) (block : ι) :
    (block ∉ before → FreedOnce block calls) ∧
    (block ∈ before → ∃ calls', calls.filter (fun call => call.block = block) =
      .free block :: calls'.filter (fun call => call.block = block) ∧ FreedOnce block calls') := by
  induction calls generalizing before with
  | nil =>
      obtain rfl : before = ∅ := follows
      exact ⟨fun _ => ⟨0, rfl⟩, fun member => absurd member (Set.notMem_empty block)⟩
  | cons call calls ih =>
      cases call with
      | malloc other =>
          obtain ⟨fresh, rest⟩ := follows
          obtain ⟨free_later, freed_later⟩ := ih rest
          by_cases same : other = block
          · subst same
            refine ⟨fun _ => ?_, fun member => absurd member fresh⟩
            obtain ⟨calls', first, times, rest'⟩ := freed_later (Set.mem_insert other before)
            refine ⟨times + 1, ?_⟩
            rw [List.filter_cons_of_pos (by simp [Call.block]), first, rest', List.replicate_succ,
              List.flatten_cons]
            rfl
          · have kept : block ∈ insert other before ↔ block ∈ before := by
              simp [Set.mem_insert_iff, Ne.symm same]
            rw [kept] at free_later freed_later
            simpa [FreedOnce, Call.block, same] using ⟨free_later, freed_later⟩
      | free other =>
          obtain ⟨allocated, rest⟩ := follows
          obtain ⟨free_later, freed_later⟩ := ih rest
          by_cases same : other = block
          · subst same
            refine ⟨fun absent => absurd allocated absent, fun _ => ⟨calls, ?_, ?_⟩⟩
            · exact List.filter_cons_of_pos (by simp [Call.block])
            · exact free_later (by simp)
          · have kept : block ∈ before \ {other} ↔ block ∈ before := by
              simp [Ne.symm same]
            rw [kept] at free_later freed_later
            simpa [FreedOnce, Call.block, same] using ⟨free_later, freed_later⟩

/-- Calls between two moments at which nothing is allocated free every block once each time it was
handed out. -/
theorem Follows.freed_once [DecidableEq ι] (follows : Follows ∅ calls ∅) (block : ι) :
    FreedOnce block calls :=
  (follows.pairs block).1 (Set.notMem_empty block)

end Allocation
