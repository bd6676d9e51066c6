import Mathlib.Data.List.Nodup
import Mathlib.Logic.Function.Basic

/-!
# Intrusive linked lists

Nodes lie at addresses, and each points to the next one.  A list is what is met from a head on;
that a list of addresses is finite already says that it has no cycle.
-/

namespace LinkedList

variable {ι ν : Type*} (link : ν → Option ι)

/-- From `head` on, the nodes of `list` are linked one after another. -/
def Linked (nodes : ι → Option ν) : Option ι → List ι → Prop
  | head, [] => head = none
  | head, address :: list =>
      head = some address ∧ ∃ node, nodes address = some node ∧ Linked nodes (link node) list

/-- The nodes that are met from `head` on. -/
inductive Met (nodes : ι → Option ν) (head : Option ι) : ι → Prop
  | head {address : ι} : head = some address → Met nodes head address
  | next {address next : ι} {node : ν} : Met nodes head address → nodes address = some node →
      link node = some next → Met nodes head next

variable {link} {nodes nodes' : ι → Option ν} {head : Option ι} {list : List ι}

theorem Linked.unique {list' : List ι} (linked : Linked link nodes head list)
    (linked' : Linked link nodes head list') : list = list' := by
  induction list generalizing head list' with
  | nil =>
      cases list' with
      | nil => rfl
      | cons address list' =>
          obtain ⟨found, -⟩ := linked'
          exact absurd (Eq.trans (Eq.symm linked) found) (by simp)
  | cons address list ih =>
      obtain ⟨found, node, here, linked⟩ := linked
      cases list' with
      | nil => exact absurd (found.symm.trans linked') (by simp)
      | cons address' list' =>
          obtain ⟨found', node', here', linked'⟩ := linked'
          obtain rfl := Option.some_inj.mp (found.symm.trans found')
          obtain rfl := Option.some_inj.mp (here.symm.trans here')
          rw [ih linked linked']

/-- A list that goes on from the middle of another is the rest of it. -/
theorem Linked.of_append {front back : List ι} {address : ι}
    (linked : Linked link nodes head (front ++ address :: back)) :
    Linked link nodes (some address) (address :: back) := by
  induction front generalizing head with
  | nil =>
      obtain ⟨-, node, here, linked⟩ := linked
      exact ⟨rfl, node, here, linked⟩
  | cons first front ih =>
      obtain ⟨-, node, -, linked⟩ := linked
      exact ih linked

theorem Linked.nodup (linked : Linked link nodes head list) : list.Nodup := by
  induction list generalizing head with
  | nil => exact List.nodup_nil
  | cons address list ih =>
      obtain ⟨-, node, here, rest⟩ := id linked
      refine List.nodup_cons.mpr ⟨fun again => ?_, ih rest⟩
      obtain ⟨front, back, rfl⟩ := List.append_of_mem again
      have longer : Linked link nodes (some address) ((address :: front) ++ address :: back) :=
        ⟨rfl, node, here, rest⟩
      have shorter := longer.of_append
      have lengths := congrArg List.length (longer.unique shorter)
      simp only [List.length_cons, List.length_append] at lengths
      omega

/-- A list stays linked when nodes outside it change. -/
theorem Linked.congr (linked : Linked link nodes head list)
    (same : ∀ address ∈ list, nodes' address = nodes address) : Linked link nodes' head list := by
  induction list generalizing head with
  | nil => exact linked
  | cons address list ih =>
      obtain ⟨found, node, here, linked⟩ := linked
      exact ⟨found, node, (same address (by simp)).trans here,
        ih linked fun other member => same other (by simp [member])⟩

theorem Linked.mem_iff (linked : Linked link nodes head list) {address : ι} :
    address ∈ list ↔ Met link nodes head address := by
  constructor
  · intro member
    induction list generalizing head with
    | nil => exact absurd member (by simp)
    | cons first list ih =>
        obtain ⟨found, node, here, rest⟩ := linked
        rcases List.mem_cons.mp member with rfl | later
        · exact .head found
        · have met := ih rest later
          clear ih rest later member
          induction met with
          | head there => exact .next (.head found) here there
          | next _ there link ih => exact .next ih there link
  · intro met
    induction met with
    | head found =>
        cases list with
        | nil => exact absurd (found.symm.trans linked) (by simp)
        | cons first list =>
            obtain rfl := Option.some_inj.mp (found.symm.trans linked.1)
            simp
    | @next address next node _ here there ih =>
        obtain ⟨front, back, rfl⟩ := List.append_of_mem ih
        obtain ⟨-, node', here', rest⟩ := linked.of_append
        obtain rfl := Option.some_inj.mp (here.symm.trans here')
        cases back with
        | nil => exact absurd (there.symm.trans rest) (by simp)
        | cons first back =>
            obtain rfl := Option.some_inj.mp (there.symm.trans rest.1)
            simp

section

variable [DecidableEq ι]

/-- A node that points to the head is put in front. -/
theorem Linked.push (linked : Linked link nodes head list) {address : ι} {node : ν}
    (outside : address ∉ list) (points : link node = head) :
    Linked link (Function.update nodes address (some node)) (some address) (address :: list) := by
  refine ⟨rfl, node, by simp, ?_⟩
  rw [points]
  refine linked.congr fun other member => Function.update_of_ne ?_ _ _
  rintro rfl
  exact outside member

/-- A list stays linked when a node outside it changes. -/
theorem Linked.update (linked : Linked link nodes head list) {address : ι}
    (outside : address ∉ list) (node : Option ν) :
    Linked link (Function.update nodes address node) head list := by
  refine linked.congr fun other member => Function.update_of_ne ?_ _ _
  rintro rfl
  exact outside member

end

end LinkedList
