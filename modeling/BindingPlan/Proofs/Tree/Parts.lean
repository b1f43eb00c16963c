import BindingPlan.Proofs.Tree.Names

/-!
# Parts of trees

The parts of a tree are the trees that it is made of, from left to right. What is shown of a tree
from what holds of its parts holds of every tree.

Main results:

* `Tree.partsInduction`: induction over trees by their parts.
* `Tree.Spans`: a property of the spans of a tree and of all its parts.
-/

namespace BindingPlan

/-- The parts of a tree, from left to right. -/
def Tree.parts : Tree → List Tree
  | .literal _ _ | .ident _ _ => []
  | .field _ receiver _ => [receiver]
  | .call _ target _ args => target :: args
  | .unary _ _ operand => [operand]
  | .binary _ _ lhs rhs | .coalesce _ lhs rhs => [lhs, rhs]
  | .ternary _ predicate ifTrue ifFalse => [predicate, ifTrue, ifFalse]
  | .group _ inner => [inner]

theorem Tree.sizeOf_lt_of_mem_parts {part tree : Tree} (h : part ∈ tree.parts) :
    sizeOf part < sizeOf tree := by
  cases tree with
  | literal | ident => cases h
  | call span target name args =>
    rcases List.mem_cons.mp h with rfl | h
    · simp only [call.sizeOf_spec]
      omega
    · have := List.sizeOf_lt_of_mem h
      simp only [call.sizeOf_spec]
      omega
  | _ =>
    simp only [parts, List.mem_cons, List.not_mem_nil, or_false] at h
    grind [field.sizeOf_spec, unary.sizeOf_spec, binary.sizeOf_spec, coalesce.sizeOf_spec,
      ternary.sizeOf_spec, group.sizeOf_spec]

/-- Induction over trees by their parts. -/
theorem Tree.partsInduction {motive : Tree → Prop}
    (step : ∀ tree, (∀ part ∈ tree.parts, motive part) → motive tree) (tree : Tree) :
    motive tree :=
  (measure (sizeOf : Tree → Nat)).wf.induction tree fun tree ih =>
    step tree fun part hpart => ih part (sizeOf_lt_of_mem_parts hpart)

theorem Tree.mem_namesAll_of_mem {tree : Tree} {trees : List Tree} {name : String}
    (htree : tree ∈ trees) (h : name ∈ tree.names) : name ∈ Tree.namesAll trees := by
  induction htree with
  | head => exact List.mem_append_left _ h
  | tail _ _ ih => exact List.mem_append_right _ ih

theorem Tree.mem_names_of_mem_parts {part tree : Tree} {name : String} (hpart : part ∈ tree.parts)
    (h : name ∈ part.names) : name ∈ tree.names := by
  cases tree with
  | literal | ident => cases hpart
  | call span target member args =>
    rcases List.mem_cons.mp hpart with rfl | hpart
    · exact List.mem_append_left _ h
    · exact List.mem_append_right _ (List.mem_cons_of_mem _ (mem_namesAll_of_mem hpart h))
  | _ =>
    simp only [parts, List.mem_cons, List.not_mem_nil, or_false] at hpart
    grind [names]

/-! ## Spans -/

/-- The span of the tree and those of all its parts. -/
inductive Tree.Spans (spans : Span → Prop) : Tree → Prop
  | intro {tree : Tree} (span : spans tree.span) (parts : ∀ part ∈ tree.parts, Spans spans part) :
      Spans spans tree

theorem Tree.Spans.span {spans : Span → Prop} {tree : Tree} (h : tree.Spans spans) :
    spans tree.span := by
  cases h with
  | intro span _ => exact span

theorem Tree.Spans.parts {spans : Span → Prop} {tree : Tree} (h : tree.Spans spans) :
    ∀ part ∈ tree.parts, part.Spans spans := by
  cases h with
  | intro _ parts => exact parts

theorem Tree.Spans.mono {spans more : Span → Prop} (hmore : ∀ span, spans span → more span)
    {tree : Tree} (h : tree.Spans spans) : tree.Spans more := by
  induction tree using Tree.partsInduction with
  | step tree ih =>
    exact .intro (hmore _ h.span) fun part hpart => ih part hpart (h.parts part hpart)

theorem Tree.spans_true (tree : Tree) : tree.Spans fun _ => True := by
  induction tree using Tree.partsInduction with
  | step tree ih => exact .intro trivial ih

end BindingPlan
