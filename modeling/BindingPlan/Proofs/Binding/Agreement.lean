import BindingPlan.Proofs.Binding.Reading
import BindingPlan.Proofs.Binding.Steps
import BindingPlan.Proofs.Graph.Typed

/-!
# Binders that agree with a dictionary

Binding imports classes on demand, and later names are looked up among the imports first. A name is
unmistakable if that makes no difference to it. Then the names in a tree refer to the same variables
and classes, whatever was bound before.

Main results:

* `Binder.Unmistakable`: names that refer to the same whatever is imported on demand.
* `Binder.Agrees`: the binders behind some bindings.
* `Binder.Agrees.class?_eq`: names refer to the same classes in all of them.
-/

namespace BindingPlan

open BindingPlan.Graph

variable {classes : ClassRegistry} {dict : Dictionary classes} {declared binder next : Binder}
  {name : String}

/-! ## Names -/

/-- The name is that of a variable or of an import, or else every class that may be imported under
it is found by it, and no class has a qualified name that starts with it. -/
def Binder.Unmistakable (classes : ClassRegistry) (binder : Binder) (name : String) : Prop :=
  (binder.variableNode? name).isSome ∨ (binder.graph.imports.get? name).isSome ∨
    ∀ c ∈ classes.classes, Numbers (TypeName.simple c.name) name →
      classes.lookup? name = classes.lookup? c.name ∧
        ∀ other ∈ classes.classes, ¬ (name.toList ++ ['.']) <+: other.name.toList

instance : Decidable (binder.Unmistakable classes name) :=
  inferInstanceAs (Decidable (_ ∨ _ ∨ ∀ c ∈ classes.classes, _ → _ ∧ ∀ other ∈ classes.classes, _))

namespace Binder

/-- The graph agrees with the dictionary, and the variables are those that were declared. -/
structure Agrees (dict : Dictionary classes) (binder declared : Binder) : Prop where
  judged : Judged dict declared.graph.imports (fun _ => False) binder.graph
  variableNodes : binder.variableNodes = declared.variableNodes
  finds : binder.FindsVariables

theorem Agrees.variableNode? (h : binder.Agrees dict declared) :
    binder.variableNode? name = declared.variableNode? name := by
  unfold Binder.variableNode?
  rw [h.variableNodes]

/-- What is imported on demand under the name is the class that the name finds. -/
theorem Agrees.lookup?_of_import (h : binder.Agrees dict declared)
    (hname : declared.Unmistakable classes name) (hvariable : declared.variableNode? name = none)
    (hdeclared : declared.graph.imports.get? name = none) {qualified : String}
    (himport : binder.graph.imports.get? name = some qualified) :
    classes.lookup? name = classes.lookup? qualified ∧
      ∀ other ∈ classes.classes, ¬ (name.toList ++ ['.']) <+: other.name.toList := by
  obtain hold | ⟨hnumbers, type, htype, rfl⟩ := h.judged.imports.added name qualified himport
  · cases hdeclared.symm.trans hold
  · obtain ⟨c, hc, hcname⟩ := ClassRegistry.exists_mem_of_findClass htype
    obtain hsome | hsome | hclass := hname
    · rw [hvariable] at hsome
      cases hsome
    · rw [hdeclared] at hsome
      cases hsome
    · rw [← hcname]
      exact hclass c hc (hcname ▸ hnumbers)

theorem toOption_findClass_eq {other : String} (h : classes.lookup? name = classes.lookup? other) :
    (classes.findClass name).toOption = (classes.findClass other).toOption := by
  unfold ClassRegistry.findClass
  rw [h]
  split <;> rfl

theorem class?_ident {span : Span} : binder.class? classes (.ident span name) =
    if (binder.variableNode? name).isSome then none
    else (classes.findClass ((binder.graph.imports.get? name).getD name)).toOption :=
  rfl

theorem class?_field {span : Span} {receiver : Tree} {member : Name} {root : String}
    {rest : List String} (h : receiver.dottedNames? = some (root :: rest)) :
    binder.class? classes (.field span receiver member) =
      if (binder.variableNode? root).isSome || (binder.graph.imports.get? root).isSome then none
      else (classes.findClass (".".intercalate (root :: (rest ++ [member.text])))).toOption := by
  have hnames : (Tree.field span receiver member).dottedNames? =
      some (root :: (rest ++ [member.text])) := by
    rw [Tree.dottedNames?, h]
    rfl
  show Option.bind _ _ = _
  rw [hnames]
  rfl

theorem class?_field_of_none {span : Span} {receiver : Tree} {member : Name}
    (h : receiver.dottedNames? = none) :
    binder.class? classes (.field span receiver member) = none := by
  have hnames : (Tree.field span receiver member).dottedNames? = none := by
    rw [Tree.dottedNames?, h]
    rfl
  show Option.bind _ _ = _
  rw [hnames]
  rfl

/-- Names refer to the same classes as in front of all bindings. -/
theorem Agrees.class?_eq (h : binder.Agrees dict declared) {tree : Tree}
    (hidents : ∀ name ∈ tree.idents, declared.Unmistakable classes name) :
    binder.class? classes tree = declared.class? classes tree := by
  cases tree with
  | ident span name =>
    have hname := hidents name (List.mem_singleton_self name)
    rw [class?_ident, class?_ident, h.variableNode?]
    cases hvariable : declared.variableNode? name with
    | some id => rfl
    | none =>
      cases hdeclared : declared.graph.imports.get? name with
      | some qualified => rw [h.judged.imports.keeps name qualified hdeclared]
      | none =>
        cases himport : binder.graph.imports.get? name with
        | none => rfl
        | some qualified =>
          exact (toOption_findClass_eq
            (h.lookup?_of_import hname hvariable hdeclared himport).1).symm
  | field span receiver member =>
    cases hnames : receiver.dottedNames? with
    | none => rw [class?_field_of_none hnames, class?_field_of_none hnames]
    | some names =>
      obtain ⟨root, hroot, rest, rfl⟩ := Tree.exists_of_dottedNames? hnames
      rw [class?_field hnames, class?_field hnames, h.variableNode?]
      cases hvariable : declared.variableNode? root with
      | some id => rfl
      | none =>
        cases hdeclared : declared.graph.imports.get? root with
        | some qualified => rw [h.judged.imports.keeps root qualified hdeclared]
        | none =>
          cases himport : binder.graph.imports.get? root with
          | none => rfl
          | some qualified =>
            -- no class has a name that starts with this one
            obtain ⟨-, hprefix⟩ :=
              h.lookup?_of_import (hidents root hroot) hvariable hdeclared himport
            obtain ⟨chain, hchain⟩ : ∃ chain,
                (".".intercalate (root :: (rest ++ [member.text]))).toList =
                  root.toList ++ '.' :: chain := by
              cases rest <;> simp [String.intercalate_cons_cons]
            have hnone :
                classes.lookup? (".".intercalate (root :: (rest ++ [member.text]))) = none := by
              refine ClassRegistry.lookup?_eq_none (fun c hc heq => hprefix c hc ?_) ?_
              · rw [heq, hchain]
                exact ⟨chain, by rw [List.append_assoc, List.singleton_append]⟩
              · rw [hchain]
                exact List.mem_append_right _ List.mem_cons_self
            unfold ClassRegistry.findClass
            rw [hnone]
            rfl
  | _ => rfl

end Binder
end BindingPlan
