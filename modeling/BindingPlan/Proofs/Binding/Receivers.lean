import BindingPlan.Proofs.Binding.Requests
import BindingPlan.Proofs.Graph.Anchored

/-!
# Static members and their classes

Sources read static members through a class and through instances of it, and a class once: all
accesses to static members of a class are over the one reference of it, and no other access is over
a class.

Variables have names that sources can name here, and the classes that are imported are found. The
key of a class that is not found may be the key of a node that reads a wrapper; then the wrapper is
taken for read by the reference of the class, and its value is looked up there.

Main results:

* `Binder.Bound`: binders with bindings that succeed.
* `overClass_iff_static`: an access is over a class exactly if its member is static, and accesses
  to static members over receivers of one class are over the same reference.
* `overClass_collidingImport`: a member that is not static, over an imported class that is not
  found.
-/

namespace BindingPlan

open BindingPlan.Graph

/-- Sources can name the variable that is declared, or the class that is imported is found. -/
def Call.Named (classes : ClassRegistry) : Call → Prop
  | .addVariable name _ => IsName name.toList
  | .addImport _ qualified => (classes.findClass qualified).isOk = true
  | .parse _ | .sealGraph | .plan => True

instance (classes : ClassRegistry) : DecidablePred (Call.Named classes)
  | .addVariable name _ => inferInstanceAs (Decidable (IsName name.toList))
  | .addImport _ qualified =>
    inferInstanceAs (Decidable ((classes.findClass qualified).isOk = true))
  | .parse _ | .sealGraph | .plan => inferInstanceAs (Decidable True)

/-- A binder behind calls of which those succeed that bind sources or seal the graph; if all
wrappers have values, they may fail as well. -/
inductive Binder.Bound (classes : ClassRegistry) : Binder → Prop where
  | empty : Bound classes .empty
  | call {binder : Binder} (bound : Bound classes binder) (call : Call)
      (named : call.Named classes)
      (succeeds : classes.ReadsWrappers ∨ call.succeeds classes binder = true) :
      Bound classes (call.run classes binder)

variable {classes : ClassRegistry} {binder : Binder}

/-- If all wrappers have values, then all histories count. -/
theorem Binder.bound_after (hreads : classes.ReadsWrappers) {calls : List Call}
    (hnamed : ∀ call ∈ calls, call.Named classes) : (Binder.after classes calls).Bound classes := by
  suffices h : ∀ binder : Binder, binder.Bound classes →
      (calls.foldl (Call.run classes) binder).Bound classes from h .empty .empty
  induction calls with
  | nil => exact fun _ h => h
  | cons call calls ih =>
    rw [List.forall_mem_cons] at hnamed
    exact fun binder h => ih hnamed.2 _ (h.call call hnamed.1 (.inl hreads))

theorem serves_spelled (classes : ClassRegistry) :
    (Terms.spelled (· ∈ classes.typeNames) classes).Serves classes (· ∈ classes.typeNames) where
  literal := .symbol
  composed := fun _ _ _ hcomposes hchildren => ⟨hcomposes, hchildren⟩
  findClass := fun _ _ htype =>
    have hknown := (covers_typeNames (fun _ => True) True).findClass htype
    ⟨hknown, hknown⟩
  registry := rfl
  refers := fun _ _ _ hcomposed child hchild => (hcomposed.2 child hchild).1

theorem Call.Named.declares {call : Call} (h : call.Named classes) :
    (Terms.spelled (· ∈ classes.typeNames) classes).Declares call := by
  cases call with
  | addVariable name type => exact .identifier h
  | addImport wanted qualified =>
    intro shortName
    refine .classRef ?_
    have hfound : (classes.findClass qualified).isOk = true := h
    cases hclass : classes.findClass qualified with
    | error cause =>
      rw [hclass] at hfound
      cases hfound
    | ok type =>
      refine (ClassRegistry.exists_or_point_notMem_of_findClass hclass).imp_left ?_
      rintro ⟨c, hc, rfl⟩
      exact (covers_typeNames (fun _ => True) True).classes c hc
  | parse | sealGraph | plan => trivial

/-- The graph of such a binder grows by requests for written expressions. -/
theorem Binder.Bound.grown (h : binder.Bound classes) :
    Grown (.spelled (· ∈ classes.typeNames) classes) .empty binder.graph ∧
      binder.Reads (· ∈ classes.typeNames) := by
  induction h with
  | empty => exact ⟨.refl, reads_empty⟩
  | call _ call named succeeds ih =>
    obtain ⟨hgrown, hreads⟩ :=
      call.grown_run (serves_spelled classes) ih.2 named.declares succeeds
    exact ⟨ih.1.trans hgrown, hreads⟩

namespace Graph

/-- An access to a static member. -/
def ReadsStatic (graph : Graph) (i : Nat) : Prop :=
  (graph.node i).kind.hasReceiver = true ∧ (graph.node i).member.any Member.isStatic = true

instance (graph : Graph) : DecidablePred graph.ReadsStatic :=
  fun _ => inferInstanceAs (Decidable (_ ∧ _))

theorem Untouched.exists_anchors {known : String → Prop} {graph : Graph} (h : graph.Untouched)
    (hwell : WellAnchored known (fun _ => False) graph) (hsealed : graph.isSealed = true) {i : Nat}
    (hkind : (graph.node i).kind.hasReceiver = true) :
    ∃ child receiver member, graph.Anchors i child receiver member := by
  refine hwell.anchored i hkind (h.frozen hsealed i ?_)
  by_contra hge
  rw [node_of_size_le (Nat.le_of_not_lt hge)] at hkind
  cases hkind

end Graph

/-- In a sealed graph, the first child of an access is a class exactly if the member is static; this
class is that of the receiver that the access was written over; and accesses to static members that
were written over receivers of one class have the same first child. No name of a class goes on
behind another one here, and no wrapper gives its value by a static member. -/
theorem overClass_iff_static (hapart : classes.Apart) (hvalues : classes.UnwrapsInstances)
    (hbound : binder.Bound classes) (hsealed : binder.graph.isSealed = true) :
    let graph := binder.graph
    (∀ i, (graph.node i).kind.hasReceiver = true → ∃ child member,
      (graph.node i).children[0]? = some child ∧ (graph.node i).member = some member ∧
        ((graph.node child).kind.isClassRef = true ↔ member.isStatic = true)) ∧
    (∀ i, graph.ReadsStatic i → ∃ child receiver q,
      (graph.node i).children[0]? = some child ∧ graph.WrittenOver i receiver ∧
        graph.className? receiver = some q ∧ graph.keyOf child = Kind.classKey q) ∧
    ∀ i j receiver other, graph.ReadsStatic i → graph.ReadsStatic j →
      graph.WrittenOver i receiver → graph.WrittenOver j other →
      graph.className? receiver = graph.className? other →
      (graph.node i).children[0]? = (graph.node j).children[0]? := by
  intro graph
  obtain ⟨hgrown, hreads⟩ := hbound.grown
  obtain ⟨huntouched, hwell⟩ := hgrown.inForm hapart (covers_typeNames _ _) hvalues
  have hanchors {i : Nat} (hkind : (graph.node i).kind.hasReceiver = true) :=
    huntouched.exists_anchors hwell hsealed hkind
  have hstatic {i : Nat} (h : graph.ReadsStatic i) : ∃ child receiver q,
      (graph.node i).children[0]? = some child ∧ graph.WrittenOver i receiver ∧
        graph.className? receiver = some q ∧ graph.keyOf child = Kind.classKey q := by
    obtain ⟨child, receiver, member, hanchor⟩ := hanchors h.1
    have hmember := h.2
    rw [hanchor.hasMember] at hmember
    obtain ⟨q, hclass, hkey⟩ := hanchor.suits.key hmember
    exact ⟨child, receiver, q, hanchor.hasChild, hanchor.written, hclass, hkey⟩
  refine ⟨fun i hkind => ?_, fun i => hstatic, ?_⟩
  · obtain ⟨child, receiver, member, hanchor⟩ := hanchors hkind
    exact ⟨child, member, hanchor.hasChild, hanchor.hasMember, by rw [hanchor.suits.isClassRef]⟩
  · intro i j receiver other hi hj hreceiver hother hsame
    obtain ⟨child, receiver', q, hchild, hwritten, hclass, hkey⟩ := hstatic hi
    obtain ⟨child', other', q', hchild', hwritten', hclass', hkey'⟩ := hstatic hj
    cases hreceiver.unique hwritten hi.1 hreads.linked
    cases hother.unique hwritten' hj.1 hreads.linked
    rw [hclass, hclass'] at hsame
    cases hsame
    have hlt := hreads.linked.children_lt (List.mem_of_getElem? hchild)
    have hlt' := hreads.linked.children_lt (List.mem_of_getElem? hchild')
    rw [hchild, hchild', hreads.linked.eq_of_keyOf hlt hlt' (hkey.trans hkey'.symm)]

/-- The limit of the gauge, and the limit of that limit. -/
def sharedLimit : List Call :=
  gaugeLimit ++ [.parse "gauge.LIMIT.LIMIT", .sealGraph]

theorem overClass_iff_static_sharedLimit :
    let graph := (Binder.after .gauge sharedLimit).graph
    graph.ReadsStatic 1 ∧ graph.WrittenOver 1 0 ∧ graph.ReadsStatic 5 ∧ graph.WrittenOver 5 1 ∧
      (graph.node 1).children[0]? = (graph.node 5).children[0]? ∧
      (graph.node 1).children[0]? = some 3 := by
  intro graph
  have hnamed : ∀ call ∈ sharedLimit, call.Named .gauge := by decide +kernel
  have hfirst : graph.ReadsStatic 1 ∧ graph.WrittenOver 1 0 := by decide +kernel
  have hsecond : graph.ReadsStatic 5 ∧ graph.WrittenOver 5 1 := by decide +kernel
  have hclass : graph.className? 0 = graph.className? 1 := by decide +kernel
  have hshares := (overClass_iff_static (by decide +kernel) (by decide +kernel)
    (Binder.bound_after (by decide +kernel) hnamed) (by decide +kernel)).2.2 1 5 0 1 hfirst.1
    hsecond.1 hfirst.2 hsecond.2 hclass
  exact ⟨hfirst.1, hfirst.2, hsecond.1, hsecond.2, hshares, by decide +kernel⟩

/-- A class with a wrapper that all share. -/
def ClassRegistry.sharedWrapper : ClassRegistry :=
  (builtin.extend [
    { ClassDef.bare "W" with
      observableField := true, methods := [⟨"get", "int", [], false, false⟩] },
    { ClassDef.bare "p.C" with fields := [⟨"f", "W", true, false, false⟩] }]).1

/-- The name of the first import reads like the node that reads the wrapper `f` of the second
one. -/
def collidingImport : List Call :=
  [.addImport "Z" "p.C..f", .addImport "C" "p.C", .parse "C.f", .sealGraph]

/-- The class that is not found is taken for the node that reads the wrapper. So the binding and the
sealing succeed, and the value of the wrapper, which is not static, is looked up on a class. -/
theorem overClass_collidingImport :
    let binder := Binder.after .sharedWrapper (collidingImport.take 2)
    let graph := (Binder.after .sharedWrapper collidingImport).graph
    ClassRegistry.sharedWrapper.Apart ∧ ClassRegistry.sharedWrapper.UnwrapsInstances ∧
      (Call.parse "C.f").succeeds .sharedWrapper binder = true ∧ graph.isSealed = true ∧
      (graph.node 2).children = [0] ∧ (graph.node 0).kind.isClassRef = true ∧
      (graph.node 2).member.map Member.isStatic = some false := by
  decide +kernel

end BindingPlan
