import BindingPlan.Proofs.Binding.Steps

/-!
# Bindings make no cycles

Classifying a binding moves links of nodes, to nodes that are found by their keys. The name of a
class may go on behind the name of another class and a point; then a field of the one has the key of
the other, and a link may move to a node above it. If no name of a class does so, then whatever is
done with a binder, its graph has no cycle, and no walk runs into one.

Main results:

* `Binder.sound_after`: the graph of a binder is one of written expressions after every history.
* `acyclic_of_apart`: it has no cycle, and no operation finds one.
* `cyclic_nestedClass`: a binding that closes a cycle, as the name of a class goes on behind that of
  another one.
-/

namespace BindingPlan

open BindingPlan.Graph

/-- The names of all types. -/
def ClassRegistry.typeNames (classes : ClassRegistry) : List String :=
  classes.classes.map ClassDef.name ++ TypeName.builtin

/-- No name of a type goes on behind that of another one and a point. -/
def ClassRegistry.Apart (classes : ClassRegistry) : Prop :=
  BindingPlan.Apart (· ∈ classes.typeNames)

instance (names : List String) : Decidable (BindingPlan.Apart (· ∈ names)) :=
  decidable_of_iff (∀ q ∈ names, ∀ p ∈ names, ¬ (q.toList ++ ['.']) <+: p.toList)
    ⟨fun h q p hq hp => h q hq p hp, fun h q hq p hp => h q p hq hp⟩

instance (classes : ClassRegistry) : Decidable classes.Apart :=
  inferInstanceAs (Decidable (BindingPlan.Apart (· ∈ classes.typeNames)))

variable {classes : ClassRegistry} {known : String → Prop} {holds : Graph → Prop} {rules : Rules}

theorem covers_typeNames (spans : Span → Prop) (moves : Prop) :
    (Rules.written (· ∈ classes.typeNames) spans moves).Covers classes where
  classes := fun _ hc => List.mem_append_left _ (List.mem_map_of_mem hc)
  builtin := fun _ hname => List.mem_append_right _ hname

/-- Bindings can be written into graphs of written expressions. -/
theorem serves_written {spans : Span → Prop} (hapart : BindingPlan.Apart known)
    (hcovers : (Rules.written known spans True).Covers classes) :
    (Rules.written known spans True).Serves classes known (Sound known spans) where
  leaf := fun _ _ hleaf => .inl ⟨hleaf, rfl⟩
  expression := fun _ _ _ hcomposes hchildren => .inr ⟨hcomposes, hchildren⟩
  findClass := fun _ _ htype => ⟨hcovers.findClass htype, hcovers.findClass htype⟩
  ready := fun _ _ _ hsound hname hfound => GraphM.ready_class hsound hapart hname hfound
  steps := fun _ _ hsound hsteps => hsound.steps hapart hsteps
  classify := fun _ _ hsound hlt => GraphM.takes_classify_written hapart hcovers hsound hlt
  sealGraph := fun _ hsound => GraphM.takes_sealGraph_written hapart hcovers hsound

/-! ## Calls -/

/-- Binding any source takes steps, if any span may be given. -/
theorem BinderM.takes_bindSource_of_any {binder : Binder}
    (hserves : rules.Serves classes known holds) (hspans : ∀ span, rules.span span)
    (source : String) (hmeets : binder.Meets known holds) :
    Takes rules (fun _ => True) (bindSource classes source) binder fun _ _ => True :=
  takes_bindSource hserves (fun span _ => hspans span) (fun _ _ => trivial) (fun _ _ => trivial)
    (fun tree _ => tree.spans_true) hmeets

theorem Call.meets_run (call : Call) {binder : Binder} (hmeets : binder.Meets known holds)
    (hserves : rules.Serves classes known holds) (hspans : ∀ span, rules.span span) :
    (call.run classes binder).Meets known holds := by
  cases call with
  | addVariable name type => exact Binder.meets_addVariable hmeets hserves name type
  | addImport wanted qualified =>
    exact Binder.meets_run hmeets hserves (GraphM.takes_addImport wanted qualified)
  | parse source =>
    exact hmeets.steps hserves
      (BinderM.takes_bindSource_of_any hserves hspans source hmeets).steps
  | sealGraph => exact Binder.meets_run hmeets hserves (hserves.sealGraph _ hmeets.graph)
  | plan => exact Binder.meets_run hmeets hserves GraphM.takes_plan

theorem Binder.meets_foldl (calls : List Call) {binder : Binder} (hmeets : binder.Meets known holds)
    (hserves : rules.Serves classes known holds) (hspans : ∀ span, rules.span span) :
    (calls.foldl (Call.run classes) binder).Meets known holds := by
  induction calls generalizing binder with
  | nil => exact hmeets
  | cons call calls ih => exact ih (call.meets_run hmeets hserves hspans)

/-- After every history the graph of a binder is one of written expressions. -/
theorem Binder.sound_after (hapart : classes.Apart) (calls : List Call) :
    (Binder.after classes calls).Meets (· ∈ classes.typeNames)
      (Sound (· ∈ classes.typeNames) fun _ => True) :=
  meets_foldl calls (meets_empty sound_empty) (serves_written hapart (covers_typeNames _ _))
    fun _ => trivial

/-- Where walks may not run into a cycle, an operation finds none. -/
theorem GraphM.Takes.ne_dependencyCycle {α : Type} {operation : GraphM α} {graph : Graph}
    {R : α → Graph → Prop} (h : GraphM.Takes rules operation graph R) (hcycles : ¬ rules.cycles)
    (key : String) : (operation.run.run graph).1 ≠ .error (.dependencyCycle key) := by
  intro hrun
  exact hcycles ((Operation.Ensures.of_error h (Prod.ext hrun rfl)).2.cycle key rfl)

theorem BinderM.Takes.ne_dependencyCycle {α : Type} {operation : BinderM α} {binder : Binder}
    {given : Span → Prop} {R : α → Graph → Prop} (h : BinderM.Takes rules given operation binder R)
    (hcycles : ¬ rules.cycles) (key : String) (span : Span) :
    (operation.run.run binder).1 ≠ .error (.ofGraphError (.dependencyCycle key) span) := by
  intro hrun
  exact hcycles ((Operation.Ensures.of_error h (Prod.ext hrun rfl)).2.cycle key span rfl)

/-- If no name of a class goes on behind another one, then after every history of a binder no node
is reached from itself along children; neither resolving nor classifying a node, nor sealing the
graph, nor binding one more source runs into a cycle. -/
theorem acyclic_of_apart (hapart : classes.Apart) (calls : List Call) :
    let binder := Binder.after classes calls
    (∀ i, ¬ Relation.TransGen binder.graph.HasChild i i) ∧
    (∀ i < binder.graph.size, ∀ key,
      ((GraphM.resolve classes i).run.run binder.graph).1 ≠ .error (.dependencyCycle key) ∧
      ((GraphM.classify classes i).run.run binder.graph).1 ≠ .error (.dependencyCycle key)) ∧
    (∀ key, ((GraphM.sealGraph classes).run.run binder.graph).1 ≠ .error (.dependencyCycle key)) ∧
    ∀ source key span, ((BinderM.bindSource classes source).run.run binder).1 ≠
      .error (.ofGraphError (.dependencyCycle key) span) := by
  intro binder
  have hmeets := Binder.sound_after hapart calls
  have hcovers := @covers_typeNames classes (fun _ => True) True
  have hsound := hmeets.graph
  have hcycles : ¬ (Rules.written (· ∈ classes.typeNames) (fun _ => True) True).cycles := id
  refine ⟨hsound.formed.acyclic.not_transGen, fun i hlt key => ⟨?_, ?_⟩, fun key => ?_,
    fun source key span => ?_⟩
  · exact (GraphM.takes_resolve_written hapart hcovers hsound hlt).ne_dependencyCycle hcycles key
  · exact (GraphM.takes_classify_written hapart hcovers hsound hlt).ne_dependencyCycle hcycles key
  · exact (GraphM.takes_sealGraph_written hapart hcovers hsound).ne_dependencyCycle hcycles key
  · exact (BinderM.takes_bindSource_of_any (serves_written hapart hcovers) (fun _ => trivial) source
      hmeets).ne_dependencyCycle hcycles key span

/-- A class whose instances hold a wrapper and share a limit. -/
def ClassRegistry.gauge : ClassRegistry :=
  (builtin.extend [
    { ClassDef.bare "app.Level" with
      observableField := true, methods := [⟨"get", "int", [], false, false⟩] },
    { ClassDef.bare "app.Gauge" with
      fields := [⟨"LIMIT", "app.Gauge", true, true, false⟩,
        ⟨"level", "app.Level", false, true, false⟩] }]).1

/-- The links to the limit and to the level move. -/
def gaugeLimit : List Call :=
  [.addVariable "gauge" "app.Gauge", .parse "gauge.LIMIT.level"]

theorem acyclic_of_apart_gaugeLimit :
    ClassRegistry.gauge.Apart ∧
      ∀ i, ¬ Relation.TransGen (Binder.after .gauge gaugeLimit).graph.HasChild i i := by
  have hapart : ClassRegistry.gauge.Apart := by decide +kernel
  exact ⟨hapart, (acyclic_of_apart hapart gaugeLimit).1⟩

/-- A class named like a member of a static field of another class. -/
def ClassRegistry.nestedClass : ClassRegistry :=
  (builtin.extend [
    { ClassDef.bare "a.B" with fields := [⟨"C", "a.B.C.S.E", true, false, false⟩] },
    { ClassDef.bare "a.B.C.S.E" with fields := [⟨"S", "int", true, false, false⟩] }]).1

/-- The field `S` is read from its class, which is not told from the member `E` of the field. -/
def nestedAccess : List Call :=
  [.addImport "B" "a.B", .parse "B.C.S.E"]

theorem cyclic_nestedClass :
    Relation.TransGen (Binder.after .nestedClass nestedAccess).graph.HasChild 2 2 := by
  have hdown : 3 ∈ ((Binder.after .nestedClass nestedAccess).graph.node 2).children := by
    decide +kernel
  have hup : 2 ∈ ((Binder.after .nestedClass nestedAccess).graph.node 3).children := by
    decide +kernel
  exact .tail (.single hdown) hup

end BindingPlan
