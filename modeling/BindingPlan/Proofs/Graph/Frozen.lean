import BindingPlan.Proofs.Graph.Linked
import BindingPlan.Proofs.Graph.Plan
import BindingPlan.Proofs.Graph.Settled

/-!
# Sealed graphs are frozen

Behind a seal that succeeded every node has its type and its class, so that nothing is left to look
up; keys that are not there are refused; and what else would change the structure is refused as a
whole. Only reads go on.

Main results:

* `Graph.Unchanged`: what sealing freezes is alike in two graphs.
* `Graph.Frozen.unchanged_run`: one operation on a frozen graph, whether it succeeds or not.
* `Graph.unchanged_of_freshlySealed`: every sequence of operations behind a seal.
-/

namespace BindingPlan

namespace GraphM

/-- Commits a pass of a sealed graph; tells whether another one has something to read. -/
def commitPass : GraphM Bool := do
  let state ← requireSealed
  match state.progress.mark? state.net with
  | .error e => throw ((← get).scheduleError e)
  | .ok (progress, more) =>
    setProgress progress
    return more

end GraphM

namespace Graph

open GraphM Operation

variable {graph next last : Graph}

/-- What sealing freezes is the same: the nodes with their links, types and classes, the imports,
and the read net with its flags, edges and flag sets. -/
structure Unchanged (graph next : Graph) : Prop where
  size : next.size = graph.size
  kind : ∀ i, (next.node i).kind = (graph.node i).kind
  key : ∀ i, (next.node i).key = (graph.node i).key
  children : ∀ i, (next.node i).children = (graph.node i).children
  parents : ∀ i, (next.node i).parents = (graph.node i).parents
  isBinding : ∀ i, (next.node i).isBinding = (graph.node i).isBinding
  dynamic : ∀ i, (next.node i).dynamic = (graph.node i).dynamic
  resolvedType : ∀ i, (next.node i).resolvedType = (graph.node i).resolvedType
  imports : next.imports = graph.imports
  net : next.sealed?.map Sealed.net = graph.sealed?.map Sealed.net

theorem Unchanged.refl (graph : Graph) : graph.Unchanged graph :=
  ⟨rfl, fun _ => rfl, fun _ => rfl, fun _ => rfl, fun _ => rfl, fun _ => rfl, fun _ => rfl,
    fun _ => rfl, rfl, rfl⟩

theorem Unchanged.trans (h : graph.Unchanged next) (h' : next.Unchanged last) :
    graph.Unchanged last where
  size := h'.size.trans h.size
  kind := fun i => (h'.kind i).trans (h.kind i)
  key := fun i => (h'.key i).trans (h.key i)
  children := fun i => (h'.children i).trans (h.children i)
  parents := fun i => (h'.parents i).trans (h.parents i)
  isBinding := fun i => (h'.isBinding i).trans (h.isBinding i)
  dynamic := fun i => (h'.dynamic i).trans (h.dynamic i)
  resolvedType := fun i => (h'.resolvedType i).trans (h.resolvedType i)
  imports := h'.imports.trans h.imports
  net := h'.net.trans h.net

theorem Unchanged.find? (h : graph.Unchanged next) (key : String) :
    next.find? key = graph.find? key := by
  refine Option.ext fun id => ?_
  rw [find?_eq_some_iff, find?_eq_some_iff, h.size]
  unfold keyOf
  simp only [h.key]

theorem Unchanged.isSealed (h : graph.Unchanged next) : next.isSealed = graph.isSealed := by
  unfold Graph.isSealed
  rw [← Option.isSome_map, h.net, Option.isSome_map]

/-- Types can be declared again; nothing reads them any more. -/
theorem unchanged_setType (id : Nat) (declared : Option String) :
    graph.Unchanged (graph.modify id fun node => { node with declaredType := declared }) where
  size := size_modify _ _
  kind := eq_of_modify Node.kind rfl
  key := eq_of_modify Node.key rfl
  children := eq_of_modify Node.children rfl
  parents := eq_of_modify Node.parents rfl
  isBinding := eq_of_modify Node.isBinding rfl
  dynamic := eq_of_modify Node.dynamic rfl
  resolvedType := eq_of_modify Node.resolvedType rfl
  imports := rfl
  net := rfl

/-- Only the progress of the reads changes. -/
theorem unchanged_setProgress {state : Sealed} (h : graph.sealed? = some state)
    (progress : Progress) :
    graph.Unchanged { graph with sealed? := some ⟨state.net, progress⟩ } :=
  { Unchanged.refl graph with net := by rw [h]; rfl }

/-- Sealed, and no type or class is left to look up. -/
structure Frozen (graph : Graph) : Prop where
  isSealed : graph.isSealed = true
  resolved : graph.AllResolved
  classified : ∀ i < graph.size, (graph.node i).dynamic.isSome

theorem Frozen.mono (h : graph.Frozen) (hsame : graph.Unchanged next) : next.Frozen where
  isSealed := hsame.isSealed.trans h.isSealed
  resolved := by
    intro i hi
    rw [hsame.resolvedType]
    exact h.resolved i (hsame.size ▸ hi)
  classified := by
    intro i hi
    rw [hsame.dynamic]
    exact h.classified i (hsame.size ▸ hi)

/-- A seal that succeeds leaves the graph frozen. -/
theorem FreshlySealed.frozen (h : graph.FreshlySealed) : graph.Frozen := by
  obtain ⟨classes, before, hrun⟩ := h
  unfold GraphM.sealGraph at hrun
  rw [GraphM.run_bind, run_get] at hrun
  dsimp only at hrun
  split at hrun
  · cases hrun
  · obtain ⟨_, classified, hclassify, hrun⟩ := exists_of_run_bind hrun
    rw [GraphM.run_bind, run_get] at hrun
    dsimp only at hrun
    split at hrun
    · cases hrun
    · cases hrun
      exact ⟨rfl, fun i hi => (classified_of_run_classifyAll hclassify hi).1,
        fun i hi => (classified_of_run_classifyAll hclassify hi).2⟩

/-! ## Operations -/

/-- What can be asked of a graph, reading pass by pass included. -/
inductive Later where
  | request (asked : Request)
  | commitPass

/-- The graph behind an operation, whether it succeeds or not. -/
def Later.run (graph : Graph) : Later → Graph
  | .request asked => asked.run graph
  | .commitPass => (GraphM.commitPass.run.run graph).2

namespace Frozen

variable {α : Type}

/-- A key that is there leads to its node, and no other key is taken. -/
theorem run_register (h : graph.Frozen) (kind : Kind) (children : List Nat) :
    (register kind children).run.run graph =
      match graph.find? (kind.key (children.map graph.keyOf)) with
      | some id => (.ok id, graph)
      | none => (.error (.registerAfterSeal (kind.key (children.map graph.keyOf))), graph) := by
  unfold register
  rw [GraphM.run_bind, run_get]
  dsimp only
  cases graph.find? (kind.key (children.map graph.keyOf)) with
  | some id => rfl
  | none =>
    dsimp only
    rw [if_pos h.isSealed]
    rfl

theorem run_ensureOpen_bind (h : graph.Frozen) (f : Unit → GraphM α) :
    (ensureOpen >>= f).run.run graph = (.error .alreadySealed, graph) := by
  have hrun : ensureOpen.run.run graph = (.error .alreadySealed, graph) := by
    unfold ensureOpen
    rw [GraphM.run_bind, run_get]
    dsimp only
    rw [if_pos h.isSealed]
    rfl
  rw [GraphM.run_bind, hrun]

theorem run_classRefFor (h : graph.Frozen) (type : ClassType) :
    ((classRefFor type).run.run graph).2 = graph := by
  obtain ⟨_, -, hrun⟩ | ⟨-, -, hrun⟩ | ⟨hopen, -, -⟩ := classRefFor_cases type graph
  · rw [hrun]
  · rw [hrun]
  · cases hopen.symm.trans h.isSealed

theorem run_resolve (h : graph.Frozen) (classes : ClassRegistry) (id : Nat) :
    ((resolve classes id).run.run graph).2 = graph := by
  rcases Nat.lt_or_ge id graph.size with hid | hid
  · obtain ⟨type, htype⟩ := Option.isSome_iff_exists.mp (h.resolved id hid)
    rw [run_resolve_of_resolved htype]
  · rw [run_resolve_of_size_le hid]

theorem run_classify (h : graph.Frozen) (classes : ClassRegistry) (id : Nat) :
    ((classify classes id).run.run graph).2 = graph := by
  rcases Nat.lt_or_ge id graph.size with hid | hid
  · obtain ⟨dynamic, hdynamic⟩ := Option.isSome_iff_exists.mp (h.classified id hid)
    rw [run_classify_of_classified (h.resolved id hid) hdynamic]
  · rw [run_classify_of_size_le hid]

theorem run_sealGraph (h : graph.Frozen) (classes : ClassRegistry) :
    (sealGraph classes).run.run graph = (.error .alreadySealed, graph) := by
  unfold sealGraph
  rw [GraphM.run_bind, run_get]
  dsimp only
  rw [if_pos h.isSealed]
  rfl

theorem unchanged_register_bind (h : graph.Frozen) {kind : Kind} {children : List Nat}
    {f : Nat → GraphM α} (hf : ∀ id, graph.Unchanged ((f id).run.run graph).2) :
    graph.Unchanged ((register kind children >>= f).run.run graph).2 := by
  rw [GraphM.run_bind, h.run_register]
  cases graph.find? (kind.key (children.map graph.keyOf)) with
  | some id => exact hf id
  | none => exact .refl graph

theorem unchanged_commitPass (h : graph.Frozen) :
    graph.Unchanged (commitPass.run.run graph).2 := by
  obtain ⟨state, hstate⟩ := Option.isSome_iff_exists.mp h.isSealed
  have hrequire : requireSealed.run.run graph = (.ok state, graph) := by
    unfold requireSealed
    rw [GraphM.run_bind, run_get]
    dsimp only
    rw [hstate]
    rfl
  unfold commitPass
  rw [GraphM.run_bind, hrequire]
  dsimp only
  split
  · exact .refl graph
  · next progress more _ =>
    have hsame := unchanged_setProgress hstate progress
    unfold setProgress
    rw [GraphM.run_bind, run_modify, hstate]
    exact hsame

/-- No operation changes a frozen graph, whether it succeeds or not. -/
theorem unchanged_run (h : graph.Frozen) (later : Later) : graph.Unchanged (later.run graph) := by
  have of_eq {reached : Graph} (heq : reached = graph) : graph.Unchanged reached :=
    heq ▸ .refl graph
  cases later with
  | commitPass => exact h.unchanged_commitPass
  | request asked =>
    cases asked with
    | register kind children =>
      have hrun : graph.Unchanged ((register kind children >>= pure).run.run graph).2 :=
        h.unchanged_register_bind fun _ => .refl graph
      rwa [bind_pure] at hrun
    | declareVariable name type =>
      refine h.unchanged_register_bind fun id => of_eq ?_
      rw [h.run_ensureOpen_bind]
    | symbol text type => exact h.unchanged_register_bind fun id => unchanged_setType id _
    | addImport wanted qualified => exact of_eq (congrArg Prod.snd (h.run_ensureOpen_bind _))
    | classRefFor type => exact of_eq (h.run_classRefFor type)
    | bind id => exact of_eq (congrArg Prod.snd (h.run_ensureOpen_bind _))
    | resolve classes id => exact of_eq (h.run_resolve classes id)
    | classify classes id => exact of_eq (h.run_classify classes id)
    | «seal» classes => exact of_eq (congrArg Prod.snd (h.run_sealGraph classes))
    | plan =>
      obtain ⟨state, hstate⟩ := Option.isSome_iff_exists.mp h.isSealed
      unfold Later.run Request.run
      rw [run_plan hstate]
      exact unchanged_setProgress hstate _

theorem unchanged_foldl (h : graph.Frozen) (later : List Later) :
    graph.Unchanged (later.foldl Later.run graph) := by
  induction later generalizing graph with
  | nil => exact .refl graph
  | cons first later ih =>
    have hfirst := h.unchanged_run first
    exact hfirst.trans (ih (h.mono hfirst))

end Frozen

/-- Behind a seal that succeeded, whatever else is done with the graph, and whether it succeeds or
not: everything that sealing freezes stays what it was. A key that was there leads to its node, and
a new key is refused and changes nothing. -/
theorem unchanged_of_freshlySealed (h : graph.FreshlySealed) (later : List Later) :
    let last := later.foldl Later.run graph
    graph.Unchanged last ∧ ∀ kind children,
      let key := Kind.key kind (children.map graph.keyOf)
      (∀ id, graph.find? key = some id →
        (register kind children).run.run last = (.ok id, last)) ∧
      (graph.find? key = none →
        (register kind children).run.run last = (.error (.registerAfterSeal key), last)) := by
  intro last
  have hsame := h.frozen.unchanged_foldl later
  refine ⟨hsame, fun kind children => ?_⟩
  have hkeyOf : last.keyOf = graph.keyOf := funext hsame.key
  have hrun := (h.frozen.mono hsame).run_register kind children
  rw [hkeyOf, hsame.find?] at hrun
  refine ⟨fun id hid => ?_, fun hnone => ?_⟩
  · rw [hrun, hid]
  · rw [hrun, hnone]

/-- A literal that is not there, a binding, a pass and a second seal, behind the seal. -/
theorem unchanged_of_freshlySealed_overlap :
    let graph := Layout.overlap.sealedGraph .builtin
    let last := ([.request (.symbol "1" "int"), .request (.bind 0), .commitPass,
      .request (.seal .builtin)] : List Later).foldl Later.run graph
    graph.Unchanged last ∧ ∀ kind children,
      let key := Kind.key kind (children.map graph.keyOf)
      (∀ id, graph.find? key = some id →
        (register kind children).run.run last = (.ok id, last)) ∧
      (graph.find? key = none →
        (register kind children).run.run last = (.error (.registerAfterSeal key), last)) :=
  unchanged_of_freshlySealed Layout.freshlySealed_overlap _

end Graph
end BindingPlan
