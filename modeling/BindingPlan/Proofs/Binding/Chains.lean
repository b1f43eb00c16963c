import BindingPlan.Proofs.Binding.Acyclic
import BindingPlan.Proofs.Binding.Relowering
import BindingPlan.Proofs.Graph.Accesses
import BindingPlan.Proofs.Graph.Settled
import Mathlib.Data.List.Infix

/-!
# Chains of names

A chain such as `android.view.View.VISIBLE` that starts neither with a variable nor with an imported
name refers to the class of its longest prefix that is one, and then to members. Prefixes are tried
from the whole chain down, and nothing is registered on the way down; the accesses are registered on
the way back, each over the one before.

Main results:

* `Graph.Chained`: the nodes of accesses behind each other.
* `BinderM.lower_chain`: what a chain with a class in front is lowered to, and that a chain without
  one is an error that registers nothing.
-/

namespace BindingPlan

/-- The key of accesses behind each other, over a node with the key. -/
def accessKey (base : String) (names : List String) : String :=
  names.foldl (fun key name => (Kind.field name false).key [key]) base

theorem accessKey_concat (base : String) (names : List String) (name : String) :
    accessKey base (names ++ [name]) = (Kind.field name false).key [accessKey base names] := by
  unfold accessKey
  rw [List.foldl_append]
  rfl

theorem length_accessKey_lt (base : String) (names : List String) (name : String) :
    (accessKey base names).length < (accessKey base (names ++ [name])).length := by
  rw [accessKey_concat]
  show (accessKey base names).length < (accessKey base names ++ "." ++ name).length
  simp only [String.length_append]
  have : ".".length = 1 := rfl
  omega

namespace Tree

/-- Where the first name of a chain stands. -/
def rootSpan : Tree → Span
  | .field _ receiver _ => receiver.rootSpan
  | tree => tree.span

/-- The tree is a chain of these names. -/
inductive Chain : Tree → List String → Prop
  | ident (span : Span) (name : String) : Chain (.ident span name) [name]
  | field {receiver : Tree} {names : List String} (span : Span) (name : Name)
      (chain : Chain receiver names) : Chain (.field span receiver name) (names ++ [name.text])

theorem Chain.dottedNames? {tree : Tree} {names : List String} (h : tree.Chain names) :
    tree.dottedNames? = some names := by
  induction h with
  | ident span name => rfl
  | field span name _ ih =>
    unfold Tree.dottedNames?
    rw [ih]
    rfl

theorem chain_of_dottedNames? {tree : Tree} {names : List String}
    (h : tree.dottedNames? = some names) : tree.Chain names := by
  induction tree using Tree.dottedNames?.induct generalizing names with
  | case1 span name =>
    cases h
    exact .ident span name
  | case2 span receiver name ih =>
    obtain ⟨inner, hinner, rfl⟩ := Option.map_eq_some_iff.mp h
    exact .field span name (ih hinner)
  | case3 tree hident hfield =>
    unfold Tree.dottedNames? at h
    split at h
    · exact (hident _ _ rfl).elim
    · exact (hfield _ _ _ rfl).elim
    · cases h

end Tree

namespace Graph

variable {first graph next last : Graph} {key base : String} {bound more id : Nat}

/-- The nodes of accesses behind each other, from the node with the key on. An access is found by
its key, and if it was not there at first then it is registered over the access before. -/
inductive Chained (first graph : Graph) (base : String) : List String → Nat → Prop
  | base {id : Nat} (found : graph.find? base = some id) : Chained first graph base [] id
  | access {names : List String} {name : String} {receiver id : Nat}
      (accessed : Chained first graph base names receiver)
      (found : graph.find? (accessKey base (names ++ [name])) = some id)
      (kind : (graph.node id).kind = .field name false)
      (children : first.find? (accessKey base (names ++ [name])) = none →
        (graph.node id).children = [receiver]) :
      Chained first graph base (names ++ [name]) id

theorem Chained.found {names : List String} (h : Chained first graph base names id) :
    graph.find? (accessKey base names) = some id := by
  cases h with
  | base found => exact found
  | access _ found _ _ => exact found

/-- The later graph has the nodes of this one as they are, and others with keys up to a length. -/
structure Enters (bound : Nat) (graph next : Graph) : Prop where
  keeps : graph.Keeps next
  isSealed : next.isSealed = graph.isSealed
  find?_eq : ∀ key : String, bound < key.length → next.find? key = graph.find? key
  size_le : graph.size ≤ next.size
  kind : ∀ i < graph.size, (next.node i).kind = (graph.node i).kind
  children : ∀ i < graph.size, (next.node i).children = (graph.node i).children

theorem Enters.trans (h : Enters bound graph next) (h' : Enters more next last)
    (hle : bound ≤ more) : Enters more graph last where
  keeps := h.keeps.trans h'.keeps
  isSealed := h'.isSealed.trans h.isSealed
  find?_eq key hkey :=
    (h'.find?_eq key hkey).trans (h.find?_eq key (Nat.lt_of_le_of_lt hle hkey))
  size_le := Nat.le_trans h.size_le h'.size_le
  kind i hi := (h'.kind i (Nat.lt_of_lt_of_le hi h.size_le)).trans (h.kind i hi)
  children i hi := (h'.children i (Nat.lt_of_lt_of_le hi h.size_le)).trans (h.children i hi)

theorem enters_setSpan (graph : Graph) (id : Nat) (span : Span) :
    Enters bound graph (graph.setSpan id span) where
  keeps := allows_keeps.setSpan graph id span
  isSealed := rfl
  find?_eq key _ := by
    have hkeyOf (i : Nat) : (graph.setSpan id span).keyOf i = graph.keyOf i :=
      keyOf_modify _ id i
    have hsize : (graph.setSpan id span).size = graph.size := size_modify _ _
    refine Option.ext fun i => ?_
    rw [find?_eq_some_iff, find?_eq_some_iff]
    simp only [hkeyOf, hsize]
  size_le := Nat.le_of_eq (size_modify _ _).symm
  kind i _ := eq_of_modify Node.kind rfl i
  children i _ := eq_of_modify Node.children rfl i

theorem enters_imports (graph : Graph) (imports : ImportTable) :
    Enters bound graph { graph with imports := imports } :=
  ⟨keeps_of_nodes_eq rfl, rfl, fun _ _ => rfl, Nat.le_refl _, fun _ _ => rfl, fun _ _ => rfl⟩

theorem enters_push {node : Node} (hkey : node.key.length ≤ bound) :
    Enters bound graph (graph.push node) where
  keeps := keeps_push node
  isSealed := isSealed_push graph node
  find?_eq key hlt := find?_push_of_ne fun heq => by
    rw [heq] at hlt
    omega
  size_le := by
    rw [size_push]
    omega
  kind _ hi := kind_push hi
  children _ hi := children_push hi

theorem Chained.mono {names : List String} (h : Chained first graph base names id)
    (henters : Enters bound graph next) : Chained first next base names id := by
  induction h with
  | base found => exact .base (henters.keeps _ _ found)
  | access _ found kind children ih =>
    have hid := (find?_eq_some_iff.mp found).1
    refine .access ih (henters.keeps _ _ found) ?_ fun hnone => ?_
    · rw [henters.kind _ hid, kind]
    · rw [henters.children _ hid, children hnone]

/-- A chain goes on with an access that is registered for it. -/
theorem Chained.push {names : List String} {name : String} {receiver : Nat}
    (h : Chained first graph base names receiver)
    (hnew : graph.find? (accessKey base (names ++ [name])) = none) (span : Span) :
    let key := accessKey base (names ++ [name])
    let next := (graph.push (.new (.field name false) key [receiver])).setSpan graph.size span
    Enters key.length graph next ∧ Chained first next base (names ++ [name]) graph.size := by
  intro key next
  let node := Node.new (.field name false) key [receiver]
  have hself : (graph.push node).node graph.size = node := node_push_self
  have hsize : graph.size < (graph.push node).size := by
    rw [size_push]
    omega
  have hspan : Enters key.length (graph.push node) next := enters_setSpan _ graph.size span
  have henters : Enters key.length graph next :=
    (enters_push (Nat.le_refl node.key.length)).trans hspan (Nat.le_refl _)
  refine ⟨henters, .access (h.mono henters) (hspan.keeps _ _ (find?_push_self hnew)) ?_ fun _ => ?_⟩
  · rw [hspan.kind _ hsize, hself]
    rfl
  · rw [hspan.children _ hsize, hself]
    rfl

end Graph

/-! ## Lowering -/

namespace BinderM

open Operation

variable {classes : ClassRegistry} {binder next : Binder} {base name : String}
  {names : List String} {type : ClassType}

/-- How a chain is lowered: to the node of its last access, or not at all, because the graph is
sealed and lacks the node of the class or of an access. -/
inductive LowersChain (binder : Binder) (base : String) (names : List String) :
    Except Diagnostic Nat × Binder → Prop
  | reached {id : Nat} {next : Binder}
      (enters : Graph.Enters (accessKey base names).length binder.graph next.graph)
      (chained : Graph.Chained binder.graph next.graph base names id)
      (held : binder.graph.isSealed = true →
        ∀ path, path <+: names → (binder.graph.find? (accessKey base path)).isSome) :
      LowersChain binder base names (.ok id, next)
  | sealed {path : List String} {next : Binder} (span : Span) (isPrefix : path <+: names)
      (isSealed : binder.graph.isSealed = true)
      (missing : binder.graph.find? (accessKey base path) = none) :
      LowersChain binder base names
        (.error (.ofGraphError (.registerAfterSeal (accessKey base path)) span), next)

/-- A chain that is a class as a whole. -/
theorem lowersChain_classNamed? {qualified : String} (binder : Binder) (span : Span)
    (hclass : classes.findClass qualified = .ok type) :
    (∃ id next, (classNamed? classes qualified span).run.run binder = (.ok (some id), next) ∧
      LowersChain binder (Kind.classKey type.name) [] (.ok id, next)) ∨
    ∃ d next, (classNamed? classes qualified span).run.run binder = (.error d, next) ∧
      LowersChain binder (Kind.classKey type.name) [] (.error d, next) := by
  unfold classNamed?
  rw [hclass]
  dsimp only
  obtain ⟨id, hfound, hrun⟩ | ⟨hsealed, hnone, hrun⟩ | ⟨hopen, hnew, name, imports, hrun⟩ :=
    GraphM.classRefFor_cases type binder.graph
  · left
    rw [run_bind_of_run (run_onGraph_of_run span hrun)]
    refine ⟨id, _, rfl, .reached (Graph.enters_setSpan _ id span) (.base ?_) fun _ path hpath => ?_⟩
    · exact Graph.allows_keeps.setSpan _ id span _ _ hfound
    · cases List.prefix_nil.mp hpath
      exact Option.isSome_of_eq_some hfound
  · right
    rw [run_bind, run_onGraph, hrun]
    have hnone : binder.graph.find? (accessKey (Kind.classKey type.name) []) = none := hnone
    have herror := @LowersChain.sealed binder _ [] [] binder span List.prefix_rfl hsealed hnone
    exact ⟨_, _, rfl, herror⟩
  · left
    rw [run_bind_of_run (run_onGraph_of_run span hrun)]
    refine ⟨_, _, rfl, .reached ?_ (.base ?_) fun hsealed => ?_⟩
    · have hpush : Graph.Enters (Kind.classKey type.name).length
          { binder.graph with imports := imports } _ :=
        Graph.enters_push (Nat.le_refl (GraphM.classNode name type).key.length)
      exact ((Graph.enters_imports _ imports).trans hpush (Nat.le_refl _)).trans
        (Graph.enters_setSpan _ _ span) (Nat.le_refl _)
    · refine Graph.allows_keeps.setSpan _ _ span _ _ ?_
      exact GraphM.find?_push_classNode imports name hnew
    · cases hopen.symm.trans hsealed

theorem LowersChain.error_of_prefix {more : List String} {d : Diagnostic}
    (h : LowersChain binder base names (.error d, next)) (hpre : names <+: more) :
    LowersChain binder base more (.error d, next) := by
  cases h with
  | «sealed» span isPrefix isSealed missing =>
    exact .sealed span (isPrefix.trans hpre) isSealed missing

/-- An access to the node that the chain before it is lowered to, unless the key of the access is
the key of another expression. -/
theorem LowersChain.access {receiver : Nat}
    (h : LowersChain binder base names (.ok receiver, next)) (span : Span)
    (hown : ∀ id, binder.graph.find? (accessKey base (names ++ [name])) = some id →
      (binder.graph.node id).kind = .field name false) :
    LowersChain binder base (names ++ [name])
      ((node span (GraphM.register (.field name false) [receiver])).run.run next) := by
  cases h with
  | reached enters chained held =>
    have hlt := length_accessKey_lt base names name
    have hfind := enters.find?_eq _ hlt
    have hkey : (Kind.field name false).key ([receiver].map next.graph.keyOf) =
        accessKey base (names ++ [name]) := by
      rw [accessKey_concat, List.map_singleton, Graph.keyOf_of_find? chained.found]
    have hheld (hfound : (binder.graph.find? (accessKey base (names ++ [name]))).isSome)
        (hsealed : binder.graph.isSealed = true) (path : List String)
        (hpath : path <+: names ++ [name]) : (binder.graph.find? (accessKey base path)).isSome := by
      obtain rfl | hpath := List.prefix_concat_iff.mp hpath
      · exact hfound
      · exact held hsealed path hpath
    obtain ⟨id, hid, hrun⟩ | ⟨hsealed, hrun⟩ | ⟨hopen, hnew, hrun⟩ :=
      GraphM.register_cases (.field name false) [receiver] next.graph
    · rw [run_node span hrun]
      rw [hkey, hfind] at hid
      have hspan : Graph.Enters (accessKey base (names ++ [name])).length next.graph _ :=
        Graph.enters_setSpan next.graph id span
      have hgraph := enters.trans hspan (Nat.le_of_lt hlt)
      refine .reached hgraph (.access (chained.mono hspan) (hgraph.keeps _ _ hid) ?_ ?_)
        (hheld (Option.isSome_of_eq_some hid))
      · rw [hgraph.kind _ (Graph.find?_eq_some_iff.mp hid).1]
        exact hown id hid
      · rw [hid]
        exact nofun
    · rw [hkey] at hrun
      have hmissing : binder.graph.find? (accessKey base (names ++ [name])) = none := by
        cases hfound : binder.graph.find? (accessKey base (names ++ [name])) with
        | none => rfl
        | some id =>
          have := GraphM.run_register_of_find? (hkey.symm ▸ hfind.trans hfound)
          cases hrun.symm.trans this
      unfold BinderM.node
      rw [run_bind, run_onGraph, hrun]
      exact .sealed span List.prefix_rfl (enters.isSealed ▸ hsealed) hmissing
    · rw [run_node span hrun]
      rw [hkey] at hnew ⊢
      obtain ⟨hpush, hchained⟩ := chained.push hnew span
      refine .reached (enters.trans hpush (Nat.le_of_lt hlt)) hchained fun hsealed => ?_
      cases hopen.symm.trans (enters.isSealed.trans hsealed)

/-- A chain that starts neither with a variable nor with an imported name is looked up as a
class. -/
theorem run_classPath? {tree : Tree} (hchain : tree.dottedNames? = some names)
    (hvariable : binder.variableNode? (names.headD "") = none)
    (himport : binder.graph.imports.get? (names.headD "") = none) :
    (classPath? classes tree).run.run binder =
      (classNamed? classes (".".intercalate names) tree.span).run.run binder := by
  unfold classPath? imported?
  simp only [hchain]
  rw [run_bind, run_get]
  dsimp only
  rw [bind_assoc, run_bind, run_get]
  simp only [pure_bind, hvariable, himport, Option.isSome_none, Bool.or_self, Bool.false_eq_true,
    if_false]

/-- The error about a name that stands for nothing. -/
def unknownName (name : String) (span : Span) : Diagnostic :=
  { Diagnostic.error DiagnosticCode.unknownIdentifier span
      ("unknown identifier `" ++ name ++ "`") with
    hint := some "declare it as a variable or import its class" }

/-- So is a single name. -/
theorem run_lowerName (span : Span) (hvariable : binder.variableNode? name = none)
    (himport : binder.graph.imports.get? name = none) :
    (lowerName classes name span).run.run binder =
      ((classNamed? classes name span >>= fun found =>
        match found with
        | some id => pure id
        | none => throw (unknownName name span)) : BinderM Nat).run.run binder := by
  unfold lowerName imported?
  rw [run_bind, run_get]
  simp only [hvariable]
  rw [bind_assoc, run_bind, run_get]
  simp only [himport, pure_bind, Option.getD_none]
  rfl

theorem run_classNamed?_of_unknown {qualified : String} (span : Span)
    (hunknown : ∀ type, classes.findClass qualified ≠ .ok type) :
    (classNamed? classes qualified span).run.run binder = (.ok none, binder) := by
  unfold classNamed?
  split
  · rfl
  · next type htype => exact absurd htype (hunknown type)

/-- Lowering a chain with a class in front, which is the longest one. -/
theorem lowersChain_lower {tree : Tree} {path members : List String}
    (hchain : tree.Chain (path ++ members)) (hpath : path ≠ [])
    (hvariable : binder.variableNode? (path.headD "") = none)
    (himport : binder.graph.imports.get? (path.headD "") = none)
    (hclass : classes.findClass (".".intercalate path) = .ok type)
    (hlongest : ∀ longer, longer ≠ [] → longer <+: members →
      ∀ type, classes.findClass (".".intercalate (path ++ longer)) ≠ .ok type)
    (hown : ∀ names name, names ++ [name] <+: members → ∀ id,
      binder.graph.find? (accessKey (Kind.classKey type.name) (names ++ [name])) = some id →
      (binder.graph.node id).kind = .field name false) :
    LowersChain binder (Kind.classKey type.name) members ((lower classes tree).run.run binder) := by
  have hhead (members : List String) : (path ++ members).headD "" = path.headD "" := by
    cases path with
    | nil => exact absurd rfl hpath
    | cons first rest => rfl
  generalize hnames : path ++ members = names at hchain
  induction hchain generalizing members with
  | ident span name =>
    obtain ⟨rfl, rfl⟩ := (List.append_eq_singleton_iff.mp hnames).resolve_left fun h => hpath h.1
    rw [String.intercalate_singleton] at hclass
    have hlower : (lowerName classes name span).run.run binder = _ :=
      run_lowerName span hvariable himport
    unfold lower
    rw [hlower]
    obtain ⟨id, next, hrun, h⟩ | ⟨d, next, hrun, h⟩ := lowersChain_classNamed? binder span hclass
    · rw [run_bind_of_run hrun]
      exact h
    · rw [run_bind, hrun]
      exact h
  | @field receiver inner span name hreceiver ih =>
    have hdotted := (hreceiver.field span name).dottedNames?
    rw [← hnames] at hdotted
    have hclassPath : (classPath? classes (.field span receiver name)).run.run binder = _ :=
      run_classPath? hdotted ((hhead members).symm ▸ hvariable) ((hhead members).symm ▸ himport)
    unfold lower
    obtain rfl | ⟨before, last, rfl⟩ := members.eq_nil_or_concat'
    · rw [List.append_nil] at hclassPath
      obtain ⟨id, next, hrun, h⟩ | ⟨d, next, hrun, h⟩ :=
        lowersChain_classNamed? binder span hclass
      · rw [run_bind_of_run (hclassPath.trans hrun)]
        exact h
      · rw [run_bind, hclassPath.trans hrun]
        exact h
    · -- the whole is no class, so the last name is an access to what is in front of it
      rw [run_classNamed?_of_unknown _
        (hlongest _ (List.append_ne_nil_of_right_ne_nil _ (List.cons_ne_nil _ _)) List.prefix_rfl)]
        at hclassPath
      rw [run_bind_of_run hclassPath]
      rw [← List.append_assoc] at hnames
      obtain ⟨rfl, hlast⟩ := List.append_inj' hnames rfl
      cases hlast
      have hpre : before <+: before ++ [name.text] := List.prefix_append _ _
      have hlowers := ih
        (fun longer hne hlonger => hlongest longer hne (hlonger.trans hpre))
        (fun names name hnames => hown names name (hnames.trans hpre)) rfl
      dsimp only
      rw [run_bind]
      generalize (lower classes receiver).run.run binder = outcome at hlowers
      obtain ⟨d | id, next⟩ := outcome
      · exact hlowers.error_of_prefix hpre
      · exact hlowers.access span (hown before name.text List.prefix_rfl)

/-- A chain without a class in front is an error about its first name, and changes nothing. -/
theorem run_lower_of_unknown {tree : Tree} {root : String} {rest : List String}
    (hchain : tree.Chain (root :: rest)) (hvariable : binder.variableNode? root = none)
    (himport : binder.graph.imports.get? root = none)
    (hunknown : ∀ path, path ≠ [] → path <+: root :: rest →
      ∀ type, classes.findClass (".".intercalate path) ≠ .ok type) :
    (lower classes tree).run.run binder = (.error (unknownName root tree.rootSpan), binder) := by
  generalize hnames : root :: rest = names at hchain
  induction hchain generalizing rest with
  | ident span name =>
    obtain ⟨rfl, rfl⟩ := List.cons_eq_cons.mp hnames
    have hclass := hunknown [root] (List.cons_ne_nil _ _) List.prefix_rfl
    rw [String.intercalate_singleton] at hclass
    unfold lower
    rw [run_lowerName span hvariable himport,
      run_bind_of_run (run_classNamed?_of_unknown span hclass)]
    rfl
  | @field receiver inner span name hreceiver ih =>
    have hdotted := (hreceiver.field span name).dottedNames?
    rw [← hnames] at hdotted
    have hclassPath : (classPath? classes (.field span receiver name)).run.run binder = _ :=
      run_classPath? hdotted hvariable himport
    rw [run_classNamed?_of_unknown _ (hunknown _ (List.cons_ne_nil _ _) List.prefix_rfl)]
      at hclassPath
    obtain ⟨first, -, more, rfl⟩ := Tree.exists_of_dottedNames? hreceiver.dottedNames?
    obtain ⟨rfl, rfl⟩ := List.cons_eq_cons.mp hnames
    have hlower := ih (fun path hne hpre =>
      hunknown path hne (hpre.trans (List.prefix_append _ _))) rfl
    unfold lower
    rw [run_bind_of_run hclassPath]
    dsimp only
    rw [run_bind, hlower]
    rfl

/-- A chain that starts neither with a variable nor with an imported name. Let the longest prefix
that is a class be given, and no access behind it have the key of another expression. Then the chain
is lowered to the accesses behind the node of the class, if the graph is open or has their nodes;
and a graph that is sealed refuses one of the nodes that it lacks. If no prefix is a class then the
first name is an error, and nothing is registered. -/
theorem lower_chain {tree : Tree} {root : String} {rest : List String}
    (hchain : tree.dottedNames? = some (root :: rest))
    (hvariable : binder.variableNode? root = none)
    (himport : binder.graph.imports.get? root = none) :
    (∀ path members type, root :: rest = path ++ members → path ≠ [] →
      classes.findClass (".".intercalate path) = .ok type →
      (∀ longer, longer ≠ [] → longer <+: members →
        ∀ type, classes.findClass (".".intercalate (path ++ longer)) ≠ .ok type) →
      (∀ names name, names ++ [name] <+: members → ∀ id,
        binder.graph.find? (accessKey (Kind.classKey type.name) (names ++ [name])) = some id →
        (binder.graph.node id).kind = .field name false) →
      ((binder.graph.isSealed = true → ∀ names, names <+: members →
          (binder.graph.find? (accessKey (Kind.classKey type.name) names)).isSome) →
        ∃ id next, (lower classes tree).run.run binder = (.ok id, next) ∧
          Graph.Chained binder.graph next.graph (Kind.classKey type.name) members id) ∧
      (binder.graph.isSealed = true → ∀ names, names <+: members →
        binder.graph.find? (accessKey (Kind.classKey type.name) names) = none →
        ∃ missing span, missing <+: members ∧
          binder.graph.find? (accessKey (Kind.classKey type.name) missing) = none ∧
          ((lower classes tree).run.run binder).1 = .error (.ofGraphError
            (.registerAfterSeal (accessKey (Kind.classKey type.name) missing)) span))) ∧
    ((∀ path, path ≠ [] → path <+: root :: rest →
        ∀ type, classes.findClass (".".intercalate path) ≠ .ok type) →
      (lower classes tree).run.run binder = (.error (unknownName root tree.rootSpan), binder)) := by
  have hchain := Tree.chain_of_dottedNames? hchain
  refine ⟨fun path members type hnames hpath hclass hlongest hown => ?_,
    run_lower_of_unknown hchain hvariable himport⟩
  obtain ⟨first, more, rfl⟩ := List.exists_cons_of_ne_nil hpath
  obtain ⟨rfl, rfl⟩ := List.cons_eq_cons.mp hnames
  have hlowers := lowersChain_lower hchain hpath hvariable himport hclass hlongest hown
  generalize (lower classes tree).run.run binder = outcome at hlowers
  cases hlowers with
  | reached enters chained held =>
    refine ⟨fun _ => ⟨_, _, rfl, chained⟩, fun hsealed names hpre hmissing => ?_⟩
    have hheld := held hsealed names hpre
    rw [hmissing] at hheld
    cases hheld
  | «sealed» span isPrefix isSealed missing =>
    refine ⟨fun hheld => ?_, fun _ _ _ _ => ⟨_, span, isPrefix, missing, rfl⟩⟩
    have hheld := hheld isSealed _ isPrefix
    rw [missing] at hheld
    cases hheld

/-- Of the four names the first two are a class, whose node is there; the accesses are new. -/
theorem lower_chain_gaugeLimit :
    let binder := Binder.after .gauge gaugeLimit
    let tree : Tree := .field ⟨0, 21⟩ (.field ⟨0, 15⟩ (.field ⟨0, 9⟩ (.ident ⟨0, 3⟩ "app")
      ⟨"Gauge", ⟨4, 9⟩⟩) ⟨"LIMIT", ⟨10, 15⟩⟩) ⟨"level", ⟨16, 21⟩⟩
    tree.dottedNames? = some ["app", "Gauge", "LIMIT", "level"] ∧
      ∃ id next, (lower .gauge tree).run.run binder = (.ok id, next) ∧
        Graph.Chained binder.graph next.graph "static:app.Gauge" ["LIMIT", "level"] id := by
  intro binder tree
  have hchain : tree.dottedNames? = some ["app", "Gauge", "LIMIT", "level"] := by decide +kernel
  have hclass : ClassRegistry.gauge.findClass (".".intercalate ["app", "Gauge"]) =
      .ok ⟨"app.Gauge", false, false⟩ := by decide +kernel
  have hmembers (names : List String) (hne : names ≠ []) (h : names <+: ["LIMIT", "level"]) :
      names ∈ [["LIMIT"], ["LIMIT", "level"]] := by
    simpa [hne] using (List.mem_inits _ _).mpr h
  have hlongest : ∀ names ∈ [["LIMIT"], ["LIMIT", "level"]],
      (ClassRegistry.gauge.findClass (".".intercalate (["app", "Gauge"] ++ names))).isOk =
        false := by decide +kernel
  have hnew : ∀ names ∈ [["LIMIT"], ["LIMIT", "level"]],
      binder.graph.find? (accessKey "static:app.Gauge" names) = none := by decide +kernel
  have hvariable : binder.variableNode? "app" = none := by decide +kernel
  have himport : binder.graph.imports.get? "app" = none := by decide +kernel
  have hopen : binder.graph.isSealed = false := by decide +kernel
  refine ⟨hchain, ((lower_chain hchain hvariable himport).1 ["app", "Gauge"] ["LIMIT", "level"] _
    rfl (List.cons_ne_nil _ _) hclass ?_ ?_).1 ?_⟩
  · intro longer hne hpre type htype
    have hfails := hlongest longer (hmembers longer hne hpre)
    rw [htype] at hfails
    cases hfails
  · intro names name hpre id hid
    have hne := List.append_ne_nil_of_right_ne_nil names (List.cons_ne_nil name [])
    cases (hnew _ (hmembers _ hne hpre)).symm.trans hid
  · intro hsealed
    cases hopen.symm.trans hsealed

end BinderM

/-- A class with a constant, and a class that is named like the constant. -/
def ClassRegistry.namedConstant : ClassRegistry :=
  (builtin.extend [
    { ClassDef.bare "p.V" with fields := [⟨"I", "int", true, false, false⟩] },
    ClassDef.bare "p.V.I"]).1

namespace BinderM

/-- A graph that is sealed takes neither the class nor the constant. And where the class that is
named like the constant was referred to before, the chain gives this reference instead of the access
to the constant. -/
theorem lower_chain_refused :
    let tree : Tree := .field ⟨0, 3⟩ (.ident ⟨0, 1⟩ "V") ⟨"I", ⟨2, 3⟩⟩
    let classes := ClassRegistry.namedConstant
    let frozen := Binder.after classes [.sealGraph]
    let shared := Binder.after classes [.parse "p.V.I"]
    tree.dottedNames? = some ["V", "I"] ∧ classes.findClass "V" = .ok ⟨"p.V", false, false⟩ ∧
      (classes.findClass "V.I").isOk = false ∧
      (frozen.variableNode? "V" = none ∧ frozen.graph.imports.get? "V" = none ∧
        ((lower classes tree).run.run frozen).1.isOk = false) ∧
      shared.variableNode? "V" = none ∧ shared.graph.imports.get? "V" = none ∧
      ((lower classes tree).run.run shared).1.toOption = some 0 ∧
      (((lower classes tree).run.run shared).2.graph.node 0).kind = .classRef "I" "p.V.I" := by
  decide +kernel

end BinderM
end BindingPlan
