import BindingPlan.Proofs.Binding.Agreement

/-!
# Bindings by a dictionary

In a binder whose graph agrees with a dictionary, lowering a tree gives the node with the key of its
reading, and fails if it has no reading. So a binding fails if its tree has no meaning, and only
then, unless a walk runs into a cycle. Behind it the graph agrees with the dictionary again, whether
it failed or not.

Main results:

* `BinderM.reads_lower`: lowering a tree gives the key of its reading.
* `BinderM.reads_bindTree`: binding a tree fails only if it has no meaning.
-/

namespace BindingPlan

open BindingPlan.Graph

variable {classes : ClassRegistry} {dict : Dictionary classes} {table : ImportTable} {graph : Graph}
  {declared binder next : Binder} {name : String} {kind : Kind} {ids : List Nat} {i id : Nat}
  {readings : List Reading} {span : Span}

/-- The dictionary has the reading, and its key is that of an expression. -/
structure Dictionary.Has (dict : Dictionary classes) (reading : Reading) : Prop where
  meaning? : dict.meaning? reading.key = reading.meaning?
  spelled : Spelled dict.known reading.key.toList

/-- The node that a reading is about. -/
def Graph.ReadAt (dict : Dictionary classes) (graph : Graph) (reading? : Option Reading)
    (id : Nat) : Prop :=
  ∃ reading, reading? = some reading ∧ graph.find? reading.key = some id ∧ dict.Has reading

theorem Graph.ReadAt.grows {graph next : Graph} {reading? : Option Reading}
    (h : graph.ReadAt dict reading? id) (hgrows : graph.Grows next) :
    next.ReadAt dict reading? id := by
  obtain ⟨reading, hreading, hfound, hhas⟩ := h
  exact ⟨reading, hreading, Rules.Steps.keeps hgrows _ _ hfound, hhas⟩

theorem Reading.spelled_of (hcomposes : kind.Composes readings.length)
    (hparts : ∀ reading ∈ readings, dict.Has reading) :
    Spelled dict.known (Reading.of classes kind readings).key.toList := by
  refine (Kind.Composes.composed ?_ ?_).spelled
  · rwa [List.length_map]
  · exact List.forall_mem_map.mpr fun reading hreading => (hparts reading hreading).spelled

/-! ## The graph -/

namespace GraphM

/-- The node of a kind over the nodes of readings. -/
theorem decides_register_of {busy : Nat → Prop} {fails : Prop}
    (h : Judged dict table busy graph) (hcomposes : kind.Composes ids.length)
    (hids : graph.FindsAll (readings.map Reading.key) ids)
    (hparts : ∀ reading ∈ readings, dict.Has reading)
    (hwhole : dict.meaning? (Reading.of classes kind readings).key =
      (Reading.of classes kind readings).meaning?) :
    Decides dict table busy (register kind ids) graph (fun id next =>
      next.ReadAt dict (some (.of classes kind readings)) id) fails := by
  have hkeys : ids.map graph.keyOf = readings.map Reading.key := hids.map_keyOf
  have hlength : ids.length = readings.length := by
    have := congrArg List.length hkeys
    rwa [List.length_map, List.length_map] at this
  have hspelled := Reading.spelled_of (hlength ▸ hcomposes) hparts
  have hmeanings : graph.meanings dict ids = readings.map Reading.meaning? := by
    calc graph.meanings dict ids = (ids.map graph.keyOf).map dict.meaning? := by
          rw [List.map_map]
          rfl
      _ = (readings.map Reading.key).map dict.meaning? := by rw [hkeys]
      _ = readings.map Reading.meaning? := by
          rw [List.map_map]
          exact List.map_congr_left fun reading hreading => (hparts reading hreading).meaning?
  have htype : (Node.new kind (kind.key (ids.map graph.keyOf)) ids).type? classes
      (graph.meanings dict ids) = kind.type? classes (readings.map Reading.meaning?) := by
    rw [hmeanings]
    generalize ids.length = n at hcomposes
    cases hcomposes <;> rfl
  refine (decides_register h (fun id hid => ?_) hcomposes.ne_wrapper (.inr hcomposes) ?_ ?_).imp
    (fun id next _ _ hfound => ?_) fun h => h
  · obtain ⟨key, hkey, hfound⟩ := hids.exists_of_mem hid
    obtain ⟨reading, hreading, rfl⟩ := List.mem_map.mp hkey
    have hid := (find?_eq_some_iff.mp hfound).1
    refine ⟨hid, h.plain_of_spelled hid ?_⟩
    rw [keyOf_of_find? hfound]
    exact (hparts reading hreading).spelled
  · rw [hkeys]
    exact hspelled
  · rw [htype, hkeys]
    exact hwhole
  · rw [hkeys] at hfound
    exact ⟨_, rfl, hfound, hwhole, hspelled⟩

theorem decides_literal {busy : Nat → Prop} {fails : Prop} (h : Judged dict table busy graph)
    (value : Literal)
    (hmeaning : dict.meaning? value.render =
      (Reading.of classes (.symbol value.render value.typeName) []).meaning?) :
    Decides dict table busy (symbol value.render value.typeName) graph (fun id next =>
      next.ReadAt dict (some (.of classes (.symbol value.render value.typeName) [])) id) fails := by
  have hspelled : Spelled dict.known value.render.toList :=
    Expression.key_ofLiteral value ▸ .atom (Expression.isAtom_ofLiteral value)
  exact (decides_symbol h hspelled hmeaning).imp
    (fun id next _ _ hfound => ⟨_, rfl, hfound, hmeaning, hspelled⟩) fun h => h

end GraphM

theorem Graph.Judged.setSpan {busy : Nat → Prop} (h : Judged dict table busy graph) (id : Nat)
    (span : Span) : Judged dict table busy (graph.setSpan id span) := by
  refine h.annotate (.annotate ⟨rfl, rfl, rfl, rfl, fun h => h, fun _ => .inl,
    fun hnone hsome => ?_, fun _ _ => .inr (.inl trivial)⟩) rfl
  rw [hnone] at hsome
  cases hsome

/-! ## Operations -/

namespace BinderM

open Operation

variable {α β : Type} {x : BinderM α} {f : α → BinderM β} {R : α → Graph → Prop}
  {gives : β → Graph → Prop} {fails : Prop}

/-- The operation keeps a binder in agreement with the dictionary, gives results as said, and fails
only as said or since a walk runs into a cycle. -/
def Reads (dict : Dictionary classes) (declared : Binder) (operation : BinderM α) (binder : Binder)
    (R : α → Graph → Prop) (fails : Prop) : Prop :=
  Ensures operation binder
    (fun a next => binder.graph.Grows next.graph ∧ next.Agrees dict declared ∧ R a next.graph)
    fun d next => next.Agrees dict declared ∧
      (fails ∨ ∃ key span, d = .ofGraphError (.dependencyCycle key) span)

theorem reads_pure {a : α} (h : binder.Agrees dict declared) (ha : R a binder.graph) :
    Reads dict declared (pure a) binder R fails :=
  ensures_pure ⟨.refl, h, ha⟩

theorem reads_throw {d : Diagnostic} (h : binder.Agrees dict declared) (hfails : fails) :
    Reads dict declared (throw d) binder R fails :=
  ensures_throw ⟨h, .inl hfails⟩

theorem reads_bind (hx : Reads dict declared x binder R fails)
    (hf : ∀ a next, binder.graph.Grows next.graph → next.Agrees dict declared → R a next.graph →
      Reads dict declared (f a) next gives fails) :
    Reads dict declared (x >>= f) binder gives fails := by
  refine ensures_bind hx ?_
  rintro a next ⟨hgrows, hagrees, ha⟩
  refine (hf a next hgrows hagrees ha).imp ?_ fun _ _ he => he
  rintro b last ⟨hmore, hb⟩
  exact ⟨hgrows.trans hmore, hb⟩

/-- A sequence, where the first step fails only if the whole may. -/
theorem Reads.bind {given : Prop} (hx : Reads dict declared x binder R given)
    (hfails : given → fails)
    (hf : ∀ a next, binder.graph.Grows next.graph → next.Agrees dict declared → R a next.graph →
      Reads dict declared (f a) next gives fails) :
    Reads dict declared (x >>= f) binder gives fails := by
  have hweak : Reads dict declared x binder R fails :=
    Ensures.imp hx (fun _ _ ha => ha) fun _ _ he => ⟨he.1, he.2.imp_left hfails⟩
  exact reads_bind hweak hf

theorem reads_get_bind {f : Binder → BinderM β}
    (h : Reads dict declared (f binder) binder gives fails) :
    Reads dict declared (get >>= f) binder gives fails := by
  unfold Reads Ensures at h ⊢
  rw [run_bind, run_get]
  exact h

theorem agrees_of_grows {graph : Graph} (h : binder.Agrees dict declared)
    (hgrows : binder.graph.Grows graph)
    (hjudged : Judged dict declared.graph.imports (fun _ => False) graph) :
    ({ binder with graph := graph } : Binder).Agrees dict declared where
  judged := hjudged
  variableNodes := h.variableNodes
  finds := h.finds.mono ⟨Rules.Steps.keeps hgrows, rfl⟩

theorem reads_onGraph {operation : GraphM α} (h : binder.Agrees dict declared)
    (hdecides : GraphM.Decides dict declared.graph.imports (fun _ => False) operation binder.graph R
      fails) : Reads dict declared (onGraph span operation) binder R fails := by
  unfold Reads Ensures
  rw [run_onGraph]
  generalize hrun : operation.run.run binder.graph = outcome
  obtain ⟨e | a, graph⟩ := outcome
  · obtain ⟨hgrows, hjudged, he⟩ := Ensures.of_error hdecides hrun
    refine ⟨agrees_of_grows h hgrows hjudged, he.imp_right ?_⟩
    rintro ⟨key, rfl⟩
    exact ⟨key, span, rfl⟩
  · obtain ⟨hgrows, hjudged, ha⟩ := Ensures.of_ok hdecides hrun
    exact ⟨hgrows, agrees_of_grows h hgrows hjudged, ha⟩

theorem reads_setSpan {R : Unit → Graph → Prop} (h : binder.Agrees dict declared)
    (hR : ∀ graph, binder.graph.Grows graph → R ⟨⟩ graph) :
    Reads dict declared (setSpan id span) binder R fails := by
  have hgrows : binder.graph.Grows (binder.graph.setSpan id span) := steps_setSpan _ id trivial
  exact ensures_modify ⟨hgrows, agrees_of_grows h hgrows (h.judged.setSpan id span), hR _ hgrows⟩

theorem reads_node {operation : GraphM Nat} {reading? : Option Reading}
    (h : binder.Agrees dict declared)
    (hdecides : GraphM.Decides dict declared.graph.imports (fun _ => False) operation binder.graph
      (fun id graph => graph.ReadAt dict reading? id) fails) :
    Reads dict declared (node span operation) binder
      (fun id graph => graph.ReadAt dict reading? id) fails :=
  reads_bind (reads_onGraph h hdecides) fun _ _ _ hagrees hread =>
    reads_bind (reads_setSpan (R := fun _ graph => graph.ReadAt dict reading? _) hagrees
      fun _ hgrows => hread.grows hgrows) fun _ _ _ hagrees hread => reads_pure hagrees hread

/-! ## Names -/

theorem has_ofClass {type : ClassType} (htype : classes.findClass name = .ok type) :
    dict.Has (.ofClass classes type.name) where
  meaning? := by
    have hfound := ClassRegistry.findClass_name htype
    show dict.meaning? (Kind.classKey type.name) = ((classes.findClass type.name).toOption).map _
    rw [dict.ofClass _ type hfound, hfound]
    rfl
  spelled := by
    show Spelled dict.known (Kind.classKey type.name).toList
    rw [Kind.classKey, String.toList_append]
    exact .ref (dict.findClass _ type htype)

/-- The reference to a class, if the name finds one. -/
theorem reads_classNamed? (h : binder.Agrees dict declared) (qualified : String) :
    Reads dict declared (classNamed? classes qualified span) binder (fun found graph =>
      (∃ id, found = some id ∧ graph.ReadAt dict
        ((classes.findClass qualified).toOption.map fun type => .ofClass classes type.name) id) ∨
      found = none ∧ (classes.findClass qualified).toOption = none) fails := by
  unfold classNamed?
  split
  · next hnone =>
    rw [hnone]
    exact reads_pure h (.inr ⟨rfl, rfl⟩)
  · next type htype =>
    have hread {graph : Graph} {id : Nat}
        (hfound : graph.find? (Kind.classKey type.name) = some id) :
        graph.ReadAt dict ((classes.findClass qualified).toOption.map
          fun type => .ofClass classes type.name) id := by
      rw [htype]
      exact ⟨_, rfl, hfound, has_ofClass htype⟩
    refine reads_bind (reads_onGraph h (GraphM.decides_classRefFor h.judged
      (ClassRegistry.findClass_name htype))) fun id next _ hagrees hfound => ?_
    exact reads_bind (reads_setSpan (R := fun _ graph => graph.ReadAt dict _ id) hagrees
      fun _ hgrows => (hread hfound).grows hgrows) fun _ _ _ hagrees hread =>
        reads_pure hagrees (.inl ⟨id, rfl, hread⟩)

/-- A bare name gives the node of its reading. -/
theorem reads_lowerName (h : binder.Agrees dict declared) (hname : IsName name.toList)
    (hident : declared.Unmistakable classes name)
    (hreadings : ∀ reading ∈ (Tree.ident span name).readings classes declared,
      dict.meaning? reading.key = reading.meaning?) :
    Reads dict declared (lowerName classes name span) binder
      (fun id graph => graph.ReadAt dict ((Tree.ident span name).read? classes declared) id)
      ((Tree.ident span name).read? classes declared = none) := by
  have hidents : ∀ other ∈ (Tree.ident span name).idents, declared.Unmistakable classes other :=
    fun other hother => List.mem_singleton.mp hother ▸ hident
  have hclass := (h.class?_eq hidents).symm
  have hread : (Tree.ident span name).read? classes declared =
      (binder.class? classes (.ident span name)).elim (declared.readVariable? classes name)
        fun type => some (.ofClass classes type.name) := by
    rw [← hclass]
    unfold Tree.read?
    cases declared.class? classes (.ident span name) <;> rfl
  rw [Binder.class?_ident] at hread
  refine reads_get_bind ?_
  rw [h.variableNode?] at hread ⊢
  cases hvariable : declared.variableNode? name with
  | some id =>
    rw [hvariable] at hread
    obtain ⟨meaning?, hreading⟩ : ∃ meaning?, declared.readVariable? classes name =
        some ⟨name, meaning?⟩ := by
      unfold Binder.readVariable?
      rw [hvariable]
      exact ⟨_, rfl⟩
    have hread := hread.trans hreading
    have hmeaning := hreadings _ (Tree.mem_readings hread)
    have hat : binder.graph.ReadAt dict ((Tree.ident span name).read? classes declared) id := by
      refine ⟨_, hread, h.finds name id ?_, hmeaning, .atom (Expression.isAtom_ident hname)⟩
      rw [h.variableNode?, hvariable]
    exact reads_bind (reads_setSpan (R := fun _ graph => graph.ReadAt dict _ id) h
      fun _ hgrows => hat.grows hgrows) fun _ _ _ hagrees hat => reads_pure hagrees hat
  | none =>
    rw [hvariable, Option.isSome_none, if_neg Bool.false_ne_true] at hread
    have hreadVariable : declared.readVariable? classes name = none := by
      unfold Binder.readVariable?
      rw [hvariable]
      rfl
    refine reads_get_bind (reads_bind (reads_classNamed? h _) fun found next _ hagrees hfound => ?_)
    obtain ⟨id, rfl, hat⟩ | ⟨rfl, hnone⟩ := hfound
    · refine reads_pure hagrees ?_
      rw [hread]
      obtain ⟨reading, hreading, hat⟩ := hat
      obtain ⟨type, htype, rfl⟩ := Option.map_eq_some_iff.mp hreading
      rw [htype]
      exact ⟨_, rfl, hat⟩
    · refine reads_throw hagrees ?_
      rw [hread, hnone, hreadVariable, Option.elim_none]

/-- A chain of names gives the class that it refers to, if it does. -/
theorem reads_wholeClass? {tree : Tree} (h : binder.Agrees dict declared)
    (hidents : ∀ name ∈ tree.idents, declared.Unmistakable classes name)
    (htree : ∀ span name, tree ≠ .ident span name) :
    Reads dict declared (wholeClass? classes tree) binder (fun found graph =>
      (∃ id, found = some id ∧ graph.ReadAt dict
        ((declared.class? classes tree).map fun type => .ofClass classes type.name) id) ∨
      found = none ∧ declared.class? classes tree = none) fails := by
  cases tree with
  | ident span name => exact absurd rfl (htree span name)
  | field span receiver member =>
    rw [← h.class?_eq hidents]
    show Reads dict declared (classPath? classes (.field span receiver member)) binder _ fails
    unfold classPath?
    split
    · next hnames =>
      refine reads_pure h (.inr ⟨rfl, ?_⟩)
      show Option.bind _ _ = none
      rw [hnames]
      rfl
    · next names hnames =>
      have hclass : binder.class? classes (.field span receiver member) =
          if (binder.variableNode? (names.headD "")).isSome ||
            (binder.graph.imports.get? (names.headD "")).isSome then none
          else (classes.findClass (".".intercalate names)).toOption := by
        show Option.bind _ _ = _
        rw [hnames]
        rfl
      rw [hclass]
      refine reads_get_bind (reads_get_bind ?_)
      split
      · exact reads_pure h (.inr ⟨rfl, rfl⟩)
      · exact reads_classNamed? h _
  | _ => exact reads_pure h (.inr ⟨rfl, rfl⟩)

/-! ## Trees -/

theorem decides_coalesce {busy : Nat → Prop} {lhs rhs : Nat} {left right : Reading}
    (h : Judged dict table busy graph) (hlhs : graph.find? left.key = some lhs)
    (hrhs : graph.find? right.key = some rhs) (hleft : dict.Has left) (hright : dict.Has right)
    (hnull : dict.meaning? (Reading.null classes).key = (Reading.null classes).meaning?)
    (hisNull : dict.meaning? (Reading.isNull classes left).key =
      (Reading.isNull classes left).meaning?)
    (hwhole : dict.meaning? (Reading.of classes .ternary [.isNull classes left, right, left]).key =
      (Reading.of classes .ternary [.isNull classes left, right, left]).meaning?) :
    GraphM.Decides dict table busy (coalesce lhs rhs span) graph (fun id next =>
      next.ReadAt dict (some (.of classes .ternary [.isNull classes left, right, left])) id)
      fails := by
  refine GraphM.decides_bind (GraphM.decides_literal h .null hnull)
    fun null next hgrows hjudged ⟨_, hread, hfound, hhas⟩ => ?_
  cases hread
  have hparts : ∀ reading ∈ [left, Reading.null classes], dict.Has reading := by
    simp only [List.forall_mem_cons]
    exact ⟨hleft, hhas, nofun⟩
  have hids : next.FindsAll ([left, Reading.null classes].map Reading.key) [lhs, null] :=
    .cons (Rules.Steps.keeps hgrows _ _ hlhs) (.cons hfound .nil)
  refine GraphM.decides_bind (GraphM.decides_register_of hjudged (.binary (.compare .eq)) hids
    hparts hisNull) fun isNull last hmore hjudged ⟨_, hread, hfound, hhas⟩ => ?_
  cases hread
  have hspans : last.Grows ((last.setSpan null span).setSpan isNull span) :=
    (steps_setSpan last null trivial).trans (steps_setSpan _ isNull trivial)
  have hmodify : GraphM.Decides dict table busy
      (modify fun graph => (graph.setSpan null span).setSpan isNull span : GraphM PUnit) last
      (fun _ next => last.Grows next) fails :=
    ensures_modify ⟨hspans, (hjudged.setSpan null span).setSpan isNull span, hspans⟩
  refine GraphM.decides_bind hmodify fun _ reached _ hjudged hspans => ?_
  have hall := (hgrows.trans hmore).trans hspans
  have hids : reached.FindsAll ([.isNull classes left, right, left].map Reading.key)
      [isNull, rhs, lhs] :=
    .cons (Rules.Steps.keeps hspans _ _ hfound) (.cons (Rules.Steps.keeps hall _ _ hrhs)
      (.cons (Rules.Steps.keeps hall _ _ hlhs) .nil))
  refine GraphM.decides_register_of hjudged .ternary hids ?_ hwhole
  simp only [List.forall_mem_cons]
  exact ⟨hhas, hright, hleft, nofun⟩

/-- A tree over the nodes of the readings of its parts. -/
theorem reads_assemble {tree : Tree} (h : binder.Agrees dict declared)
    (htree : ∀ span name, tree ≠ .ident span name)
    (hnames : ∀ name ∈ tree.names, IsName name.toList)
    (hreadings : ∀ reading ∈ tree.readings classes declared,
      dict.meaning? reading.key = reading.meaning?)
    (hclass : declared.class? classes tree = none)
    (hparts : Tree.readAll? classes declared tree.parts = some readings)
    (hids : binder.graph.FindsAll (readings.map Reading.key) ids)
    (hhas : ∀ reading ∈ readings, dict.Has reading) :
    Reads dict declared (assemble classes tree ids) binder
      (fun id graph => graph.ReadAt dict (tree.read? classes declared) id) fails := by
  have hread : tree.read? classes declared = tree.combine? classes declared readings := by
    rw [Tree.read?_eq, hclass, hparts]
    rfl
  have hcount := Tree.length_of_readAll? hparts
  have hlength : ids.length = tree.parts.length := by
    rw [← hcount, ← List.length_map Reading.key]
    exact hids.length_eq.symm
  -- the reading of the whole is among those of the tree
  have hwhole {reading : Reading}
      (hcombine : tree.combine? classes declared readings = some reading) :
      dict.meaning? reading.key = reading.meaning? :=
    hreadings reading (Tree.mem_readings (hread.trans hcombine))
  rw [hread]
  cases tree with
  | ident span name => exact absurd rfl (htree span name)
  | literal span value =>
    exact reads_node h (GraphM.decides_literal h.judged value (hwhole rfl))
  | field span receiver name =>
    have hname := hnames name.text (List.mem_append_right _ (List.mem_singleton_self _))
    exact reads_node h (GraphM.decides_register_of h.judged (hlength ▸ .field hname) hids hhas
      (hwhole rfl))
  | call span target name args =>
    have hname := hnames name.text (List.mem_append_right _ List.mem_cons_self)
    exact reads_node h (GraphM.decides_register_of h.judged (hlength ▸ .call hname _) hids hhas
      (hwhole rfl))
  | unary span op operand =>
    exact reads_node h (GraphM.decides_register_of h.judged (hlength ▸ .unary op) hids hhas
      (hwhole rfl))
  | binary span op lhs rhs =>
    exact reads_node h (GraphM.decides_register_of h.judged (hlength ▸ .binary op) hids hhas
      (hwhole rfl))
  | ternary span predicate ifTrue ifFalse =>
    exact reads_node h (GraphM.decides_register_of h.judged (hlength ▸ .ternary) hids hhas
      (hwhole rfl))
  | coalesce span lhs rhs =>
    obtain ⟨left, right, rfl⟩ := List.length_eq_two.mp hcount
    obtain _ | ⟨hlhs, _ | ⟨hrhs, _ | _⟩⟩ := hids
    obtain ⟨_, _, hleft, -, heq⟩ := Tree.readAll?_cons_eq_some.mp hparts
    obtain ⟨rfl, -⟩ := List.cons.inj heq
    have hown {reading : Reading}
        (hreading : reading ∈ [Reading.null classes, .isNull classes left]) :
        dict.meaning? reading.key = reading.meaning? := by
      refine hreadings reading (Tree.mem_readings_of_own ?_)
      have hsome : (Tree.coalesce span lhs rhs).read? classes declared =
          some (.of classes .ternary [.isNull classes left, right, left]) := hread
      unfold Tree.ownReadings
      rw [hsome]
      show reading ∈ Reading.null classes ::
        (((lhs.read? classes declared).map (Reading.isNull classes)).toList ++ [_])
      rw [hleft]
      exact List.mem_append_left [_] hreading
    exact reads_node h (decides_coalesce h.judged hlhs hrhs (hhas left List.mem_cons_self)
      (hhas right (List.mem_cons_of_mem _ List.mem_cons_self)) (hown List.mem_cons_self)
      (hown (List.mem_cons_of_mem _ List.mem_cons_self)) (hwhole rfl))
  | group span inner =>
    obtain ⟨reading, rfl⟩ := List.length_eq_one_iff.mp hcount
    obtain _ | ⟨hinner, _ | _⟩ := hids
    exact reads_pure h ⟨reading, rfl, hinner, hhas reading List.mem_cons_self⟩

theorem reads_lowerAll {trees : List Tree} (h : binder.Agrees dict declared)
    (hlower : ∀ tree ∈ trees, ∀ binder : Binder, binder.Agrees dict declared →
      Reads dict declared (lower classes tree) binder
        (fun id graph => graph.ReadAt dict (tree.read? classes declared) id)
        (tree.read? classes declared = none)) :
    Reads dict declared (lowerAll classes trees) binder
      (fun ids graph => ∃ readings, Tree.readAll? classes declared trees = some readings ∧
        graph.FindsAll (readings.map Reading.key) ids ∧ ∀ reading ∈ readings, dict.Has reading)
      (Tree.readAll? classes declared trees = none) := by
  induction trees generalizing binder with
  | nil => exact reads_pure h ⟨[], rfl, .nil, List.forall_mem_nil _⟩
  | cons tree trees ih =>
    have hall : Tree.readAll? classes declared (tree :: trees) =
        (tree.read? classes declared).bind fun first =>
          (Tree.readAll? classes declared trees).map (first :: ·) := by
      rw [Tree.readAll?]
      cases tree.read? classes declared with
      | none => rfl
      | some first => cases Tree.readAll? classes declared trees <;> rfl
    rw [hall]
    refine (hlower tree List.mem_cons_self binder h).bind (fun hnone => ?_)
      fun id next _ hagrees hat => ?_
    · rw [hnone, Option.bind_none]
    obtain ⟨first, hfirst, hid, hhas⟩ := hat
    rw [hfirst, Option.bind_some]
    have htrees := ih hagrees fun tree htree => hlower tree (List.mem_cons_of_mem _ htree)
    refine htrees.bind (fun hnone => ?_) fun ids last hgrows hagrees hall => reads_pure hagrees ?_
    · rw [hnone, Option.map_none]
    · obtain ⟨rest, hrest, hids, hrestHas⟩ := hall
      rw [hrest]
      refine ⟨first :: rest, rfl, .cons (Rules.Steps.keeps hgrows _ _ hid) hids, ?_⟩
      simp only [List.forall_mem_cons]
      exact ⟨hhas, hrestHas⟩

/-- Lowering a tree gives the node of its reading, and fails if it has none. -/
theorem reads_lower {tree : Tree} (h : binder.Agrees dict declared)
    (hnames : ∀ name ∈ tree.names, IsName name.toList)
    (hidents : ∀ name ∈ tree.idents, declared.Unmistakable classes name)
    (hreadings : ∀ reading ∈ tree.readings classes declared,
      dict.meaning? reading.key = reading.meaning?) :
    Reads dict declared (lower classes tree) binder
      (fun id graph => graph.ReadAt dict (tree.read? classes declared) id)
      (tree.read? classes declared = none) := by
  induction tree using Tree.partsInduction generalizing binder with
  | step tree ih =>
    by_cases htree : ∃ span name, tree = .ident span name
    · obtain ⟨span, name, rfl⟩ := htree
      rw [lower]
      exact reads_lowerName h (hnames name (List.mem_singleton_self name))
        (hidents name (List.mem_singleton_self name)) hreadings
    · have htree : ∀ span name, tree ≠ .ident span name :=
        fun span name heq => htree ⟨span, name, heq⟩
      rw [lower_eq]
      refine reads_bind (reads_wholeClass? h hidents htree) fun found next _ hagrees hfound => ?_
      obtain ⟨id, rfl, hid⟩ | ⟨rfl, hclass⟩ := hfound
      · refine reads_pure hagrees ?_
        obtain ⟨_, hreading, hid⟩ := hid
        obtain ⟨type, htype, rfl⟩ := Option.map_eq_some_iff.mp hreading
        rw [Tree.read?_eq, htype]
        exact ⟨_, rfl, hid⟩
      · have hread : Tree.readAll? classes declared tree.parts = none →
            tree.read? classes declared = none := by
          intro hnone
          rw [Tree.read?_eq, hclass, hnone]
          rfl
        have hparts := reads_lowerAll hagrees fun part hpart binder hagrees =>
          ih part hpart hagrees
            (fun name hname => hnames name (Tree.mem_names_of_mem_parts hpart hname))
            (fun name hname => hidents name
              (Tree.mem_idents_of_identsAll_parts (Tree.mem_identsAll_of_mem hpart hname)))
            (fun reading hreading =>
              hreadings reading (Tree.mem_readings_of_mem_parts hpart hreading))
        refine hparts.bind hread fun ids last _ hagrees hall => ?_
        obtain ⟨readings, hparts, hids, hhas⟩ := hall
        exact reads_assemble hagrees htree hnames hreadings hclass hparts hids hhas

/-- Binding a tree fails only if it has no meaning. -/
theorem reads_bindTree {tree : Tree} (h : binder.Agrees dict declared)
    (hnames : ∀ name ∈ tree.names, IsName name.toList)
    (hidents : ∀ name ∈ tree.idents, declared.Unmistakable classes name)
    (hreadings : ∀ reading ∈ tree.readings classes declared,
      dict.meaning? reading.key = reading.meaning?) :
    Reads dict declared (bindTree classes tree) binder
      (fun _ _ => ∃ meaning, (tree.read? classes declared).bind Reading.meaning? = some meaning)
      ((tree.read? classes declared).bind Reading.meaning? = none) := by
  refine (reads_lower h hnames hidents hreadings).bind (fun hnone => ?_)
    fun root next _ hagrees ⟨reading, hreading, hroot, hhas⟩ => ?_
  · rw [hnone, Option.bind_none]
  rw [hreading, Option.bind_some]
  have hid := (find?_eq_some_iff.mp hroot).1
  have hplain := hagrees.judged.plain_of_spelled hid
    ((keyOf_of_find? hroot).symm ▸ hhas.spelled)
  refine reads_bind (reads_onGraph hagrees (GraphM.decides_bindRoot hagrees.judged root))
    fun _ last hgrows hagrees _ => ?_
  have hlast := Nat.lt_of_lt_of_le hid (Rules.Steps.size_le hgrows)
  have hclassify : GraphM.Decides _ _ _ (GraphM.classify classes root) _ _ _ :=
    GraphM.decides_classify hagrees.judged hlast (hplain.grows hid hgrows)
  rw [Rules.Steps.keyOf hgrows hid, keyOf_of_find? hroot, hhas.meaning?] at hclassify
  exact reads_bind (reads_onGraph hagrees hclassify) fun _ _ _ hagrees hmeaning =>
    reads_pure hagrees hmeaning

end BinderM
end BindingPlan
