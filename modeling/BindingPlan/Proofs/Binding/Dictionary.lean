import BindingPlan.Proofs.Binding.Acyclic
import BindingPlan.Proofs.Binding.Declared
import BindingPlan.Proofs.Binding.Meaning

/-!
# The dictionary of a layout

The readings of all classes, variables and bindings of a layout make a dictionary if readings with
one key have one meaning. The binder behind the declarations of the layout agrees with it.

Main results:

* `Layout.Unambiguous`: layouts whose bindings do not get in the way of each other.
* `Layout.dictionary`: the dictionary of such a layout.
* `Layout.agrees_declared`: the binder in front of all bindings agrees with it.
-/

namespace BindingPlan

open BindingPlan.Graph

variable {classes : ClassRegistry} {layout : Layout} {binder : Binder} {readings : List Reading}
  {reading : Reading} {kind : Kind} {key : String} {meaning : Meaning}

/-! ## Readings -/

namespace Reading

/-- Readings with one key have one meaning. -/
def Agree (readings : List Reading) : Prop :=
  ∀ r ∈ readings, ∀ s ∈ readings, r.key = s.key → r.meaning? = s.meaning?

instance : Decidable (Agree readings) :=
  inferInstanceAs (Decidable
    (∀ r ∈ readings, ∀ s ∈ readings, r.key = s.key → r.meaning? = s.meaning?))

/-- The meaning of the first reading with the key. -/
def lookup? (readings : List Reading) (key : String) : Option Meaning :=
  (readings.find? fun reading => reading.key == key).bind Reading.meaning?

theorem lookup?_key (h : Agree readings) (hreading : reading ∈ readings) :
    lookup? readings reading.key = reading.meaning? := by
  unfold lookup?
  cases hfound : readings.find? fun other => other.key == reading.key with
  | none => exact absurd (List.find?_eq_none.mp hfound reading hreading) (by simp)
  | some other =>
    have hkey : (other.key == reading.key) = true :=
      List.find?_some (p := fun other : Reading => other.key == reading.key) hfound
    exact h other (List.mem_of_find?_eq_some hfound) reading hreading (beq_iff_eq.mp hkey)

theorem exists_of_lookup? (h : lookup? readings key = some meaning) :
    ∃ reading ∈ readings, reading.meaning? = some meaning := by
  obtain ⟨reading, hfound, hmeaning⟩ := Option.bind_eq_some_iff.mp h
  exact ⟨reading, List.mem_of_find?_eq_some hfound, hmeaning⟩

/-- The type of the expression is found by its name. -/
def Finds (classes : ClassRegistry) (reading : Reading) : Prop :=
  ∀ meaning, reading.meaning? = some meaning →
    classes.findClass meaning.type.name = .ok meaning.type

theorem finds_of (hbuiltin : classes.HasBuiltin) (h : ∀ reading ∈ readings, reading.Finds classes) :
    (of classes kind readings).Finds classes := by
  intro meaning hmeaning
  obtain ⟨type, htype, rfl⟩ := Option.map_eq_some_iff.mp hmeaning
  refine Kind.findClass_of_type? hbuiltin (fun meaning hpart => ?_) htype
  obtain ⟨reading, hreading, hpart⟩ := List.mem_map.mp hpart
  exact h reading hreading meaning hpart

end Reading

theorem Binder.finds_readVariable? {name : String}
    (h : binder.readVariable? classes name = some reading) : reading.Finds classes := by
  obtain ⟨id, -, h⟩ := Option.bind_eq_some_iff.mp h
  cases h
  intro meaning hmeaning
  obtain ⟨type, htype, rfl⟩ := Option.map_eq_some_iff.mp hmeaning
  obtain ⟨name, -, hfound⟩ := Option.bind_eq_some_iff.mp htype
  exact ClassRegistry.findClass_name (toOption_eq_some_iff.mp hfound)

/-- What is registered for a tree is registered for a part of it, or for the tree itself. -/
theorem Tree.mem_readings_cases {tree : Tree} (h : reading ∈ tree.readings classes binder) :
    (∃ part ∈ tree.parts, reading ∈ part.readings classes binder) ∨
      reading ∈ tree.ownReadings classes binder := by
  have hall {trees : List Tree} (h : reading ∈ Tree.readingsAll classes binder trees) :
      ∃ tree ∈ trees, reading ∈ tree.readings classes binder := by
    induction trees with
    | nil => cases h
    | cons tree trees ih =>
      rcases List.mem_append.mp h with h | h
      · exact ⟨tree, List.mem_cons_self, h⟩
      · obtain ⟨other, hother, h⟩ := ih h
        exact ⟨other, List.mem_cons_of_mem _ hother, h⟩
  cases tree with
  | literal | ident => exact .inr h
  | call span target name args =>
    rcases List.mem_append.mp h with h | h
    · exact .inl ⟨target, List.mem_cons_self, h⟩
    · rcases List.mem_append.mp h with h | h
      · obtain ⟨arg, harg, h⟩ := hall h
        exact .inl ⟨arg, List.mem_cons_of_mem _ harg, h⟩
      · exact .inr h
  | _ =>
    simp only [readings, List.mem_append] at h
    simp only [parts, List.exists_mem_cons_iff, List.not_mem_nil, false_and, exists_false, or_false]
    tauto

theorem Tree.mem_readAll? {trees : List Tree}
    (h : Tree.readAll? classes binder trees = some readings) (hreading : reading ∈ readings) :
    ∃ tree ∈ trees, tree.read? classes binder = some reading := by
  induction trees generalizing readings with
  | nil =>
    cases h
    cases hreading
  | cons tree trees ih =>
    obtain ⟨first, rest, hfirst, hrest, rfl⟩ := readAll?_cons_eq_some.mp h
    rcases List.mem_cons.mp hreading with rfl | hreading
    · exact ⟨tree, List.mem_cons_self, hfirst⟩
    · obtain ⟨other, hother, h⟩ := ih hrest hreading
      exact ⟨other, List.mem_cons_of_mem _ hother, h⟩

theorem Reading.finds_null (hbuiltin : classes.HasBuiltin) : (null classes).Finds classes :=
  finds_of hbuiltin nofun

theorem Reading.finds_isNull (hbuiltin : classes.HasBuiltin) {lhs : Reading}
    (h : lhs.Finds classes) : (isNull classes lhs).Finds classes := by
  refine finds_of hbuiltin ?_
  simp only [List.forall_mem_cons]
  exact ⟨h, finds_null hbuiltin, nofun⟩

theorem Tree.finds_combine? (hbuiltin : classes.HasBuiltin) {tree : Tree}
    (h : tree.combine? classes binder readings = some reading)
    (hparts : ∀ part ∈ readings, part.Finds classes) : reading.Finds classes := by
  unfold combine? at h
  split at h
  · cases h
    exact Reading.finds_of hbuiltin nofun
  · exact Binder.finds_readVariable? h
  · cases h
    exact Reading.finds_of hbuiltin hparts
  · cases h
    exact Reading.finds_of hbuiltin hparts
  · cases h
    exact Reading.finds_of hbuiltin hparts
  · cases h
    exact Reading.finds_of hbuiltin hparts
  · cases h
    exact Reading.finds_of hbuiltin hparts
  · cases h
    refine Reading.finds_of hbuiltin ?_
    simp only [List.forall_mem_cons] at hparts ⊢
    exact ⟨Reading.finds_isNull hbuiltin hparts.1, hparts.2.1, hparts.1, nofun⟩
  · cases h
  · exact hparts reading (List.mem_of_head? h)

/-- The types of all readings of a tree are found by their names. -/
theorem Tree.finds_readings (hbuiltin : classes.HasBuiltin) (tree : Tree) :
    ∀ reading ∈ tree.readings classes binder, reading.Finds classes := by
  induction tree using Tree.partsInduction with
  | step tree ih =>
    intro reading hreading
    obtain ⟨part, hpart, hreading⟩ | hown := mem_readings_cases hreading
    · exact ih part hpart reading hreading
    have hread {reading : Reading} (h : tree.read? classes binder = some reading) :
        reading.Finds classes := by
      rw [read?_eq] at h
      split at h
      · cases h
        exact Reading.finds_of hbuiltin nofun
      · obtain ⟨readings, hparts, h⟩ := Option.bind_eq_some_iff.mp h
        refine finds_combine? hbuiltin h fun part hpart => ?_
        obtain ⟨tree, htree, hpart⟩ := mem_readAll? hparts hpart
        exact ih tree htree part (mem_readings hpart)
    unfold ownReadings at hown
    split at hown
    · cases hown
    · next span lhs rhs reading' hsome =>
      have hlhs := ih lhs List.mem_cons_self
      rcases List.mem_cons.mp hown with rfl | hown
      · exact Reading.finds_null hbuiltin
      · rcases List.mem_append.mp hown with hown | hown
        · obtain ⟨left, hleft, rfl⟩ := Option.map_eq_some_iff.mp (Option.mem_toList.mp hown)
          exact Reading.finds_isNull hbuiltin (hlhs left (mem_readings hleft))
        · cases List.mem_singleton.mp hown
          exact hread hsome
    · next hsome =>
      cases List.mem_singleton.mp hown
      exact hread hsome

/-! ## Layouts -/

/-- The tree of a source without errors. -/
def Tree.of? (source : String) : Option Tree :=
  match (parse source).lexErrors, (parse source).result with
  | [], .ok tree => some tree
  | _, _ => none

namespace Layout

/-- The binder of a layout in front of its bindings. -/
def declared (layout : Layout) : Binder :=
  layout.declare.toOption.getD .empty

/-- The trees of the bindings without errors in their texts. -/
def trees (layout : Layout) : List Tree :=
  layout.bindings.filterMap Tree.of?

/-- The names of all types and of all imported classes. -/
def classNames (classes : ClassRegistry) (layout : Layout) : List String :=
  classes.typeNames ++ layout.imports.map ImportDecl.type

/-- The readings of all classes, variables and bindings. -/
def allReadings (classes : ClassRegistry) (layout : Layout) : List Reading :=
  (layout.classNames classes).map (Reading.ofClass classes) ++
    (layout.declared.variableNodes.filterMap fun (name, _) =>
      layout.declared.readVariable? classes name) ++
    layout.trees.flatMap fun tree => tree.readings classes layout.declared

theorem mem_classNames {name : String} {type : ClassType}
    (htype : classes.findClass name = .ok type) : type.name ∈ layout.classNames classes := by
  obtain ⟨c, hc, hname⟩ := classes.exists_mem_of_findClass htype
  exact List.mem_append_left _ (List.mem_append_left _ (hname ▸ List.mem_map_of_mem hc))

/-- The bindings of the layout do not get in the way of each other: no class name goes on behind
another one, wrappers have values, names refer to the same whatever is imported on demand, and
expressions with one key have one meaning. -/
structure Unambiguous (classes : ClassRegistry) (layout : Layout) : Prop where
  apart : Apart (· ∈ layout.classNames classes)
  builtin : classes.HasBuiltin
  wrapper : ∀ c ∈ classes.classes, (classes.typeOf c).observableField = true →
    (classes.findMember (classes.typeOf c) "get" false).toOption.isSome
  isName : ∀ v ∈ layout.variableDecls, IsName v.name.toList
  unmistakable : ∀ tree ∈ layout.trees, ∀ name ∈ tree.idents,
    layout.declared.Unmistakable classes name
  agree : Reading.Agree (layout.allReadings classes)

instance : Decidable (layout.Unambiguous classes) :=
  decidable_of_iff (Apart (· ∈ layout.classNames classes) ∧ classes.HasBuiltin ∧
    (∀ c ∈ classes.classes, (classes.typeOf c).observableField = true →
      (classes.findMember (classes.typeOf c) "get" false).toOption.isSome) ∧
    (∀ v ∈ layout.variableDecls, IsName v.name.toList) ∧
    (∀ tree ∈ layout.trees, ∀ name ∈ tree.idents, layout.declared.Unmistakable classes name) ∧
    Reading.Agree (layout.allReadings classes))
    ⟨fun ⟨ha, hb, hw, hn, hu, hr⟩ => ⟨ha, hb, hw, hn, hu, hr⟩,
      fun h => ⟨h.apart, h.builtin, h.wrapper, h.isName, h.unmistakable, h.agree⟩⟩

namespace Unambiguous

variable (h : layout.Unambiguous classes)

include h

theorem finds_readings : ∀ reading ∈ layout.allReadings classes, reading.Finds classes := by
  intro reading hreading
  rcases List.mem_append.mp hreading with hreading | hreading
  · rcases List.mem_append.mp hreading with hreading | hreading
    · obtain ⟨name, -, rfl⟩ := List.mem_map.mp hreading
      exact Reading.finds_of h.builtin nofun
    · obtain ⟨⟨name, id⟩, -, hreading⟩ := List.mem_filterMap.mp hreading
      exact Binder.finds_readVariable? hreading
  · obtain ⟨tree, -, hreading⟩ := List.mem_flatMap.mp hreading
    exact tree.finds_readings h.builtin reading hreading

theorem lookup?_ofClass {name : String} (hname : name ∈ layout.classNames classes) :
    Reading.lookup? (layout.allReadings classes) (Kind.classKey name) =
      (classes.findClass name).toOption.map fun type => ⟨type, true, false⟩ :=
  Reading.lookup?_key h.agree
    (List.mem_append_left _ (List.mem_append_left _ (List.mem_map_of_mem hname)))

end Unambiguous

/-- The dictionary of the readings of a layout. -/
def dictionary (h : layout.Unambiguous classes) : Dictionary classes where
  known := (· ∈ layout.classNames classes)
  meaning? := Reading.lookup? (layout.allReadings classes)
  apart := h.apart
  findClass := fun _ _ htype => mem_classNames htype
  ofClass := by
    intro name type htype
    rw [h.lookup?_ofClass (mem_classNames htype), ClassRegistry.findClass_name htype]
    rfl
  finds := by
    intro key meaning hmeaning
    obtain ⟨reading, hreading, hmeaning⟩ := Reading.exists_of_lookup? hmeaning
    exact h.finds_readings reading hreading meaning hmeaning
  wrapper := by
    intro type htype hwrapper
    obtain ⟨c, hc, rfl⟩ := ClassRegistry.findClass_eq_ok_iff.mp htype
    obtain ⟨value, hvalue⟩ := Option.isSome_iff_exists.mp
      (h.wrapper c (ClassRegistry.mem_of_lookup? hc) hwrapper)
    exact ⟨value, toOption_eq_some_iff.mp hvalue⟩

/-- The type of a variable that was declared is the one that its reading has. -/
theorem meaning?_variable (h : layout.Unambiguous classes)
    (hdeclared : layout.declared.Declared (layout.classNames classes)) {i : Nat}
    (hi : i < layout.declared.graph.size) {name : String}
    (hkind : (layout.declared.graph.node i).kind = .identifier name)
    (hkey : (layout.declared.graph.node i).key = name) :
    (dictionary h).meaning? name = ((layout.declared.graph.node i).declaredType.bind
      fun type => (classes.findClass type).toOption).map (Kind.identifier name).meaning := by
  obtain ⟨id, hid⟩ := Option.isSome_iff_exists.mp (hdeclared.variableNode? name ⟨i, hi, hkind⟩)
  have hfound := hdeclared.finds name id hid
  obtain rfl : id = i := by
    exact hdeclared.graph.linked.eq_of_keyOf (find?_eq_some_iff.mp hfound).1 hi
      ((keyOf_of_find? hfound).trans hkey.symm)
  have hreading : layout.declared.readVariable? classes name =
      some ⟨name, ((layout.declared.graph.node id).declaredType.bind
        fun type => (classes.findClass type).toOption).map (Kind.identifier name).meaning⟩ := by
    unfold Binder.readVariable?
    rw [hid]
    rfl
  have hmem : (name, id) ∈ layout.declared.variableNodes := by
    obtain ⟨before, after, heq, -⟩ := List.lookup_eq_some_iff.mp hid
    rw [heq]
    exact List.mem_append_right _ List.mem_cons_self
  exact Reading.lookup?_key h.agree (List.mem_append_left _ (List.mem_append_right _
    (List.mem_filterMap.mpr ⟨(name, id), hmem, hreading⟩)))

/-- A variable, or the reference of an imported class, agrees with the dictionary. -/
theorem agrees_node (h : layout.Unambiguous classes)
    (hdeclared : layout.declared.Declared (layout.classNames classes)) {i : Nat}
    (hi : i < layout.declared.graph.size) :
    Graph.Agrees (dictionary h) False layout.declared.graph (layout.declared.graph.node i) := by
  have hnode := hdeclared.graph.node i hi
  have hplain (name : String) : (layout.declared.graph.node i).kind ≠ .field name true := by
    intro hwrapper
    obtain ⟨other, hkind, -⟩ | ⟨shortName, qualified, hkind, -⟩ := hnode.kind
    all_goals cases hkind.symm.trans hwrapper
  -- both have a meaning that follows from no others
  obtain ⟨hspelled, hleaf, htype⟩ :
      Spelled (dictionary h).known (layout.declared.graph.node i).key.toList ∧
      (layout.declared.graph.node i).kind.isLeaf = true ∧
      (dictionary h).meaning? (layout.declared.graph.node i).key =
        ((layout.declared.graph.node i).type? classes []).map
          (layout.declared.graph.node i).kind.meaning := by
    unfold Node.type?
    obtain ⟨name, hkind, hkey, hname⟩ | ⟨shortName, qualified, hkind, hkey, hqualified⟩ :=
      hnode.kind
    · rw [hkey, hkind]
      exact ⟨.atom (Expression.isAtom_ident hname), rfl,
        meaning?_variable h hdeclared hi hkind hkey⟩
    · rw [hkey, hkind, Kind.classKey, String.toList_append]
      exact ⟨.ref hqualified, rfl, h.lookup?_ofClass hqualified⟩
  refine ⟨fun name hwrapper => absurd hwrapper (hplain name), fun _ => hspelled,
    fun _ => .inl ⟨hleaf, hnode.children⟩, fun meaning hmeaning _ => ?_, fun type hresolved => ?_,
    fun _ _ => ⟨fun child hchild => ?_, ?_⟩, fun _ child hchild => ?_⟩
  · rw [htype] at hmeaning
    obtain ⟨type, -, rfl⟩ := Option.map_eq_some_iff.mp hmeaning
    exact ⟨rfl, rfl⟩
  · cases hnode.resolvedType.symm.trans hresolved
  · rw [hnode.children] at hchild
    cases hchild
  · rw [hnode.children]
    exact htype
  · rw [hnode.children] at hchild
    cases hchild

/-- The binder in front of all bindings agrees with the dictionary. -/
theorem agrees_declared (h : layout.Unambiguous classes)
    (hdeclare : layout.declare = .ok layout.declared) :
    layout.declared.Agrees (dictionary h) layout.declared := by
  have hdeclared : layout.declared.Declared (layout.classNames classes) :=
    declared_declare (fun i hi => List.mem_append_right _ (List.mem_map_of_mem hi)) h.isName
      hdeclare
  exact ⟨⟨hdeclared.graph.linked, hdeclared.graph.isOpen, .refl, fun i hi =>
    agrees_node h hdeclared hi⟩, rfl, hdeclared.finds⟩

end Layout
end BindingPlan
