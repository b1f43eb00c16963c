import BindingPlan.Proofs.Class.Canonical
import BindingPlan.Proofs.Class.Registry
import Mathlib.Data.List.Chain
import Mathlib.Logic.Relation

/-!
# Ancestors

Parents are texts that anyone may write: they may name no class, several classes, or lead in a
circle. The walk up from a class still ends, as it passes no name twice and there are only so many
classes; and it ends only where nothing new could follow, so that it has met every class that
parents lead to.

Main definitions:

* `ClassRegistry.LeadsTo`: following parents leads from one class to another.
* `ClassRegistry.Walk`: what the walk meets, step by step and without a bound.

Main results:

* `ClassRegistry.walk_ancestors`: the bound never cuts the walk short.
* `ClassRegistry.leadsTo_iff_mem_chain`: the chain of a class has the classes that parents lead to.
* `ClassRegistry.chain_complete`: the walk is total and complete, and types tell what it meets.
-/

namespace BindingPlan
namespace ClassRegistry

variable {registry : ClassRegistry} {c d parent last : ClassDef} {rest : List ClassDef}
  {seen : List String} {bound : Nat} {name : String}

/-- Following parents leads from the first class to the second. -/
def LeadsTo (registry : ClassRegistry) : ClassDef → ClassDef → Prop :=
  Relation.ReflTransGen fun d next => d.parent.bind registry.lookup? = some next

/-! ## Distinct names -/

theorem find?_name_eq_some_iff (h : (registry.classes.map ClassDef.name).Nodup) :
    registry.classes.find? (·.name == name) = some c ↔ c ∈ registry.classes ∧ c.name = name := by
  constructor
  · intro hfind
    have hname : (c.name == name) = true :=
      List.find?_some (p := fun c : ClassDef => c.name == name) hfind
    exact ⟨List.mem_of_find?_eq_some hfind, beq_iff_eq.mp hname⟩
  · rintro ⟨hmem, rfl⟩
    obtain ⟨found, hfound⟩ : ∃ found, registry.classes.find? (·.name == c.name) = some found :=
      Option.isSome_iff_exists.mp (List.find?_isSome.mpr ⟨c, hmem, beq_self_eq_true _⟩)
    have hname : (found.name == c.name) = true :=
      List.find?_some (p := fun other : ClassDef => other.name == c.name) hfound
    rw [hfound, List.inj_on_of_nodup_map h (List.mem_of_find?_eq_some hfound) hmem
      (beq_iff_eq.mp hname)]

/-- A class is found by its own name. -/
theorem lookup?_of_mem (h : (registry.classes.map ClassDef.name).Nodup)
    (hc : c ∈ registry.classes) : registry.lookup? c.name = some c := by
  unfold lookup?
  rw [(find?_name_eq_some_iff h).mpr ⟨hc, rfl⟩]

theorem mem_of_parent? (h : registry.parent? c = some parent) : parent ∈ registry.classes := by
  obtain ⟨name, -, hname⟩ := Option.bind_eq_some_iff.mp h
  exact mem_of_lookup? hname

/-! ## The walk -/

/-- The classes that the walk has not seen. -/
def unseen (registry : ClassRegistry) (seen : List String) : List ClassDef :=
  registry.classes.filter fun c => decide (c.name ∉ seen)

/-- A step of the walk leaves fewer classes to see. -/
theorem length_unseen_cons (hc : c ∈ registry.classes) (hnew : c.name ∉ seen) :
    (registry.unseen (c.name :: seen)).length < (registry.unseen seen).length := by
  have hsub : registry.unseen (c.name :: seen) =
      (registry.unseen seen).filter fun d => decide (d.name ≠ c.name) := by
    simp [unseen, List.filter_filter]
  rw [hsub, List.length_filter_lt_length_iff_exists]
  exact ⟨c, List.mem_filter.mpr ⟨hc, by simpa using hnew⟩, by simp⟩

/-- What the walk up from a class meets if the names were seen: nothing if the parent was seen or
there is none, and else the parent and what the walk meets from there. -/
inductive Walk (registry : ClassRegistry) : List String → ClassDef → List ClassDef → Prop
  | stop {seen : List String} {last : ClassDef} :
      (∀ parent, registry.parent? last = some parent → parent.name ∈ seen) →
      Walk registry seen last []
  | step {seen : List String} {last parent : ClassDef} {rest : List ClassDef} :
      registry.parent? last = some parent → parent.name ∉ seen →
      Walk registry (parent.name :: seen) parent rest → Walk registry seen last (parent :: rest)

/-- The walk ends before the bound does, if the bound allows for every class that was not seen. -/
theorem walk_ancestors (hbound : (registry.unseen seen).length ≤ bound) :
    registry.Walk seen last (registry.ancestors bound seen last) := by
  induction bound generalizing seen last with
  | zero =>
    refine .stop fun parent hparent => ?_
    by_contra hnew
    have hless := length_unseen_cons (mem_of_parent? hparent) hnew
    omega
  | succ bound ih =>
    rw [ancestors]
    split
    · next hnone => exact .stop fun parent hparent => by simp [hnone] at hparent
    · next parent hparent =>
      split_ifs with hseen
      · refine .stop fun other hother => ?_
        rw [hparent] at hother
        cases hother
        exact hseen
      · have hless := length_unseen_cons (mem_of_parent? hparent) hseen
        exact .step hparent hseen (ih (by omega))

theorem walk_chain (registry : ClassRegistry) (c : ClassDef) :
    ∃ rest, registry.chain c = c :: rest ∧ registry.Walk [c.name] c rest :=
  ⟨_, rfl, walk_ancestors (List.length_filter_le _ _)⟩

/-- Each class that the walk meets is where the parent of the one before leads. -/
theorem Walk.isChain (h : registry.Walk seen last rest) :
    (last :: rest).IsChain fun d next => d.parent.bind registry.lookup? = some next := by
  induction h with
  | stop => exact List.isChain_singleton _
  | step hparent _ _ ih => exact List.isChain_cons_cons.mpr ⟨hparent, ih⟩

/-- The walk meets no name twice, and none that was seen. -/
theorem Walk.nodup (h : registry.Walk seen last rest) :
    (rest.map ClassDef.name).Nodup ∧ ∀ name ∈ rest.map ClassDef.name, name ∉ seen := by
  induction h with
  | stop => exact ⟨List.nodup_nil, List.forall_mem_nil _⟩
  | step _ hnew _ ih =>
    obtain ⟨hnodup, hdisjoint⟩ := ih
    refine ⟨List.nodup_cons.mpr ⟨fun hmem => hdisjoint _ hmem List.mem_cons_self, hnodup⟩, ?_⟩
    refine List.forall_mem_cons.mpr ⟨hnew, fun name hname hseen => ?_⟩
    exact hdisjoint name hname (List.mem_cons_of_mem _ hseen)

/-- Parents lead to each class that the walk meets. -/
theorem Walk.leadsTo (h : registry.Walk seen last rest) :
    ∀ d ∈ last :: rest, registry.LeadsTo last d := by
  induction h with
  | stop => exact List.forall_mem_singleton.mpr .refl
  | step hparent _ _ ih =>
    exact List.forall_mem_cons.mpr ⟨.refl, fun d hd => .head hparent (ih d hd)⟩

/-- The walk does not end in front of a new name: the parent of each class that it meets has a name
that was seen or met. -/
theorem Walk.closed (h : registry.Walk seen last rest) (hd : d ∈ last :: rest)
    (hparent : registry.parent? d = some parent) :
    parent.name ∈ seen ∨ parent.name ∈ rest.map ClassDef.name := by
  induction h with
  | stop hstop =>
    rw [List.mem_singleton.mp hd] at hparent
    exact .inl (hstop parent hparent)
  | step hnext _ _ ih =>
    rcases List.mem_cons.mp hd with rfl | hd
    · rw [hnext] at hparent
      cases hparent
      exact .inr List.mem_cons_self
    · rcases ih hd with hseen | hrest
      · rcases List.mem_cons.mp hseen with heq | hseen
        · exact .inr (heq ▸ List.mem_cons_self)
        · exact .inl hseen
      · exact .inr (List.mem_cons_of_mem _ hrest)

/-! ## Chains -/

theorem nodup_chain (registry : ClassRegistry) (c : ClassDef) :
    ((registry.chain c).map ClassDef.name).Nodup := by
  obtain ⟨rest, hchain, hwalk⟩ := registry.walk_chain c
  obtain ⟨hnodup, hdisjoint⟩ := hwalk.nodup
  rw [hchain]
  exact List.nodup_cons.mpr
    ⟨fun hmem => hdisjoint _ hmem (List.mem_singleton_self _), hnodup⟩

theorem leadsTo_of_mem_chain (h : d ∈ registry.chain c) : registry.LeadsTo c d := by
  obtain ⟨rest, hchain, hwalk⟩ := registry.walk_chain c
  exact hwalk.leadsTo d (hchain ▸ h)

theorem name_mem_of_parent? (hd : d ∈ registry.chain c) (h : registry.parent? d = some parent) :
    parent.name ∈ (registry.chain c).map ClassDef.name := by
  obtain ⟨rest, hchain, hwalk⟩ := registry.walk_chain c
  rw [hchain] at hd ⊢
  rcases hwalk.closed hd h with hstart | hrest
  · rw [List.mem_singleton.mp hstart]
    exact List.mem_cons_self
  · exact List.mem_cons_of_mem _ hrest

theorem mem_classes_of_mem_chain (hc : c ∈ registry.classes) (h : d ∈ registry.chain c) :
    d ∈ registry.classes := by
  rcases (leadsTo_of_mem_chain h).cases_tail with rfl | ⟨_, -, hparent⟩
  · exact hc
  · exact mem_of_parent? hparent

/-- A chain goes on with every parent, and no class gets lost behind another one of its name. -/
theorem mem_chain_of_parent? (hnodup : (registry.classes.map ClassDef.name).Nodup)
    (hc : c ∈ registry.classes) (hd : d ∈ registry.chain c)
    (h : registry.parent? d = some parent) : parent ∈ registry.chain c := by
  obtain ⟨other, hother, hname⟩ := List.mem_map.mp (name_mem_of_parent? hd h)
  rw [← List.inj_on_of_nodup_map hnodup (mem_classes_of_mem_chain hc hother) (mem_of_parent? h)
    hname]
  exact hother

/-- The chain of a class has exactly the classes that parents lead to. -/
theorem leadsTo_iff_mem_chain (hnodup : (registry.classes.map ClassDef.name).Nodup)
    (hc : c ∈ registry.classes) : registry.LeadsTo c d ↔ d ∈ registry.chain c := by
  refine ⟨fun h => ?_, leadsTo_of_mem_chain⟩
  induction h with
  | refl => exact List.mem_cons_self
  | tail _ hparent ih => exact mem_chain_of_parent? hnodup hc ih hparent

theorem length_chain_le (hc : c ∈ registry.classes) :
    (registry.chain c).length ≤ registry.classes.length := by
  have hsub : (registry.chain c).map ClassDef.name ⊆ registry.classes.map ClassDef.name := by
    refine List.map_subset _ fun d hd => ?_
    exact mem_classes_of_mem_chain hc hd
  simpa using List.Nodup.length_le_of_subset (registry.nodup_chain c) hsub

/-! ## Types -/

theorem observable_typeOf (hnodup : (registry.classes.map ClassDef.name).Nodup)
    (hc : c ∈ registry.classes) : (registry.typeOf c).observable = true ↔
      ∃ d, registry.LeadsTo c d ∧ (d.observable = true ∨ d.observableField = true) := by
  simp [typeOf, leadsTo_iff_mem_chain hnodup hc]

theorem observableField_typeOf (hnodup : (registry.classes.map ClassDef.name).Nodup)
    (hc : c ∈ registry.classes) : (registry.typeOf c).observableField = true ↔
      ∃ d, registry.LeadsTo c d ∧ d.observableField = true := by
  simp [typeOf, leadsTo_iff_mem_chain hnodup hc]

/-- The walk up from any class of any registry ends by itself, after no more steps than there are
classes. It starts with the class, passes no name twice, goes on with the parent of each class, and
meets every class that parents lead to. So the type of the class, which is found by its own name as
by any name that finds the class, is observable, or a wrapper, if some class there is declared so.
-/
theorem chain_complete (h : registry.Reached) (hc : c ∈ registry.classes) :
    (∃ rest, registry.chain c = c :: rest ∧ registry.Walk [c.name] c rest) ∧
    (registry.chain c).length ≤ registry.classes.length ∧
    ((registry.chain c).map ClassDef.name).Nodup ∧
    ((registry.chain c).IsChain fun d next => d.parent.bind registry.lookup? = some next) ∧
    (∀ d, registry.LeadsTo c d ↔ d ∈ registry.chain c) ∧
    registry.lookup? c.name = some c ∧
    ∀ name, registry.lookup? name = some c → ∃ type, registry.findClass name = .ok type ∧
      type.name = c.name ∧
      (type.observable = true ↔
        ∃ d, registry.LeadsTo c d ∧ (d.observable = true ∨ d.observableField = true)) ∧
      (type.observableField = true ↔ ∃ d, registry.LeadsTo c d ∧ d.observableField = true) := by
  obtain ⟨added, hadds⟩ := h.exists_added
  have hnodup := hadds.nodup
  have hwalk := registry.walk_chain c
  refine ⟨hwalk, length_chain_le hc, registry.nodup_chain c, ?_,
    fun d => leadsTo_iff_mem_chain hnodup hc, lookup?_of_mem hnodup hc, fun name hname => ?_⟩
  · obtain ⟨rest, hchain, hwalk⟩ := hwalk
    exact hchain ▸ hwalk.isChain
  · exact ⟨registry.typeOf c, findClass_eq_ok_iff.mpr ⟨c, hname, rfl⟩, rfl,
      observable_typeOf hnodup hc, observableField_typeOf hnodup hc⟩

/-- Of two classes whose parents lead to each other by simple names, one is observable as the other
one is. -/
theorem chain_complete_circle :
    let a : ClassDef := ⟨"p.A", some "B", false, false, [], []⟩
    let b : ClassDef := ⟨"q.B", some "A", true, false, [], []⟩
    let registry := (builtin.extend [a, b]).1
    registry.Reached ∧ a ∈ registry.classes ∧ registry.chain a = [a, b] ∧ registry.LeadsTo a b ∧
      ∃ type, registry.findClass "A" = .ok type ∧ type.observable = true ∧
        type.observableField = false := by
  intro a b registry
  have hreached : registry.Reached := .extend _ .builtin
  have hmem : a ∈ registry.classes := by decide +kernel
  have hchain : registry.chain a = [a, b] := by decide +kernel
  obtain ⟨-, -, -, -, hleads, -, htypes⟩ := chain_complete hreached hmem
  have hb : registry.LeadsTo a b := (hleads b).mpr (hchain ▸ by simp)
  obtain ⟨type, hfind, -, hobservable, hfield⟩ := htypes "A" (by decide +kernel)
  refine ⟨hreached, hmem, hchain, hb, type, hfind, hobservable.mpr ⟨b, hb, .inl rfl⟩, ?_⟩
  rw [← Bool.not_eq_true, hfield]
  rintro ⟨d, hd, hwrapper⟩
  rw [hleads, hchain] at hd
  rcases List.mem_pair.mp hd with rfl | rfl <;> cases hwrapper

end ClassRegistry
end BindingPlan
