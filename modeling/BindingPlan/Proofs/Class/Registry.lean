import BindingPlan.Class.Registry
import Mathlib.Data.List.TakeWhile

/-!
# Types that a registry gives

Every look-up gives the type of a class of the registry, and the name of such a type leads back to
it: a class that is found by its simple name is the only one with that name.

Main results:

* `ClassRegistry.HasBuiltin.extend`: the built-in types are in every registry that adds to them.
* `ClassRegistry.findClass_name`: the name of a type that was found finds the type.
* `ClassRegistry.gives_of_findMember`, `ClassRegistry.gives_of_findMethod`: what look-ups give as a
  member.
-/

namespace BindingPlan
namespace ClassRegistry

variable {classes : ClassRegistry} {name : String} {type owner : ClassType} {member : Member}
  {staticOnly : Bool} {c : ClassDef}

theorem mem_of_lookup? (h : classes.lookup? name = some c) : c ∈ classes.classes := by
  unfold lookup? at h
  split at h
  · next hfound =>
    cases h
    exact List.mem_of_find?_eq_some hfound
  · split at h
    · next only honly =>
      cases h
      refine (List.mem_filter (p := fun c => TypeName.simple c.name == name).mp ?_).1
      rw [honly]
      exact List.mem_singleton_self _
    · cases h

/-- A class that was found is found by its own name. -/
theorem lookup?_name (h : classes.lookup? name = some c) : classes.lookup? c.name = some c := by
  have hmem := mem_of_lookup? h
  unfold lookup? at h
  split at h
  · next hfound =>
    cases h
    have hname : (c.name == name) = true :=
      List.find?_some (p := fun c : ClassDef => c.name == name) hfound
    unfold lookup?
    rw [beq_iff_eq.mp hname, hfound]
  · split at h
    · next only honly =>
      cases h
      -- a class of that name has the same simple name, and there is only one
      have hsimple : TypeName.simple c.name = name := by
        have hmem' : c ∈ classes.classes.filter fun c => TypeName.simple c.name == name := by
          rw [honly]
          exact List.mem_singleton_self c
        exact beq_iff_eq.mp (List.mem_filter.mp hmem').2
      unfold lookup?
      split
      · next other hother =>
        have hname : (other.name == c.name) = true :=
          List.find?_some (p := fun other : ClassDef => other.name == c.name) hother
        have hmem' : other ∈ classes.classes.filter fun c => TypeName.simple c.name == name := by
          refine List.mem_filter.mpr ⟨List.mem_of_find?_eq_some hother, ?_⟩
          rw [beq_iff_eq.mp hname, hsimple]
          exact beq_self_eq_true name
        rw [honly] at hmem'
        rw [List.mem_singleton.mp hmem']
      · next hnone => exact absurd (List.find?_eq_none.mp hnone c hmem) (by simp)
    · cases h

theorem point_notMem_simple (name : String) : '.' ∉ (TypeName.simple name).toList := by
  unfold TypeName.simple
  rw [String.toList_ofList, List.mem_reverse]
  intro hpoint
  exact absurd (List.mem_takeWhile_imp hpoint :) (by decide)

/-- A qualified name finds only the class of that name. -/
theorem lookup?_eq_none (hname : ∀ c ∈ classes.classes, c.name ≠ name)
    (hpoint : '.' ∈ name.toList) : classes.lookup? name = none := by
  have hfind : classes.classes.find? (·.name == name) = none :=
    List.find?_eq_none.mpr fun c hc => by simpa using hname c hc
  have hfilter : (classes.classes.filter fun c => TypeName.simple c.name == name) = [] := by
    refine List.filter_eq_nil_iff.mpr fun c _ hsimple => ?_
    rw [← beq_iff_eq.mp hsimple] at hpoint
    exact point_notMem_simple c.name hpoint
  unfold lookup?
  rw [hfind, hfilter]

theorem findClass_eq_ok_iff : classes.findClass name = .ok type ↔
    ∃ c, classes.lookup? name = some c ∧ classes.typeOf c = type := by
  unfold findClass
  split
  · next c hc =>
    rw [hc]
    simp only [Except.ok.injEq, Option.some.injEq, exists_eq_left']
  · next hnone =>
    rw [hnone]
    simp

theorem eq_unknownClass_of_findClass {cause : ResolveError}
    (h : classes.findClass name = .error cause) : cause = .unknownClass name := by
  unfold findClass at h
  split at h
  · cases h
  · cases h
    rfl

/-- The name of a type that was found finds the type. -/
theorem findClass_name (h : classes.findClass name = .ok type) :
    classes.findClass type.name = .ok type := by
  obtain ⟨c, hc, rfl⟩ := findClass_eq_ok_iff.mp h
  exact findClass_eq_ok_iff.mpr ⟨c, lookup?_name hc, rfl⟩

theorem exists_mem_of_findClass (h : classes.findClass name = .ok type) :
    ∃ c ∈ classes.classes, c.name = type.name := by
  obtain ⟨c, hc, rfl⟩ := findClass_eq_ok_iff.mp h
  exact ⟨c, mem_of_lookup? hc, rfl⟩

/-- A name that finds a class is that of a class, or it has no point. -/
theorem exists_or_point_notMem_of_findClass (h : classes.findClass name = .ok type) :
    (∃ c ∈ classes.classes, c.name = name) ∨ '.' ∉ name.toList := by
  by_contra hnot
  rw [not_or, not_not] at hnot
  obtain ⟨c, hc, -⟩ := findClass_eq_ok_iff.mp h
  rw [lookup?_eq_none (fun c hmem hname => hnot.1 ⟨c, hmem, hname⟩) hnot.2] at hc
  cases hc

/-! ## Built-in types -/

/-- The built-in types are there, without members. -/
def HasBuiltin (classes : ClassRegistry) : Prop :=
  ∀ name ∈ TypeName.builtin, classes.classes.find? (·.name == name) = some (.bare name)

instance : Decidable classes.HasBuiltin :=
  inferInstanceAs (Decidable (∀ name ∈ TypeName.builtin, _ = _))

theorem hasBuiltin_builtin : builtin.HasBuiltin := by
  decide +kernel

/-- Added classes do not take the place of built-in types. -/
theorem HasBuiltin.extend (h : classes.HasBuiltin) (added : List ClassDef) :
    (classes.extend added).1.HasBuiltin := by
  induction added generalizing classes with
  | nil => exact h
  | cons c added ih =>
    unfold ClassRegistry.extend
    split
    · exact h
    · refine ih fun name hname => ?_
      rw [List.find?_append, h name hname]
      rfl

theorem HasBuiltin.findClass (h : classes.HasBuiltin) (hname : name ∈ TypeName.builtin) :
    classes.findClass name = .ok (.plain name) := by
  have hlookup : classes.lookup? name = some (.bare name) := by
    unfold lookup?
    rw [h name hname]
  refine findClass_eq_ok_iff.mpr ⟨_, hlookup, ?_⟩
  have hchain : classes.chain (.bare name) = [.bare name] := by
    unfold chain
    cases classes.classes.length <;> rfl
  unfold typeOf
  rw [hchain]
  rfl

/-! ## Members -/

/-- A member as look-ups give it: its type was found by a name, and it is static where only static
members count. -/
structure Gives (classes : ClassRegistry) (staticOnly : Bool) (member : Member) : Prop where
  exists_findClass : ∃ name, classes.findClass name = .ok member.type
  isStatic : staticOnly = true → member.isStatic = true

theorem gives_of_memberOfMethod {method : MethodDef}
    (hstatic : staticOnly = true → method.isStatic = true)
    (h : classes.memberOfMethod method = .ok member) : classes.Gives staticOnly member := by
  unfold memberOfMethod at h
  cases htype : classes.findClass method.type with
  | error cause =>
    rw [htype] at h
    cases h
  | ok type =>
    rw [htype] at h
    cases h
    exact ⟨⟨method.type, htype⟩, hstatic⟩

theorem gives_of_memberOfField {field : FieldDef}
    (hstatic : staticOnly = true → field.isStatic = true)
    (h : classes.memberOfField field = .ok member) : classes.Gives staticOnly member := by
  unfold memberOfField at h
  cases htype : classes.findClass field.type with
  | error cause =>
    rw [htype] at h
    cases h
  | ok type =>
    rw [htype] at h
    cases h
    exact ⟨⟨field.type, htype⟩, hstatic⟩

theorem gives_of_findMember (h : classes.findMember owner name staticOnly = .ok member) :
    classes.Gives staticOnly member := by
  unfold findMember at h
  cases hchain : classes.chainOf owner with
  | error cause =>
    rw [hchain] at h
    cases h
  | ok chain =>
    rw [hchain] at h
    dsimp only [bind, Except.bind] at h
    split at h
    · next method hmethod =>
      obtain ⟨getter, -, hgetter⟩ := List.exists_of_findSome?_eq_some hmethod
      unfold findGetter? at hgetter
      refine gives_of_memberOfMethod (fun hstatic => ?_) h
      simpa [hstatic] using (Bool.and_eq_true_iff.mp (List.find?_some hgetter :)).2
    · split at h
      · next field hfield =>
        refine gives_of_memberOfField (fun hstatic => ?_) h
        simpa [hstatic] using (Bool.and_eq_true_iff.mp (List.find?_some hfield :)).2
      · cases h

theorem gives_of_findMethod {args : List ClassType}
    (h : classes.findMethod owner name args staticOnly = .ok member) :
    classes.Gives staticOnly member := by
  unfold findMethod at h
  cases hchain : classes.chainOf owner with
  | error cause =>
    rw [hchain] at h
    cases h
  | ok chain =>
    rw [hchain] at h
    dsimp only [bind, Except.bind] at h
    split at h
    · next method hmethod =>
      refine gives_of_memberOfMethod (fun hstatic => ?_) h
      have hcandidate : method ∈ (chain.flatMap ClassDef.methods).filter fun m =>
          m.name == name && m.params.length == args.length && (!staticOnly || m.isStatic) := by
        obtain hfirst | ⟨-, hhead⟩ := Option.or_eq_some_iff.mp hmethod
        · exact List.mem_of_find?_eq_some hfirst
        · exact List.mem_of_head? hhead
      simpa [hstatic] using (Bool.and_eq_true_iff.mp (List.mem_filter.mp hcandidate).2).2
    · cases h

/-- The type of a member was found by a name. -/
theorem exists_of_findMember (h : classes.findMember owner name staticOnly = .ok member) :
    ∃ name, classes.findClass name = .ok member.type :=
  (gives_of_findMember h).exists_findClass

theorem exists_of_findMethod {args : List ClassType}
    (h : classes.findMethod owner name args staticOnly = .ok member) :
    ∃ name, classes.findClass name = .ok member.type :=
  (gives_of_findMethod h).exists_findClass

/-- The type of a member is that of a class of the registry. -/
theorem exists_typeOf_of_findMember
    (h : classes.findMember owner name staticOnly = .ok member) :
    ∃ c ∈ classes.classes, classes.typeOf c = member.type := by
  obtain ⟨typeName, hfind⟩ := exists_of_findMember h
  obtain ⟨c, hc, htype⟩ := findClass_eq_ok_iff.mp hfind
  exact ⟨c, mem_of_lookup? hc, htype⟩

end ClassRegistry
end BindingPlan
