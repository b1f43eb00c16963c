import BindingPlan.Proofs.Class.Ancestors

/-!
# Load order

The order of the classes shows in no look-up. A name finds the class of that name, of which there is
one, or else the class of that simple name if there is only one; neither depends on which class
comes first. All the rest of a registry is asked for through look-ups.

Main results:

* `ClassRegistry.lookup?_perm`: look-ups in registries with the same classes.
* `ClassRegistry.findMember_congr`, `ClassRegistry.findMethod_congr`: what rests on look-ups.
* `ClassRegistry.answers_perm`: classes loaded in another order give the same answers.
-/

namespace BindingPlan
namespace ClassRegistry

variable {registry other : ClassRegistry} {classes classes' : List ClassDef}

/-! ## Look-ups -/

/-- A name finds the class of that name, or else the only class of that simple name. -/
theorem lookup?_eq_some_iff (hnodup : (registry.classes.map ClassDef.name).Nodup) {name : String}
    {c : ClassDef} : registry.lookup? name = some c ↔
      (c ∈ registry.classes ∧ c.name = name) ∨
      ((∀ d ∈ registry.classes, d.name ≠ name) ∧
        registry.classes.filter (fun d => TypeName.simple d.name == name) = [c]) := by
  unfold lookup?
  split
  · next found hfound =>
    obtain ⟨hmem, hname⟩ := (find?_name_eq_some_iff hnodup).mp hfound
    rw [← hfound, find?_name_eq_some_iff hnodup]
    exact ⟨.inl, fun h => h.resolve_right fun hnone => hnone.1 found hmem hname⟩
  · next hnone =>
    have hnone : ∀ d ∈ registry.classes, d.name ≠ name := by
      simpa using List.find?_eq_none.mp hnone
    have honly : ¬ (c ∈ registry.classes ∧ c.name = name) := fun h => hnone c h.1 h.2
    rw [or_iff_right honly, and_iff_right hnone]
    split
    · next only heq => rw [heq, Option.some.injEq, List.singleton_inj]
    · next hmany => exact iff_of_false (by simp) (hmany c)

/-- Look-ups do not depend on the order of the classes. -/
theorem lookup?_perm (hperm : registry.classes.Perm other.classes)
    (hnodup : (registry.classes.map ClassDef.name).Nodup) : registry.lookup? = other.lookup? := by
  have hnodup' := (hperm.map ClassDef.name).nodup_iff.mp hnodup
  have hsimple (name : String) (c : ClassDef) :
      registry.classes.filter (fun d => TypeName.simple d.name == name) = [c] ↔
        other.classes.filter (fun d => TypeName.simple d.name == name) = [c] := by
    rw [← List.perm_singleton, ← List.perm_singleton]
    exact (hperm.filter _).congr_left [c]
  ext name c
  simp only [lookup?_eq_some_iff hnodup, lookup?_eq_some_iff hnodup', hsimple, hperm.mem_iff]

/-! ## What rests on look-ups -/

section

variable (hlookup : registry.lookup? = other.lookup?)

include hlookup

theorem parent?_congr : registry.parent? = other.parent? := by
  funext c
  unfold parent?
  rw [hlookup]

theorem ancestors_congr (bound : Nat) (seen : List String) (last : ClassDef) :
    registry.ancestors bound seen last = other.ancestors bound seen last := by
  induction bound generalizing seen last with
  | zero => rfl
  | succ bound ih =>
    unfold ancestors
    rw [parent?_congr hlookup]
    cases other.parent? last with
    | none => rfl
    | some parent => simp only [ih]

theorem accepts_congr (method : MethodDef) (args : List ClassType) :
    registry.accepts method args = other.accepts method args := by
  unfold accepts
  rw [hlookup]

variable (hsize : registry.classes.length = other.classes.length)

include hsize

theorem chain_congr (c : ClassDef) : registry.chain c = other.chain c := by
  unfold chain
  rw [ancestors_congr hlookup, hsize]

theorem findClass_congr : registry.findClass = other.findClass := by
  funext name
  unfold findClass typeOf
  rw [hlookup]
  simp only [chain_congr hlookup hsize]

theorem chainOf_congr (owner : ClassType) : registry.chainOf owner = other.chainOf owner := by
  unfold chainOf
  rw [hlookup]
  simp only [chain_congr hlookup hsize]

theorem memberOfMethod_congr : registry.memberOfMethod = other.memberOfMethod := by
  funext method
  unfold memberOfMethod
  rw [findClass_congr hlookup hsize]

theorem memberOfField_congr : registry.memberOfField = other.memberOfField := by
  funext field
  unfold memberOfField
  rw [findClass_congr hlookup hsize]

theorem findMember_congr : registry.findMember = other.findMember := by
  funext owner name staticOnly
  unfold findMember
  rw [chainOf_congr hlookup hsize, memberOfMethod_congr hlookup hsize,
    memberOfField_congr hlookup hsize]

theorem findMethod_congr : registry.findMethod = other.findMethod := by
  funext owner name args staticOnly
  unfold findMethod
  rw [chainOf_congr hlookup hsize, memberOfMethod_congr hlookup hsize]
  simp only [accepts_congr hlookup]

end

/-! ## Loading in another order -/

/-- New classes with distinct names are all added to the built-in types. -/
theorem extend_builtin_of_nodup (hnames : (classes.map ClassDef.name).Nodup)
    (hnew : ∀ c ∈ classes, c.name ∉ TypeName.builtin) :
    builtin.extend classes = (⟨builtin.classes ++ classes⟩, .ok ()) := by
  refine extend_of_nodup ?_
  have hbuiltin : builtin.classes.map ClassDef.name = TypeName.builtin := by decide
  rw [List.map_append, hbuiltin]
  refine List.Nodup.append (by decide) hnames fun name hname hmem => ?_
  obtain ⟨c, hc, rfl⟩ := List.mem_map.mp hmem
  exact hnew c hc hname

/-- New classes with distinct names are all added, in any order, and every look-up of a class, a
member or a method has the same answer, be it a result or an error. -/
theorem answers_perm (hperm : classes.Perm classes') (hnames : (classes.map ClassDef.name).Nodup)
    (hnew : ∀ c ∈ classes, c.name ∉ TypeName.builtin) :
    ∃ registry other, builtin.extend classes = (registry, .ok ()) ∧
      builtin.extend classes' = (other, .ok ()) ∧
      (∀ name, registry.lookup? name = other.lookup? name) ∧
      (∀ name, registry.findClass name = other.findClass name) ∧
      (∀ owner name staticOnly,
        registry.findMember owner name staticOnly = other.findMember owner name staticOnly) ∧
      ∀ owner name args staticOnly,
        registry.findMethod owner name args staticOnly =
          other.findMethod owner name args staticOnly := by
  have hextend := extend_builtin_of_nodup hnames hnew
  have hextend' := extend_builtin_of_nodup ((hperm.map ClassDef.name).nodup_iff.mp hnames)
    fun c hc => hnew c (hperm.mem_iff.mpr hc)
  have hall : (builtin.classes ++ classes).Perm (builtin.classes ++ classes') :=
    hperm.append_left builtin.classes
  have hreached : Reached ⟨builtin.classes ++ classes⟩ := by
    have hreached := Reached.extend classes .builtin
    rwa [hextend] at hreached
  obtain ⟨_, hadds⟩ := hreached.exists_added
  have hlookup : lookup? ⟨builtin.classes ++ classes⟩ = lookup? ⟨builtin.classes ++ classes'⟩ :=
    lookup?_perm hall hadds.nodup
  have hsize := hall.length_eq
  refine ⟨_, _, hextend, hextend', fun name => ?_, fun name => ?_, fun owner name staticOnly => ?_,
    fun owner name args staticOnly => ?_⟩
  · rw [hlookup]
  · rw [findClass_congr hlookup hsize]
  · rw [findMember_congr hlookup hsize]
  · rw [findMethod_congr hlookup hsize]

/-- A class, its parent by simple name, and two classes that share another simple name, loaded in
two orders: an inherited getter is found, and the shared name finds no class. -/
theorem answers_perm_shuffled :
    let parent : ClassDef :=
      ⟨"p.Base", some "T", true, false, [], [⟨"getId", "int", [], false, true⟩]⟩
    let child : ClassDef := ⟨"p.User", some "Base", false, false, [], []⟩
    let classes := [child, .bare "p.T", parent, .bare "q.T"]
    let classes' := [.bare "q.T", parent, .bare "p.T", child]
    classes.Perm classes' ∧ (classes.map ClassDef.name).Nodup ∧
      (∀ c ∈ classes, c.name ∉ TypeName.builtin) ∧
      ∃ registry other, builtin.extend classes = (registry, .ok ()) ∧
        builtin.extend classes' = (other, .ok ()) ∧
        other.findClass "T" = .error (.unknownClass "T") ∧
        registry.findClass "T" = other.findClass "T" ∧
        other.findMember ⟨"User", true, false⟩ "id" false =
          .ok ⟨"getId", .method, false, true, true, .plain "int"⟩ ∧
        registry.findMember ⟨"User", true, false⟩ "id" false =
          other.findMember ⟨"User", true, false⟩ "id" false := by
  intro parent child classes classes'
  have hperm : classes.Perm classes' := by decide +kernel
  have hnames : (classes.map ClassDef.name).Nodup := by decide +kernel
  have hnew : ∀ c ∈ classes, c.name ∉ TypeName.builtin := by decide +kernel
  obtain ⟨registry, other, hextend, hextend', -, hclass, hmember, -⟩ :=
    answers_perm hperm hnames hnew
  refine ⟨hperm, hnames, hnew, registry, other, hextend, hextend', ?_, hclass "T", ?_,
    hmember _ _ _⟩
  · obtain rfl := congrArg Prod.fst hextend'
    decide +kernel
  · obtain rfl := congrArg Prod.fst hextend'
    decide +kernel

end ClassRegistry
end BindingPlan
