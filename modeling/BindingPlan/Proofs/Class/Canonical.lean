import BindingPlan.Class.Document
import BindingPlan.Proofs.Json.Reading

/-!
# The canonical text of a registry

The canonical text leaves out nothing that was declared: put into a class file, it loads into the
registry that it was taken from. Here a registry is one that loading and adding lead to, whether or
not each of the steps succeeds.

Main results:

* `ClassDef.reads`: the document of a class is read back as the class.
* `ClassRegistry.Reached.exists_added`: behind the built-in types stand the added classes, and no
  two names are the same.
* `ClassRegistry.load_canonicalText`: the canonical text determines the registry and loads into it.
-/

namespace BindingPlan

open Reader (reads_text reads_optionalText reads_bool reads_list)
open RecordForm (Fills)

/-! ## Descriptions of classes -/

theorem FieldDef.reads (f : FieldDef) : Reader.Reads FieldDef.form.read f.toJson.compact f := by
  have hfills : FieldDef.form.Fills FieldDef.form.blank
      [ ("name", .string f.name), ("type", .string f.type), ("static", .bool f.isStatic),
        ("final", .bool f.isFinal), ("bindable", .bool f.bindable) ] f :=
    .cons rfl ((reads_text f.name).map _) <|
    .cons rfl ((reads_text f.type).map _) <|
    .cons rfl ((reads_bool f.isStatic).map _) <|
    .cons rfl ((reads_bool f.isFinal).map _) <|
    .cons rfl ((reads_bool f.bindable).map _) <| .nil f
  exact hfills.reads (by simp) rfl

theorem MethodDef.reads (m : MethodDef) : Reader.Reads MethodDef.form.read m.toJson.compact m := by
  have hparams : Reader.Reads (Reader.list Reader.text) (Json.array (m.params.map .string)).compact
      m.params :=
    reads_list fun param _ => reads_text param
  have hfills : MethodDef.form.Fills MethodDef.form.blank
      [ ("name", .string m.name), ("type", .string m.type),
        ("params", .array (m.params.map .string)), ("static", .bool m.isStatic),
        ("bindable", .bool m.bindable) ] m :=
    .cons rfl ((reads_text m.name).map _) <|
    .cons rfl ((reads_text m.type).map _) <|
    .cons rfl (hparams.map _) <|
    .cons rfl ((reads_bool m.isStatic).map _) <|
    .cons rfl ((reads_bool m.bindable).map _) <| .nil m
  exact hfills.reads (by simp) rfl

theorem ClassDef.reads (c : ClassDef) : Reader.Reads ClassDef.form.read c.toJson.compact c := by
  obtain ⟨name, parent, observable, observableField, fields, methods⟩ := c
  have hfields : Reader.Reads (Reader.list FieldDef.form.read)
      (Json.array (fields.map FieldDef.toJson)).compact fields :=
    reads_list fun f _ => f.reads
  have hmethods : Reader.Reads (Reader.list MethodDef.form.read)
      (Json.array (methods.map MethodDef.toJson)).compact methods :=
    reads_list fun m _ => m.reads
  have hmembers : ClassDef.form.Fills ⟨name, parent, false, false, [], []⟩
      [ ("observable", .bool observable), ("observable_field", .bool observableField),
        ("fields", .array (fields.map FieldDef.toJson)),
        ("methods", .array (methods.map MethodDef.toJson)) ]
      ⟨name, parent, observable, observableField, fields, methods⟩ :=
    .cons rfl ((reads_bool observable).map _) <|
    .cons rfl ((reads_bool observableField).map _) <|
    .cons rfl (hfields.map _) <|
    .cons rfl (hmethods.map _) <| .nil _
  -- the parent has an entry only if there is one
  cases parent with
  | none =>
    have hfills : ClassDef.form.Fills ClassDef.form.blank (("name", .string name) :: _) _ :=
      .cons rfl ((reads_text name).map _) hmembers
    exact hfills.reads (by simp) rfl
  | some parent =>
    have hfills : ClassDef.form.Fills ClassDef.form.blank
        (("name", .string name) :: ("extends", .string parent) :: _) _ :=
      .cons rfl ((reads_text name).map _) <|
      .cons rfl ((reads_optionalText parent).map _) hmembers
    exact hfills.reads (by simp) rfl

/-- The class file that holds the documents of some classes. -/
theorem ClassFile.read_compact (classes : List ClassDef) :
    ClassFile.read ("\x7b\"classes\":" ++ (Json.array (classes.map ClassDef.toJson)).compact ++
      "\x7d") = .ok ⟨classes⟩ := by
  have hclasses : Reader.Reads (Reader.list ClassDef.form.read)
      (Json.array (classes.map ClassDef.toJson)).compact classes :=
    reads_list fun c _ => c.reads
  have hfills : ClassFile.form.Fills ClassFile.form.blank
      [("classes", .array (classes.map ClassDef.toJson))] ⟨classes⟩ :=
    .cons rfl (hclasses.map _) <| .nil _
  have hreads := RecordForm.readDocument_of_reads (hfills.reads (by simp) rfl)
  have htext : "\x7b\"classes\":" ++ (Json.array (classes.map ClassDef.toJson)).compact ++ "\x7d" =
      (Json.object [("classes", .array (classes.map ClassDef.toJson))]).compact := by
    have hkey : "\x7b\"classes\":" = "\x7b" ++ (Json.writeText "classes" ++ ":") := by decide
    simp only [hkey, Json.compact.eq_def (.object _), Json.compactEntries,
      String.intercalate_singleton, String.append_assoc]
  rw [htext]
  exact hreads

/-! ## Registries -/

namespace ClassRegistry

/-- Loading class files and adding classes lead from the built-in types to the registry. Steps that
fail count as well, with what they have added. -/
inductive Reached : ClassRegistry → Prop
  | builtin : Reached builtin
  | load {registry : ClassRegistry} (text : String) :
      Reached registry → Reached (registry.load text).1
  | extend {registry : ClassRegistry} (classes : List ClassDef) :
      Reached registry → Reached (registry.extend classes).1

variable {registry : ClassRegistry} {classes added : List ClassDef}

/-- Behind the built-in types stand these classes, and no two names are the same. -/
structure Adds (registry : ClassRegistry) (added : List ClassDef) : Prop where
  classes_eq : registry.classes = builtin.classes ++ added
  nodup : (registry.classes.map ClassDef.name).Nodup

theorem contains_eq_false_iff {name : String} :
    registry.contains name = false ↔ name ∉ registry.classes.map ClassDef.name := by
  simp [contains]

/-- Loading adds classes, or nothing. -/
theorem load_fst (registry : ClassRegistry) (text : String) :
    ∃ classes, (registry.load text).1 = (registry.extend classes).1 := by
  unfold load
  split
  · exact ⟨[], rfl⟩
  · next file _ =>
    refine ⟨file.classes, ?_⟩
    split <;> simp [*]

/-- Adding keeps names apart, as it ends in front of the first name that is taken. -/
theorem Adds.extend (h : registry.Adds added) (classes : List ClassDef) :
    ∃ added, (registry.extend classes).1.Adds added := by
  induction classes generalizing registry added with
  | nil => exact ⟨added, h⟩
  | cons c classes ih =>
    rw [ClassRegistry.extend]
    split_ifs with hcontains
    · exact ⟨added, h⟩
    · have hnew := contains_eq_false_iff.mp (Bool.eq_false_iff.mpr hcontains)
      have hadds : Adds ⟨registry.classes ++ [c]⟩ (added ++ [c]) :=
        { classes_eq := by simp [h.classes_eq]
          nodup := by
            rw [List.map_append]
            exact h.nodup.append (List.nodup_singleton _) (by simpa using hnew) }
      exact ih hadds

theorem Reached.exists_added (h : registry.Reached) : ∃ added, registry.Adds added := by
  induction h with
  | builtin => exact ⟨[], (List.append_nil _).symm, by decide⟩
  | @load registry text _ ih =>
    obtain ⟨added, hadds⟩ := ih
    obtain ⟨classes, heq⟩ := registry.load_fst text
    exact heq ▸ hadds.extend classes
  | extend classes _ ih =>
    obtain ⟨added, hadds⟩ := ih
    exact hadds.extend classes

/-- The classes that are not built in are the added ones. -/
theorem Adds.declared_eq (h : registry.Adds added) : registry.declared = added := by
  have hnodup := h.nodup
  rw [h.classes_eq, List.map_append] at hnodup
  have hnames : builtin.classes.map ClassDef.name = TypeName.builtin := by decide
  rw [hnames] at hnodup
  have hbuiltin : builtin.classes.filter (fun c => !TypeName.builtin.contains c.name) = [] := by
    decide
  have hadded : added.filter (fun c => !TypeName.builtin.contains c.name) = added := by
    refine List.filter_eq_self.mpr fun c hc => ?_
    have hname : c.name ∉ TypeName.builtin := fun hmem =>
      List.disjoint_of_nodup_append hnodup hmem (List.mem_map_of_mem hc)
    simpa using hname
  rw [declared, h.classes_eq, List.filter_append, hbuiltin, hadded, List.nil_append]

/-- Classes whose names are all new are added. -/
theorem extend_of_nodup (h : ((registry.classes ++ classes).map ClassDef.name).Nodup) :
    registry.extend classes = (⟨registry.classes ++ classes⟩, .ok ()) := by
  induction classes generalizing registry with
  | nil => rw [List.append_nil, ClassRegistry.extend]
  | cons c classes ih =>
    have hnew : registry.contains c.name = false := by
      rw [contains_eq_false_iff]
      intro hmem
      rw [List.map_append, List.map_cons] at h
      exact (List.disjoint_of_nodup_append h) hmem List.mem_cons_self
    rw [ClassRegistry.extend, hnew, if_neg Bool.false_ne_true]
    rw [List.append_cons] at h
    rw [ih h, List.append_assoc, List.singleton_append]

/-- The added classes, added again to the built-in types. -/
theorem Adds.extend_builtin (h : registry.Adds added) :
    builtin.extend added = (registry, .ok ()) := by
  have hnodup := h.nodup
  rw [h.classes_eq] at hnodup
  rw [extend_of_nodup hnodup, ← h.classes_eq]

theorem load_classFile (h : registry.Reached) :
    builtin.load ("\x7b\"classes\":" ++ registry.canonicalText ++ "\x7d") =
      (registry, .ok registry.declared.length) := by
  obtain ⟨added, hadds⟩ := h.exists_added
  rw [canonicalText, hadds.declared_eq, load, ClassFile.read_compact]
  dsimp only
  rw [hadds.extend_builtin]

/-- In a class file, the canonical text of a registry loads into that registry, class by class and
in order; so no other registry has the same canonical text. -/
theorem load_canonicalText (h : registry.Reached) :
    builtin.load ("\x7b\"classes\":" ++ registry.canonicalText ++ "\x7d") =
        (registry, .ok registry.declared.length) ∧
      ∀ other, Reached other → other.canonicalText = registry.canonicalText → other = registry := by
  refine ⟨load_classFile h, fun other hother heq => ?_⟩
  have hsame := load_classFile hother
  rw [heq, load_classFile h] at hsame
  exact (congrArg Prod.fst hsame).symm

/-- A class whose texts need escapes, added in front of a duplicate, and loaded from a class file
with the fields in another order. -/
theorem load_canonicalText_escaped :
    let c : ClassDef := ⟨"A\"\x01", some "int", true, false, [], []⟩
    let registry := (builtin.extend [c, .bare "int"]).1
    let other := (builtin.load <| "\x7b\"classes\": [\x7b\"observable\": true, " ++
      "\"extends\": \"int\", \"name\": \"A\\\"\\u0001\"\x7d]\x7d").1
    registry.Reached ∧ other.Reached ∧ other.canonicalText = registry.canonicalText ∧
      builtin.load ("\x7b\"classes\":" ++ registry.canonicalText ++ "\x7d") =
        (registry, .ok registry.declared.length) ∧ other = registry := by
  intro c registry other
  have hregistry : registry.Reached := .extend _ .builtin
  have hother : other.Reached := .load _ .builtin
  have heq : other.canonicalText = registry.canonicalText := by decide +kernel
  have hload := load_canonicalText hregistry
  exact ⟨hregistry, hother, heq, hload.1, hload.2 other hother heq⟩

end ClassRegistry
end BindingPlan
