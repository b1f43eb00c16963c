import BindingPlan.Proofs.Graph.Formed
import BindingPlan.Proofs.Graph.Settling

/-!
# Keys of plain nodes

The key of a node is longer than those of its children, and it does not read like that of a wrapper
that is read below one of them, if the names of fields are plain. So while a child is resolved, the
node itself gets no type.

Main results:

* `Kind.IsPlain`: kinds of nodes whose keys tell their parts apart so far.
* `Kind.Sets`: the keys of the nodes that may get a type while a node is resolved.
* `Kind.IsPlain.not_sets`: the key of a node is none of them, for any of its children.
-/

namespace BindingPlan

/-- A name of a field that shows where it begins in a key. -/
structure IsPlainName (name : String) : Prop where
  ne_nil : name.toList ≠ []
  point : '.' ∉ name.toList
  close : ')' ∉ name.toList

theorem IsName.isPlainName {name : String} (h : IsName name.toList) : IsPlainName name where
  ne_nil := h.ne_nil
  point := h.point_notMem
  close := fun hmem => by cases h.forall_isNameRest _ hmem

/-- The last character of a plain name is no mark. -/
theorem IsPlainName.append_ne_concat {name : String} (h : IsPlainName name) {c : Char}
    (hc : c ∉ name.toList) {s t : List Char} : s ++ name.toList ≠ t ++ [c] := by
  obtain ⟨before, last, hname⟩ := List.eq_nil_or_concat name.toList |>.resolve_left h.ne_nil
  intro heq
  rw [hname, List.concat_eq_append, ← List.append_assoc] at heq
  obtain ⟨-, hlast⟩ := List.append_inj' heq rfl
  rw [hname, List.concat_eq_append, List.singleton_inj.mp hlast] at hc
  exact hc (List.mem_append_right _ (List.mem_singleton_self c))

namespace Kind

/-- A field access has a plain name and is not marked as unwrapping. -/
def IsPlain : Kind → Prop
  | .field name unwrap => unwrap = false ∧ IsPlainName name
  | _ => True

variable {kind child : Kind} {keys parts : List String} {key part other : String}

/-- Expressions have as many parts as their kinds need. -/
theorem Composes.accepts {count : Nat} (h : kind.Composes count) : kind.Accepts count := by
  cases h with
  | call _ args => exact Nat.succ_pos args
  | _ => rfl

/-- Expressions are plain. -/
theorem Composes.isPlain {count : Nat} (h : kind.Composes count) : kind.IsPlain := by
  cases h with
  | field hname => exact ⟨rfl, hname.isPlainName⟩
  | _ => trivial

/-! ## Shapes of keys -/

theorem toList_key_field (name receiver : String) :
    ((Kind.field name false).key [receiver]).toList = receiver.toList ++ '.' :: name.toList := by
  simp [Kind.key]

/-- The key of an access to a field, of an operator in front, or one that ends in a parenthesis. -/
theorem IsPlain.shapes (hplain : kind.IsPlain) (haccepts : kind.Accepts keys.length)
    (hpart : part ∈ keys) :
    (∃ name, IsPlainName name ∧ (kind.key keys).toList = part.toList ++ '.' :: name.toList) ∨
    (∃ op : UnaryOp, (kind.key keys).toList = op.symbol.toList ++ part.toList) ∨
    ∃ before, (kind.key keys).toList = before ++ [')'] := by
  cases kind with
  | identifier | classRef | symbol =>
    rw [List.length_eq_zero_iff.mp haccepts] at hpart
    cases hpart
  | field name unwrap =>
    obtain ⟨rfl, hname⟩ := hplain
    obtain ⟨only, rfl⟩ := List.length_eq_one_iff.mp haccepts
    rw [List.mem_singleton.mp hpart]
    exact .inl ⟨name, hname, toList_key_field name only⟩
  | unary op =>
    obtain ⟨only, rfl⟩ := List.length_eq_one_iff.mp haccepts
    rw [List.mem_singleton.mp hpart]
    exact .inr (.inl ⟨op, by simp [Kind.key]⟩)
  | call | binary | ternary => exact .inr (.inr ⟨_, String.toList_append⟩)

theorem length_le_intercalate (hpart : part ∈ keys) :
    part.length ≤ (", ".intercalate keys).length := by
  induction keys with
  | nil => cases hpart
  | cons first rest ih =>
    cases rest with
    | nil =>
      rw [List.mem_singleton.mp hpart]
      simp
    | cons second rest =>
      rw [String.intercalate_cons_cons]
      simp only [String.length_append]
      rcases List.mem_cons.mp hpart with rfl | hpart
      · omega
      · have := ih hpart
        omega

/-- The key of a node is longer than those of its children. -/
theorem length_lt_key (haccepts : kind.Accepts keys.length) (hpart : part ∈ keys) :
    part.length < (kind.key keys).length := by
  have hsigns : 0 < ".".length ∧ 0 < "..".length ∧ 0 < "(".length := by decide
  cases kind with
  | identifier | classRef | symbol =>
    rw [List.length_eq_zero_iff.mp haccepts] at hpart
    cases hpart
  | field name unwrap =>
    obtain ⟨only, rfl⟩ := List.length_eq_one_iff.mp haccepts
    rw [List.mem_singleton.mp hpart]
    cases unwrap <;> simp [Kind.key, String.length_append] <;> omega
  | unary op =>
    have hsymbol : 0 < op.symbol.length := by cases op <;> decide
    obtain ⟨only, rfl⟩ := List.length_eq_one_iff.mp haccepts
    rw [List.mem_singleton.mp hpart]
    simp [Kind.key, String.length_append]
    omega
  | call name =>
    obtain ⟨target, args, rfl⟩ :=
      List.exists_cons_of_length_pos (show 0 < keys.length from haccepts)
    simp only [Kind.key, String.length_append, List.getD_cons_zero, List.drop_one, List.tail_cons]
    rcases List.mem_cons.mp hpart with rfl | hpart
    · omega
    · have := length_le_intercalate hpart
      omega
  | binary op =>
    obtain ⟨lhs, rhs, rfl⟩ := List.length_eq_two.mp haccepts
    simp [Kind.key, String.length_append] at hpart ⊢
    rcases hpart with rfl | rfl <;> omega
  | ternary =>
    obtain ⟨predicate, whenTrue, whenFalse, rfl⟩ := List.length_eq_three.mp haccepts
    simp [Kind.key, String.length_append] at hpart ⊢
    rcases hpart with rfl | rfl | rfl <;> omega

/-! ## Keys that get types -/

/-- The keys of the nodes that may get a type while the node of the kind with the key is resolved:
its own key, shorter ones, and those of the wrappers that accesses are moved to, on the receivers
that are there or on classes. -/
inductive Sets (kind : Kind) (key : String) : String → Prop where
  | self : Sets kind key key
  | below {other : String} (h : other.length < key.length) : Sets kind key other
  | wrapper {receiver name : String} (hleaf : kind.isLeaf = false) (hname : IsPlainName name)
      (h : (receiver ++ "." ++ name = key ∨ (receiver ++ "." ++ name).length < key.length) ∨
        "static:".toList <+: receiver.toList) :
      Sets kind key (receiver ++ ".." ++ name)

/-- What gets a type below a child gets it below the node. -/
theorem Sets.of_child (h : child.Sets part other) (hlt : part.length < key.length)
    (hleaf : kind.isLeaf = false) : kind.Sets key other := by
  cases h with
  | self => exact .below hlt
  | below h => exact .below (Nat.lt_trans h hlt)
  | wrapper _ hname h =>
    refine .wrapper hleaf hname (h.imp_left fun h => .inr ?_)
    obtain rfl | h := h
    · exact hlt
    · exact Nat.lt_trans h hlt

theorem Accepts.ne_nil (haccepts : kind.Accepts keys.length) (hleaf : kind.isLeaf = false) :
    keys ≠ [] := by
  rintro rfl
  cases kind <;> simp [Accepts, isLeaf] at haccepts hleaf

/-- A plain node with parts has no key that starts like a class and ends in a point. -/
theorem IsPlain.ne_concat_point (hplain : kind.IsPlain) (haccepts : kind.Accepts keys.length)
    (hleaf : kind.isLeaf = false) {receiver : List Char} (hstatic : "static:".toList <+: receiver) :
    (kind.key keys).toList ≠ receiver ++ ['.'] := by
  obtain ⟨part, hpart⟩ := List.exists_mem_of_ne_nil keys (haccepts.ne_nil hleaf)
  intro hkey
  obtain ⟨name, hname, hshape⟩ | ⟨op, hshape⟩ | ⟨before, hshape⟩ := hplain.shapes haccepts hpart
  · rw [hshape, ← List.singleton_append, ← List.append_assoc] at hkey
    exact hname.append_ne_concat hname.point hkey
  · obtain ⟨c, hc, hfirst, -⟩ := op.exists_symbol
    obtain ⟨rest, rfl⟩ := hstatic
    rw [hshape, hc] at hkey
    exact absurd (.inl ((List.cons.inj hkey).1 ▸ rfl)) hfirst
  · rw [hshape] at hkey
    exact absurd (List.append_inj' hkey rfl).2 (by decide)

/-- A plain node gets no type while one of its children is resolved that is plain itself. -/
theorem IsPlain.not_sets (hplain : kind.IsPlain) (haccepts : kind.Accepts keys.length)
    (hpart : child.key parts ∈ keys) (hchild : child.IsPlain)
    (hparts : child.Accepts parts.length) :
    ¬ child.Sets (child.key parts) (kind.key keys) := by
  have hlt := length_lt_key haccepts hpart
  generalize hkey : kind.key keys = key at hlt
  intro hsets
  cases hsets with
  | self => exact Nat.lt_irrefl _ hlt
  | below h => exact Nat.lt_asymm h hlt
  | @wrapper receiver name hleaf hname h =>
    have hwrapper : (kind.key keys).toList =
        (receiver.toList ++ ['.']) ++ '.' :: name.toList := by
      rw [hkey]
      simp
    obtain ⟨name', hname', hshape⟩ | ⟨op, hshape⟩ | ⟨before, hshape⟩ :=
      hplain.shapes haccepts hpart
    · -- an access to the same name, so the child would be the receiver with a point behind it
      rw [hwrapper] at hshape
      obtain ⟨hreceiver, -⟩ := concat_mark_inj hname.point hname'.point hshape
      obtain h | hstatic := h
      · have hpos := List.length_pos_iff.mpr hname.ne_nil
        have hlength := congrArg List.length hreceiver
        have hsign : ".".length = 1 := rfl
        simp only [List.length_append, List.length_singleton, String.length_toList] at hpos hlength
        obtain heq | h := h
        · rw [← heq] at hlength
          simp only [String.length_append] at hlength
          omega
        · simp only [String.length_append] at h
          omega
      · exact hchild.ne_concat_point hparts hleaf hstatic hreceiver.symm
    · -- an access behind an operator, and the operator adds no point
      obtain ⟨c, hc, hfirst, hpoint, -⟩ := op.exists_symbol
      rw [hwrapper, hc] at hshape
      obtain (heq | h) | ⟨rest, hstatic⟩ := h
      · have hcount := congrArg (List.count '.') hshape
        rw [← heq] at hcount
        simp [hpoint] at hcount
      · have hsign : ".".length = 1 := rfl
        have hlength := congrArg List.length hshape
        simp only [List.length_append, List.length_cons, String.length_toList] at hlength
        simp only [String.length_append] at h
        omega
      · rw [← hstatic] at hshape
        exact absurd (.inl ((List.cons.inj hshape).1 ▸ rfl)) hfirst
    · have hshape : (receiver.toList ++ ['.', '.']) ++ name.toList = before ++ [')'] := by
        simpa [hwrapper] using hshape
      exact hname.append_ne_concat hname.close hshape

end Kind
end BindingPlan
