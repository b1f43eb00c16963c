import BindingPlan.Graph.Edges
import BindingPlan.Proofs.Graph.Formed

/-!
# Kinds that keys tell

Keys are flat texts, so the key of a node need not tell what kind of node it is. Over classes of
which none goes on behind another one, it does so far as look-ups rely on it: what has the key of a
class is the reference of a class, and what has the key of a node that reads a wrapper is such a
node.

A class that is imported by its simple name has a key of its own, which is the key of no access as
it holds no point.

Main results:

* `Kind.Keyed`: what the key of a node tells of its kind.
* `keyed_atom`, `keyed_classRef`, `keyed_wrapper`, `Kind.Composes.keyed`: nodes as they are
  registered.
* `Kind.receiver_of_key`: the key of an access tells the key of its receiver.
-/

namespace BindingPlan

variable {known : String → Prop} {kind : Kind} {name q shortName : String}

/-- Classes and nodes that read wrappers are told from other nodes by the key. -/
structure Kind.Keyed (known : String → Prop) (kind : Kind) (key : List Char) : Prop where
  classRef : ∀ shortName q, kind = .classRef shortName q → key = "static:".toList ++ q.toList
  isClassRef : ∀ q, known q → key = "static:".toList ++ q.toList → kind.isClassRef = true
  isWrapper : ∀ receiver name, Wrapped known receiver → IsName name →
    key = receiver ++ '.' :: '.' :: name → ∃ name, kind = .field name true
  isName : ∀ name unwrap, kind = .field name unwrap → IsName name.toList

theorem Kind.toList_classKey (q : String) : (classKey q).toList = "static:".toList ++ q.toList :=
  String.toList_append

theorem Kind.toList_key_wrapper (name receiver : String) :
    ((Kind.field name true).key [receiver]).toList =
      receiver.toList ++ '.' :: '.' :: name.toList := by
  simp [Kind.key]

/-! ## Nodes as they are registered -/

/-- The key of a variable or of a literal looks like no other one. -/
theorem keyed_atom {e : Expression} (he : e.IsAtom) (hleaf : kind.isLeaf = true)
    (hclass : kind.isClassRef = false) : kind.Keyed known e.key.toList where
  classRef := by
    rintro shortName q rfl
    cases hclass
  isClassRef := fun q _ hkey => absurd ⟨q.toList, hkey.symm⟩ he.not_static
  isWrapper := by
    intro receiver name _ hname hkey
    rw [← List.singleton_append, ← List.append_assoc] at hkey
    exact absurd hkey (he.ne_append_point (.inr hname))
  isName := by
    rintro name unwrap rfl
    cases hleaf

section

variable (hapart : Apart known)

include hapart

theorem keyed_classRef (h : known q ∨ '.' ∉ q.toList) :
    (Kind.classRef shortName q).Keyed known (Kind.classKey q).toList where
  classRef := by
    rintro _ _ ⟨⟩
    exact Kind.toList_classKey q
  isClassRef := fun _ _ _ => rfl
  isWrapper := by
    intro receiver name hreceiver _ hkey
    rw [Kind.toList_classKey] at hkey
    obtain hknown | hpoint := h
    · exact absurd hkey (hreceiver.class_ne hapart hknown)
    · have hmem : '.' ∈ "static:".toList ++ q.toList := by
        rw [hkey]
        exact List.mem_append_right _ List.mem_cons_self
      exact absurd ((List.mem_append.mp hmem).resolve_left (by decide)) hpoint
  isName := nofun

theorem keyed_wrapper {receiver : String} (hreceiver : Wrapped known receiver.toList)
    (hname : IsName name.toList) :
    (Kind.field name true).Keyed known ((Kind.field name true).key [receiver]).toList where
  classRef := nofun
  isClassRef := by
    intro q hq hkey
    rw [Kind.toList_key_wrapper] at hkey
    exact absurd hkey.symm (hreceiver.class_ne hapart hq)
  isWrapper := fun _ _ _ _ _ => ⟨name, rfl⟩
  isName := by
    rintro _ _ ⟨⟩
    exact hname

/-- The key of an expression with parts. -/
theorem Kind.Composes.keyed {keys : List String} (h : kind.Composes keys.length)
    (hkeys : ∀ key ∈ keys, Spelled known key.toList) :
    kind.Keyed known (kind.key keys).toList where
  classRef := by
    rintro shortName q rfl
    cases h
  isClassRef := fun q hq hkey => absurd hkey ((h.composed hkeys).ne_class hapart hq)
  isWrapper := fun receiver name hreceiver hname hkey =>
    absurd hkey ((h.composed hkeys).spelled.ne_wrapper hapart hreceiver hname)
  isName := fun _ _ hkind => h.isName hkind

end

/-! ## Receivers -/

/-- The key of an access goes on behind the key of its receiver, by its name and its arguments. -/
theorem Kind.receiver_of_key (h : kind.hasReceiver = true) {receiver other : String}
    {args : List String} (hkey : kind.key (receiver :: args) = kind.key (other :: args)) :
    receiver = other := by
  have hcancel {rest : String} (h : receiver ++ rest = other ++ rest) : receiver = other := by
    have h := congrArg String.toList h
    rw [String.toList_append, String.toList_append] at h
    exact String.toList_inj.mp (List.append_cancel_right h)
  cases kind with
  | field name unwrap =>
    simp only [Kind.key, List.getD_cons_zero, String.append_assoc] at hkey
    exact hcancel hkey
  | call name =>
    simp only [Kind.key, List.getD_cons_zero, String.append_assoc, List.drop_one,
      List.tail_cons] at hkey
    exact hcancel hkey
  | identifier | binary | unary | ternary | classRef | symbol => cases h

end BindingPlan
