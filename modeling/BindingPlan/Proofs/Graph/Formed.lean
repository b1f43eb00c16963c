import BindingPlan.Proofs.Graph.Acyclic
import BindingPlan.Proofs.Graph.Linked
import BindingPlan.Proofs.Key.Spelled

/-!
# Graphs of written expressions

The expressions of binding sources are registered over expressions that were registered before.
While a node is resolved its receiver may be replaced, by the reference of a class or by a node that
reads a wrapper; these are found by their keys. If no class name goes on behind another one, then
what is found is what was looked for, and no replacement closes a cycle.

Main results:

* `Graph.Rules.written`: the expressions of sources, over classes of known names.
* `Graph.Formed.step`: one step keeps graphs of written expressions in form, and without cycles.
-/

namespace BindingPlan

/-- Kinds without parts. -/
def Kind.isLeaf : Kind → Bool
  | .identifier _ | .classRef _ _ | .symbol _ _ => true
  | _ => false

theorem Kind.Composes.isLeaf {kind : Kind} {n : Nat} (h : kind.Composes n) :
    kind.isLeaf = false := by
  cases h <;> rfl

theorem Kind.Composes.ne_wrapper {kind : Kind} {n : Nat} (h : kind.Composes n) (name : String) :
    kind ≠ .field name true := by
  cases h <;> nofun

theorem Kind.Composes.isName {kind : Kind} {n : Nat} {name : String} {unwrap : Bool}
    (h : kind.Composes n) (hkind : kind = .field name unwrap) : IsName name.toList := by
  cases h with
  | field hname =>
    cases hkind
    exact hname
  | call | binary | unary | ternary => cases hkind

namespace Graph

variable {known : String → Prop} {spans : Span → Prop} {moves : Prop} {graph next : Graph}
  {node : Node}
  {i parent child id : Nat} {name : String}

/-- Resolving the node changes no links: its type is known, or it has no parts. -/
def Settled (graph : Graph) (i : Nat) : Prop :=
  (graph.node i).resolvedType.isSome ∨ (graph.node i).kind.isLeaf = true

/-- Expressions of sources, over classes of known names. -/
def Rules.written (known : String → Prop) (spans : Span → Prop) (moves : Prop) : Rules where
  typeName := known
  expression graph kind children :=
    kind.isLeaf = true ∧ children = [] ∨
      kind.Composes children.length ∧
        ∀ child ∈ children, child < graph.size ∧ Spelled known (graph.keyOf child).toList
  children_lt := by
    rintro graph kind children (⟨-, rfl⟩ | ⟨-, h⟩)
    · exact fun _ hchild => nomatch hchild
    · exact fun child hchild => (h child hchild).1
  unwraps := False
  unwraps_of_expression := by
    rintro graph name children (⟨hleaf, -⟩ | ⟨h, -⟩)
    · cases hleaf
    · cases h
  ready graph children := ∀ child ∈ children, graph.Settled child
  moves := moves
  cycles := False
  span := spans

/-- A graph of written expressions. -/
structure Formed (known : String → Prop) (graph : Graph) : Prop where
  leaf : ∀ i, (graph.node i).kind.isLeaf = true → (graph.node i).children = []
  composed : ∀ i, (graph.node i).kind.isLeaf = false →
    (∀ name, (graph.node i).kind ≠ .field name true) → Composed known (graph.keyOf i).toList
  parts : ∀ i, (graph.node i).kind.isLeaf = false →
    (∀ name, (graph.node i).kind ≠ .field name true) →
    (graph.node i).kind.Composes (graph.node i).children.length
  isName : ∀ i name unwrap, (graph.node i).kind = .field name unwrap → IsName name.toList
  /-- A node that reads a wrapper has the receiver that its key names. -/
  wrapper : ∀ i name, (graph.node i).kind = .field name true → ∃ receiver,
    (graph.node i).children = [receiver] ∧ graph.keyOf i = graph.keyOf receiver ++ ".." ++ name
  wrapped : ∀ i, ∀ child ∈ (graph.node i).children, Wrapped known (graph.keyOf child).toList
  acyclic : graph.Acyclic
  /-- Links of resolved nodes lead to nodes that have their links for good, and so do links of
  others unless they lead down. -/
  ordered : ∀ i, ∀ child ∈ (graph.node i).children,
    graph.Settled child ∨ (graph.node i).resolvedType = none ∧ child < i

theorem formed_empty : Formed known .empty where
  leaf := fun _ _ => rfl
  composed := fun _ h => nomatch h
  parts := fun _ h => nomatch h
  isName := fun _ _ _ h => nomatch h
  wrapper := fun _ _ h => nomatch h
  wrapped := fun _ _ h => nomatch h
  acyclic := acyclic_empty
  ordered := fun _ _ h => nomatch h

theorem Settled.step {rules : Rules} (h : graph.Settled i) (hi : i < graph.size)
    (hstep : rules.Step graph next) : next.Settled i := by
  refine h.imp hstep.resolved fun hleaf => ?_
  rw [hstep.kind hi]
  exact hleaf

theorem Settled.steps {rules : Rules} (h : graph.Settled i) (hi : i < graph.size)
    (hsteps : rules.Steps graph next) : next.Settled i := by
  refine h.imp (Rules.Steps.resolved hsteps) fun hleaf => ?_
  rw [Rules.Steps.kind hsteps hi]
  exact hleaf

/-! ## What is found -/

section

variable (h : Formed known graph) (hapart : Apart known)

include h hapart

/-- What is found by the key of a class has no parts. -/
theorem Formed.isLeaf_of_class {q : String} (hq : known q)
    (hfound : graph.find? (Kind.classKey q) = some id) : (graph.node id).kind.isLeaf = true := by
  have hkey : (graph.keyOf id).toList = "static:".toList ++ q.toList := by
    rw [keyOf_of_find? hfound]
    exact String.toList_append
  by_contra hleaf
  rw [Bool.not_eq_true] at hleaf
  by_cases hwrapper : ∃ name, (graph.node id).kind = .field name true
  · obtain ⟨name, hkind⟩ := hwrapper
    obtain ⟨receiver, hchildren, hwrapper⟩ := h.wrapper id name hkind
    have hreceiver := h.wrapped id receiver (hchildren ▸ List.mem_singleton_self receiver)
    have hparts : (graph.keyOf id).toList =
        (graph.keyOf receiver).toList ++ '.' :: '.' :: name.toList := by
      rw [hwrapper]
      simp
    exact hreceiver.class_ne hapart hq (hkey.symm.trans hparts)
  · exact (h.composed id hleaf fun name hkind => hwrapper ⟨name, hkind⟩).ne_class hapart hq hkey

/-- What is found by the key of a node that reads a wrapper has no parts, or has the receiver. -/
theorem Formed.children_of_wrapper {receiver inner : Nat} (hlinked : graph.Linked)
    (hreceiver : Wrapped known (graph.keyOf receiver).toList) (hlt : receiver < graph.size)
    (hname : IsName name.toList)
    (hfound : graph.find? ((Kind.field name true).key [graph.keyOf receiver]) = some inner) :
    (graph.node inner).kind.isLeaf = true ∨
      (∃ name, (graph.node inner).kind = .field name true) ∧
        (graph.node inner).children = [receiver] := by
  have hkey : (graph.keyOf inner).toList =
      (graph.keyOf receiver).toList ++ '.' :: '.' :: name.toList := by
    rw [keyOf_of_find? hfound]
    simp [Kind.key]
  by_contra hnot
  rw [not_or, Bool.not_eq_true] at hnot
  obtain ⟨hleaf, hchildren⟩ := hnot
  by_cases hwrapper : ∃ name, (graph.node inner).kind = .field name true
  · -- both keys name the receiver
    obtain ⟨other, hkind⟩ := hwrapper
    obtain ⟨found, hfound, hwrapper⟩ := h.wrapper inner other hkind
    have hother := h.isName inner other true hkind
    have hkeys : (graph.keyOf found).toList ++ '.' :: '.' :: other.toList =
        (graph.keyOf receiver).toList ++ '.' :: '.' :: name.toList := by
      rw [← hkey, hwrapper]
      simp
    have hsplit : ((graph.keyOf found).toList ++ ['.']) ++ '.' :: other.toList =
        ((graph.keyOf receiver).toList ++ ['.']) ++ '.' :: name.toList := by
      simpa using hkeys
    obtain ⟨hsame, -⟩ := concat_mark_inj hother.point_notMem hname.point_notMem hsplit
    have hsame := String.toList_inj.mp (List.append_cancel_right hsame)
    have hfound_lt := hlinked.children_lt (hfound ▸ List.mem_singleton_self found)
    rw [hlinked.eq_of_keyOf hfound_lt hlt hsame] at hfound
    exact hchildren ⟨⟨other, hkind⟩, hfound⟩
  · exact (h.composed inner hleaf fun name hkind => hwrapper ⟨name, hkind⟩).spelled.ne_wrapper
      hapart hreceiver hname hkey

end

/-! ## Changes -/

theorem Formed.push (h : Formed known graph) (hlinked : graph.Linked)
    (hchildren : ∀ child ∈ node.children, child < graph.size)
    (hwrapped : ∀ child ∈ node.children, Wrapped known (graph.keyOf child).toList)
    (hleaf : node.kind.isLeaf = true → node.children = [])
    (hcomposed : node.kind.isLeaf = false → (∀ name, node.kind ≠ .field name true) →
      Composed known node.key.toList)
    (hparts : node.kind.isLeaf = false → (∀ name, node.kind ≠ .field name true) →
      node.kind.Composes node.children.length)
    (hname : ∀ name unwrap, node.kind = .field name unwrap → IsName name.toList)
    (hwrapper : ∀ name, node.kind = .field name true → ∃ receiver,
      node.children = [receiver] ∧ node.key = graph.keyOf receiver ++ ".." ++ name)
    (hready : node.resolvedType.isSome → ∀ child ∈ node.children, graph.Settled child) :
    Formed known (graph.push node) := by
  have hkey {child : Nat} (hlt : child < graph.size) :
      (graph.push node).keyOf child = graph.keyOf child :=
    eq_of_push Node.key (fun _ _ => rfl) hlt
  have hold : ∀ i, ∀ child ∈ (graph.node i).children, child < graph.size :=
    fun _ _ => hlinked.children_lt
  have hlt : ∀ i, ∀ child ∈ ((graph.push node).node i).children, child < graph.size :=
    forall_push Node.children (p := fun children => ∀ child ∈ children, child < graph.size)
      (fun _ _ => rfl) hchildren hold
  constructor
  · exact forall_push (fun node => (node.kind, node.children))
      (p := fun part => part.1.isLeaf = true → part.2 = []) (fun _ _ => rfl) hleaf h.leaf
  · exact forall_push (fun node => (node.kind, node.key)) (p := fun part =>
      part.1.isLeaf = false → (∀ name, part.1 ≠ .field name true) → Composed known part.2.toList)
      (fun _ _ => rfl) hcomposed h.composed
  · exact forall_push (fun node => (node.kind, node.children)) (p := fun part =>
      part.1.isLeaf = false → (∀ name, part.1 ≠ .field name true) → part.1.Composes part.2.length)
      (fun _ _ => rfl) hparts h.parts
  · exact forall_push Node.kind (p := fun kind => ∀ name unwrap, kind = .field name unwrap →
      IsName name.toList) (fun _ _ => rfl) hname h.isName
  · intro i name hkind
    obtain ⟨receiver, hreceiver, heq⟩ := forall_push
      (fun node => (node.kind, node.children, node.key))
      (p := fun part => ∀ name, part.1 = .field name true → ∃ receiver,
        part.2.1 = [receiver] ∧ part.2.2 = graph.keyOf receiver ++ ".." ++ name)
      (fun _ _ => rfl) hwrapper h.wrapper i name hkind
    have hreceiver : ((graph.push node).node i).children = [receiver] := hreceiver
    refine ⟨receiver, hreceiver, ?_⟩
    rw [hkey (hlt i receiver (hreceiver ▸ List.mem_singleton_self receiver))]
    exact heq
  · intro i child hchild
    rw [hkey (hlt i child hchild)]
    exact forall_push Node.children
      (p := fun children => ∀ child ∈ children, Wrapped known (graph.keyOf child).toList)
      (fun _ _ => rfl) hwrapped h.wrapped i child hchild
  · exact h.acyclic.push hold hchildren
  · intro i child hchild
    have hsettled {child : Nat} (hlt : child < graph.size) (h : graph.Settled child) :
        (graph.push node).Settled child := by
      unfold Settled
      rwa [resolvedType_push hlt, kind_push hlt]
    rcases Nat.lt_trichotomy i graph.size with hi | rfl | hi
    · rw [children_push hi] at hchild
      rw [resolvedType_push hi]
      exact (h.ordered i child hchild).imp_left (hsettled (hold i child hchild))
    · rw [node_push_self] at hchild ⊢
      cases hresolved : node.resolvedType with
      | none => exact .inr ⟨rfl, hchildren child hchild⟩
      | some type =>
        refine .inl (hsettled (hchildren child hchild) (hready ?_ child hchild))
        rw [hresolved]
        rfl
    · rw [node_push_of_lt hi, node_of_size_le (Nat.le_of_lt hi)] at hchild
      cases hchild

theorem Formed.annotate {change : Node → Node} (h : Formed known graph)
    (hannotates : (Rules.written known spans moves).Annotates graph (graph.node id)
      (change (graph.node id))) :
    Formed known (graph.modify id change) := by
  have hkind := eq_of_modify Node.kind hannotates.kind
  have hkey (i : Nat) : (graph.modify id change).keyOf i = graph.keyOf i :=
    keyOf_modify change id i
  have hchildren := eq_of_modify Node.children hannotates.children
  have hstep := Rules.Step.annotate hannotates
  constructor
  · intro i
    rw [hkind, hchildren]
    exact h.leaf i
  · intro i
    rw [hkind, hkey]
    exact h.composed i
  · intro i
    rw [hkind, hchildren]
    exact h.parts i
  · intro i
    rw [hkind]
    exact h.isName i
  · intro i
    simp only [hkind, hchildren, hkey]
    exact h.wrapper i
  · intro i child
    rw [hchildren, hkey]
    exact h.wrapped i child
  · exact h.acyclic.of_children_eq hchildren
  · intro i child
    rw [hchildren]
    intro hchild
    have hsettled (h : graph.Settled child) : (graph.modify id change).Settled child := by
      refine h.imp hstep.resolved fun hleaf => ?_
      rw [hkind]
      exact hleaf
    obtain hchild' | ⟨hnone, hlt⟩ := h.ordered i child hchild
    · exact .inl (hsettled hchild')
    · -- a type is set only over children that have their links for good
      cases hresolved : ((graph.modify id change).node i).resolvedType with
      | none => exact .inr ⟨rfl, hlt⟩
      | some type =>
        rw [node_modify] at hresolved
        split at hresolved
        · next hi =>
          obtain ⟨rfl, -⟩ := hi
          exact .inl (hsettled (hannotates.ready hnone (hresolved ▸ rfl) child hchild))
        · cases hnone.symm.trans hresolved

/-- A receiver may be replaced by a node whose links are for good, unless that closes a cycle. -/
theorem Formed.replaceChild (h : Formed known graph)
    (hparent : ∀ name, (graph.node parent).kind ≠ .field name true)
    (hchild : Wrapped known (graph.keyOf child).toList) (hsettled : graph.Settled child)
    (hacyclic : (graph.replaceChild parent 0 child).Acyclic) :
    Formed known (graph.replaceChild parent 0 child) := by
  constructor
  · intro i hleaf
    rw [kind_replaceChild] at hleaf
    rw [children_replaceChild]
    split
    · next hi => rw [h.leaf parent (hi ▸ hleaf), List.set_nil]
    · exact h.leaf i hleaf
  · intro i
    rw [kind_replaceChild, keyOf_replaceChild]
    exact h.composed i
  · intro i hleaf hwrapper
    rw [kind_replaceChild] at hleaf hwrapper ⊢
    have hlength : ((graph.replaceChild parent 0 child).node i).children.length =
        (graph.node i).children.length := by
      rw [children_replaceChild]
      split
      · next hi => rw [List.length_set, hi]
      · rfl
    rw [hlength]
    exact h.parts i hleaf hwrapper
  · intro i
    rw [kind_replaceChild]
    exact h.isName i
  · intro i name hkind
    rw [kind_replaceChild] at hkind
    have hi : i ≠ parent := fun hi => hparent name (hi ▸ hkind)
    simp only [children_replaceChild, if_neg hi, keyOf_replaceChild]
    exact h.wrapper i name hkind
  · intro i other hother
    rw [keyOf_replaceChild]
    rcases hasChild_replaceChild hother with hold | ⟨-, rfl⟩
    · exact h.wrapped i other hold
    · exact hchild
  · exact hacyclic
  · intro i other hother
    unfold Settled
    rw [resolvedType_replaceChild, resolvedType_replaceChild, kind_replaceChild]
    rcases hasChild_replaceChild hother with hold | ⟨-, rfl⟩
    · exact h.ordered i other hold
    · exact .inl hsettled

/-! ## Steps -/

/-- One step keeps graphs of written expressions in form, and without cycles. -/
theorem Formed.step (h : Formed known graph) (hapart : Apart known) (hlinked : graph.Linked)
    (hstep : (Rules.written known spans moves).Step graph next) : Formed known next := by
  cases hstep with
  | @register kind _ _ _ expression =>
    obtain ⟨hleaf, rfl⟩ | ⟨hcomposes, hchildren⟩ := expression
    · refine h.push hlinked (fun _ hchild => nomatch hchild) (fun _ hchild => nomatch hchild)
        (fun _ => rfl) (fun hnot => ?_) (fun hnot => ?_) (fun name unwrap hkind => ?_)
        (fun name hkind => ?_) nofun
      · cases hleaf.symm.trans hnot
      · cases hleaf.symm.trans hnot
      · rw [show kind = .field name unwrap from hkind] at hleaf
        cases hleaf
      · rw [show kind = .field name true from hkind] at hleaf
        cases hleaf
    · have hspelled : ∀ key ∈ List.map graph.keyOf _, Spelled known key.toList :=
        List.forall_mem_map.mpr fun child hchild => (hchildren child hchild).2
      refine h.push hlinked (fun child hchild => (hchildren child hchild).1)
        (fun child hchild => .spelled (hchildren child hchild).2) (fun hleaf => ?_)
        (fun _ _ => ?_) (fun _ _ => hcomposes) (fun _ _ hkind => hcomposes.isName hkind)
        (fun name hkind => ?_) nofun
      · cases hcomposes.isLeaf.symm.trans hleaf
      · refine Kind.Composes.composed ?_ hspelled
        rw [List.length_map]
        exact hcomposes
      · exact absurd hkind (hcomposes.ne_wrapper name)
  | registerClass =>
    exact h.push hlinked (fun _ hchild => nomatch hchild) (fun _ hchild => nomatch hchild)
      (fun _ => rfl) nofun nofun nofun nofun nofun
  | registerWrapper _ kind hasReceiver _ _ ready =>
    have hreceiver := List.mem_of_getElem? hasReceiver
    refine h.push hlinked ?_ ?_ nofun (fun _ hnot => absurd rfl (hnot _))
      (fun _ hnot => absurd rfl (hnot _)) ?_ ?_ fun _ => ready
    · rintro child hchild
      cases List.mem_singleton.mp hchild
      exact hlinked.children_lt hreceiver
    · rintro child hchild
      cases List.mem_singleton.mp hchild
      exact h.wrapped _ _ hreceiver
    · rintro _ _ ⟨⟩
      exact h.isName _ _ _ kind
    · rintro _ ⟨⟩
      exact ⟨_, rfl, rfl⟩
  | annotate annotates => exact h.annotate annotates
  | @moveToClass id ref qualified _ marked known found =>
    have hleaf := h.isLeaf_of_class hapart known found
    refine h.replaceChild marked ?_ (.inr hleaf) (h.acyclic.replaceChild_of_leaf (h.leaf ref hleaf))
    rw [keyOf_of_find? found, Kind.classKey, String.toList_append]
    exact .spelled (.ref known)
  | @moveToWrapper id receiver inner name unwrap _ marked kind hasReceiver found resolved =>
    have hreceiver := List.mem_of_getElem? hasReceiver
    have hwrapped := h.wrapped id receiver hreceiver
    have hname := h.isName id name unwrap kind
    refine h.replaceChild marked ?_ (.inl resolved) ?_
    · have hkey : (graph.keyOf inner).toList =
          (graph.keyOf receiver).toList ++ '.' :: '.' :: name.toList := by
        rw [keyOf_of_find? found]
        simp [Kind.key]
      rw [hkey]
      exact hwrapped.wrapper hname
    · obtain hleaf | ⟨⟨other, hother⟩, hinner⟩ := h.children_of_wrapper hapart hlinked hwrapped
        (hlinked.children_lt hreceiver) hname found
      · exact h.acyclic.replaceChild_of_leaf (h.leaf inner hleaf)
      · refine h.acyclic.replaceChild_between (fun heq => ?_) hinner hreceiver
        exact marked other (heq ▸ hother)
  | importClass | freeze =>
    exact ⟨h.leaf, h.composed, h.parts, h.isName, h.wrapper, h.wrapped, h.acyclic, h.ordered⟩

/-! ## Moving links -/

variable {moves' : Prop}

/-- A step is one as well where links may move. -/
theorem Rules.Step.mono (h : (Rules.written known spans moves).Step graph next)
    (hmoves : moves → moves') : (Rules.written known spans moves').Step graph next := by
  cases h with
  | register isOpen isNew expression => exact .register isOpen isNew expression
  | registerClass isOpen isNew => exact .registerClass isOpen isNew
  | registerWrapper isOpen kind hasReceiver isNew known ready =>
    exact .registerWrapper isOpen kind hasReceiver isNew known ready
  | annotate h =>
    exact .annotate ⟨h.kind, h.key, h.children, h.parents, h.resolved, h.typeName, h.ready, h.span⟩
  | moveToClass moves marked known found => exact .moveToClass (hmoves moves) marked known found
  | moveToWrapper moves marked kind hasReceiver found resolved =>
    exact .moveToWrapper (hmoves moves) marked kind hasReceiver found resolved
  | importClass imports => exact .importClass imports
  | freeze sealed? => exact .freeze sealed?

theorem Rules.Steps.mono (h : (Rules.written known spans moves).Steps graph next)
    (hmoves : moves → moves') : (Rules.written known spans moves').Steps graph next := by
  induction h with
  | refl => exact .refl
  | tail _ hstep ih => exact ih.tail (hstep.mono hmoves)

/-- What holds of every graph of written expressions. -/
structure Sound (known : String → Prop) (spans : Span → Prop) (graph : Graph) : Prop where
  linked : graph.Linked
  fits : (Rules.written known spans True).Fits graph
  formed : Formed known graph

theorem sound_empty : Sound known spans .empty :=
  ⟨linked_empty, Rules.fits_empty, formed_empty⟩

theorem Sound.steps (h : Sound known spans graph) (hapart : Apart known)
    (hsteps : (Rules.written known spans moves).Steps graph next) : Sound known spans next :=
  hsteps.invariant (fun _ _ hstep h => ⟨h.linked.step hstep,
    h.fits.step (hstep.mono fun _ => trivial), h.formed.step hapart h.linked hstep⟩) h

end Graph
end BindingPlan
