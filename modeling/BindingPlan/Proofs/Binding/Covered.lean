import BindingPlan.Proofs.Binding.Requests
import BindingPlan.Proofs.Graph.Traced
import BindingPlan.Proofs.Tree.Printing

/-!
# Nodes that lowering adds

Binding a source looks up the type of the root only. The nodes that lowering has added stand below
it, though some of them below nodes that were there before; and when the root has its type, all of
them have theirs.

Main results:

* `Tree.isDirect`: no access in the tree is to an operator in front of an operand.
* `Graph.Covers`: nodes that have types with certain nodes.
* `BinderM.asks_lower_direct`: the nodes that lowering a tree adds have types with its node.
-/

namespace BindingPlan

/-! ## Trees -/

mutual

/-- No receiver in the tree is an operator in front of an operand, maybe in parentheses. -/
def Tree.isDirect : Tree → Bool
  | .literal _ _ | .ident _ _ => true
  | .field _ receiver _ => !receiver.isUnary && receiver.isDirect
  | .call _ target _ args => !target.isUnary && (target.isDirect && Tree.allDirect args)
  | .unary _ _ operand => operand.isDirect
  | .binary _ _ lhs rhs | .coalesce _ lhs rhs => lhs.isDirect && rhs.isDirect
  | .ternary _ predicate ifTrue ifFalse =>
    predicate.isDirect && (ifTrue.isDirect && ifFalse.isDirect)
  | .group _ inner => inner.isDirect

def Tree.allDirect : List Tree → Bool
  | [] => true
  | tree :: trees => tree.isDirect && Tree.allDirect trees

end

theorem Tree.allDirect_iff {trees : List Tree} :
    Tree.allDirect trees = true ↔ ∀ tree ∈ trees, tree.isDirect = true := by
  induction trees with
  | nil => simp [allDirect]
  | cons tree trees ih => simp [allDirect, ih]

theorem Tree.isDirect_parts {tree : Tree} (h : tree.isDirect = true) :
    ∀ part ∈ tree.parts, part.isDirect = true := by
  cases tree <;> simp_all [isDirect, parts, allDirect_iff]

/-- The tree that an access is to. -/
def Tree.receiver? : Tree → Option Tree
  | .field _ receiver _ | .call _ receiver _ _ => some receiver
  | _ => none

theorem Tree.isUnary_receiver {tree receiver : Tree} (h : tree.isDirect = true)
    (hreceiver : tree.receiver? = some receiver) : receiver.isUnary = false := by
  cases tree <;> simp_all [isDirect, receiver?]

/-! ## Keys of nodes -/

namespace Graph

variable {known : String → Prop} {rules : Rules} {graph next last first : Graph} {i id : Nat}
  {ids more : List Nat} {kind : Kind} {key : String} {unary : Bool} {trees : List Tree}

/-- The node has the key of a proper expression, and an operator stands in front only if it may. -/
structure ProperAt (known : String → Prop) (unary : Bool) (graph : Graph) (id : Nat) : Prop where
  spelledAt : graph.SpelledAt known id
  proper : IsProperKey (graph.keyOf id)
  receiver : unary = false → IsReceiverKey (graph.keyOf id)

theorem ProperAt.steps (h : ProperAt known unary graph id) (hsteps : rules.Steps graph next) :
    ProperAt known unary next id where
  spelledAt := h.spelledAt.steps hsteps
  proper := by
    rw [Rules.Steps.keyOf hsteps h.spelledAt.1]
    exact h.proper
  receiver := by
    rw [Rules.Steps.keyOf hsteps h.spelledAt.1]
    exact h.receiver

theorem ProperAt.mono (h : ProperAt known false graph id) : ProperAt known unary graph id :=
  ⟨h.spelledAt, h.proper, fun _ => h.receiver rfl⟩

theorem properAt_of_find? (hfound : graph.find? key = some id) (hspelled : Spelled known key.toList)
    (hkey : IsReceiverKey key) : ProperAt known unary graph id := by
  refine ⟨spelledAt_of_find? hfound hspelled, ?_, fun _ => ?_⟩
  · rw [keyOf_of_find? hfound]
    exact hkey.isProperKey
  · rw [keyOf_of_find? hfound]
    exact hkey

/-- Nodes of trees. -/
abbrev Places (known : String → Prop) (graph : Graph) (trees : List Tree) (ids : List Nat) : Prop :=
  List.Forall₂ (fun tree id => ProperAt known tree.isUnary graph id) trees ids

theorem Places.properAt (h : Places known graph trees ids) :
    ∀ id ∈ ids, ∃ unary, ProperAt known unary graph id := by
  intro id hid
  obtain ⟨position, hlt, rfl⟩ := List.getElem_of_mem hid
  exact ⟨_, h.get (h.length_eq ▸ hlt) hlt⟩

/-- No operator stands in front of the receiver of a direct access. -/
theorem Places.receiver {tree receiver : Tree} (h : Places known graph tree.parts ids)
    (hdirect : tree.isDirect = true) (hreceiver : tree.receiver? = some receiver) :
    ∀ id ∈ ids.head?, ProperAt known false graph id := by
  have hunary := Tree.isUnary_receiver hdirect hreceiver
  intro id hid
  cases tree with
  | field | call =>
    cases hreceiver
    obtain ⟨first, rest, hfirst, -, rfl⟩ := List.forall₂_cons_left_iff.mp h
    cases hid
    exact hunary ▸ hfirst
  | _ => cases hreceiver

/-- Nodes that an expression of the kind may be over. -/
theorem takes_of_properAt (hcomposes : kind.Composes ids.length)
    (hids : ∀ id ∈ ids, ∃ unary, ProperAt known unary graph id)
    (hreceiver : kind.hasReceiver = true → ∀ id ∈ ids.head?, ProperAt known false graph id) :
    kind.Takes known (ids.map graph.keyOf) where
  composes := by
    rw [List.length_map]
    exact hcomposes
  spelled := by
    refine List.forall_mem_map.mpr fun id hid => ?_
    obtain ⟨_, hproper⟩ := hids id hid
    exact hproper.spelledAt.2
  proper := by
    refine List.forall_mem_map.mpr fun id hid => ?_
    obtain ⟨_, hproper⟩ := hids id hid
    exact hproper.proper
  receiver := by
    intro hkind key hkey
    rw [List.head?_map] at hkey
    obtain ⟨id, hid, rfl⟩ := Option.map_eq_some_iff.mp hkey
    exact (hreceiver hkind id hid).receiver rfl

/-! ## Nodes that have types with others -/

/-- Whenever the nodes have types, so do all nodes that were added between the two graphs. -/
def Covers (known : String → Prop) (graph next : Graph) (ids : List Nat) : Prop :=
  ∀ last, (Rules.any fun _ => True).Steps next last → Traced known last → last.Linked →
    (∀ id ∈ ids, (last.node id).resolvedType.isSome) →
    ∀ i, graph.size ≤ i → i < next.size → (last.node i).resolvedType.isSome

theorem covers_of_size_eq (h : next.size = graph.size) : Covers known graph next ids :=
  fun _ _ _ _ _ _ hge hi => absurd (h ▸ hi) (Nat.not_lt_of_ge hge)

theorem covers_of_settles (h : graph.Settles next) : Covers known graph next ids :=
  fun _ hsteps _ _ _ i hge hi => Rules.Steps.resolved hsteps (h.resolved i hge hi)

theorem Covers.mono (h : Covers known graph next ids) (hmore : ∀ id ∈ ids, id ∈ more) :
    Covers known graph next more :=
  fun last hsteps htraced hlinked hresolved =>
    h last hsteps htraced hlinked fun id hid => hresolved id (hmore id hid)

theorem Covers.trans (h : Covers known graph next ids) (h' : Covers known next last more)
    (hsteps : (Rules.any fun _ => True).Steps next last) :
    Covers known graph last (ids ++ more) := by
  intro final hfinal htraced hlinked hresolved i hge hi
  rw [List.forall_mem_append] at hresolved
  rcases Nat.lt_or_ge i next.size with hlt | hge'
  · exact h final (hsteps.trans hfinal) htraced hlinked hresolved.1 i hge hlt
  · exact h' final hfinal htraced hlinked hresolved.2 i hge' hi

/-- When no node is added any more. -/
theorem Covers.steps (h : Covers known graph next ids)
    (hsteps : (Rules.any fun _ => True).Steps next last) (hsize : last.size = next.size) :
    Covers known graph last ids :=
  List.append_nil ids ▸ h.trans (covers_of_size_eq hsize) hsteps

/-- What has types with an expression and its parts has types with the expression. -/
theorem Covers.compose (h : Covers known graph next (ids ++ [id])) (hapart : Apart known)
    (htakes : kind.Takes known (ids.map next.keyOf)) (hids : ∀ id ∈ ids, id < next.size)
    (hfound : next.find? (kind.key (ids.map next.keyOf)) = some id) :
    Covers known graph next [id] := by
  intro last hsteps htraced hlinked hresolved
  obtain ⟨hid, hkey⟩ := find?_eq_some_iff.mp hfound
  have hkeys : ids.map last.keyOf = ids.map next.keyOf :=
    List.map_congr_left fun id hid => Rules.Steps.keyOf hsteps (hids id hid)
  have hsize := Rules.Steps.size_le hsteps
  refine h last hsteps htraced hlinked (List.forall_mem_append.mpr ⟨?_, hresolved⟩)
  refine htraced.resolved_of_key hapart hlinked
    (fun id hid => Nat.lt_of_lt_of_le (hids id hid) hsize) (hkeys ▸ htakes)
    (Nat.lt_of_lt_of_le hid hsize) ?_ (hresolved id (List.mem_singleton_self id))
  rw [Rules.Steps.keyOf hsteps hid, hkeys]
  exact keyOf_of_find? hfound

/-- The node that lowering gives, in the graph that lowering leads to: with it, all nodes that were
added have types. -/
structure Lowered (known : String → Prop) (graph : Graph) (unary : Bool) (id : Nat)
    (next : Graph) : Prop where
  properAt : ProperAt known unary next id
  covers : Covers known graph next [id]

theorem Lowered.mono (h : Lowered known graph false id next) : Lowered known graph unary id next :=
  ⟨h.properAt.mono, h.covers⟩

theorem Lowered.setSpan (h : Lowered known graph unary id next) (seen : Nat) (span : Span) :
    Lowered known graph unary id (next.setSpan seen span) := by
  have hsteps : (Rules.any fun _ => True).Steps next (next.setSpan seen span) :=
    BinderM.steps_setSpan next seen trivial
  exact ⟨h.properAt.steps hsteps, h.covers.steps hsteps (size_modify _ _)⟩

end Graph

/-! ## Operations on graphs -/

namespace GraphM

open BindingPlan.Graph Operation

variable {known : String → Prop} {classes : ClassRegistry} {graph next : Graph} {kind : Kind}
  {ids : List Nat} {id : Nat} {unary : Bool}

/-- Registering adds no node but the one that it gives. -/
theorem covers_register (hrun : (register kind ids).run.run graph = (.ok id, next)) :
    Covers known graph next [id] := by
  obtain ⟨_, -, h⟩ | ⟨-, h⟩ | ⟨-, -, h⟩ := register_cases kind ids graph
  · cases h.symm.trans hrun
    exact covers_of_size_eq rfl
  · cases h.symm.trans hrun
  · cases h.symm.trans hrun
    intro last _ _ _ hresolved i hge hi
    rw [size_push] at hi
    obtain rfl : i = graph.size := by omega
    exact hresolved _ (List.mem_singleton_self _)

/-- Registering an expression over nodes of its parts. -/
theorem asks_compose (hapart : Apart known) (hlinked : graph.Linked)
    (hcomposes : kind.Composes ids.length)
    (hparts : ∀ id ∈ ids, ∃ unary, ProperAt known unary graph id)
    (hreceiver : kind.hasReceiver = true → ∀ id ∈ ids.head?, ProperAt known false graph id)
    (hunary : unary = false → ∀ op, kind ≠ .unary op) :
    Asks (.direct known classes) (register kind ids) graph fun id next =>
      ∀ first, Covers known first graph ids → Lowered known first unary id next := by
  have htakes := takes_of_properAt hcomposes hparts hreceiver
  have hids : ∀ id ∈ ids, id < graph.size := fun id hid =>
    (hparts id hid).elim fun _ h => h.spelledAt.1
  refine asks_request (.register kind ids) (fun _ => .inr ⟨htakes, hids⟩) rfl
    fun id next hrun first hcovers => ?_
  have hsteps : (Rules.any fun _ => True).Steps graph next := by
    have hsteps := (Request.register kind ids).steps_run hlinked hids
    rwa [Request.run, hrun] at hsteps
  have hkeys : ids.map next.keyOf = ids.map graph.keyOf :=
    List.map_congr_left fun id hid => Rules.Steps.keyOf hsteps (hids id hid)
  have hfound := finds_register kind ids graph id next hrun
  refine ⟨⟨spelledAt_of_find? hfound htakes.composed.spelled, ?_, fun hfront => ?_⟩, ?_⟩
  · rw [keyOf_of_find? hfound]
    exact htakes.isProperKey
  · rw [keyOf_of_find? hfound]
    exact htakes.isReceiverKey (hunary hfront)
  · refine (hcovers.trans (covers_register hrun) hsteps).compose hapart (hkeys ▸ htakes)
      (fun id hid => Nat.lt_of_lt_of_le (hids id hid) (Rules.Steps.size_le hsteps)) ?_
    rw [hkeys]
    exact hfound

theorem asks_literal (value : Literal) (graph : Graph) :
    Asks (.direct known classes) (symbol value.render value.typeName) graph fun id next =>
      Lowered known graph false id next := by
  refine asks_request (.symbol value.render value.typeName) (fun _ => ⟨rfl, .symbol value⟩) rfl
    fun id next hrun => ⟨properAt_of_find? (finds_symbol _ _ graph id next hrun) ?_
      (isReceiverKey_of_literal value), ?_⟩
  · exact Expression.key_ofLiteral value ▸ .atom (Expression.isAtom_ofLiteral value)
  · obtain ⟨_, reached, hregister, hrun⟩ := exists_of_run_bind hrun
    obtain ⟨_, _, hset, hrun⟩ := exists_of_run_bind hrun
    cases hset
    cases hrun
    exact (covers_register hregister).steps (.single (.annotate (.of_eq rfl))) (size_modify _ _)

theorem asks_class {type : ClassType} (hknown : known type.name) (hdotted : IsDotted type.name) :
    Asks (.direct known classes) (classRefFor type) graph fun id next =>
      Lowered known graph false id next := by
  refine asks_request (.classRefFor type) (fun _ => hknown) rfl fun id next hrun =>
    ⟨properAt_of_find? (finds_classRefFor type graph id next hrun) ?_ hdotted.isReceiverKey, ?_⟩
  · rw [Kind.toList_classKey]
    exact .ref hknown
  · exact covers_of_settles ((settles_classRefFor type).of_run hrun)

/-- The choice of a default is over the comparison of the first operand, which is over it in
turn. -/
theorem asks_coalesce_direct (hapart : Apart known) (hlinked : graph.Linked) (span : Span)
    {lhs rhs : Nat} {unaryLhs unaryRhs : Bool} (hlhs : ProperAt known unaryLhs graph lhs)
    (hrhs : ProperAt known unaryRhs graph rhs) :
    Asks (.direct known classes) (BinderM.coalesce lhs rhs span) graph fun id next =>
      ∀ first, Covers known first graph [lhs, rhs] → Lowered known first false id next := by
  have hrefers := @Terms.refers_direct known classes
  refine asks_bind (asks_literal .null graph) fun null next hnull hnullLowered => ?_
  have hlinked' := hnull.linked hrefers hlinked
  have hsteps := hnull.steps hrefers hlinked
  have hoperands : ∀ id ∈ [lhs, null], ∃ unary, ProperAt known unary next id := by
    simp only [List.forall_mem_cons]
    exact ⟨⟨_, hlhs.steps hsteps⟩, ⟨_, hnullLowered.properAt⟩, nofun⟩
  have hcompare : Asks (.direct known classes) (register (.binary (.compare .eq)) [lhs, null]) next
      fun id last => ∀ first, Covers known first next [lhs, null] →
        Lowered known first false id last :=
    asks_compose hapart hlinked' (.binary _) hoperands nofun fun _ _ => nofun
  refine asks_bind hcompare fun isNull last hgrown hisNull => ?_
  have hlast := hgrown.linked hrefers hlinked'
  have hspans : Grown (.direct known classes) last
      ((last.setSpan null span).setSpan isNull span) :=
    .setSpan (.setSpan .refl null span) isNull span
  refine asks_bind (R := fun _ reached => Grown (.direct known classes) last reached ∧
      reached.size = last.size)
    (ensures_modify ⟨hspans, hspans, (size_modify _ _).trans (size_modify _ _)⟩)
    fun _ reached hmore hseen => ?_
  have hsteps' := hgrown.steps hrefers hlinked'
  have hsteps'' := hmore.steps hrefers hlast
  have hcovers := hisNull graph (hnullLowered.covers.mono fun _ => List.mem_cons_of_mem lhs)
  have hparts : ∀ id ∈ [isNull, rhs, lhs], ∃ unary, ProperAt known unary reached id := by
    simp only [List.forall_mem_cons]
    exact ⟨⟨_, hcovers.properAt.steps hsteps''⟩,
      ⟨_, ((hrhs.steps hsteps).steps hsteps').steps hsteps''⟩,
      ⟨_, ((hlhs.steps hsteps).steps hsteps').steps hsteps''⟩, nofun⟩
  have hchoice : Asks (.direct known classes) (register .ternary [isNull, rhs, lhs]) reached
      fun id final => ∀ first, Covers known first reached [isNull, rhs, lhs] →
        Lowered known first false id final :=
    asks_compose hapart (hmore.linked hrefers hlast) .ternary hparts nofun fun _ _ => nofun
  refine hchoice.imp (fun id final h => ⟨h.1, fun first hfirst => h.2 first ?_⟩) fun _ _ h => h
  have hall := hfirst.trans hcovers.covers (hsteps.trans hsteps')
  refine (hall.mono fun id hid => ?_).steps hsteps'' hseen.2
  simp only [List.mem_append, List.mem_cons, List.not_mem_nil, or_false] at hid ⊢
  omega

end GraphM

/-! ## Binders -/

/-- Links are in order, and the node of each variable is found by its name. -/
structure Binder.InOrder (binder : Binder) : Prop where
  linked : binder.graph.Linked
  finds : binder.FindsVariables

theorem Binder.InOrder.follows {known : String → Prop} {classes : ClassRegistry}
    {binder next : Binder} (h : binder.InOrder)
    (hfollows : binder.Follows (Graph.Grown (.direct known classes)) next) : next.InOrder where
  linked := hfollows.graph.linked Graph.Terms.refers_direct h.linked
  finds := h.finds.mono ⟨(hfollows.graph.steps Graph.Terms.refers_direct h.linked).keeps,
    hfollows.variableNodes⟩

namespace BinderM

open BindingPlan.Graph Operation

variable {known : String → Prop} {classes : ClassRegistry} {binder next : Binder} {tree : Tree}
  {trees : List Tree} {ids : List Nat} {name : String}

section

variable (hknown : ∀ name type, classes.findClass name = .ok type →
  known type.name ∧ IsDotted type.name)

include hknown

theorem asks_classNamed?_direct (span : Span) (qualified : String) :
    Asks (.direct known classes) (classNamed? classes qualified span) binder fun found graph =>
      found.elim (graph.size = binder.graph.size) fun id =>
        Lowered known binder.graph false id graph := by
  unfold classNamed?
  split
  · exact asks_pure rfl
  · next type htype =>
    obtain ⟨hname, hdotted⟩ := hknown _ type htype
    refine asks_bind (asks_onGraph span (GraphM.asks_class hname hdotted)) fun id next _ hid => ?_
    exact asks_bind (asks_seen (S := fun graph => Lowered known binder.graph false id graph) span
      (hid.setSpan id span)) fun _ _ _ hid => asks_pure hid

theorem asks_lowerName_direct (h : binder.InOrder) (span : Span) (hname : IsName name.toList) :
    Asks (.direct known classes) (lowerName classes name span) binder fun id graph =>
      Lowered known binder.graph false id graph := by
  refine asks_get_bind ?_
  split
  · next id hid =>
    have hproper : ProperAt known false binder.graph id :=
      properAt_of_find? (h.finds name id hid) (.atom (Expression.isAtom_ident hname))
        (isReceiverKey_of_name hname)
    have hlowered : Lowered known binder.graph false id binder.graph :=
      ⟨hproper, covers_of_size_eq rfl⟩
    exact asks_bind (asks_seen (S := fun graph => Lowered known binder.graph false id graph) span
      (hlowered.setSpan id span)) fun _ _ _ hid => asks_pure hid
  · refine asks_get_bind (asks_bind (asks_classNamed?_direct hknown span _)
      fun found next _ hfound => ?_)
    split
    · exact asks_pure hfound
    · exact asks_throw _

theorem asks_wholeClass?_direct (tree : Tree) :
    Asks (.direct known classes) (wholeClass? classes tree) binder fun found graph =>
      found.elim (graph.size = binder.graph.size) fun id =>
        Lowered known binder.graph false id graph := by
  unfold wholeClass?
  split
  · unfold classPath?
    split
    · exact asks_pure rfl
    · refine asks_get_bind (asks_get_bind ?_)
      split
      · exact asks_pure rfl
      · exact asks_classNamed?_direct hknown _ _
  · exact asks_pure rfl

variable (hapart : Apart known)

include hapart

/-- A tree over nodes of its parts. -/
theorem asks_assemble_direct (h : binder.InOrder) (hnames : ∀ name ∈ tree.names, IsName name.toList)
    (hdirect : tree.isDirect = true) (hids : Places known binder.graph tree.parts ids) :
    Asks (.direct known classes) (assemble classes tree ids) binder fun id graph =>
      ∀ first, Covers known first binder.graph ids → Lowered known first tree.isUnary id graph := by
  have hparts := hids.properAt
  have hlength := hids.length_eq
  have hleaf {x : BinderM Nat} (hnil : ids = [])
      (hx : Asks (.direct known classes) x binder fun id graph =>
        Lowered known binder.graph false id graph) :
      Asks (.direct known classes) x binder fun id graph => ∀ first,
        Covers known first binder.graph ids → Lowered known first tree.isUnary id graph := by
    subst hnil
    exact hx.imp (fun id next hid => ⟨hid.1, fun first hcovers => ⟨hid.2.properAt.mono,
      hcovers.trans hid.2.covers (hid.1.graph.steps Terms.refers_direct h.linked)⟩⟩)
      fun _ _ herror => herror
  have hnode {kind : Kind} {unary : Bool} (span : Span) (hcomposes : kind.Composes ids.length)
      (hreceiver : kind.hasReceiver = true → ∀ id ∈ ids.head?, ProperAt known false binder.graph id)
      (hunary : unary = false → ∀ op, kind ≠ .unary op) :
      Asks (.direct known classes) (node span (GraphM.register kind ids)) binder fun id graph =>
        ∀ first, Covers known first binder.graph ids → Lowered known first unary id graph :=
    asks_node span (fun id _ hid first hcovers => (hid first hcovers).setSpan id span)
      (GraphM.asks_compose hapart h.linked hcomposes hparts hreceiver hunary)
  cases tree with
  | literal span value =>
    exact hleaf (List.forall₂_nil_left_iff.mp hids)
      (asks_node span (fun id _ hid => hid.setSpan id span) (GraphM.asks_literal value _))
  | ident span name =>
    exact hleaf (List.forall₂_nil_left_iff.mp hids)
      (asks_lowerName_direct hknown h span (hnames name (List.mem_singleton_self name)))
  | field span receiver name =>
    refine hnode span (hlength ▸ .field ?_) (fun _ => hids.receiver hdirect rfl) fun _ _ => nofun
    exact hnames name.text (List.mem_append_right _ (List.mem_singleton_self _))
  | call span target name args =>
    refine hnode span (hlength ▸ .call ?_ _) (fun _ => hids.receiver hdirect rfl) fun _ _ => nofun
    exact hnames name.text (List.mem_append_right _ List.mem_cons_self)
  | unary span op operand => exact hnode span (hlength ▸ .unary op) nofun nofun
  | binary span op lhs rhs => exact hnode span (hlength ▸ .binary op) nofun fun _ _ => nofun
  | ternary span predicate ifTrue ifFalse =>
    exact hnode span (hlength ▸ .ternary) nofun fun _ _ => nofun
  | coalesce span lhs rhs =>
    obtain ⟨l, _, hl, hmore, rfl⟩ := List.forall₂_cons_left_iff.mp hids
    obtain ⟨r, _, hr, hnone, rfl⟩ := List.forall₂_cons_left_iff.mp hmore
    obtain rfl := List.forall₂_nil_left_iff.mp hnone
    exact asks_node span (fun id _ hid first hcovers => (hid first hcovers).setSpan id span)
      (GraphM.asks_coalesce_direct hapart h.linked span hl hr)
  | group span inner =>
    obtain ⟨id, _, hid, hnone, rfl⟩ := List.forall₂_cons_left_iff.mp hids
    obtain rfl := List.forall₂_nil_left_iff.mp hnone
    exact asks_pure fun first hcovers => ⟨hid, hcovers⟩

omit hknown hapart in
theorem asks_lowerAll_direct (h : binder.InOrder)
    (hparts : ∀ tree ∈ trees, ∀ binder : Binder, binder.InOrder →
      Asks (.direct known classes) (lower classes tree) binder fun id graph =>
        Lowered known binder.graph tree.isUnary id graph) :
    Asks (.direct known classes) (lowerAll classes trees) binder fun ids graph =>
      Places known graph trees ids ∧ Covers known binder.graph graph ids := by
  induction trees generalizing binder with
  | nil => exact asks_pure ⟨.nil, covers_of_size_eq rfl⟩
  | cons tree trees ih =>
    refine asks_bind (hparts tree List.mem_cons_self binder h) fun id next hfollows hid => ?_
    have hnext := h.follows hfollows
    refine asks_bind (ih hnext fun tree htree => hparts tree (List.mem_cons_of_mem _ htree))
      fun ids last hmore hids => asks_pure ?_
    have hsteps := hmore.graph.steps Terms.refers_direct hnext.linked
    exact ⟨.cons (hid.properAt.steps hsteps) hids.1, hid.covers.trans hids.2 hsteps⟩

/-- Lowering a tree gives a node with which all nodes that it adds have types. -/
theorem asks_lower_direct (h : binder.InOrder) (hnames : ∀ name ∈ tree.names, IsName name.toList)
    (hdirect : tree.isDirect = true) :
    Asks (.direct known classes) (lower classes tree) binder fun id graph =>
      Lowered known binder.graph tree.isUnary id graph := by
  induction tree using Tree.partsInduction generalizing binder with
  | step tree ih =>
    rw [lower_eq]
    refine asks_bind (asks_wholeClass?_direct hknown tree) fun found next hfollows hfound => ?_
    split
    · exact asks_pure (Lowered.mono hfound)
    · have hnext := h.follows hfollows
      refine asks_bind (asks_lowerAll_direct hnext fun part hpart binder hbinder => ?_)
        fun ids last hmore hids => ?_
      · exact ih part hpart hbinder
          (fun name hname => hnames name (Tree.mem_names_of_mem_parts hpart hname))
          (Tree.isDirect_parts hdirect part hpart)
      · have hasked : Covers known binder.graph next.graph [] := covers_of_size_eq hfound
        have hcovers : Covers known binder.graph last.graph ids :=
          hasked.trans hids.2 (hmore.graph.steps Terms.refers_direct hnext.linked)
        exact (asks_assemble_direct hknown hapart (hnext.follows hmore) hnames hdirect
          hids.1).imp (fun id final hid => ⟨hid.1, hid.2 _ hcovers⟩) fun _ _ herror => herror

end

end BinderM

end BindingPlan
