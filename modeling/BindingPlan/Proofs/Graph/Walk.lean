import BindingPlan.Proofs.Graph.Formed

/-!
# Walks over graphs of written expressions

Resolving a node resolves its children first, and those are below it or have their links for good;
so the walk ends. What is resolved has its links for good, down to the leaves; so while a resolved
node is classified no link moves, and that walk ends where the graph has no cycle.

Main results:

* `GraphM.takes_resolve_written`: resolving a node of a graph of written expressions does not run
  into a cycle.
* `GraphM.takes_classify_written`: nor does classifying one.
-/

namespace BindingPlan
namespace GraphM

open BindingPlan.Graph BindingPlan.Graph.Rules Operation

variable {α : Type} {classes : ClassRegistry} {known : String → Prop} {spans : Span → Prop}
  {moves moves' : Prop} {graph next : Graph} {x : GraphM α} {R : α → Graph → Prop} {i id : Nat}

/-- An operation takes the same steps where links may move. -/
theorem Takes.mono (h : Takes (.written known spans moves) x graph R) (hmoves : moves → moves') :
    Takes (.written known spans moves') x graph R :=
  Ensures.imp h (fun _ _ ha => ⟨Steps.mono ha.1 hmoves, ha.2⟩)
    fun _ _ he => ⟨Steps.mono he.1 hmoves, he.2.span, he.2.cycle⟩

/-! ## Children -/

/-- A step replaces children only by nodes that have their links for good. -/
theorem mem_children_step (hsound : Sound known spans graph) (hapart : Apart known)
    (hstep : (Rules.written known spans moves).Step graph next) (hi : i < graph.size) {child : Nat}
    (hchild : child ∈ (next.node i).children) :
    child ∈ (graph.node i).children ∨ next.Settled child := by
  cases hstep with
  | register | registerClass | registerWrapper =>
    rw [children_push hi] at hchild
    exact .inl hchild
  | annotate annotates =>
    rw [eq_of_modify Node.children annotates.children] at hchild
    exact .inl hchild
  | moveToClass _ _ known found =>
    refine (hasChild_replaceChild hchild).imp_right fun heq => .inr ?_
    rw [kind_replaceChild, heq.2]
    exact hsound.formed.isLeaf_of_class hapart known found
  | moveToWrapper _ _ _ _ _ resolved =>
    refine (hasChild_replaceChild hchild).imp_right fun heq => .inl ?_
    rw [resolvedType_replaceChild, heq.2]
    exact resolved
  | importClass | freeze => exact .inl hchild

/-- If all children that a node had at one time have their links for good, then so do all children
that it has now. -/
theorem ready_steps (hsound : Sound known spans graph) (hapart : Apart known) (hi : i < graph.size)
    (hsteps : (Rules.written known spans moves).Steps graph next)
    (h : ∀ child ∈ (graph.node i).children, next.Settled child) :
    ∀ child ∈ (next.node i).children, next.Settled child := by
  have hmem : ∀ child ∈ (next.node i).children,
      child ∈ (graph.node i).children ∨ next.Settled child := by
    clear h
    induction hsteps with
    | refl => exact fun child hchild => .inl hchild
    | tail hsteps hstep ih =>
      have hreached := hsound.steps hapart hsteps
      have hi := Nat.lt_of_lt_of_le hi (Steps.size_le hsteps)
      intro child hchild
      obtain hchild | hsettled := mem_children_step hreached hapart hstep hi hchild
      · refine (ih child hchild).imp_right fun hsettled => hsettled.step ?_ hstep
        exact hreached.linked.children_lt hchild
      · exact .inr hsettled
  exact fun child hchild => (hmem child hchild).elim (h child) fun h => h

/-- The reference to a known class has no children. -/
theorem ready_class (hsound : Sound known spans graph) (hapart : Apart known) {q : String}
    (hq : known q) (hfound : graph.find? (Kind.classKey q) = some id) :
    ∀ child ∈ (graph.node id).children, graph.Settled child := by
  rw [hsound.formed.leaf id (hsound.formed.isLeaf_of_class hapart hq hfound)]
  exact fun _ hchild => absurd hchild List.not_mem_nil

/-! ## Resolving -/

theorem takes_resolveLeaf (hcovers : (Rules.written known spans moves).Covers classes)
    (hleaf : (graph.node id).kind.isLeaf = true) (resolveChild : Nat → GraphM ClassType) :
    Takes (.written known spans moves) (resolveKind classes resolveChild id) graph fun type _ =>
      known type.name := by
  have hclass (name : String) : Takes (.written known spans moves)
      (lookup id (classes.findClass name)) graph fun type _ => known type.name :=
    (takes_lookup id _).imp fun type _ _ htype => hcovers.findClass htype.2
  refine takes_get_bind ?_
  dsimp only
  generalize (graph.node id).kind = kind at hleaf
  cases kind with
  | identifier name =>
    dsimp only
    split
    · exact (takes_lookup id _).imp fun _ _ _ h => by cases h.2
    · exact hclass _
  | classRef shortName qualified => exact hclass _
  | symbol text type => exact hclass _
  | field | call | binary | unary | ternary => cases hleaf

/-- What a split finds can be annotated. -/
theorem ready_wrapper (hsound : Sound known spans graph) (hapart : Apart known) {name : String}
    {unwrap : Bool} (hkind : (graph.node id).kind = .field name unwrap)
    (hready : ∀ child ∈ (graph.node id).children, graph.Settled child) {receiver : Nat}
    (hreceiver : (graph.node id).children[0]? = some receiver) :
    (∀ child ∈ [receiver], graph.Settled child) ∧
      ∀ inner, graph.find? ((Kind.field name true).key [graph.keyOf receiver]) = some inner →
        ∀ child ∈ (graph.node inner).children, graph.Settled child := by
  have hmem := List.mem_of_getElem? hreceiver
  have hsingle : ∀ child ∈ [receiver], graph.Settled child :=
    fun child hchild => List.mem_singleton.mp hchild ▸ hready receiver hmem
  refine ⟨hsingle, fun inner hfound => ?_⟩
  obtain hleaf | ⟨-, hchildren⟩ := hsound.formed.children_of_wrapper hapart hsound.linked
    (hsound.formed.wrapped id receiver hmem) (hsound.linked.children_lt hmem)
    (hsound.formed.isName id name unwrap hkind) hfound
  · rw [hsound.formed.leaf inner hleaf]
    exact fun _ hchild => absurd hchild List.not_mem_nil
  · rw [hchildren]
    exact hsingle

section

variable {resolveChild : Nat → GraphM ClassType}
  (hchild : ∀ child ∈ (graph.node id).children, ∀ next,
    (Rules.written known spans True).Steps graph next →
    Takes (.written known spans True) (resolveChild child) next fun type last =>
      known type.name ∧ (last.node child).resolvedType.isSome)

include hchild

theorem takes_resolveOperand_written (position : Nat)
    (hsteps : (Rules.written known spans True).Steps graph next) :
    Takes (.written known spans True) (operand (graph.node id) position >>= resolveChild) next
      fun type last => known type.name ∧
        ∀ child, (graph.node id).children[position]? = some child →
          (last.node child).resolvedType.isSome := by
  refine takes_operand_bind fun child hposition => ?_
  refine (hchild child (List.mem_of_getElem? hposition) next hsteps).imp fun type last _ h => ?_
  refine ⟨h.1, fun other hother => ?_⟩
  cases hposition.symm.trans hother
  exact h.2

theorem takes_resolveChildren_written {ids : List Nat}
    (hids : ∀ i ∈ ids, i ∈ (graph.node id).children)
    (hsteps : (Rules.written known spans True).Steps graph next) :
    Takes (.written known spans True) (ids.mapM resolveChild) next fun _ last =>
      ∀ i ∈ ids, (last.node i).resolvedType.isSome := by
  induction ids generalizing next with
  | nil =>
    rw [List.mapM_nil]
    exact takes_pure fun _ hi => absurd hi List.not_mem_nil
  | cons child ids ih =>
    rw [List.mapM_cons]
    refine takes_bind (hchild child (hids child List.mem_cons_self) next hsteps)
      fun _ reached hreached hresolved => ?_
    have hrest := ih (fun i hi => hids i (List.mem_cons_of_mem _ hi)) (hsteps.trans hreached)
    refine takes_bind hrest fun _ last hlast h => takes_pure ?_
    intro i hi
    rcases List.mem_cons.mp hi with rfl | hi
    · exact Steps.resolved hlast hresolved.2
    · exact h i hi

variable (hapart : Apart known) (hcovers : (Rules.written known spans True).Covers classes)
  (hsound : Sound known spans graph) (hid : (graph.node id).resolvedType = none)

include hapart hcovers hsound hid

theorem takes_resolveField_written {name : String} {unwrap : Bool}
    (hkind : (graph.node id).kind = .field name unwrap) :
    Takes (.written known spans True) (resolveField classes resolveChild id name) graph
      fun type next => known type.name ∧
        ∀ child ∈ (graph.node id).children, next.Settled child := by
  have hmarked : Marked (.written known spans True) graph id := marked_of_unresolved hsound.fits hid
  refine takes_get_bind (takes_operand_bind fun receiver hreceiver => ?_)
  have hmem := List.mem_of_getElem? hreceiver
  have hlt := lt_size_of_children hmem
  -- an access has its receiver and nothing else
  have honly : ∀ child ∈ (graph.node id).children, child = receiver := by
    have hparts := hsound.formed.parts id (by rw [hkind]; rfl) fun name hname => hmarked name hname
    rw [hkind] at hparts
    generalize hlength : (graph.node id).children.length = n at hparts
    cases hparts
    obtain ⟨only, hchildren⟩ := List.length_eq_one_iff.mp hlength
    intro child hchild
    rw [hchildren] at hmem hchild
    rw [List.mem_singleton.mp hmem, List.mem_singleton.mp hchild]
  refine takes_bind (hchild receiver hmem graph .refl) fun type resolved hresolve hresolved => ?_
  have hdone {last : Graph} (hsteps : (Rules.written known spans True).Steps resolved last) :
      ∀ child ∈ (graph.node id).children, last.Settled child := fun child hchild =>
    honly child hchild ▸ .inl (Steps.resolved hsteps hresolved.2)
  have hsound' := hsound.steps hapart hresolve
  have hlt' := Nat.lt_of_lt_of_le hlt (Steps.size_le hresolve)
  refine takes_isClassRef_bind (takes_lookup_bind fun member hmember => ?_)
  have hmember := hcovers.findMember hmember
  refine takes_bind (takes_moveToClass hlt' trivial (hmarked.steps hlt hresolve) member _
    hresolved.1 fun next ref hsteps hfound =>
      ready_class (hsound'.steps hapart hsteps) hapart hresolved.1 hfound)
    fun _ moved hmove _ => ?_
  have hsteps := hresolve.trans hmove
  have hready := ready_steps hsound hapart hlt hsteps (hdone hmove)
  have hsound'' := hsound.steps hapart hsteps
  split
  · have hkind := (Steps.kind hsteps hlt).trans hkind
    refine (takes_splitWrapper hcovers hsound''.fits hkind trivial (hmarked.steps hlt hsteps)
      hmember fun receiver hreceiver =>
        ready_wrapper hsound'' hapart hkind hready hreceiver).imp fun type last hlast htype => ?_
    exact ⟨htype, hdone (hmove.trans hlast)⟩
  · exact takes_annotate_return (.of_eq rfl) fun last hlast =>
      ⟨hmember, hdone (hmove.trans hlast)⟩

theorem takes_resolveCall_written (name : String) :
    Takes (.written known spans True) (resolveCall classes resolveChild id name) graph
      fun type next => known type.name ∧
        ∀ child ∈ (graph.node id).children, next.Settled child := by
  have hmarked : Marked (.written known spans True) graph id := marked_of_unresolved hsound.fits hid
  refine takes_get_bind (takes_operand_bind fun target htarget => ?_)
  have hmem := List.mem_of_getElem? htarget
  have hlt := lt_size_of_children hmem
  have hall : ∀ child ∈ (graph.node id).children,
      child = target ∨ child ∈ (graph.node id).children.drop 1 := by
    intro child hchild
    generalize (graph.node id).children = children at htarget hchild
    cases children with
    | nil => cases hchild
    | cons first rest =>
      cases htarget
      exact List.mem_cons.mp hchild
  refine takes_bind (hchild target hmem graph .refl) fun type resolved hresolve hresolved => ?_
  refine takes_bind (takes_resolveChildren_written hchild (fun i hi => List.mem_of_mem_drop hi)
    hresolve) fun args reached hargs hresolvedArgs => ?_
  have hdone {last : Graph} (hsteps : (Rules.written known spans True).Steps reached last) :
      ∀ child ∈ (graph.node id).children, last.Settled child := by
    intro child hchild
    rcases hall child hchild with rfl | hchild
    · exact .inl (Steps.resolved (hargs.trans hsteps) hresolved.2)
    · exact .inl (Steps.resolved hsteps (hresolvedArgs child hchild))
  have hsteps := hresolve.trans hargs
  have hsound' := hsound.steps hapart hsteps
  have hlt' := Nat.lt_of_lt_of_le hlt (Steps.size_le hsteps)
  refine takes_isClassRef_bind (takes_lookup_bind fun member hmember => ?_)
  refine takes_bind (takes_moveToClass hlt' trivial (hmarked.steps hlt hsteps) member _
    hresolved.1 fun next ref hsteps hfound =>
      ready_class (hsound'.steps hapart hsteps) hapart hresolved.1 hfound)
    fun _ moved hmove _ => ?_
  exact takes_annotate_return (.of_eq rfl) fun last hlast =>
    ⟨hcovers.findMethod hmember, hdone (hmove.trans hlast)⟩

theorem takes_resolveKind_written :
    Takes (.written known spans True) (resolveKind classes resolveChild id) graph
      fun type next => known type.name ∧
        ∀ child ∈ (graph.node id).children, next.Settled child := by
  by_cases hleaf : (graph.node id).kind.isLeaf = true
  · refine (takes_resolveLeaf hcovers hleaf resolveChild).imp fun type _ _ htype => ⟨htype, ?_⟩
    rw [hsound.formed.leaf id hleaf]
    exact fun _ hchild => absurd hchild List.not_mem_nil
  rw [Bool.not_eq_true] at hleaf
  have hboolean : known (ClassType.plain TypeName.boolean).name := hcovers.builtin _ (by decide)
  have hparts := hsound.formed.parts id hleaf fun name hname =>
    marked_of_unresolved hsound.fits hid name hname
  have hall : Takes (.written known spans True) (do
      let _ ← (graph.node id).children.mapM resolveChild
      return ClassType.plain TypeName.boolean) graph fun type next => known type.name ∧
        ∀ child ∈ (graph.node id).children, next.Settled child :=
    takes_bind (takes_resolveChildren_written hchild (fun _ hi => hi) .refl) fun _ _ _ h =>
      takes_pure ⟨hboolean, fun child hchild => .inl (h child hchild)⟩
  refine takes_get_bind ?_
  dsimp only
  split
  · next hkind => cases hkind ▸ hleaf
  · next hkind => cases hkind ▸ hleaf
  · next hkind => cases hkind ▸ hleaf
  · next hkind => exact takes_resolveField_written hchild hapart hcovers hsound hid hkind
  · exact takes_resolveCall_written hchild hapart hcovers hsound hid _
  · next hkind =>
    refine takes_bind (takes_resolveOperand_written hchild 0 .refl) fun lhs next hlhs hleft => ?_
    refine takes_bind (takes_resolveOperand_written hchild 1 hlhs) fun rhs last hrhs hright => ?_
    refine takes_pure ⟨typeName_mathType hcovers hleft.1 hright.1, fun child hmem => .inl ?_⟩
    have hlength : (graph.node id).children.length = 2 := (hkind ▸ hparts).length_binary
    obtain ⟨n, hn⟩ := List.getElem?_of_mem hmem
    have hlt := (List.getElem?_eq_some_iff.mp hn).1
    obtain rfl | rfl : n = 0 ∨ n = 1 := by omega
    · exact Steps.resolved hrhs (hleft.2 child hn)
    · exact hright.2 child hn
  · exact hall
  · exact hall
  · exact hall
  · next hkind =>
    refine (takes_resolveOperand_written hchild 0 .refl).imp fun type next _ h => ⟨h.1, ?_⟩
    intro child hmem
    have hlength : (graph.node id).children.length = 1 := (hkind ▸ hparts).length_unary
    obtain ⟨n, hn⟩ := List.getElem?_of_mem hmem
    have hlt := (List.getElem?_eq_some_iff.mp hn).1
    obtain rfl : n = 0 := by omega
    exact .inl (h.2 child hn)
  · next hkind =>
    refine takes_bind (takes_resolveOperand_written hchild 0 .refl)
      fun _ next hpredicate hfirst => takes_operand_bind fun whenTrue htrue => ?_
    refine takes_bind (hchild whenTrue (List.mem_of_getElem? htrue) next hpredicate)
      fun trueType reached hreached hsecond => ?_
    refine takes_bind (takes_resolveOperand_written hchild 2 (hpredicate.trans hreached))
      fun falseType last hlast hthird => takes_get_bind (takes_pure ⟨?_, fun child hmem => .inl ?_⟩)
    · split
      · exact hthird.1
      · exact hsecond.1
    · have hlength : (graph.node id).children.length = 3 := (hkind ▸ hparts).length_ternary
      obtain ⟨n, hn⟩ := List.getElem?_of_mem hmem
      have hlt := (List.getElem?_eq_some_iff.mp hn).1
      obtain rfl | rfl | rfl : n = 0 ∨ n = 1 ∨ n = 2 := by omega
      · exact Steps.resolved (hreached.trans hlast) (hfirst.2 child hn)
      · cases hn.symm.trans htrue
        exact Steps.resolved hlast hsecond.2
      · exact hthird.2 child hn

end

section

variable (hapart : Apart known) (hcovers : (Rules.written known spans True).Covers classes)

include hapart hcovers

/-- Resolving a node below the bound, or one that has its links for good, stays within the bound. -/
theorem takes_resolveWithin_written {bound m : Nat} (hm : m < bound)
    (hsound : Sound known spans graph) (hlt : id < graph.size) (hlow : id < m ∨ graph.Settled id) :
    Takes (.written known spans True) (resolveWithin classes bound id) graph fun type next =>
      known type.name ∧ (next.node id).resolvedType.isSome := by
  induction bound generalizing graph id m with
  | zero => exact absurd hm (Nat.not_lt_zero m)
  | succ bound ih =>
    refine takes_get_bind ?_
    split
    · next type htype =>
      refine takes_pure ⟨hsound.fits.typeName id type htype, ?_⟩
      rw [htype]
      rfl
    · next hid =>
      have hchild : ∀ child ∈ (graph.node id).children, ∀ next,
          (Rules.written known spans True).Steps graph next →
          Takes (.written known spans True) (resolveWithin classes bound child) next
            fun type last => known type.name ∧ (last.node child).resolvedType.isSome := by
        intro child hmem next hsteps
        have hsound' := hsound.steps hapart hsteps
        have hlt' := hsound.linked.children_lt hmem
        have hlt'' := Nat.lt_of_lt_of_le hlt' (Steps.size_le hsteps)
        -- a node without links to move has no children
        have hid_lt : id < m := by
          refine hlow.resolve_right ?_
          rintro (hresolved | hleaf)
          · rw [hid] at hresolved
            cases hresolved
          · rw [hsound.formed.leaf id hleaf] at hmem
            cases hmem
        refine ih (m := id) (by omega) hsound' hlt'' ?_
        exact (hsound.formed.ordered id child hmem).symm.imp And.right
          fun hsettled => hsettled.steps hlt' hsteps
      refine takes_bind (takes_resolveKind_written hchild hapart hcovers hsound hid)
        fun type next hsteps ⟨htype, hdone⟩ => ?_
      have hready := ready_steps hsound hapart hlt hsteps hdone
      have hannotates : (Rules.written known spans True).Annotates next (next.node id)
          { next.node id with resolvedType := some type } := by
        refine ⟨rfl, rfl, rfl, rfl, fun _ => rfl, fun other hother => ?_, fun _ _ => hready,
          fun _ => .inl⟩
        cases hother
        exact .inr htype
      refine takes_bind (takes_modifyNode (R := fun _ last =>
        (last.node id).resolvedType.isSome) hannotates ?_) fun _ _ _ h => takes_pure ⟨htype, h⟩
      rw [node_modify_self (Nat.lt_of_lt_of_le hlt (Steps.size_le hsteps))]
      rfl

theorem takes_resolve_written (hsound : Sound known spans graph) (hlt : id < graph.size) :
    Takes (.written known spans True) (resolve classes id) graph fun type next =>
      known type.name ∧ (next.node id).resolvedType.isSome :=
  takes_get_bind (takes_resolveWithin_written hapart hcovers (Nat.lt_succ_self _) hsound hlt
    (.inl hlt))

omit hapart in
/-- Resolving a node that has its links for good moves none. -/
theorem takes_resolve_settled (hsound : Sound known spans graph) (hlt : id < graph.size)
    (hsettled : graph.Settled id) :
    Takes (.written known spans False) (resolve classes id) graph fun _ next =>
      (next.node id).resolvedType.isSome := by
  refine takes_get_bind (takes_get_bind ?_)
  split
  · next type htype =>
    refine takes_pure ?_
    rw [htype]
    rfl
  · next hid =>
    have hleaf : (graph.node id).kind.isLeaf = true := by
      refine hsettled.resolve_left ?_
      rw [hid]
      exact Bool.false_ne_true
    have hcovers : (Rules.written known spans False).Covers classes :=
      ⟨hcovers.classes, hcovers.builtin⟩
    refine takes_bind (takes_resolveLeaf hcovers hleaf _) fun type next hsteps htype => ?_
    have hchildren : (next.node id).children = [] := by
      rw [Steps.children hsteps hlt (fun h => h), hsound.formed.leaf id hleaf]
    have hannotates : (Rules.written known spans False).Annotates next (next.node id)
        { next.node id with resolvedType := some type } := by
      refine ⟨rfl, rfl, rfl, rfl, fun _ => rfl, fun other hother => ?_, fun _ _ => ?_,
        fun _ => .inl⟩
      · cases hother
        exact .inr htype
      · rw [hchildren]
        exact fun _ hchild => absurd hchild List.not_mem_nil
    refine takes_bind (takes_modifyNode (R := fun _ last =>
      (last.node id).resolvedType.isSome) hannotates ?_) fun _ _ _ h => takes_pure h
    rw [node_modify_self (Nat.lt_of_lt_of_le hlt (Steps.size_le hsteps))]
    rfl

/-! ## Classifying -/

/-- Below a node that has its links for good no link moves, so a walk goes down in rank. -/
theorem takes_classifyWithin_written {base : Graph} (hbase : Sound known spans base)
    {rank : Nat → Nat} (hrank : base.Ranks rank) {bound : Nat} (hbound : rank id < bound)
    (hsteps : (Rules.written known spans False).Steps base graph) (hlt : id < base.size)
    (hsettled : graph.Settled id) :
    Takes (.written known spans False) (classifyWithin classes bound id) graph fun _ _ => True := by
  induction bound generalizing graph id with
  | zero => exact absurd hbound (Nat.not_lt_zero _)
  | succ bound ih =>
    have hsound := hbase.steps hapart hsteps
    have hlt' := Nat.lt_of_lt_of_le hlt (Steps.size_le hsteps)
    refine takes_get_bind ?_
    split
    · exact takes_pure trivial
    · refine takes_bind (takes_resolve_settled hcovers hsound hlt' hsettled)
        fun _ next hnext hresolved => takes_get_bind ?_
      have hreached := hsteps.trans hnext
      have hsound' := hbase.steps hapart hreached
      refine takes_bind (takes_mapM fun child hmem last hlast => ?_) fun children last _ _ => ?_
      · have hmem' : child ∈ (base.node id).children := by
          rwa [Steps.children hreached hlt (fun h => h)] at hmem
        have hlower := hrank id child hmem'
        have hchild := hbase.linked.children_lt hmem'
        refine ih (by omega) (hreached.trans hlast) hchild ?_
        obtain hsettled | ⟨hnone, -⟩ := hsound'.formed.ordered id child hmem
        · exact hsettled.steps (hsound'.linked.children_lt hmem) hlast
        · rw [hnone] at hresolved
          cases hresolved
      · exact takes_annotate_return (.of_eq rfl) fun _ _ => trivial

theorem takes_classify_written (hsound : Sound known spans graph) (hlt : id < graph.size) :
    Takes (.written known spans True) (classify classes id) graph fun _ _ => True := by
  refine takes_bind (takes_resolve_written hapart hcovers hsound hlt)
    fun _ next hsteps ⟨_, hresolved⟩ => takes_get_bind ?_
  have hsound := hsound.steps hapart hsteps
  have hlt := Nat.lt_of_lt_of_le hlt (Steps.size_le hsteps)
  obtain ⟨rank, hrank, hbelow⟩ := hsound.formed.acyclic.exists_rank_lt
    fun _ _ => hsound.linked.children_lt
  exact (takes_classifyWithin_written hapart hcovers hsound hrank
    (Nat.lt_succ_of_lt (hbelow id hlt)) .refl hlt (.inl hresolved)).mono fun h => h.elim

theorem takes_classifyFrom_written (bound : Nat) (hsound : Sound known spans graph) :
    Takes (.written known spans True) (classifyFrom classes bound id) graph fun _ _ => True := by
  induction bound generalizing graph id with
  | zero => exact takes_pure trivial
  | succ bound ih =>
    refine takes_get_bind ?_
    split
    · next hlt =>
      exact takes_bind (takes_classify_written hapart hcovers hsound hlt)
        fun _ _ hsteps _ => ih (hsound.steps hapart hsteps)
    · exact takes_pure trivial

theorem takes_classifyAll_written (hsound : Sound known spans graph) :
    Takes (.written known spans True) (classifyAll classes) graph fun _ _ => True :=
  takes_get_bind (takes_bind (takes_classifyFrom_written hapart hcovers _ hsound)
    fun _ _ hsteps _ =>
      takes_get_bind (takes_classifyFrom_written hapart hcovers _ (hsound.steps hapart hsteps)))

theorem takes_sealGraph_written (hsound : Sound known spans graph) :
    Takes (.written known spans True) (sealGraph classes) graph fun _ _ => True := by
  refine takes_get_bind ?_
  dsimp only
  split
  · exact takes_throw (GraphError.reports_of_isPlain rfl)
  · refine takes_bind (takes_classifyAll_written hapart hcovers hsound)
      fun _ next hsteps _ => takes_get_bind ?_
    have hsound := hsound.steps hapart hsteps
    split
    · next i hcycle =>
      obtain ⟨net, hnet⟩ := hsound.formed.acyclic.exists_net
      cases hnet.symm.trans hcycle
    · exact takes_set (.freeze _) trivial

end

end GraphM
end BindingPlan
