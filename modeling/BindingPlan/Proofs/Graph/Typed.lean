import BindingPlan.Proofs.Graph.Decided

/-!
# Types by a dictionary

Resolving a node of a graph that agrees with a dictionary gives the type that its key means, and
fails if its key has no meaning, whatever was resolved before and whatever failed. Behind it the
graph agrees with the dictionary again.

Main results:

* `GraphM.resolves_kind`: the type of a node follows from the meanings of its children.
* `GraphM.decides_resolve`: resolving a node gives the type that its key means.
* `GraphM.decides_classify`: classifying a node fails if its key has no meaning.
-/

namespace BindingPlan

namespace GraphM

open BindingPlan.Graph BindingPlan.Graph.Rules Operation

variable {classes : ClassRegistry} {dict : Dictionary classes} {table : ImportTable}
  {graph next : Graph} {i : Nat} {type? : Option ClassType}

/-- The operation gives the type, and behind it the children of the node have meanings. The links of
the node may have moved. -/
def Resolves (dict : Dictionary classes) (table : ImportTable) (operation : GraphM ClassType)
    (graph : Graph) (i : Nat) (type? : Option ClassType) : Prop :=
  Decides dict table (· = i) operation graph
    (fun type next => type? = some type ∧ ∀ child ∈ (next.node i).children, next.Means dict child)
    (type? = none)

/-- The meaning of a key, if resolving a child gives its type. -/
def ResolvesChild (dict : Dictionary classes) (table : ImportTable)
    (resolveChild : Nat → GraphM ClassType) (graph : Graph) (child : Nat) : Prop :=
  ∀ next, graph.Grows next → Judged dict table (fun _ => False) next →
    Decides dict table (fun _ => False) (resolveChild child) next
      (fun type _ => ∃ meaning, dict.meaning? (graph.keyOf child) = some meaning ∧
        meaning.type = type)
      (dict.meaning? (graph.keyOf child) = none)

theorem partAt?_meanings {ids : List Nat} {position child : Nat} (h : ids[position]? = some child) :
    partAt? (graph.meanings dict ids) position = dict.meaning? (graph.keyOf child) := by
  unfold partAt? meanings
  rw [List.getElem?_map, h]
  rfl

theorem exists_of_length {n : Nat} (h : (graph.node i).children.length = n) {position : Nat}
    (hposition : position < n) : ∃ child, (graph.node i).children[position]? = some child :=
  ⟨_, List.getElem?_eq_getElem (h ▸ hposition)⟩

/-- A receiver is a class if its meaning says so. -/
theorem isClassRef_eq {child : Nat} (h : Judged dict table (fun _ => False) graph)
    (hgrows : graph.Grows next) (hplain : graph.Plain child) (hlt : child < graph.size)
    {meaning : Meaning} (hmeaning : dict.meaning? (graph.keyOf child) = some meaning) :
    (next.node child).kind.isClassRef = meaning.isClass := by
  rw [Steps.kind hgrows hlt]
  exact (((h.agrees child hlt).kind meaning hmeaning hplain).1).symm

section

variable {resolveChild : Nat → GraphM ClassType}
  (hchild : ∀ child ∈ (graph.node i).children, ResolvesChild dict table resolveChild graph child)

include hchild

theorem decides_resolveOperand {position child : Nat} (hgrows : graph.Grows next)
    (h : Judged dict table (fun _ => False) next)
    (hposition : (graph.node i).children[position]? = some child) :
    Decides dict table (fun _ => False) (operand (graph.node i) position >>= resolveChild) next
      (fun type _ => ∃ meaning, partAt? (graph.meanings dict (graph.node i).children) position =
        some meaning ∧ meaning.type = type)
      (partAt? (graph.meanings dict (graph.node i).children) position = none) := by
  rw [partAt?_meanings hposition]
  exact decides_operand_bind hposition
    (hchild child (List.mem_of_getElem? hposition) next hgrows h)

theorem decides_resolveChildren {ids : List Nat} (hids : ∀ id ∈ ids, id ∈ (graph.node i).children)
    (hgrows : graph.Grows next) (h : Judged dict table (fun _ => False) next) :
    Decides dict table (fun _ => False) (ids.mapM resolveChild) next
      (fun types _ => ∃ meanings, (graph.meanings dict ids).mapM id = some meanings ∧
        meanings.map Meaning.type = types)
      ((graph.meanings dict ids).mapM id = none) := by
  induction ids generalizing next with
  | nil =>
    rw [List.mapM_nil]
    exact decides_pure h ⟨[], rfl, rfl⟩
  | cons child ids ih =>
    have hcons : (graph.meanings dict (child :: ids)).mapM id =
        (dict.meaning? (graph.keyOf child)).bind fun first =>
          ((graph.meanings dict ids).mapM id).map (first :: ·) := by
      have hparts : graph.meanings dict (child :: ids) =
          dict.meaning? (graph.keyOf child) :: graph.meanings dict ids := rfl
      rw [hparts, List.mapM_cons]
      cases dict.meaning? (graph.keyOf child) with
      | none => rfl
      | some first => cases (graph.meanings dict ids).mapM id <;> rfl
    rw [List.mapM_cons, hcons]
    have hfirst := hchild child (hids child List.mem_cons_self) next hgrows h
    refine hfirst.bind (fun hnone => ?_)
      fun type reached hmore hjudged ⟨first, hmeaning, htype⟩ => ?_
    · rw [hnone, Option.bind_none]
    rw [hmeaning, Option.bind_some]
    have hrest := ih (fun id hid => hids id (List.mem_cons_of_mem _ hid)) (hgrows.trans hmore)
      hjudged
    refine hrest.bind (fun hnone => ?_)
      fun types _ _ hjudged ⟨rest, hrest, htypes⟩ => decides_pure hjudged ?_
    · rw [hnone, Option.map_none]
    · rw [hrest]
      exact ⟨first :: rest, rfl, by rw [List.map_cons, htype, htypes]⟩

variable (h : Judged dict table (fun _ => False) graph) (hi : i < graph.size)
  (hplain : graph.Plain i)
  (hchildren : ∀ child ∈ (graph.node i).children, graph.Plain child)
  (hcomposes : (graph.node i).kind.Composes (graph.node i).children.length)
  (hmeaning : dict.meaning? (graph.keyOf i) =
    ((graph.node i).kind.type? classes (graph.meanings dict (graph.node i).children)).map
      (graph.node i).kind.meaning)

include h hi hplain hchildren hcomposes hmeaning

theorem resolves_field {name : String} (hkind : (graph.node i).kind = .field name false) :
    Resolves dict table (resolveField classes resolveChild i name) graph i
      ((graph.node i).kind.type? classes (graph.meanings dict (graph.node i).children)) := by
  rw [hkind] at hcomposes hmeaning ⊢
  obtain ⟨receiver, hreceiver⟩ : ∃ receiver, (graph.node i).children[0]? = some receiver := by
    generalize hn : (graph.node i).children.length = n at hcomposes
    cases hcomposes
    exact ⟨_, List.getElem?_eq_getElem (by omega)⟩
  have hpart : partAt? (graph.meanings dict (graph.node i).children) 0 =
      dict.meaning? (graph.keyOf receiver) := partAt?_meanings hreceiver
  generalize graph.meanings dict (graph.node i).children = parts at hpart hmeaning ⊢
  have hmem := List.mem_of_getElem? hreceiver
  have hlt := h.linked.children_lt hmem
  refine decides_get_bind (decides_operand_bind hreceiver ?_)
  refine (hchild receiver hmem graph .refl h).bind (fun hnone => ?_)
    fun type resolved hgrows hjudged ⟨meaning, hmeaning', htype⟩ => ?_
  · show (partAt? parts 0).bind _ = none
    rw [hpart, hnone, Option.bind_none]
  subst htype
  have htyped : (Kind.field name false).type? classes parts = classes.accessType? meaning name := by
    show (partAt? parts 0).bind _ = _
    rw [hpart, hmeaning', Option.bind_some]
  rw [htyped] at hmeaning ⊢
  refine decides_isClassRef_bind ?_
  rw [isClassRef_eq h hgrows (hchildren receiver hmem) hlt hmeaning']
  refine decides_lookup_bind hjudged (fun cause hcause => ?_) fun member hmember => ?_
  · unfold ClassRegistry.accessType?
    rw [hcause]
    rfl
  have hi' := Nat.lt_of_lt_of_le hi (Steps.size_le hgrows)
  have hmove {type : ClassType} (haccess : classes.accessType? meaning name = some type) :
      Decides dict table (· = i)
        (moveToClass i member meaning.type meaning.isClass) resolved
        (fun _ next => ∀ child ∈ (next.node i).children, next.Means dict child)
        (classes.accessType? meaning name = none) := by
    rw [haccess] at hmeaning
    rw [← Steps.keyOf hgrows hi] at hmeaning
    exact decides_moveToClass hjudged hi' (hplain.grows hi hgrows) hmeaning member _
      (dict.finds _ _ hmeaning')
  by_cases hwrapper : member.type.observableField = true
  · obtain ⟨_, hfound⟩ := ClassRegistry.exists_of_findMember hmember
    obtain ⟨value, hvalue⟩ :=
      dict.wrapper member.type (ClassRegistry.findClass_name hfound) hwrapper
    have haccess := ClassRegistry.accessType?_of_wrapper hmember hwrapper hvalue
    refine decides_bind (hmove haccess) fun _ moved hmoves hjudged hmeans => ?_
    rw [if_pos hwrapper]
    have hsteps := hgrows.trans hmoves
    refine (decides_splitWrapper hjudged ((Steps.kind hsteps hi).trans hkind)
      (Nat.lt_of_lt_of_le hi (Steps.size_le hsteps)) hmeans hvalue).imp ?_ fun h => h
    rintro type last - - ⟨rfl, hmeans⟩
    exact ⟨haccess, hmeans⟩
  · have haccess := ClassRegistry.accessType?_of_plain hmember hwrapper
    refine decides_bind (hmove haccess) fun _ moved hmoves hjudged hmeans => ?_
    rw [if_neg hwrapper]
    refine (decides_setMember hjudged hmeans member member.type).imp ?_ fun h => h
    rintro type last - - ⟨rfl, hmeans⟩
    exact ⟨haccess, hmeans⟩

theorem resolves_call {name : String} (hkind : (graph.node i).kind = .call name) :
    Resolves dict table (resolveCall classes resolveChild i name) graph i
      ((graph.node i).kind.type? classes (graph.meanings dict (graph.node i).children)) := by
  rw [hkind] at hcomposes hmeaning ⊢
  obtain ⟨target, htarget⟩ : ∃ target, (graph.node i).children[0]? = some target := by
    generalize hn : (graph.node i).children.length = n at hcomposes
    cases hcomposes
    exact ⟨_, List.getElem?_eq_getElem (by omega)⟩
  have hpart : partAt? (graph.meanings dict (graph.node i).children) 0 =
      dict.meaning? (graph.keyOf target) := partAt?_meanings htarget
  have hdrop : (graph.meanings dict (graph.node i).children).drop 1 =
      graph.meanings dict ((graph.node i).children.drop 1) := List.map_drop.symm
  generalize graph.meanings dict (graph.node i).children = parts at hpart hdrop hmeaning ⊢
  have hmem := List.mem_of_getElem? htarget
  have hlt := h.linked.children_lt hmem
  refine decides_get_bind (decides_operand_bind htarget ?_)
  refine (hchild target hmem graph .refl h).bind (fun hnone => ?_)
    fun type resolved hgrows hjudged ⟨meaning, hmeaning', htype⟩ => ?_
  · show (partAt? parts 0).bind _ = none
    rw [hpart, hnone, Option.bind_none]
  subst htype
  have hids : ∀ id ∈ (graph.node i).children.drop 1, id ∈ (graph.node i).children :=
    fun _ => List.mem_of_mem_drop
  refine (decides_resolveChildren hchild hids hgrows hjudged).bind (fun hnone => ?_)
    fun types reached hmore hjudged ⟨args, hargs, htypes⟩ => ?_
  · show (partAt? parts 0).bind (fun _ => ((parts.drop 1).mapM id).bind _) = none
    rw [hdrop, hnone, hpart, hmeaning']
    rfl
  subst htypes
  have htyped : (Kind.call name).type? classes parts = (classes.findMethod meaning.type name
      (args.map Meaning.type) meaning.isClass).toOption.map Member.type := by
    show (partAt? parts 0).bind (fun _ => ((parts.drop 1).mapM id).bind _) = _
    rw [hdrop, hargs, hpart, hmeaning']
    show Option.bind _ _ = _
    rw [Option.map_eq_bind]
    rfl
  rw [htyped] at hmeaning ⊢
  have hsteps := hgrows.trans hmore
  refine decides_isClassRef_bind ?_
  rw [isClassRef_eq h hsteps (hchildren target hmem) hlt hmeaning']
  refine decides_lookup_bind hjudged (fun cause hcause => ?_) fun member hmember => ?_
  · rw [hcause]
    rfl
  rw [hmember] at hmeaning ⊢
  rw [← Steps.keyOf hsteps hi] at hmeaning
  refine decides_bind (decides_moveToClass hjudged (Nat.lt_of_lt_of_le hi (Steps.size_le hsteps))
    (hplain.grows hi hsteps) hmeaning member _ (dict.finds _ _ hmeaning'))
    fun _ moved hmoves hjudged hmeans => ?_
  refine (decides_setMember hjudged hmeans member member.type).imp ?_ fun h => h
  rintro type last - - ⟨rfl, hmeans⟩
  exact ⟨rfl, hmeans⟩

end

/-! ## Kinds -/

/-- The operation gives the type, or fails if there is none. -/
def Types (dict : Dictionary classes) (table : ImportTable) (operation : GraphM ClassType)
    (graph : Graph) (type? : Option ClassType) : Prop :=
  Decides dict table (fun _ => False) operation graph (fun type _ => type? = some type)
    (type? = none)

/-- An operation that moves no links of the node. -/
theorem Types.resolves {operation : GraphM ClassType} (h : Types dict table operation graph type?)
    (hi : i < graph.size) (hplain : graph.Plain i)
    (hmeaning : dict.meaning? (graph.keyOf i) = type?.map (graph.node i).kind.meaning) :
    Resolves dict table operation graph i type? := by
  refine (h.imp (fun type next hgrows hjudged htype => ⟨htype, ?_⟩) fun h => h).of_busy nofun
  rw [htype, ← Steps.keyOf hgrows hi] at hmeaning
  exact (hjudged.agrees i (Nat.lt_of_lt_of_le hi (Steps.size_le hgrows))).means_of_meaning?
    (hplain.grows hi hgrows) hmeaning

theorem types_leaf (h : Judged dict table (fun _ => False) graph)
    (hleaf : (graph.node i).kind.isLeaf = true) (resolveChild : Nat → GraphM ClassType)
    (parts : List (Option Meaning)) :
    Types dict table (resolveKind classes resolveChild i) graph
      ((graph.node i).type? classes parts) := by
  refine decides_get_bind ?_
  dsimp only
  unfold Node.type?
  generalize (graph.node i).kind = kind at hleaf
  cases kind with
  | identifier name =>
    dsimp only
    cases (graph.node i).declaredType with
    | none => exact decides_lookup h
    | some type => exact decides_lookup h
  | classRef | symbol => exact decides_lookup h
  | field | call | binary | unary | ternary => cases hleaf

section

variable {resolveChild : Nat → GraphM ClassType}
  (hchild : ∀ child ∈ (graph.node i).children, ResolvesChild dict table resolveChild graph child)
  (h : Judged dict table (fun _ => False) graph)

include hchild h

theorem types_math (hlength : (graph.node i).children.length = 2) (op : MathOp) :
    Types dict table (do
      let lhs ← operand (graph.node i) 0 >>= resolveChild
      let rhs ← operand (graph.node i) 1 >>= resolveChild
      return mathType op lhs rhs) graph
      (Kind.type? classes (graph.meanings dict (graph.node i).children) (.binary (.math op))) := by
  obtain ⟨l, hl⟩ := exists_of_length hlength (show 0 < 2 by decide)
  obtain ⟨r, hr⟩ := exists_of_length hlength (show 1 < 2 by decide)
  have htype (parts : List (Option Meaning)) : Kind.type? classes parts (.binary (.math op)) =
      (partAt? parts 0).bind fun lhs => (partAt? parts 1).bind fun rhs =>
        some (mathType op lhs.type rhs.type) := rfl
  rw [htype]
  refine (decides_resolveOperand hchild .refl h hl).bind (fun hnone => ?_)
    fun _ next hgrows hjudged ⟨lhs, hlhs, hltype⟩ => ?_
  · rw [hnone, Option.bind_none]
  refine (decides_resolveOperand hchild hgrows hjudged hr).bind (fun hnone => ?_)
    fun _ last _ hjudged ⟨rhs, hrhs, hrtype⟩ => decides_pure hjudged ?_
  · rw [hlhs, hnone]
    rfl
  · rw [hlhs, hrhs, ← hltype, ← hrtype]
    rfl

/-- A condition has a type if all of its parts have one. -/
theorem types_boolean : Types dict table (do
      let _ ← (graph.node i).children.mapM resolveChild
      return ClassType.plain TypeName.boolean) graph (do
      let _ ← (graph.meanings dict (graph.node i).children).mapM id
      return ClassType.plain TypeName.boolean) := by
  refine (decides_resolveChildren hchild (fun _ hid => hid) .refl h).bind (fun hnone => ?_)
    fun types next _ hjudged ⟨meanings, hmeanings, _⟩ => decides_pure hjudged ?_
  · rw [hnone]
    rfl
  · rw [hmeanings]
    rfl

theorem types_neg (hlength : (graph.node i).children.length = 1) :
    Types dict table (operand (graph.node i) 0 >>= resolveChild) graph
      (Kind.type? classes (graph.meanings dict (graph.node i).children) (.unary .neg)) := by
  obtain ⟨operand, hoperand⟩ := exists_of_length hlength (show 0 < 1 by decide)
  have htype (parts : List (Option Meaning)) : Kind.type? classes parts (.unary .neg) =
      (partAt? parts 0).bind fun operand => some operand.type := rfl
  rw [htype]
  refine (decides_resolveOperand hchild .refl h hoperand).imp ?_ fun hnone => ?_
  · rintro type next - - ⟨meaning, hmeaning, rfl⟩
    rw [hmeaning]
    rfl
  · rw [hnone, Option.bind_none]

/-- The type of a conditional is that of its first branch, unless that is `null`. -/
theorem types_ternary (hlength : (graph.node i).children.length = 3)
    (hchildren : ∀ child ∈ (graph.node i).children, graph.Plain child) :
    Types dict table (do
      let _ ← operand (graph.node i) 0 >>= resolveChild
      let whenTrue ← operand (graph.node i) 1
      let trueType ← resolveChild whenTrue
      let falseType ← operand (graph.node i) 2 >>= resolveChild
      return if ((← get).node whenTrue).isNullLiteral then falseType else trueType) graph
      (Kind.type? classes (graph.meanings dict (graph.node i).children) .ternary) := by
  obtain ⟨p, hp⟩ := exists_of_length hlength (show 0 < 3 by decide)
  obtain ⟨t, ht⟩ := exists_of_length hlength (show 1 < 3 by decide)
  obtain ⟨f, hf⟩ := exists_of_length hlength (show 2 < 3 by decide)
  have htype (parts : List (Option Meaning)) : Kind.type? classes parts .ternary =
      (partAt? parts 0).bind fun _ => (partAt? parts 1).bind fun whenTrue =>
        (partAt? parts 2).bind fun whenFalse =>
          some (if whenTrue.isNull then whenFalse.type else whenTrue.type) := rfl
  have hmem := List.mem_of_getElem? ht
  have hpart : partAt? (graph.meanings dict (graph.node i).children) 1 =
      dict.meaning? (graph.keyOf t) := partAt?_meanings ht
  rw [htype]
  refine (decides_resolveOperand hchild .refl h hp).bind (fun hnone => ?_)
    fun _ next hgrows hjudged ⟨predicate, hpredicate, _⟩ => decides_operand_bind ht ?_
  · rw [hnone, Option.bind_none]
  refine (hchild t hmem next hgrows hjudged).bind (fun hnone => ?_)
    fun _ reached hmore hjudged ⟨whenTrue, hwhenTrue, htrueType⟩ => ?_
  · rw [hpredicate, hpart, hnone]
    rfl
  have hreached := hgrows.trans hmore
  refine (decides_resolveOperand hchild hreached hjudged hf).bind (fun hnone => ?_)
    fun _ last hlast hjudged ⟨whenFalse, hwhenFalse, hfalseType⟩ =>
      decides_get_bind (decides_pure hjudged ?_)
  · rw [hpredicate, hpart, hwhenTrue, hnone]
    rfl
  -- the first branch is the literal `null` if that is what it means
  have hnull : (last.node t).isNullLiteral = whenTrue.isNull := by
    have hlt := h.linked.children_lt hmem
    show (last.node t).kind.isNull = _
    rw [Steps.kind (hreached.trans hlast) hlt]
    exact ((h.agrees t hlt).kind whenTrue hwhenTrue (hchildren t hmem)).2.symm
  rw [hpredicate, hpart, hwhenTrue, hwhenFalse, hnull, ← htrueType, ← hfalseType]
  rfl

/-- A node that is not resolved resolves to the type that follows from the meanings of its
children. -/
theorem resolves_kind (hi : i < graph.size) (hplain : graph.Plain i)
    (hresolved : (graph.node i).resolvedType = none) :
    Resolves dict table (resolveKind classes resolveChild i) graph i
      ((graph.node i).type? classes (graph.meanings dict (graph.node i).children)) := by
  obtain ⟨hchildren, hmeaning⟩ := (h.agrees i hi).unresolved hresolved fun h => h
  by_cases hleaf : (graph.node i).kind.isLeaf = true
  · exact (types_leaf h hleaf resolveChild _).resolves hi hplain hmeaning
  have hcomposes := ((h.agrees i hi).shape hplain).resolve_left fun hshape => hleaf hshape.1
  have htype (parts : List (Option Meaning)) :
      (graph.node i).type? classes parts = (graph.node i).kind.type? classes parts := by
    unfold Node.type?
    split
    · next hkind => exact absurd (hkind ▸ rfl) hleaf
    · rfl
  rw [htype] at hmeaning ⊢
  have still {operation : GraphM ClassType} (htypes : Types dict table operation graph _) :=
    htypes.resolves hi hplain hmeaning
  refine decides_get_bind ?_
  dsimp only
  split
  · next hkind => exact absurd (hkind ▸ rfl) hleaf
  · next hkind => exact absurd (hkind ▸ rfl) hleaf
  · next hkind => exact absurd (hkind ▸ rfl) hleaf
  · next name unwrap hkind =>
    cases unwrap with
    | true => exact absurd hkind (hplain name)
    | false => exact resolves_field hchild h hi hplain hchildren hcomposes hmeaning hkind
  · next hkind => exact resolves_call hchild h hi hplain hchildren hcomposes hmeaning hkind
  · next op hkind =>
    rw [hkind] at hcomposes still ⊢
    exact still (types_math hchild h hcomposes.length_binary op)
  · next hkind =>
    rw [hkind] at still ⊢
    exact still (types_boolean hchild h)
  · next hkind =>
    rw [hkind] at still ⊢
    exact still (types_boolean hchild h)
  · next hkind =>
    rw [hkind] at still ⊢
    exact still (types_boolean hchild h)
  · next hkind =>
    rw [hkind] at hcomposes still ⊢
    exact still (types_neg hchild h hcomposes.length_unary)
  · next hkind =>
    rw [hkind] at hcomposes still ⊢
    exact still (types_ternary hchild h hcomposes.length_ternary hchildren)

end

/-! ## Walks -/

theorem decides_resolveWithin {bound : Nat} (h : Judged dict table (fun _ => False) graph)
    (hi : i < graph.size) (hplain : graph.Plain i) :
    Decides dict table (fun _ => False) (resolveWithin classes bound i) graph
      (fun type next => (∃ meaning, dict.meaning? (graph.keyOf i) = some meaning ∧
        meaning.type = type) ∧ (next.node i).resolvedType.isSome)
      (dict.meaning? (graph.keyOf i) = none) := by
  induction bound generalizing graph i with
  | zero => exact decides_get_bind (decides_throw h (.inr ⟨_, rfl⟩))
  | succ bound ih =>
    refine decides_get_bind ?_
    split
    · next type htype =>
      refine decides_pure h ⟨(h.agrees i hi).resolved type htype hplain, ?_⟩
      rw [htype]
      rfl
    · next hresolved =>
      obtain ⟨hchildren, hmeaning⟩ := (h.agrees i hi).unresolved hresolved fun h => h
      have hchild : ∀ child ∈ (graph.node i).children,
          ResolvesChild dict table (resolveWithin classes bound) graph child := by
        intro child hmem next hgrows hjudged
        have hlt := h.linked.children_lt hmem
        rw [← Steps.keyOf hgrows hlt]
        exact (ih hjudged (Nat.lt_of_lt_of_le hlt (Steps.size_le hgrows))
          ((hchildren child hmem).grows hlt hgrows)).imp (fun _ _ _ _ ha => ha.1) fun h => h
      refine (resolves_kind hchild h hi hplain hresolved).bind (fun hnone => ?_)
        fun type next hgrows hjudged ⟨htype, hmeans⟩ => ?_
      · exact hmeaning.trans (by rw [hnone, Option.map_none])
      · rw [htype, Option.map_some] at hmeaning
        have hmeaning' : dict.meaning? (next.node i).key =
            some ((graph.node i).kind.meaning type) := by
          rw [← hmeaning]
          exact congrArg dict.meaning? (Steps.keyOf hgrows hi)
        have hi' := Nat.lt_of_lt_of_le hi (Steps.size_le hgrows)
        have hannotates : (Rules.any fun _ => True).Annotates next (next.node i)
            { next.node i with resolvedType := some type } :=
          ⟨rfl, rfl, rfl, rfl, fun _ => rfl, fun _ _ => .inr trivial, fun _ _ => trivial,
            fun _ => .inl⟩
        have hset : Decides dict table (fun _ => False)
            (modifyNode i fun node => { node with resolvedType := some type }) next
            (fun _ last => (last.node i).resolvedType.isSome)
            (dict.meaning? (graph.keyOf i) = none) := by
          refine decides_modify (.annotate hannotates) ?_ ?_
          · exact hjudged.modify (.annotate hannotates) (fun j hj => hj)
              fun hi => (hjudged.agrees i hi).resolve hmeaning' hmeans
          · rw [node_modify_self hi']
            rfl
        exact decides_bind hset fun _ _ _ hjudged hsome =>
          decides_pure hjudged ⟨⟨_, hmeaning, rfl⟩, hsome⟩

/-- Resolving a node gives the type that its key means, and fails only if its key has no meaning. -/
theorem decides_resolve (h : Judged dict table (fun _ => False) graph) (hi : i < graph.size)
    (hplain : graph.Plain i) :
    Decides dict table (fun _ => False) (resolve classes i) graph
      (fun type next => (∃ meaning, dict.meaning? (graph.keyOf i) = some meaning ∧
        meaning.type = type) ∧ (next.node i).resolvedType.isSome)
      (dict.meaning? (graph.keyOf i) = none) :=
  decides_get_bind (decides_resolveWithin h hi hplain)

/-- Resolving a node that has a meaning, or that came about by a split, does not fail. -/
theorem decides_resolve_of_means (h : Judged dict table (fun _ => False) graph)
    (hi : i < graph.size) (hmeans : graph.Means dict i) :
    Decides dict table (fun _ => False) (resolve classes i) graph
      (fun _ next => (next.node i).resolvedType.isSome) False := by
  by_cases hplain : graph.Plain i
  · obtain ⟨meaning, hmeaning⟩ := hmeans hplain
    refine (decides_resolve h hi hplain).imp (fun _ _ _ _ ha => ha.2) fun hnone => ?_
    cases hmeaning.symm.trans hnone
  · obtain ⟨name, hkind⟩ := not_forall_not.mp hplain
    have hresolved := ((h.agrees i hi).wrapper name hkind).2.1
    obtain ⟨type, htype⟩ := Option.isSome_iff_exists.mp hresolved
    refine decides_get_bind (decides_get_bind ?_)
    rw [htype]
    exact decides_pure h hresolved

theorem decides_classifyWithin {bound : Nat} (h : Judged dict table (fun _ => False) graph)
    (hi : i < graph.size) (hmeans : graph.Means dict i) :
    Decides dict table (fun _ => False) (classifyWithin classes bound i) graph (fun _ _ => True)
      False := by
  induction bound generalizing graph i with
  | zero => exact decides_get_bind (decides_throw h (.inr ⟨_, rfl⟩))
  | succ bound ih =>
    refine decides_get_bind ?_
    split
    · exact decides_pure h trivial
    · refine decides_bind (decides_resolve_of_means h hi hmeans)
        fun _ next hgrows hjudged hresolved => decides_get_bind ?_
      have hi' := Nat.lt_of_lt_of_le hi (Steps.size_le hgrows)
      -- what is resolved has children with meanings
      have hchildren := (hjudged.agrees i hi').means hresolved
      refine decides_bind (decides_mapM hjudged fun child hchild last hlast hjudged' => ?_)
        fun children last _ hjudged _ => ?_
      · have hlt := hjudged.linked.children_lt hchild
        exact ih hjudged' (Nat.lt_of_lt_of_le hlt (Steps.size_le hlast))
          ((hchildren child hchild).grows hlt hlast)
      · exact decides_annotate_return (.of_eq rfl) hjudged rfl trivial

/-- Classifying a node fails only if its key has no meaning. -/
theorem decides_classify (h : Judged dict table (fun _ => False) graph) (hi : i < graph.size)
    (hplain : graph.Plain i) :
    Decides dict table (fun _ => False) (classify classes i) graph
      (fun _ _ => ∃ meaning, dict.meaning? (graph.keyOf i) = some meaning)
      (dict.meaning? (graph.keyOf i) = none) := by
  refine decides_bind (decides_resolve h hi hplain)
    fun _ next hgrows hjudged ⟨⟨meaning, hmeaning, _⟩, _⟩ => decides_get_bind ?_
  have hmeans : next.Means dict i := fun _ => ⟨meaning, by rwa [Steps.keyOf hgrows hi]⟩
  exact (decides_classifyWithin hjudged (Nat.lt_of_lt_of_le hi (Steps.size_le hgrows)) hmeans).imp
    (fun _ _ _ _ _ => ⟨meaning, hmeaning⟩) False.elim

end GraphM
end BindingPlan
