import BindingPlan.Proofs.Token.Coverage
import BindingPlan.Proofs.Token.Slices
import BindingPlan.Proofs.Tree.Parts

/-!
# Nodes and their places

Every node of a tree is derived from tokens of its own, one behind the other, and its span goes from
the first to the last of them. So the nodes of a tree lie in each other and beside each other like
the tokens, and the text of a node is a source with the node as its tree.

Main results:

* `Derives.laid`: where a derived tree and its children stand.
* `spans_compositional`: where the nodes of a parsed tree stand, and what their texts are.
-/

namespace BindingPlan

variable {l r before own after lexemes : List Lexeme} {lexeme first last : Lexeme} {level : Nat}
  {tree node child : Tree} {trees more args : List Tree} {span next : Span}

/-! ## Nodes -/

/-- The name of a member, seen as a construct. -/
def Name.asTree (name : Name) : Tree :=
  .ident name.span name.text

/-- The constructs right inside a tree from left to right, the name of a member among them. -/
def Tree.children : Tree → List Tree
  | .field _ receiver name => [receiver, name.asTree]
  | .call _ target name args => target :: name.asTree :: args
  | tree => tree.parts

/-- The constructs of a tree: itself, and those inside. -/
inductive Tree.HasNode (tree : Tree) : Tree → Prop
  | root : tree.HasNode tree
  | child {node child : Tree} : tree.HasNode node → child ∈ node.children → tree.HasNode child

/-! ## Spans of derived trees -/

/-- The span goes from the start of the first token to the end of the last one. -/
def Span.Covers (span : Span) (lexemes : List Lexeme) : Prop :=
  ∃ first last, lexemes.head? = some first ∧ lexemes.getLast? = some last ∧
    span = first.span.to last.span

theorem covers_singleton (lexeme : Lexeme) : lexeme.span.Covers [lexeme] :=
  ⟨lexeme, lexeme, rfl, rfl, rfl⟩

theorem Span.Covers.to (hl : span.Covers l) (between : List Lexeme) (hr : next.Covers r) :
    (span.to next).Covers (l ++ (between ++ r)) := by
  obtain ⟨first, -, hfirst, -, rfl⟩ := hl
  obtain ⟨-, last, -, hlast, rfl⟩ := hr
  refine ⟨first, last, ?_, ?_, rfl⟩
  · rw [List.head?_append, hfirst, Option.some_or]
  · rw [List.getLast?_append, List.getLast?_append, hlast, Option.some_or, Option.some_or]

/-- The tokens are derived as the tree, whose span goes from the first to the last of them. -/
structure Stretch (lexemes : List Lexeme) (tree : Tree) : Prop where
  derives : Derives 0 lexemes tree
  covers : tree.span.Covers lexemes

/-- The trees are derived from stretches of the tokens, each behind those in front of it. -/
inductive InOrder : List Lexeme → List Tree → Prop
  | nil (l : List Lexeme) : InOrder l []
  | skip {lexeme : Lexeme} {l : List Lexeme} {trees : List Tree} :
    InOrder l trees → InOrder (lexeme :: l) trees
  | next {l r : List Lexeme} {tree : Tree} {trees : List Tree} :
    Stretch l tree → InOrder r trees → InOrder (l ++ r) (tree :: trees)

namespace InOrder

theorem single (h : Stretch l tree) : InOrder l [tree] :=
  List.append_nil l ▸ .next h (.nil [])

theorem append (hl : InOrder l trees) (hr : InOrder r more) : InOrder (l ++ r) (trees ++ more) := by
  induction hl with
  | nil l =>
    induction l with
    | nil => exact hr
    | cons lexeme l ih => exact .skip ih
  | skip _ ih => exact .skip ih
  | next h _ ih =>
    rw [List.append_assoc]
    exact .next h ih

theorem exists_stretch (h : InOrder lexemes trees) (hmem : tree ∈ trees) :
    ∃ before own after, lexemes = before ++ (own ++ after) ∧ Stretch own tree := by
  induction h with
  | nil => cases hmem
  | @skip lexeme l _ _ ih =>
    obtain ⟨before, own, after, rfl, hown⟩ := ih hmem
    exact ⟨lexeme :: before, own, after, rfl, hown⟩
  | @next l r _ _ h _ ih =>
    rcases List.mem_cons.mp hmem with rfl | hmem
    · exact ⟨[], l, r, rfl, h⟩
    · obtain ⟨before, own, after, rfl, hown⟩ := ih hmem
      exact ⟨l ++ before, own, after, (List.append_assoc ..).symm, hown⟩

end InOrder

/-! ## Derived trees -/

/-- The span of the tree goes from its first to its last token, and its children are derived from
stretches in between. -/
structure Laid (lexemes : List Lexeme) (tree : Tree) : Prop where
  covers : tree.span.Covers lexemes
  inside : InOrder lexemes tree.children

theorem Laid.stretch (hlaid : Laid l tree) (h : Derives level l tree) : Stretch l tree :=
  ⟨h.loosenTo (Nat.zero_le level), hlaid.covers⟩

section

variable {p t f a : List Lexeme} {sign dot name opening closing question colon : Lexeme}
  {lhs rhs operand receiver inner predicate ifTrue ifFalse : Tree} {text : String}

theorem laid_ternary (hp : Stretch p predicate) (ht : Stretch t ifTrue) (hf : Stretch f ifFalse) :
    Laid (p ++ question :: (t ++ colon :: f))
      (.ternary (predicate.span.to ifFalse.span) predicate ifTrue ifFalse) := by
  have hcovers := hp.covers.to (question :: t ++ [colon]) hf.covers
  rw [List.append_assoc] at hcovers
  exact ⟨hcovers, .next hp (.skip (.next ht (.skip (.single hf))))⟩

theorem laid_operator (op : InfixOp) (hlhs : Stretch l lhs) (hrhs : Stretch r rhs) :
    Laid (l ++ sign :: r) (op.join lhs rhs) := by
  have hcovers := hlhs.covers.to [sign] hrhs.covers
  have hinside : InOrder (l ++ sign :: r) [lhs, rhs] := .next hlhs (.skip (.single hrhs))
  cases op with
  | coalesce => exact ⟨hcovers, hinside⟩
  | binary op => exact ⟨hcovers, hinside⟩

theorem laid_unary (op : UnaryOp) (h : Stretch l operand) :
    Laid (sign :: l) (.unary (sign.span.to operand.span) op operand) :=
  ⟨(covers_singleton sign).to [] h.covers, .skip (.single h)⟩

theorem stretch_name (hname : name.token = .name text) :
    Stretch [name] (Name.asTree ⟨text, name.span⟩) :=
  ⟨(Derives.ident hname).loosenTo (Nat.zero_le 10), covers_singleton name⟩

theorem laid_field (h : Stretch l receiver) (hname : name.token = .name text) :
    Laid (l ++ [dot, name]) (fieldOf receiver ⟨text, name.span⟩) :=
  ⟨h.covers.to [dot] (covers_singleton name), .next h (.skip (.single (stretch_name hname)))⟩

theorem laid_call (h : Stretch l receiver) (hname : name.token = .name text)
    (hargs : InOrder a args) :
    Laid (l ++ dot :: name :: opening :: (a ++ [closing]))
      (.call (receiver.span.to closing.span) receiver ⟨text, name.span⟩ args) := by
  have hinside := hargs.append (.nil [closing])
  rw [List.append_nil] at hinside
  exact ⟨h.covers.to (dot :: name :: opening :: a) (covers_singleton closing),
    .next h (.skip (.next (stretch_name hname) (.skip hinside)))⟩

theorem laid_group (h : Stretch l inner) :
    Laid (opening :: (l ++ [closing])) (.group (opening.span.to closing.span) inner) :=
  ⟨(covers_singleton opening).to l (covers_singleton closing), .skip (.next h (.nil _))⟩

end

mutual

/-- Where a derived tree and its children stand. -/
theorem Derives.laid {level : Nat} {l : List Lexeme} {tree : Tree} :
    Derives level l tree → Laid l tree
  | .ternary hp _ ht _ hf =>
    laid_ternary (hp.laid.stretch hp) (ht.laid.stretch ht) (hf.laid.stretch hf)
  | .coalesce hlhs _ hrhs =>
    laid_operator .coalesce (hlhs.laid.stretch hlhs) (hrhs.laid.stretch hrhs)
  | .binary _ hlhs _ hrhs =>
    laid_operator (.binary _) (hlhs.laid.stretch hlhs) (hrhs.laid.stretch hrhs)
  | .unary _ _ h => laid_unary _ (h.laid.stretch h)
  | .field h _ hname => laid_field (h.laid.stretch h) hname
  | .call h _ hname _ hargs _ => laid_call (h.laid.stretch h) hname hargs.inOrder
  | .emptyCall h _ hname _ _ => laid_call (h.laid.stretch h) hname (.nil [])
  | .literal _ => ⟨covers_singleton _, .nil _⟩
  | .ident _ => ⟨covers_singleton _, .nil _⟩
  | .group _ h _ => laid_group (h.laid.stretch h)
  | .loosen h => h.laid

theorem DerivesArgs.inOrder {a : List Lexeme} {args : List Tree} :
    DerivesArgs a args → InOrder a args
  | .first h => .single (h.laid.stretch h)
  | .next hargs _ h => hargs.inOrder.append (.skip (.single (h.laid.stretch h)))

end

/-! ## Tokens in a row -/

/-- The tokens stand one behind the other, none of them empty. -/
structure InRow (lexemes : List Lexeme) : Prop where
  nonempty : ∀ lexeme ∈ lexemes, lexeme.span.start < lexeme.span.stop
  ordered : lexemes.Pairwise fun lexeme next => lexeme.span.stop ≤ next.span.start

theorem inRow_lex (source : String) : InRow (lex source).tokens where
  nonempty := by
    intro lexeme hlexeme
    obtain ⟨piece, hpiece, hsome⟩ := List.mem_filterMap.mp hlexeme
    rw [Piece.span_of_lexeme? hsome]
    exact start_lt_stop_of_mem_pieces hpiece
  ordered := (lexemesIn_lex source).ordered

namespace InRow

theorem left (h : InRow (l ++ r)) : InRow l :=
  ⟨fun lexeme hmem => h.nonempty lexeme (List.mem_append_left r hmem),
    (List.pairwise_append.mp h.ordered).1⟩

theorem right (h : InRow (l ++ r)) : InRow r :=
  ⟨fun lexeme hmem => h.nonempty lexeme (List.mem_append_right l hmem),
    (List.pairwise_append.mp h.ordered).2.1⟩

/-- A span over tokens covers each of them. -/
theorem covers_mem (h : InRow l) (hspan : span.Covers l) (hmem : lexeme ∈ l) :
    span.start ≤ lexeme.span.start ∧ lexeme.span.stop ≤ span.stop := by
  obtain ⟨first, last, hfirst, hlast, rfl⟩ := hspan
  obtain ⟨rest, hrest⟩ := List.head?_eq_some_iff.mp hfirst
  obtain ⟨front, hfront⟩ := List.getLast?_eq_some_iff.mp hlast
  constructor
  · rw [hrest] at h hmem
    rcases List.mem_cons.mp hmem with rfl | hmem
    · exact Nat.le_refl _
    · exact Nat.le_trans (Nat.le_of_lt (h.nonempty first List.mem_cons_self))
        ((List.pairwise_cons.mp h.ordered).1 lexeme hmem)
  · rw [hfront] at h hmem
    rcases List.mem_append.mp hmem with hmem | hmem
    · exact Nat.le_trans ((List.pairwise_append.mp h.ordered).2.2 lexeme hmem last (by simp))
        (Nat.le_of_lt (h.nonempty last (by simp)))
    · rw [List.mem_singleton.mp hmem]
      exact Nat.le_refl _

end InRow

theorem Span.Covers.exists_start (h : span.Covers l) :
    ∃ lexeme ∈ l, span.start = lexeme.span.start := by
  obtain ⟨first, last, hfirst, -, rfl⟩ := h
  exact ⟨first, List.mem_of_mem_head? hfirst, rfl⟩

theorem Span.Covers.exists_stop (h : span.Covers l) :
    ∃ lexeme ∈ l, span.stop = lexeme.span.stop := by
  obtain ⟨first, last, -, hlast, rfl⟩ := h
  exact ⟨last, List.mem_of_mem_getLast? hlast, rfl⟩

theorem Span.Covers.start_lt_stop (h : span.Covers l) (hrow : InRow l) :
    span.start < span.stop := by
  obtain ⟨lexeme, hmem, hstart⟩ := h.exists_start
  rw [hstart]
  exact Nat.lt_of_lt_of_le (hrow.nonempty lexeme hmem) (hrow.covers_mem h hmem).2

/-- A span over some of the tokens lies in the span over all of them. -/
theorem Span.Covers.within (h : span.Covers (before ++ (own ++ after)))
    (hrow : InRow (before ++ (own ++ after))) (hown : next.Covers own) :
    span.start ≤ next.start ∧ next.stop ≤ span.stop := by
  obtain ⟨first, hfirst, hstart⟩ := hown.exists_start
  obtain ⟨last, hlast, hstop⟩ := hown.exists_stop
  rw [hstart, hstop]
  exact ⟨(hrow.covers_mem h (by simp [hfirst])).1, (hrow.covers_mem h (by simp [hlast])).2⟩

/-- Trees that are derived in order stand beside each other. -/
theorem InOrder.pairwise (h : InOrder lexemes trees) (hrow : InRow lexemes) :
    trees.Pairwise fun tree next => tree.span.stop ≤ next.span.start := by
  induction h with
  | nil => exact .nil
  | skip _ ih => exact ih (hrow.right (l := [_]))
  | next h hrest ih =>
    refine .cons (fun next hnext => ?_) (ih hrow.right)
    obtain ⟨before, own, after, rfl, hown⟩ := hrest.exists_stretch hnext
    obtain ⟨last, hlast, hstop⟩ := h.covers.exists_stop
    obtain ⟨first, hfirst, hstart⟩ := hown.covers.exists_start
    rw [hstop, hstart]
    exact (List.pairwise_append.mp hrow.ordered).2.2 last hlast first (by simp [hfirst])

/-! ## Places of nodes -/

/-- Every node is derived from a stretch of the tokens. -/
theorem Tree.HasNode.exists_stretch (hnode : tree.HasNode node) (h : Derives 0 lexemes tree) :
    ∃ before own after, lexemes = before ++ (own ++ after) ∧ Stretch own node := by
  induction hnode with
  | root => exact ⟨[], lexemes, [], (List.append_nil lexemes).symm, h.laid.stretch h⟩
  | child _ hchild ih =>
    obtain ⟨before, own, after, rfl, hown⟩ := ih
    obtain ⟨front, part, behind, rfl, hpart⟩ := hown.derives.laid.inside.exists_stretch hchild
    exact ⟨before ++ front, part, behind ++ after, by simp, hpart⟩

/-- The span in a text that has a number of bytes less in front. -/
def Span.moveBack (distance : Nat) (span : Span) : Span :=
  ⟨span.start - distance, span.stop - distance⟩

theorem Span.moveBack_move (distance : Nat) (span : Span) :
    (span.move distance).moveBack distance = span := by
  simp [move, moveBack]

/-- Tokens that are moved have a moved tree. -/
theorem exists_derives_of_move {distance : Nat}
    (h : Derives 0 (lexemes.map (Lexeme.mapSpan (Span.move distance))) tree) :
    ∃ still, Derives 0 lexemes still ∧ still.mapSpans (Span.move distance) = tree := by
  -- moved back, the tree is one of the tokens; moved again, it is the one that was given
  have hback := h.mapSpans (f := Span.moveBack distance) fun _ _ => rfl
  have hsame : (Lexeme.mapSpan (Span.moveBack distance) ∘
      Lexeme.mapSpan (Span.move distance)) = id := by
    funext lexeme
    simp [Lexeme.mapSpan, Span.moveBack_move]
  rw [List.map_map, hsame, List.map_id] at hback
  exact ⟨_, hback, (hback.mapSpans (Span.move_to distance)).unique h⟩

/-- What is said of the place of a node in a source. -/
structure Tree.Placed (source : String) (node : Tree) : Prop where
  /-- It is derived from tokens of the source in a row, from the start of the first to the end of
  the last of them. -/
  derived : ∃ before own after, (lex source).tokens = before ++ (own ++ after) ∧
    Derives 0 own node ∧ node.span.Covers own
  nonempty : node.span.start < node.span.stop
  /-- What is inside lies in it. -/
  contains : ∀ child ∈ node.children,
    node.span.start ≤ child.span.start ∧ child.span.stop ≤ node.span.stop
  /-- What is inside lies beside each other, from left to right. -/
  beside : node.children.Pairwise fun child next => child.span.stop ≤ next.span.start
  /-- Its text is a source without errors that has it as the tree, but for its place. -/
  alone : ∃ text own, node.span.slice? source.toList = some text ∧
    (parse (String.ofList text)).lexErrors = [] ∧ (parse (String.ofList text)).result = .ok own ∧
      own.mapSpans (Span.move node.span.start) = node

/-- Spans are compositional: every node of a parsed source stands where its tokens stand, around
those inside it, and its text alone is parsed as the node. -/
theorem spans_compositional {source : String} (herrors : (parse source).lexErrors = [])
    (htree : (parse source).result = .ok tree) (hnode : tree.HasNode node) :
    node.Placed source := by
  have hderives : Derives 0 (lex source).tokens tree := parseTokens_eq_ok_iff.mp htree
  obtain ⟨before, own, after, htokens, hown⟩ := hnode.exists_stretch hderives
  have hrow : InRow own := (htokens ▸ inRow_lex source).right.left
  have hinside := hown.derives.laid.inside
  refine ⟨⟨before, own, after, htokens, hown.derives, hown.covers⟩, hown.covers.start_lt_stop hrow,
    fun child hchild => ?_, hinside.pairwise hrow, ?_⟩
  · obtain ⟨front, part, behind, rfl, hpart⟩ := hinside.exists_stretch hchild
    exact hown.covers.within hrow hpart.covers
  · obtain ⟨first, last, hfirst, hlast, hspan⟩ := hown.covers
    -- the text has the tokens of the node, but for their place, and so has its tree
    obtain ⟨text, hslice, hnone, hmoved⟩ := lex_slice herrors htokens hfirst hlast
    have hderived := hown.derives
    rw [← hmoved] at hderived
    obtain ⟨still, hstill, hmove⟩ := exists_derives_of_move hderived
    refine ⟨text, still, hspan ▸ hslice, hnone, parseTokens_eq_ok_iff.mpr hstill, ?_⟩
    rw [hspan]
    exact hmove

/-- The argument of a call behind an operator. -/
theorem placed_argument :
    let argument := Tree.unary ⟨8, 10⟩ .neg (.ident ⟨9, 10⟩ "c")
    let tree := Tree.binary ⟨0, 11⟩ (.math .add) (.ident ⟨0, 1⟩ "a")
      (.call ⟨4, 11⟩ (.ident ⟨4, 5⟩ "b") ⟨"f", ⟨6, 7⟩⟩ [argument])
    (parse "a + b.f(-c)").lexErrors = [] ∧ (parse "a + b.f(-c)").result = .ok tree ∧
      tree.HasNode argument ∧ argument.Placed "a + b.f(-c)" := by
  intro argument tree
  have herrors : (parse "a + b.f(-c)").lexErrors = [] := by decide +kernel
  have htokens : (lex "a + b.f(-c)").tokens =
      [⟨.name "a", ⟨0, 1⟩⟩, ⟨.mark .plus, ⟨2, 3⟩⟩, ⟨.name "b", ⟨4, 5⟩⟩, ⟨.mark .dot, ⟨5, 6⟩⟩,
        ⟨.name "f", ⟨6, 7⟩⟩, ⟨.mark .openParen, ⟨7, 8⟩⟩, ⟨.mark .minus, ⟨8, 9⟩⟩,
        ⟨.name "c", ⟨9, 10⟩⟩, ⟨.mark .closeParen, ⟨10, 11⟩⟩] := by decide +kernel
  have htree : (parse "a + b.f(-c)").result = .ok tree := by
    rw [parse, htokens]
    rfl
  have hnode : tree.HasNode argument :=
    .child (.child .root (.tail _ (.head _))) (.tail _ (.tail _ (.head _)))
  exact ⟨herrors, htree, hnode, spans_compositional herrors htree hnode⟩

end BindingPlan
