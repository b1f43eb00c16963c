import BindingPlan.Proofs.Binding.History
import BindingPlan.Proofs.Key.Injective

/-!
# Shared nodes

Parts of all sources that are bound with one binder become nodes of one graph, and a node is shared
by all parts with its key. So two parts over variables share a node if and only if hoisting makes
their expressions equal. Expressions that hoisting leaves alone share a node only if they are equal;
others may be mistaken for one another, as `(-a).b` and `-a.b` are.

Names in a source are names of the lexer, whatever names the variables of the binder have.

Main results:

* `LoweredIn.find?`: the node of a part is found by the key of its expression at the end of a
  history.
* `sharing_iff`: when two parts share a node.
* `sharing_unsound_negatedAccess`: two parts that share a node and differ.
-/

namespace BindingPlan

variable {classes : ClassRegistry}

/-! ## Parts -/

namespace BinderM

open Operation

/-- Lowering the first tree in the first binder comes to lowering the second one in the second
binder: the parts of a tree are lowered from left to right, unless the whole is a class. -/
inductive Visits (classes : ClassRegistry) : Binder → Tree → Binder → Tree → Prop where
  | self (binder : Binder) (tree : Tree) : Visits classes binder tree binder tree
  | part {binder asked reached last : Binder} {tree part inner : Tree} {before after : List Tree}
      {ids : List Nat} (whole : (wholeClass? classes tree).run.run binder = (.ok none, asked))
      (parts : tree.parts = before ++ part :: after)
      (lowered : (lowerAll classes before).run.run asked = (.ok ids, reached))
      (visits : Visits classes reached part last inner) : Visits classes binder tree last inner

variable {binder reached next last : Binder} {tree part inner : Tree} {before after : List Tree}
  {ids : List Nat}

theorem Visits.keeps (h : Visits classes binder tree last inner) : binder.Keeps last := by
  induction h with
  | self => exact .refl _
  | part whole parts lowered _ ih =>
    have hasked := (keeps_wholeClass? _).of_run whole
    have hreached := (keeps_lowerAll _).of_run lowered
    exact (hasked.trans hreached).trans ih

theorem Visits.mem_names {name : String} (h : Visits classes binder tree last inner)
    (hname : name ∈ inner.names) : name ∈ tree.names := by
  induction h with
  | self => exact hname
  | part whole parts lowered _ ih =>
    refine Tree.mem_names_of_mem_parts ?_ (ih hname)
    rw [parts]
    exact List.mem_append_right _ List.mem_cons_self

/-- What is found when a part was lowered is found when the whole was. -/
theorem Visits.keeps_lower (h : Visits classes binder tree last inner) :
    ((lower classes inner).run.run last).2.Keeps ((lower classes tree).run.run binder).2 := by
  induction h with
  | self => exact .refl _
  | @part binder asked reached last tree part inner before after ids whole parts lowered _ ih =>
    refine ih.trans ?_
    rw [lower_eq tree, run_bind_of_run whole]
    refine .trans ?_ (keeps_rest (keeps_assemble tree) _ asked)
    rw [parts, lowerAll_append, run_bind_of_run lowered]
    refine .trans ?_ (keeps_rest (fun _ => keeps_pure _) _ reached)
    exact keeps_rest (fun _ => keeps_bind (keeps_lowerAll after) fun _ => keeps_pure _) _ reached

end BinderM

theorem Binder.after_append (before after : List Call) :
    Binder.after classes (before ++ after) =
      after.foldl (Call.run classes) (Binder.after classes before) :=
  List.foldl_append

/-! ## Nodes of parts -/

/-- While one of the calls binds a source, the part of it is lowered to the node; all names in the
part that are no members are variables. -/
inductive LoweredIn (classes : ClassRegistry) (calls : List Call) (part : Tree) (id : Nat) : Prop
  | intro {before after : List Call} {source : String} {tree : Tree} {current next : Binder}
      (calls_eq : calls = before ++ .parse source :: after)
      (lexed : (parse source).lexErrors = [])
      (parsed : (parse source).result = .ok tree)
      (visits : BinderM.Visits classes (Binder.after classes before) tree current part)
      (declared : (Binder.after classes before).Declares part.idents)
      (lowered : (BinderM.lower classes part).run.run current = (.ok id, next))

namespace LoweredIn

variable {calls : List Call} {part inner : Tree} {id : Nat}

theorem isName (h : LoweredIn classes calls part id) :
    ∀ name ∈ part.expression.names, IsName name.toList := by
  obtain ⟨-, -, parsed, visits, -, -⟩ := h
  intro name hname
  exact isName_of_parse parsed name (visits.mem_names (Tree.mem_names_of_expression part hname))

/-- The node of a part is found by the key of its expression from then on. -/
theorem find? (h : LoweredIn classes calls part id) :
    (Binder.after classes calls).graph.find? part.expression.key = some id := by
  obtain @⟨before, after, source, tree, current, next, rfl, lexed, parsed, visits, declared,
    lowered⟩ := h
  have hkeeps := visits.keeps
  have hvariables := (Binder.findsVariables_after before).mono hkeeps
  have hfound := BinderM.finds_lower part hvariables (declared.mono hkeeps) id next lowered
  -- the node is kept by the rest of its source, by the end of the call, and by the later calls
  have hwhole := visits.keeps_lower
  rw [lowered] at hwhole
  have hbound : ((BinderM.lower classes tree).run.run (Binder.after classes before)).2.Keeps
      (Call.run classes (Binder.after classes before) (.parse source)) := by
    unfold Call.run BinderM.bindSource
    simp only [lexed, parsed]
    exact Operation.keeps_rest (BinderM.keeps_finish tree.span) _ _
  rw [Binder.after_append, List.foldl_cons]
  exact Binder.keeps_foldl after _ _ _ ((hwhole.trans hbound).graph _ _ hfound)

end LoweredIn

/-- The tree of a source, or any tree if it has none. -/
def Tree.ofSource (source : String) : Tree :=
  (parse source).result.toOption.getD default

theorem Tree.result_eq_ofSource {source : String} (h : (parse source).result.isOk = true) :
    (parse source).result = .ok (.ofSource source) := by
  unfold ofSource
  generalize (parse source).result = result at h ⊢
  cases result with
  | error => cases h
  | ok tree => rfl

/-- What a call answers for a source over variables is the node of the whole tree. -/
theorem loweredIn_of_bindSource (before after : List Call) {source : String} {id : Nat}
    (h : ((BinderM.bindSource classes source).run.run (Binder.after classes before)).1 = .ok id)
    (hdeclared : (Binder.after classes before).Declares (Tree.ofSource source).idents) :
    LoweredIn classes (before ++ .parse source :: after) (.ofSource source) id := by
  unfold Tree.ofSource at *
  unfold BinderM.bindSource at h
  dsimp only at h
  split at h
  · cases h
  · cases h
  · next tree lexed parsed =>
    rw [parsed] at hdeclared ⊢
    generalize hrun : (BinderM.bindTree classes tree).run.run _ = outcome at h
    obtain ⟨outcome, next⟩ := outcome
    cases h
    obtain ⟨root, reached, lowered, hrest⟩ := Operation.exists_of_run_bind hrun
    obtain ⟨_, _, -, hrest⟩ := Operation.exists_of_run_bind hrest
    obtain ⟨_, _, -, hrest⟩ := Operation.exists_of_run_bind hrest
    cases hrest
    exact .intro rfl lexed parsed (.self _ _) hdeclared lowered

/-- Two parts over variables share a node if and only if hoisting makes their expressions equal; and
plain parts share a node if and only if their expressions are equal. -/
theorem sharing_iff {calls : List Call} {p q : Tree} {i j : Nat} (hp : LoweredIn classes calls p i)
    (hq : LoweredIn classes calls q j) :
    (i = j ↔ p.expression.hoist = q.expression.hoist) ∧
      (p.expression.Plain → q.expression.Plain → (i = j ↔ p.expression = q.expression)) := by
  have hiff : i = j ↔ p.expression.hoist = q.expression.hoist := by
    rw [← Expression.key_eq_iff hp.isName hq.isName]
    constructor
    · rintro rfl
      exact (Graph.keyOf_of_find? hp.find?).symm.trans (Graph.keyOf_of_find? hq.find?)
    · intro hkey
      exact Option.some.inj (hp.find?.symm.trans (hkey ▸ hq.find?))
  refine ⟨hiff, fun hplain hplain' => ?_⟩
  rw [Expression.hoist_eq_self _ hplain, Expression.hoist_eq_self _ hplain'] at hiff
  exact hiff

/-- A default, and the choice that it stands for. -/
def defaultTwice : List Call :=
  [.addVariable "a" "java.lang.String", .addVariable "b" "java.lang.String", .parse "a ?? b",
    .parse "(a) == null ? b : a"]

theorem sharing_iff_defaultTwice :
    LoweredIn .builtin defaultTwice (.ofSource "a ?? b") 4 ∧
      LoweredIn .builtin defaultTwice (.ofSource "(a) == null ? b : a") 4 ∧
      (4 = 4 ↔ (Tree.ofSource "a ?? b").expression.hoist =
        (Tree.ofSource "(a) == null ? b : a").expression.hoist) ∧
      ((Tree.ofSource "a ?? b").expression.Plain →
        (Tree.ofSource "(a) == null ? b : a").expression.Plain →
        (4 = 4 ↔ (Tree.ofSource "a ?? b").expression =
          (Tree.ofSource "(a) == null ? b : a").expression)) := by
  have hdefault : LoweredIn .builtin defaultTwice (.ofSource "a ?? b") 4 :=
    loweredIn_of_bindSource (defaultTwice.take 2) _ (by decide +kernel) (by decide +kernel)
  have hchoice : LoweredIn .builtin defaultTwice (.ofSource "(a) == null ? b : a") 4 :=
    loweredIn_of_bindSource (defaultTwice.take 3) _ (by decide +kernel) (by decide +kernel)
  exact ⟨hdefault, hchoice, sharing_iff hdefault hchoice⟩

/-- The built-in types and a class `C` with the field `b`. -/
def ClassRegistry.oneField : ClassRegistry :=
  (builtin.extend [{ ClassDef.bare "C" with fields := [⟨"b", "int", false, false, false⟩] }]).1

/-- The field of a negated variable, and the negated field of a variable. -/
def negatedAccess : List Call :=
  [.addVariable "a" "C", .parse "(-a).b", .parse "-a.b"]

/-- Parts share a node although their expressions differ. -/
theorem sharing_unsound_negatedAccess :
    LoweredIn .oneField negatedAccess (.ofSource "(-a).b") 2 ∧
      LoweredIn .oneField negatedAccess (.ofSource "-a.b") 2 ∧
      (Tree.ofSource "(-a).b").expression ≠ (Tree.ofSource "-a.b").expression := by
  refine ⟨?_, ?_, fun h => ?_⟩
  · exact loweredIn_of_bindSource (negatedAccess.take 1) _ (by decide +kernel) (by decide +kernel)
  · exact loweredIn_of_bindSource (negatedAccess.take 2) _ (by decide +kernel) (by decide +kernel)
  · have hunary : (Tree.ofSource "(-a).b").expression.isUnary ≠
        (Tree.ofSource "-a.b").expression.isUnary := by
      decide +kernel
    exact hunary (congrArg Expression.isUnary h)

end BindingPlan
