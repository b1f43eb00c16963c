import BindingPlan.Proofs.Text.Boundary
import BindingPlan.Proofs.Tree.Parts

/-!
# Spans of a source

The pieces of a source lie one behind the other, each between two boundaries. The span of a
construct goes from the start of its first token to the end of its last one; so it lies in the
source as well, since what was read last ends behind the start of everything that is open.

Main results:

* `lexemesIn_lex`: the tokens of a source lie in it, one behind the other.
* `ParseState.ReadBy.step?`: what a state has read lies in the source, up to the end of the last
  token.
* `spans_of_parse`: all spans of a parsed tree lie in the source.
-/

namespace BindingPlan

variable {text source : List Char} {position stop e : Nat} {piece : Piece}

/-! ## Pieces -/

theorem le_start_of_mem_pieces (h : piece ∈ pieces position text) :
    position ≤ piece.span.start := by
  fun_induction pieces position text with
  | case1 => cases h
  | case2 position c rest hblank ih => exact Nat.le_trans (Nat.le_add_right _ _) (ih h)
  | case3 position c rest hblank length content hfirst text stop ih =>
    rcases List.mem_cons.mp h with rfl | h
    · exact Nat.le_refl _
    · exact Nat.le_trans (Nat.le_add_right _ _) (ih h)

/-- A piece of the rest of a source lies in the source. -/
theorem within_of_mem_pieces (h : piece ∈ pieces position text) :
    ∀ before, source = before ++ text → byteLength before = position →
      piece.span.Within source := by
  fun_induction pieces position text with
  | case1 => cases h
  | case2 position c rest hblank ih =>
    intro before hsource hbefore
    refine ih h (before ++ [c]) ?_ ?_
    · rw [hsource, List.append_assoc, List.singleton_append]
    · rw [byteLength_append, hbefore, byteLength_cons, byteLength_nil, Nat.add_zero]
  | case3 position c rest hblank length content hfirst text stop ih =>
    intro before hsource hbefore
    have hsource' : source = (before ++ text) ++ rest.drop (length - 1) := by
      rw [hsource, List.append_assoc, List.cons_append, List.take_append_drop]
    have hstop : byteLength (before ++ text) = stop := by
      rw [byteLength_append, hbefore]
    rcases List.mem_cons.mp h with rfl | h
    · exact ⟨⟨before, _, hsource, hbefore⟩, ⟨_, _, hsource', hstop⟩, Nat.le_add_right _ _⟩
    · exact ih h _ hsource' hstop

theorem pairwise_pieces (position : Nat) (text : List Char) :
    (pieces position text).Pairwise fun piece next => piece.span.stop ≤ next.span.start := by
  fun_induction pieces position text with
  | case1 => exact .nil
  | case2 position c rest hblank ih => exact ih
  | case3 position c rest hblank length content hfirst text stop ih =>
    exact .cons (fun piece hpiece => le_start_of_mem_pieces hpiece) ih

theorem Piece.span_of_lexeme? {lexeme : Lexeme} (h : piece.lexeme? = some lexeme) :
    lexeme.span = piece.span := by
  unfold lexeme? at h
  split at h
  · cases h
    rfl
  · cases h

theorem Piece.span_of_error? {error : LexError} (h : piece.error? = some error) :
    error.span = piece.span := by
  unfold error? at h
  split at h
  · cases h
  · cases h
    rfl

/-- The tokens lie in the source, each one behind those in front of it. -/
structure LexemesIn (text : List Char) (lexemes : List Lexeme) : Prop where
  within : ∀ lexeme ∈ lexemes, lexeme.span.Within text
  ordered : lexemes.Pairwise fun lexeme next => lexeme.span.stop ≤ next.span.start

theorem lexemesIn_lex (source : String) : LexemesIn source.toList (lex source).tokens where
  within := by
    intro lexeme hlexeme
    obtain ⟨piece, hpiece, hsome⟩ := List.mem_filterMap.mp hlexeme
    rw [Piece.span_of_lexeme? hsome]
    exact within_of_mem_pieces hpiece [] rfl rfl
  ordered := by
    refine (pairwise_pieces 0 source.toList).filterMap _ fun piece next hle l hl m hm => ?_
    rw [Piece.span_of_lexeme? hl, Piece.span_of_lexeme? hm]
    exact hle

theorem within_of_mem_lexErrors {source : String} {error : LexError}
    (h : error ∈ (parse source).lexErrors) : error.span.Within source.toList := by
  obtain ⟨piece, hpiece, hsome⟩ := List.mem_filterMap.mp h
  rw [Piece.span_of_error? hsome]
  exact within_of_mem_pieces hpiece [] rfl rfl

/-! ## States -/

/-- The span lies in the text and starts up to the position. -/
structure Span.StartsBy (text : List Char) (position : Nat) (span : Span) : Prop where
  within : span.Within text
  start_le : span.start ≤ position

theorem Span.StartsBy.mono {span : Span} (h : span.StartsBy text position) (hle : position ≤ e) :
    span.StartsBy text e :=
  ⟨h.within, Nat.le_trans h.start_le hle⟩

/-- To the end of what was read last. -/
theorem Span.StartsBy.to {first last : Span} (hfirst : first.StartsBy text e)
    (hlast : last.StartsBy text e) (hstop : last.stop = e) : (first.to last).StartsBy text e :=
  ⟨hfirst.within.to hlast.within (hstop ▸ hfirst.start_le), hfirst.start_le⟩

/-- The spans of a tree that was read up to the position. -/
abbrev Tree.ReadBy (text : List Char) (position : Nat) (tree : Tree) : Prop :=
  tree.Spans (·.StartsBy text position)

def Frame.ReadBy (text : List Char) (position : Nat) : Frame → Prop
  | .unary _ start | .group start => start.StartsBy text position
  | .operator _ lhs => lhs.ReadBy text position
  | .ifTrue predicate => predicate.ReadBy text position
  | .ifFalse predicate value => predicate.ReadBy text position ∧ value.ReadBy text position
  | .arguments target _ done =>
    target.ReadBy text position ∧ ∀ arg ∈ done, arg.ReadBy text position

/-- What was read when the last token ended at the position. -/
def ParseState.ReadBy (text : List Char) (position : Nat) : ParseState → Prop
  | .operand stack => ∀ frame ∈ stack, frame.ReadBy text position
  | .firstArgument target _ stack | .member target stack =>
    target.ReadBy text position ∧ ∀ frame ∈ stack, frame.ReadBy text position
  | .named receiver name stack =>
    receiver.ReadBy text position ∧ (name.span.StartsBy text position ∧ name.span.stop = position) ∧
      ∀ frame ∈ stack, frame.ReadBy text position
  | .complete last stack =>
    last.ReadBy text position ∧ last.span.stop = position ∧
      ∀ frame ∈ stack, frame.ReadBy text position

theorem Tree.ReadBy.mono {tree : Tree} (h : tree.ReadBy text position) (hle : position ≤ e) :
    tree.ReadBy text e :=
  Spans.mono (fun _ hspan => hspan.mono hle) h

theorem Frame.ReadBy.mono {frame : Frame} (h : frame.ReadBy text position) (hle : position ≤ e) :
    frame.ReadBy text e := by
  cases frame with
  | unary | group => exact Span.StartsBy.mono h hle
  | operator | ifTrue => exact Tree.ReadBy.mono h hle
  | ifFalse => exact ⟨h.1.mono hle, h.2.mono hle⟩
  | arguments => exact ⟨h.1.mono hle, fun arg harg => (h.2 arg harg).mono hle⟩

theorem ParseState.readBy_operand {frame : Frame} {stack : List Frame}
    (hframe : frame.ReadBy text position) (hstack : ∀ frame ∈ stack, frame.ReadBy text position) :
    (ParseState.operand (frame :: stack)).ReadBy text position :=
  List.forall_mem_cons.mpr ⟨hframe, hstack⟩

/-! ## Closing constructs -/

theorem Tree.readBy_join (op : InfixOp) {lhs rhs : Tree} (hlhs : lhs.ReadBy text e)
    (hrhs : rhs.ReadBy text e) (hstop : rhs.span.stop = e) :
    (op.join lhs rhs).ReadBy text e ∧ (op.join lhs rhs).span.stop = e := by
  have hparts : ∀ part ∈ [lhs, rhs], part.ReadBy text e := by
    simp only [List.forall_mem_cons]
    exact ⟨hlhs, hrhs, List.forall_mem_nil _⟩
  have hspan := hlhs.span.to hrhs.span hstop
  cases op with
  | coalesce => exact ⟨.intro hspan hparts, hstop⟩
  | binary op => exact ⟨.intro hspan hparts, hstop⟩

theorem Tree.readBy_unary (op : UnaryOp) {start : Span} {operand : Tree}
    (hstart : start.StartsBy text e) (hoperand : operand.ReadBy text e)
    (hstop : operand.span.stop = e) :
    (Tree.unary (start.to operand.span) op operand).ReadBy text e :=
  .intro (hstart.to hoperand.span hstop) fun _ hpart => List.mem_singleton.mp hpart ▸ hoperand

theorem readBy_reduceTo (level : Nat) {stack : List Frame} {operand : Tree}
    (hoperand : operand.ReadBy text e) (hstop : operand.span.stop = e)
    (hstack : ∀ frame ∈ stack, frame.ReadBy text e) :
    (reduceTo level stack operand).1.ReadBy text e ∧
      ∀ frame ∈ (reduceTo level stack operand).2, frame.ReadBy text e := by
  fun_induction reduceTo level stack operand with
  | case1 op start stack operand ih =>
    obtain ⟨hstart, hstack⟩ := List.forall_mem_cons.mp hstack
    exact ih (Tree.readBy_unary op hstart hoperand hstop) hstop hstack
  | case2 op lhs stack operand _ ih =>
    obtain ⟨hlhs, hstack⟩ := List.forall_mem_cons.mp hstack
    obtain ⟨hjoin, hstop⟩ := Tree.readBy_join op hlhs hoperand hstop
    exact ih hjoin hstop hstack
  | case3 => exact ⟨hoperand, hstack⟩
  | case4 => exact ⟨hoperand, hstack⟩

theorem readBy_reduceAll {stack : List Frame} {operand : Tree}
    (hoperand : operand.ReadBy text e) (hstop : operand.span.stop = e)
    (hstack : ∀ frame ∈ stack, frame.ReadBy text e) :
    (reduceAll stack operand).1.ReadBy text e ∧
      ∀ frame ∈ (reduceAll stack operand).2, frame.ReadBy text e := by
  fun_induction reduceAll stack operand with
  | case1 op start stack operand ih =>
    obtain ⟨hstart, hstack⟩ := List.forall_mem_cons.mp hstack
    exact ih (Tree.readBy_unary op hstart hoperand hstop) hstop hstack
  | case2 op lhs stack operand ih =>
    obtain ⟨hlhs, hstack⟩ := List.forall_mem_cons.mp hstack
    obtain ⟨hjoin, hstop⟩ := Tree.readBy_join op hlhs hoperand hstop
    exact ih hjoin hstop hstack
  | case3 predicate ifTrue stack operand ih =>
    obtain ⟨⟨hpredicate, htrue⟩, hstack⟩ := List.forall_mem_cons.mp hstack
    refine ih (.intro (hpredicate.span.to hoperand.span hstop) ?_) hstop hstack
    simp only [Tree.parts, List.forall_mem_cons]
    exact ⟨hpredicate, htrue, hoperand, List.forall_mem_nil _⟩
  | case4 => exact ⟨hoperand, hstack⟩

theorem readBy_fieldOf {receiver : Tree} {name : Name} (hreceiver : receiver.ReadBy text e)
    (hname : name.span.StartsBy text e) (hstop : name.span.stop = e) :
    (fieldOf receiver name).ReadBy text e :=
  .intro (hreceiver.span.to hname hstop) fun _ hpart => List.mem_singleton.mp hpart ▸ hreceiver

/-! ## Steps -/

section

variable {lexeme : Lexeme} {stack : List Frame} {operand : Tree} {state next : ParseState}
  (hlexeme : lexeme.span.Within text)

include hlexeme

theorem startsBy_lexeme : lexeme.span.StartsBy text lexeme.span.stop :=
  ⟨hlexeme, hlexeme.le⟩

theorem ParseState.readBy_startOperand? (h : startOperand? lexeme stack = some next)
    (hstack : ∀ frame ∈ stack, frame.ReadBy text lexeme.span.stop) :
    next.ReadBy text lexeme.span.stop := by
  have hspan := startsBy_lexeme hlexeme
  unfold startOperand? at h
  split at h
  · cases h
    exact ⟨.intro hspan nofun, rfl, hstack⟩
  · split at h
    · cases h
      exact ⟨.intro hspan nofun, rfl, hstack⟩
    · cases h
      exact readBy_operand hspan hstack
    · obtain ⟨op, -, rfl⟩ := Option.map_eq_some_iff.mp h
      exact readBy_operand hspan hstack
    · cases h

/-- A token behind an operand: what was open before it still is, or ends with the operand or with
the token. -/
theorem ParseState.readBy_continue? (h : continue? lexeme operand stack = some next)
    (hle : e ≤ lexeme.span.start) (hoperand : operand.ReadBy text e) (hstop : operand.span.stop = e)
    (hstack : ∀ frame ∈ stack, frame.ReadBy text e) : next.ReadBy text lexeme.span.stop := by
  have hle : e ≤ lexeme.span.stop := Nat.le_trans hle hlexeme.le
  have hlater {frames : List Frame} (hframes : ∀ frame ∈ frames, frame.ReadBy text e) :
      ∀ frame ∈ frames, frame.ReadBy text lexeme.span.stop :=
    fun frame hframe => (hframes frame hframe).mono hle
  obtain ⟨hclosed, hrest⟩ := readBy_reduceAll hoperand hstop hstack
  have hclosed := hclosed.mono hle
  have hspan := startsBy_lexeme hlexeme
  unfold continue? at h
  split at h
  · cases h
    exact ⟨hoperand.mono hle, hlater hstack⟩
  · cases h
    obtain ⟨hclosed, hrest⟩ := readBy_reduceTo 0 hoperand hstop hstack
    exact readBy_operand (hclosed.mono hle) (hlater hrest)
  · -- the value of a choice if its predicate holds
    split at h
    · next heq =>
      cases h
      rw [heq] at hclosed hrest
      obtain ⟨hpredicate, hrest⟩ := List.forall_mem_cons.mp (hlater hrest)
      exact readBy_operand ⟨hpredicate, hclosed⟩ hrest
    · cases h
  · -- an argument that is not the last one
    split at h
    · next heq =>
      cases h
      rw [heq] at hclosed hrest
      obtain ⟨⟨htarget, hdone⟩, hrest⟩ := List.forall_mem_cons.mp (hlater hrest)
      refine readBy_operand ⟨htarget, fun arg harg => ?_⟩ hrest
      rcases List.mem_append.mp harg with harg | harg
      · exact hdone arg harg
      · exact List.mem_singleton.mp harg ▸ hclosed
    · cases h
  · split at h
    · next heq =>
      cases h
      rw [heq] at hclosed hrest
      obtain ⟨hstart, hrest⟩ := List.forall_mem_cons.mp (hlater hrest)
      refine ⟨.intro (hstart.to hspan rfl) fun part hpart => ?_, rfl, hrest⟩
      exact List.mem_singleton.mp hpart ▸ hclosed
    · next heq =>
      cases h
      rw [heq] at hclosed hrest
      obtain ⟨⟨htarget, hdone⟩, hrest⟩ := List.forall_mem_cons.mp (hlater hrest)
      refine ⟨.intro (htarget.span.to hspan rfl) fun part hpart => ?_, rfl, hrest⟩
      rcases List.mem_cons.mp hpart with rfl | hpart
      · exact htarget
      rcases List.mem_append.mp hpart with hpart | hpart
      · exact hdone part hpart
      · exact List.mem_singleton.mp hpart ▸ hclosed
    · cases h
  · obtain ⟨op, -, rfl⟩ := Option.map_eq_some_iff.mp h
    obtain ⟨hclosed, hrest⟩ := readBy_reduceTo op.level hoperand hstop hstack
    exact readBy_operand (hclosed.mono hle) (hlater hrest)
  · cases h

/-- One more token behind what was read. -/
theorem ParseState.ReadBy.step? (hstate : state.ReadBy text e) (hle : e ≤ lexeme.span.start)
    (h : state.step? lexeme = some next) : next.ReadBy text lexeme.span.stop := by
  have hle' : e ≤ lexeme.span.stop := Nat.le_trans hle hlexeme.le
  have hspan := startsBy_lexeme hlexeme
  have hlater {frames : List Frame} (hframes : ∀ frame ∈ frames, frame.ReadBy text e) :
      ∀ frame ∈ frames, frame.ReadBy text lexeme.span.stop :=
    fun frame hframe => (hframes frame hframe).mono hle'
  unfold ParseState.step? at h
  split at h
  · exact readBy_startOperand? hlexeme h (hlater hstate)
  · obtain ⟨htarget, hstack⟩ := hstate
    split at h
    · cases h
      have htarget := htarget.mono hle'
      refine ⟨.intro (htarget.span.to hspan rfl) fun part hpart => ?_, rfl, hlater hstack⟩
      exact List.mem_singleton.mp hpart ▸ htarget
    · refine readBy_startOperand? hlexeme h (List.forall_mem_cons.mpr ⟨?_, hlater hstack⟩)
      exact ⟨htarget.mono hle', nofun⟩
  · obtain ⟨hreceiver, hstack⟩ := hstate
    split at h
    · cases h
      exact ⟨hreceiver.mono hle', ⟨hspan, rfl⟩, hlater hstack⟩
    · cases h
  · obtain ⟨hreceiver, ⟨hname, hstop⟩, hstack⟩ := hstate
    split at h
    · cases h
      exact ⟨hreceiver.mono hle', hlater hstack⟩
    · exact readBy_continue? hlexeme h hle (readBy_fieldOf hreceiver hname hstop) hstop hstack
  · obtain ⟨hoperand, hstop, hstack⟩ := hstate
    exact readBy_continue? hlexeme h hle hoperand hstop hstack

end

theorem ParseState.ReadBy.finish? {state : ParseState} {tree : Tree} (hstate : state.ReadBy text e)
    (h : state.finish? = some tree) : tree.ReadBy text e := by
  unfold ParseState.finish? at h
  split at h
  · obtain ⟨hreceiver, ⟨hname, hstop⟩, hstack⟩ := hstate
    have hclosed := (readBy_reduceAll (readBy_fieldOf hreceiver hname hstop) hstop hstack).1
    split at h
    · next heq =>
      cases h
      rwa [heq] at hclosed
    · cases h
  · obtain ⟨hoperand, hstop, hstack⟩ := hstate
    have hclosed := (readBy_reduceAll hoperand hstop hstack).1
    split at h
    · next heq =>
      cases h
      rwa [heq] at hclosed
    · cases h
  · cases h

/-! ## Runs -/

/-- The tokens behind what was read give a tree of the source, or an error about a place in it. -/
theorem spans_parseFrom {state : ParseState} {lexemes : List Lexeme} (hstate : state.ReadBy text e)
    (hlexemes : LexemesIn text lexemes) (hle : ∀ lexeme ∈ lexemes, e ≤ lexeme.span.start) :
    (∀ tree, parseFrom (byteLength text) state lexemes = .ok tree →
      tree.Spans (Span.Within text)) ∧
    ∀ error, parseFrom (byteLength text) state lexemes = .error error →
      error.span.Within text := by
  induction lexemes generalizing state e with
  | nil =>
    unfold parseFrom
    split
    · next tree hfinish =>
      refine ⟨fun tree htree => ?_, fun error herror => (by cases herror)⟩
      cases htree
      exact Tree.Spans.mono (fun _ hspan => hspan.within) (hstate.finish? hfinish)
    · refine ⟨fun tree htree => (by cases htree), fun error herror => ?_⟩
      cases herror
      exact ⟨boundary_byteLength text, boundary_byteLength text, Nat.le_refl _⟩
  | cons lexeme lexemes ih =>
    obtain ⟨hwithin, hrest⟩ := List.forall_mem_cons.mp hlexemes.within
    obtain ⟨hnext, hordered⟩ := List.pairwise_cons.mp hlexemes.ordered
    unfold parseFrom
    split
    · next next hstep =>
      exact ih (hstate.step? hwithin (hle lexeme List.mem_cons_self) hstep) ⟨hrest, hordered⟩ hnext
    · refine ⟨fun tree htree => (by cases htree), fun error herror => ?_⟩
      cases herror
      exact hwithin

/-- All spans of a parsed tree lie in the source, and so does the place of a syntax error. -/
theorem spans_of_parse (source : String) :
    (∀ tree, (parse source).result = .ok tree → tree.Spans (Span.Within source.toList)) ∧
    ∀ error, (parse source).result = .error error → error.span.Within source.toList :=
  spans_parseFrom (e := 0) (show ∀ frame ∈ [], _ from nofun) (lexemesIn_lex source)
    fun _ _ => Nat.zero_le _

end BindingPlan
