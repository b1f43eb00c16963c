import Mathlib.Algebra.Ring.Parity
import BindingPlan.Proofs.Binding.History
import BindingPlan.Proofs.Decimal.Written
import BindingPlan.Proofs.Text.Lines
import BindingPlan.Report.Drawing

/-!
# Labels in drawings

A label may have several lines and any characters, but in a drawing it stands between quote marks on
the one line of its node. A quote mark ends the label unless it is escaped, that is, unless an odd
number of backslashes stands in front of it. Escaping is one replacement after another over the
whole text. As backslashes come first, this is the same as escaping each character by itself, and
what is written for a character can be read back in front of any text.

Main results:

* `Drawing.toList_escape`: the replacements escape each character by itself.
* `Drawing.shows_escape`: an escaped text is one line up to its closing mark, and reads back.
* `Graph.splitOn_drawing`: a drawing has the lines that it is written from, and no others.
* `label_survives_drawing`: what stands on the line of a node is its label.
-/

namespace BindingPlan
namespace Drawing

variable {c : Char} {before inner after text : List Char}

/-! ## Shown labels -/

/-- The text with its escapes undone from left to right; `none` if a backslash of it starts none. -/
def unescape? : List Char → Option (List Char)
  | '\\' :: '\\' :: text => (unescape? text).map ('\\' :: ·)
  | '\\' :: '"' :: text => (unescape? text).map ('"' :: ·)
  | '\\' :: 'n' :: text => (unescape? text).map ('\n' :: ·)
  | '\\' :: _ => none
  | c :: text => (unescape? text).map (c :: ·)
  | [] => some []

/-- Number of backslashes that a text ends with. -/
def backslashes (text : List Char) : Nat :=
  (text.reverse.takeWhile (· = '\\')).length

/-- The label is what the text between two quote marks of a line stands for. -/
structure Shows (shown label : List Char) : Prop where
  /-- No quote mark in the text ends it. -/
  escaped : ∀ before after, shown = before ++ '"' :: after → Odd (backslashes before)
  /-- A quote mark behind the text does. -/
  closed : Even (backslashes shown)
  oneLine : '\n' ∉ shown
  undone : unescape? shown = some label

/-! ## Escaping character by character -/

/-- A character as it is written between quote marks. -/
def escapedChar : Char → List Char
  | '\\' => ['\\', '\\']
  | '"' => ['\\', '"']
  | '\n' => ['\\', 'n']
  | c => [c]

theorem toList_escape (text : String) :
    (escape text).toList = text.toList.flatMap escapedChar := by
  unfold escape replaceChar
  dsimp only
  rw [String.toList_ofList, List.flatMap_assoc, List.flatMap_assoc]
  congr 1
  funext c
  -- what one replacement writes, the later ones leave as it is
  fun_cases escapedChar c with
  | case4 _ hbackslash hquote hend =>
    rw [if_neg hbackslash, List.flatMap_singleton, if_neg hquote, List.flatMap_singleton,
      if_neg hend]
  | _ => rfl

theorem unescape?_cons (hc : c ≠ '\\') :
    unescape? (c :: text) = (unescape? text).map (c :: ·) := by
  rw [unescape?.eq_def]
  split <;> simp_all

theorem unescape?_escapedChar_append (c : Char) (text : List Char) :
    unescape? (escapedChar c ++ text) = (unescape? text).map (c :: ·) := by
  fun_cases escapedChar c with
  | case4 _ hbackslash => exact unescape?_cons hbackslash
  | _ => rfl

theorem unescape?_flatMap_escapedChar (text : List Char) :
    unescape? (text.flatMap escapedChar) = some text := by
  induction text with
  | nil => rfl
  | cons c text ih =>
    rw [List.flatMap_cons, unescape?_escapedChar_append, ih, Option.map_some]

theorem lineEnd_notMem_escapedChar (c : Char) : '\n' ∉ escapedChar c := by
  fun_cases escapedChar c with
  | case4 _ _ _ hend => exact fun h => hend (List.mem_singleton.mp h).symm
  | _ => decide

/-! ## Backslashes in front of quote marks -/

theorem backslashes_concat (text : List Char) (c : Char) :
    backslashes (text ++ [c]) = if c = '\\' then backslashes text + 1 else 0 := by
  unfold backslashes
  rw [List.reverse_append, List.reverse_singleton, List.singleton_append, List.takeWhile_cons]
  split <;> simp_all

theorem even_backslashes_escapedChar (h : Even (backslashes before)) (c : Char) :
    Even (backslashes (before ++ escapedChar c)) := by
  have hmark {mark : Char} (hne : mark ≠ '\\') : Even (backslashes (before ++ ['\\', mark])) := by
    rw [List.append_cons, backslashes_concat, if_neg hne]
    exact Even.zero
  fun_cases escapedChar c with
  | case1 =>
    rw [List.append_cons, backslashes_concat, if_pos rfl, backslashes_concat, if_pos rfl]
    exact h.add_one.add_one
  | case2 => exact hmark (by decide)
  | case3 => exact hmark (by decide)
  | case4 _ hbackslash =>
    rw [backslashes_concat, if_neg hbackslash]
    exact Even.zero

theorem even_backslashes_flatMap (h : Even (backslashes before)) (text : List Char) :
    Even (backslashes (before ++ text.flatMap escapedChar)) := by
  induction text generalizing before with
  | nil => simpa using h
  | cons c text ih =>
    rw [List.flatMap_cons, ← List.append_assoc]
    exact ih (even_backslashes_escapedChar h c)

theorem quote_mem_escapedChar : '"' ∈ escapedChar c ↔ c = '"' := by
  fun_cases escapedChar c with
  | case4 => exact List.mem_singleton.trans eq_comm
  | _ => decide

/-- The one quote mark in a written character stands behind a backslash. -/
theorem eq_of_escapedChar_eq_append (h : escapedChar c = inner ++ '"' :: after) :
    inner = ['\\'] := by
  obtain rfl : c = '"' := quote_mem_escapedChar.mp (h ▸ List.mem_append_cons_self)
  cases inner with
  | nil => exact absurd (List.cons.inj h).1 (by decide)
  | cons first inner =>
    obtain ⟨hfirst, hrest⟩ := List.cons.inj h
    rcases List.singleton_eq_append_iff.mp hrest with ⟨rfl, -⟩ | ⟨-, hnil⟩
    · rw [← hfirst]
    · cases hnil

/-- Behind an even number of backslashes each quote mark of an escaped text is escaped. -/
theorem odd_backslashes_of_flatMap_eq (hbefore : Even (backslashes before))
    (h : text.flatMap escapedChar = inner ++ '"' :: after) :
    Odd (backslashes (before ++ inner)) := by
  induction text generalizing before inner with
  | nil => exact absurd h (by simp)
  | cons c text ih =>
    have hnext := even_backslashes_escapedChar hbefore c
    rw [List.flatMap_cons] at h
    rcases List.append_eq_append_iff.mp h with ⟨more, rfl, hmore⟩ | ⟨more, hc, hmore⟩
    · rw [← List.append_assoc]
      exact ih hnext hmore
    · cases more with
      | nil =>
        -- the mark is the first character behind this one
        rw [List.append_nil] at hc
        have hodd : Odd (backslashes (before ++ escapedChar c ++ [])) := ih hnext hmore.symm
        rwa [List.append_nil, hc] at hodd
      | cons mark more =>
        obtain ⟨rfl, -⟩ := List.cons.inj hmore
        rw [eq_of_escapedChar_eq_append hc, backslashes_concat, if_pos rfl]
        exact hbefore.add_one

/-- An escaped text is one line up to the mark behind it, and it reads back. -/
theorem shows_escape (text : String) : Shows (escape text).toList text.toList := by
  have heven : Even (backslashes []) := Even.zero
  rw [toList_escape]
  exact
    { escaped := fun before after h => odd_backslashes_of_flatMap_eq heven h
      closed := even_backslashes_flatMap heven text.toList
      oneLine := fun h => by
        obtain ⟨c, -, hc⟩ := List.mem_flatMap.mp h
        exact lineEnd_notMem_escapedChar c hc
      undone := unescape?_flatMap_escapedChar text.toList }

/-! ## Names of nodes -/

theorem toList_name (id : Nat) : (name id).toList = 'e' :: Nat.toDigits 10 id := by
  simp [name]

theorem notMem_name (hc : c.isDigit = false) (he : c ≠ 'e') (id : Nat) : c ∉ (name id).toList := by
  rw [toList_name, List.mem_cons, not_or]
  exact ⟨he, (allDigits_toDigits id).notMem hc⟩

theorem name_inj {id other : Nat} (h : (name id).toList = (name other).toList) : id = other := by
  rw [toList_name, toList_name] at h
  exact toDigits_ten_inj (List.cons.inj h).2

theorem oneLine_name (id : Nat) : OneLine (name id) :=
  notMem_name (by decide) (by decide) id

end Drawing

open Drawing

/-! ## What is written holds no line end -/

theorem Kind.oneLine_shape (kind : Kind) : OneLine kind.shape := by
  fun_cases Kind.shape kind <;> decide

theorem Node.oneLine_attributes (node : Node) : OneLine node.attributes := by
  have houtline : OneLine (if node.isBinding then ", peripheries=2" else "") := by
    split <;> decide
  have hcolour : OneLine (if node.isDynamic then "" else ", style=dashed, color=gray50") := by
    split <;> decide
  unfold Node.attributes
  dsimp only
  rw [oneLine_append, oneLine_append, oneLine_append]
  exact ⟨⟨⟨by decide, node.kind.oneLine_shape⟩, houtline⟩, hcolour⟩

theorem Guard.oneLine_label (guard : Guard) : OneLine guard.label := by
  have hletter : OneLine (letter guard.branch) := by cases guard.branch <;> decide
  unfold Guard.label
  rw [oneLine_append, oneLine_append]
  exact ⟨⟨oneLine_name _, by decide⟩, hletter⟩

theorem Dependency.oneLine_of_mem_attributes {dependency : Dependency} {part : String}
    (h : part ∈ dependency.attributes) : OneLine part := by
  have hweight : part ∈ (if dependency.mandatory then ["style=bold"] else []) → OneLine part := by
    split
    · intro hpart
      rw [List.mem_singleton.mp hpart]
      decide
    · exact fun hpart => absurd hpart List.not_mem_nil
  unfold Dependency.attributes at h
  dsimp only at h
  split at h
  · exact hweight h
  · next guard _ =>
    rcases List.mem_append.mp h with h | h
    · exact hweight h
    · rcases List.mem_pair.mp h with rfl | rfl
      · decide
      · rw [oneLine_append, oneLine_append]
        exact ⟨⟨by decide, guard.oneLine_label⟩, by decide⟩

namespace Graph

variable {id : Nat} {line : List Char}

theorem oneLine_nodeOpening (id : Nat) : OneLine (nodeOpening id) := by
  unfold nodeOpening
  rw [oneLine_append, oneLine_append]
  exact ⟨⟨by decide, oneLine_name id⟩, by decide⟩

theorem oneLine_nodeLine (graph : Graph) (id : Nat) : OneLine (graph.nodeLine id) := by
  unfold nodeLine
  rw [oneLine_append, oneLine_append, oneLine_append, oneLine_append]
  exact ⟨⟨⟨⟨oneLine_nodeOpening id, (shows_escape _).oneLine⟩, by decide⟩,
    (graph.node id).oneLine_attributes⟩, by decide⟩

theorem oneLine_edgeLine {start target : Nat} {attributes : List String}
    (h : ∀ part ∈ attributes, OneLine part) : OneLine (edgeLine start target attributes) := by
  have hproperties : OneLine
      (if attributes.isEmpty then "" else " [" ++ ", ".intercalate attributes ++ "]") := by
    split
    · decide
    · rw [oneLine_append, oneLine_append]
      exact ⟨⟨by decide, oneLine_intercalate (by decide) h⟩, by decide⟩
  unfold edgeLine
  dsimp only
  simp only [oneLine_append]
  exact ⟨⟨⟨⟨⟨by decide, oneLine_name start⟩, by decide⟩, oneLine_name target⟩, hproperties⟩,
    by decide⟩

/-- Each of these lines is that of one edge, with attributes that hold no line end. -/
theorem exists_of_mem_edgeLines {graph : Graph} {edge : String} (h : edge ∈ graph.edgeLines id) :
    ∃ target attributes, edge = edgeLine id target attributes ∧
      ∀ part ∈ attributes, OneLine part := by
  unfold edgeLines at h
  split at h
  · obtain ⟨child, -, rfl⟩ := List.mem_map.mp h
    refine ⟨child, _, rfl, fun part hpart => ?_⟩
    rw [List.mem_singleton.mp hpart]
    decide
  · obtain ⟨dependency, -, rfl⟩ := List.mem_map.mp h
    exact ⟨_, _, rfl, fun part hpart => Dependency.oneLine_of_mem_attributes hpart⟩

theorem oneLine_of_mem_drawingLines {graph : Graph} {drawn : String}
    (h : drawn ∈ graph.drawingLines) : OneLine drawn := by
  simp only [drawingLines, List.mem_append, List.mem_singleton, List.mem_map,
    List.mem_flatMap] at h
  rcases h with (((h | ⟨id, -, rfl⟩) | rfl) | ⟨id, -, h⟩) | rfl
  · exact (by decide : ∀ drawn ∈ drawingHead, OneLine drawn) drawn h
  · exact graph.oneLine_nodeLine id
  · decide
  · obtain ⟨target, attributes, rfl, hattributes⟩ := exists_of_mem_edgeLines h
    exact oneLine_edgeLine hattributes
  · decide

/-- A drawing has the lines that it is written from; behind the last one there is nothing. -/
theorem splitOn_drawing (graph : Graph) :
    graph.drawing.toList.splitOn '\n' = graph.drawingLines.map String.toList ++ [[]] :=
  splitOn_join fun _ => oneLine_of_mem_drawingLines

/-! ## The lines of nodes -/

/-- A line that starts as that of a node has the name of the node up to its second blank. -/
theorem name_eq_of_opening {word rest : List Char} (hword : ' ' ∉ word)
    (h : (nodeOpening id).toList <+: "    ".toList ++ (word ++ ' ' :: rest)) :
    (name id).toList = word ∧ "[label=\"".toList <+: rest := by
  obtain ⟨tail, htail⟩ := h
  unfold nodeOpening at htail
  rw [String.toList_append, String.toList_append, List.append_assoc, List.append_assoc] at htail
  obtain ⟨hname, hrest⟩ := append_cons_inj (notMem_name (by decide) (by decide) id) hword
    (List.append_cancel_left htail)
  exact ⟨hname, tail, hrest⟩

theorem not_opening_edgeLine {start target : Nat} {attributes : List String} :
    ¬ (nodeOpening id).toList <+: (edgeLine start target attributes).toList := by
  intro h
  unfold edgeLine at h
  dsimp only at h
  simp only [String.toList_append, List.append_assoc] at h
  obtain ⟨-, tail, htail⟩ :=
    name_eq_of_opening (notMem_name (by decide) (by decide) start) h
  exact absurd (List.cons.inj htail).1 (by decide)

theorem eq_of_opening_nodeLine {graph : Graph} {other : Nat}
    (h : (nodeOpening id).toList <+: (graph.nodeLine other).toList) : id = other := by
  unfold nodeLine at h
  rw [nodeOpening.eq_def other] at h
  simp only [String.toList_append, List.append_assoc] at h
  exact name_inj (name_eq_of_opening (notMem_name (by decide) (by decide) other) h).1

theorem indented_of_opening (h : (nodeOpening id).toList <+: line) :
    "    e".toList <+: line := by
  refine List.IsPrefix.trans ⟨Nat.toDigits 10 id ++ " [label=\"".toList, ?_⟩ h
  unfold nodeOpening
  rw [String.toList_append, String.toList_append, toList_name, List.append_assoc]
  rfl

theorem not_opening_of_mem_drawingHead {drawn : String} (hdrawn : drawn ∈ drawingHead) :
    ¬ (nodeOpening id).toList <+: drawn.toList := by
  intro h
  -- only one of these lines starts with the letter of a name
  obtain rfl : drawn = "    edge [fontname=\"Helvetica\", fontsize=9];" :=
    (by decide : ∀ drawn ∈ drawingHead, "    e".toList <+: drawn.toList →
      drawn = "    edge [fontname=\"Helvetica\", fontsize=9];") drawn hdrawn
      (indented_of_opening h)
  obtain ⟨-, hrest⟩ := @name_eq_of_opening id "edge".toList
    "[fontname=\"Helvetica\", fontsize=9];".toList (by decide) h
  exact absurd hrest (by decide)

theorem nodeLine_mem_splitOn_drawing {graph : Graph} (h : id < graph.size) :
    (graph.nodeLine id).toList ∈ graph.drawing.toList.splitOn '\n' := by
  have hids : id ∈ graph.ids := List.mem_range.mpr h
  rw [splitOn_drawing]
  refine List.mem_append_left _ (List.mem_map_of_mem ?_)
  simp only [drawingLines, List.mem_append]
  exact .inl (.inl (.inl (.inr (List.mem_map_of_mem hids))))

/-- A line that starts as that of a node is the line of this node. -/
theorem eq_nodeLine_of_opening {graph : Graph} (hline : line ∈ graph.drawing.toList.splitOn '\n')
    (h : (nodeOpening id).toList <+: line) :
    id < graph.size ∧ line = (graph.nodeLine id).toList := by
  have hindent := indented_of_opening h
  rw [splitOn_drawing] at hline
  rcases List.mem_append.mp hline with hline | hline
  · obtain ⟨drawn, hdrawn, rfl⟩ := List.mem_map.mp hline
    simp only [drawingLines, List.mem_append, List.mem_singleton, List.mem_map,
      List.mem_flatMap] at hdrawn
    rcases hdrawn with (((hdrawn | ⟨other, hother, rfl⟩) | rfl) | ⟨other, -, hdrawn⟩) | rfl
    · exact absurd h (not_opening_of_mem_drawingHead hdrawn)
    · obtain rfl := eq_of_opening_nodeLine h
      exact ⟨List.mem_range.mp hother, rfl⟩
    · exact absurd hindent (by decide)
    · obtain ⟨target, attributes, rfl, -⟩ := exists_of_mem_edgeLines hdrawn
      exact absurd h not_opening_edgeLine
    · exact absurd hindent (by decide)
  · obtain rfl := List.mem_singleton.mp hline
    exact absurd hindent (by decide)

theorem toList_nodeLine (graph : Graph) (id : Nat) :
    (graph.nodeLine id).toList = (nodeOpening id).toList ++ (escape (graph.label id)).toList ++
      '"' :: ((graph.node id).attributes ++ "];").toList := by
  unfold nodeLine
  simp only [String.toList_append, List.append_assoc]
  rfl

end Graph

open BindingPlan.Graph

/-- In the drawing of a graph, open or sealed, each node has a line, and a line that starts as that
of a node shows the label of this node between its quote marks, whatever the label holds. -/
theorem label_survives_drawing (graph : Graph) :
    (∀ id < graph.size, ∃ line ∈ graph.drawing.toList.splitOn '\n',
      (nodeOpening id).toList <+: line) ∧
    ∀ line ∈ graph.drawing.toList.splitOn '\n', ∀ id, (nodeOpening id).toList <+: line →
      id < graph.size ∧ ∃ shown, Shows shown (graph.label id).toList ∧
        line = (nodeOpening id).toList ++ shown ++
          '"' :: ((graph.node id).attributes ++ "];").toList := by
  refine ⟨fun id hid => ?_, fun line hline id h => ?_⟩
  · refine ⟨_, nodeLine_mem_splitOn_drawing hid, ?_⟩
    rw [toList_nodeLine, List.append_assoc]
    exact List.prefix_append _ _
  · obtain ⟨hid, rfl⟩ := eq_nodeLine_of_opening hline h
    exact ⟨hid, _, shows_escape _, graph.toList_nodeLine id⟩

/-- A text of a quote mark and a backslash, in front of a variable. -/
def quotedMarks : List Call :=
  [.addVariable "s" "java.lang.String", .parse "\"\\\"\\\\\" + s", .sealGraph]

theorem label_survives_drawing_quotedMarks :
    let graph := (Binder.after .builtin quotedMarks).graph
    let line := ("    e2 [label=\"(\\\"\\\\\\\"\\\\\\\\\\\" + s)\\ninvalid \x7b0, 1\x7d\", " ++
      "shape=ellipse, peripheries=2];").toList
    line ∈ graph.drawing.toList.splitOn '\n' ∧ (nodeOpening 2).toList <+: line ∧
      2 < graph.size ∧ ∃ shown,
        Shows shown "(\"\\\"\\\\\" + s)\ninvalid \x7b0, 1\x7d".toList ∧
        line = (nodeOpening 2).toList ++ shown ++
          '"' :: ((graph.node 2).attributes ++ "];").toList := by
  intro graph line
  have hsize : 2 < graph.size := by decide +kernel
  have hlabel : graph.label 2 = "(\"\\\"\\\\\" + s)\ninvalid \x7b0, 1\x7d" := by decide +kernel
  have hnode : (graph.nodeLine 2).toList = line := by decide +kernel
  have hprefix : (nodeOpening 2).toList <+: line := by decide +kernel
  have hline : line ∈ graph.drawing.toList.splitOn '\n' :=
    hnode ▸ nodeLine_mem_splitOn_drawing hsize
  rw [← hlabel]
  exact ⟨hline, hprefix, (label_survives_drawing graph).2 line hline 2 hprefix⟩

end BindingPlan
