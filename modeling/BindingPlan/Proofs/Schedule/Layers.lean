import Mathlib.Algebra.BigOperators.Group.List.Basic
import BindingPlan.Proofs.Schedule.Batch

/-!
# Layers of any list of nodes

A list of nodes need not be a batch: targets may be missing from it, nodes may stand in it twice,
and some may have nothing to read. Splitting it into layers peels off what can be read behind the
nodes chosen so far. More chosen nodes make more nodes readable, so the peeling takes every node as
early as possible, and what is left when it stops is the largest part of the list that holds itself
back.

Main results:

* `Progress.readNow_mono`: what can be read stays readable when more was read.
* `Progress.Peeled`: layers that hold the list and take every node as early as possible.
* `Progress.LargestStuck`: the largest part of a list that nothing outside of it makes readable.
* `Progress.layers_cases`: the answer to every list of nodes in every state.
* `Progress.exists_layers_batch`: a batch can be split into layers.
-/

namespace BindingPlan
namespace Progress

variable {net : Net} {progress : Progress} {chosen nodes remaining rest part : List Nat}
  {layers : List (List Nat)} {i : Nat}

/-- Reading more keeps what can be read. -/
theorem readNow_mono {more : List Nat} (hsub : ∀ j ∈ chosen, j ∈ more)
    (h : progress.readNow net chosen i = true) : progress.readNow net more i = true := by
  rw [readNow_eq_true] at h ⊢
  refine ⟨h.1, fun d hd => ?_⟩
  exact (h.2 d hd).imp_right (Or.imp_left (hsub _))

/-! ## Layers -/

/-- The nodes of every layer can be read when the nodes chosen before and those of the layers in
front were read, and the layers together hold the remaining nodes. -/
structure Layered (net : Net) (progress : Progress) (chosen remaining : List Nat)
    (layers : List (List Nat)) : Prop where
  perm : layers.flatten.Perm remaining
  readNow : ∀ k layer, layers[k]? = some layer → ∀ i ∈ layer,
    progress.readNow net (chosen ++ (layers.take k).flatten) i = true

theorem perm_readyNow_append :
    (progress.readyNow net chosen remaining ++ progress.notReadyNow net chosen remaining).Perm
      remaining :=
  List.filter_append_perm _ _

/-- Layers of a list, behind the nodes chosen before: no node of a layer behind the first one could
have been read a layer earlier. -/
structure Peeled (net : Net) (progress : Progress) (chosen remaining : List Nat)
    (layers : List (List Nat)) : Prop extends Layered net progress chosen remaining layers where
  ne_nil : ∀ layer ∈ layers, layer ≠ []
  late : ∀ k layer, layers[k + 1]? = some layer → ∀ i ∈ layer,
    progress.readNow net (chosen ++ (layers.take k).flatten) i = false

theorem Peeled.nil : Peeled net progress chosen [] [] where
  perm := .refl _
  readNow := by simp
  ne_nil := by simp
  late := by simp

/-- One sweep in front of the layers of what it leaves. -/
theorem Peeled.cons (hready : progress.readyNow net chosen remaining ≠ [])
    (h : Peeled net progress (chosen ++ progress.readyNow net chosen remaining)
      (progress.notReadyNow net chosen remaining) layers) :
    Peeled net progress chosen remaining (progress.readyNow net chosen remaining :: layers) where
  perm := (h.perm.append_left _).trans perm_readyNow_append
  readNow := by
    intro k layer hk i hi
    cases k with
    | zero =>
      obtain rfl := Option.some.inj hk
      simpa using (List.mem_filter.mp hi).2
    | succ k =>
      have := h.readNow k layer hk i hi
      rwa [List.append_assoc] at this
  ne_nil := by
    rintro layer (_ | ⟨_, hlayer⟩)
    · exact hready
    · exact h.ne_nil layer hlayer
  late := by
    intro k layer hk i hi
    cases k with
    | zero =>
      -- the second layer holds nodes that the first sweep left
      have hlayer : layer ∈ layers := List.mem_of_getElem? hk
      have hrest := h.perm.mem_iff.mp (List.mem_flatten_of_mem hlayer hi)
      simpa using (List.mem_filter.mp hrest).2
    | succ k =>
      have := h.late k layer hk i hi
      rwa [List.append_assoc] at this

/-- There is no layer more than there are nodes. -/
theorem Peeled.length_le (h : Peeled net progress chosen remaining layers) :
    layers.length ≤ remaining.length := by
  have hpos : ∀ n ∈ layers.map List.length, 1 ≤ n := by
    intro n hn
    obtain ⟨layer, hlayer, rfl⟩ := List.mem_map.mp hn
    exact List.length_pos_of_ne_nil (h.ne_nil layer hlayer)
  calc layers.length = (layers.map List.length).length := by rw [List.length_map]
    _ ≤ (layers.map List.length).sum := List.length_le_sum_of_one_le _ hpos
    _ = remaining.length := by rw [← List.length_flatten, h.perm.length_eq]

/-! ## What holds itself back -/

/-- No node of a part can be read when everything else in the list was read. -/
def Stuck (net : Net) (progress : Progress) (nodes part : List Nat) : Prop :=
  ∀ i ∈ part, progress.readNow net (nodes.filter (· ∉ part)) i = false

/-- The largest part of a list that holds itself back; it is not empty. -/
structure LargestStuck (net : Net) (progress : Progress) (nodes rest : List Nat) : Prop where
  ne_nil : rest ≠ []
  sublist : rest.Sublist nodes
  stuck : progress.Stuck net nodes rest
  largest : ∀ part : List Nat, part.Sublist nodes → progress.Stuck net nodes part →
    part.Sublist rest

/-- Only nodes outside of a part that holds itself back were chosen, so the next sweep chooses none
of its nodes. -/
theorem Stuck.not_mem_readyNow (h : progress.Stuck net nodes part)
    (hchosen : ∀ j ∈ chosen, j ∈ nodes ∧ j ∉ part)
    (hi : i ∈ progress.readyNow net chosen remaining) : i ∉ part := by
  intro hpart
  have hsub : ∀ j ∈ chosen, j ∈ nodes.filter (· ∉ part) := fun j hj => by
    simpa using hchosen j hj
  have := readNow_mono hsub (List.mem_filter.mp hi).2
  rw [h i hpart] at this
  exact Bool.false_ne_true this

/-- What a sweep that chooses nothing leaves is everything. -/
theorem notReadyNow_of_readyNow_eq_nil (h : progress.readyNow net chosen remaining = []) :
    progress.notReadyNow net chosen remaining = remaining := by
  unfold readyNow at h
  rw [List.filter_eq_nil_iff] at h
  exact List.filter_eq_self.mpr fun i hi => by simpa using h i hi

/-- A sweep leaves the nodes of the list that are still not chosen. -/
theorem notReadyNow_filter (nodes chosen : List Nat) :
    progress.notReadyNow net chosen (nodes.filter (· ∉ chosen)) =
      nodes.filter (· ∉ chosen ++ progress.readyNow net chosen (nodes.filter (· ∉ chosen))) := by
  unfold notReadyNow readyNow
  rw [List.filter_filter]
  refine List.filter_congr fun i hi => ?_
  by_cases hchosen : i ∈ chosen <;> simp [hchosen, hi]

/-- The nodes not chosen hold themselves back if the next sweep chooses none of them; and no part
that holds itself back goes beyond them, if none of its nodes was chosen. -/
theorem largestStuck_of_readyNow_eq_nil (hne : nodes.filter (· ∉ chosen) ≠ [])
    (hnone : progress.readyNow net chosen (nodes.filter (· ∉ chosen)) = [])
    (hfree : ∀ part : List Nat, part.Sublist nodes → progress.Stuck net nodes part →
      ∀ j ∈ chosen, j ∉ part) :
    LargestStuck net progress nodes (nodes.filter (· ∉ chosen)) where
  ne_nil := hne
  sublist := List.filter_sublist
  stuck := by
    intro i hi
    unfold readyNow at hnone
    have hnot : ¬ progress.readNow net chosen i = true := List.filter_eq_nil_iff.mp hnone i hi
    rw [← Bool.not_eq_true]
    refine fun h => hnot (readNow_mono (fun j hj => ?_) h)
    obtain ⟨hnodes, hout⟩ := List.mem_filter.mp hj
    by_contra hchosen
    simp [hnodes, hchosen] at hout
  largest := by
    intro part hpart hstuck
    -- no node of the part was chosen
    have heq : part.filter (· ∉ chosen) = part := by
      refine List.filter_eq_self.mpr fun j hj => ?_
      have : j ∉ chosen := fun hchosen => hfree part hpart hstuck j hchosen hj
      simpa using this
    exact heq ▸ hpart.filter _

/-! ## Peeling -/

/-- Behind chosen nodes of a list, no part of it that holds itself back among them, the peeling ends
in layers of the other nodes, or with the largest part that holds itself back. -/
theorem layersFrom_filter (net : Net) (progress : Progress) (nodes chosen : List Nat)
    (hnodes : ∀ j ∈ chosen, j ∈ nodes)
    (hfree : ∀ part : List Nat, part.Sublist nodes → progress.Stuck net nodes part →
      ∀ j ∈ chosen, j ∉ part) :
    (∃ layers, progress.layersFrom net chosen (nodes.filter (· ∉ chosen)) = .ok layers ∧
        Peeled net progress chosen (nodes.filter (· ∉ chosen)) layers ∧
        ∀ part : List Nat, part.Sublist nodes → progress.Stuck net nodes part → part = []) ∨
      ∃ rest, progress.layersFrom net chosen (nodes.filter (· ∉ chosen)) =
          .error (.noReadOrder rest) ∧ LargestStuck net progress nodes rest := by
  -- induction on the sweeps, over the nodes that are left
  generalize hremaining : nodes.filter (· ∉ chosen) = remaining
  induction chosen, remaining using layersFrom.induct net progress with
  | case1 chosen =>
    refine .inl ⟨[], by rw [layersFrom, if_pos rfl], .nil, fun part hpart hstuck => ?_⟩
    rw [List.eq_nil_iff_forall_not_mem]
    intro j hj
    have hchosen : j ∈ chosen := by
      simpa using List.filter_eq_nil_iff.mp hremaining j (hpart.subset hj)
    exact hfree part hpart hstuck j hchosen hj
  | case2 chosen remaining hne ready hstuck =>
    refine .inr ⟨remaining, ?_, ?_⟩
    · rw [layersFrom, if_neg hne]
      simp only [ready] at hstuck
      simp only [dif_pos hstuck, notReadyNow_of_readyNow_eq_nil hstuck]
    · subst hremaining
      exact largestStuck_of_readyNow_eq_nil hne hstuck hfree
  | case3 chosen remaining hne ready rest hready ih =>
    simp only [ready] at hready
    have hunfold : progress.layersFrom net chosen remaining =
        (progress.layersFrom net (chosen ++ ready) rest).map (ready :: ·) := by
      rw [layersFrom, if_neg hne]
      simp only [dif_neg hready]
      rfl
    subst hremaining
    have hready' : ∀ j ∈ ready, j ∈ nodes := fun j hj =>
      (List.mem_filter.mp (List.mem_filter.mp hj).1).1
    have hfree' : ∀ part : List Nat, part.Sublist nodes → progress.Stuck net nodes part →
        ∀ j ∈ chosen ++ ready, j ∉ part := by
      intro part hpart hstuck j hj
      rcases List.mem_append.mp hj with hj | hj
      · exact hfree part hpart hstuck j hj
      · exact hstuck.not_mem_readyNow
          (fun k hk => ⟨hnodes k hk, hfree part hpart hstuck k hk⟩) hj
    have hnodes' : ∀ j ∈ chosen ++ ready, j ∈ nodes := fun j hj =>
      (List.mem_append.mp hj).elim (hnodes j) (hready' j)
    rw [hunfold]
    rcases ih hnodes' hfree' (notReadyNow_filter nodes chosen).symm with
      ⟨layers, hlayers, hpeeled, hnone⟩ | ⟨left, hleft, hlargest⟩
    · exact .inl ⟨ready :: layers, by rw [hlayers]; rfl, hpeeled.cons hready, hnone⟩
    · exact .inr ⟨left, by rw [hleft]; rfl, hlargest⟩

theorem filter_not_mem_nil (nodes : List Nat) : nodes.filter (· ∉ ([] : List Nat)) = nodes := by
  simp

/-- Every list of nodes is answered in every state: with layers that together hold it, each node in
the first one in which it can be read; or with its largest part that nothing outside of it makes
readable. -/
theorem layers_cases (net : Net) (progress : Progress) (nodes : List Nat) :
    (∃ layers, progress.layers net nodes = .ok layers ∧ Peeled net progress [] nodes layers) ∨
      ∃ rest, progress.layers net nodes = .error (.noReadOrder rest) ∧
        LargestStuck net progress nodes rest := by
  have hcases := layersFrom_filter net progress nodes [] (by simp) (by simp)
  rw [filter_not_mem_nil] at hcases
  refine hcases.imp_left ?_
  rintro ⟨layers, hlayers, hpeeled, -⟩
  exact ⟨layers, hlayers, hpeeled⟩

/-- A list has layers exactly if no part of it holds itself back. -/
theorem exists_layers_iff : (∃ layers, progress.layers net nodes = .ok layers) ↔
    ∀ part : List Nat, part.Sublist nodes → progress.Stuck net nodes part → part = [] := by
  have hcases := layersFrom_filter net progress nodes [] (by simp) (by simp)
  rw [filter_not_mem_nil] at hcases
  unfold layers
  rcases hcases with ⟨layers, hlayers, -, hnone⟩ | ⟨rest, hrest, hlargest⟩
  · exact ⟨fun _ => hnone, fun _ => ⟨layers, hlayers⟩⟩
  · rw [hrest]
    constructor
    · rintro ⟨_, h⟩
      cases h
    · intro h
      exact absurd (h rest hlargest.sublist hlargest.stuck) hlargest.ne_nil

/-! ## Batches have layers -/

/-- Of the nodes of a batch, one that depends on none of a part can be read behind the others. -/
theorem exists_layers_batch (hw : net.WellFormed) (hu : progress.UpToDate net) :
    ∃ layers, progress.layers net (progress.batch net) = .ok layers ∧
      progress.Layered net [] (progress.batch net) layers := by
  obtain ⟨layers, hlayers⟩ : ∃ layers, progress.layers net (progress.batch net) = .ok layers := by
    rw [exists_layers_iff]
    intro part hpart hstuck
    by_contra hne
    obtain ⟨i, hi⟩ := List.exists_mem_of_ne_nil _ hne
    obtain ⟨m, hm, hlow⟩ := hw.exists_lowest (P := (· ∈ part)) hi
    obtain ⟨hflags, hdeps⟩ := (mem_batch hw hu).mp (hpart.subset hm)
    have hready : progress.readNow net ((progress.batch net).filter (· ∉ part)) m = true := by
      refine readNow_eq_true.mpr ⟨hflags, fun d hd => ?_⟩
      obtain ⟨hguard, hcase⟩ := hdeps d hd
      refine hcase.imp_right (Or.imp (fun hbatch => ?_) fun hcovers => ⟨hguard, hcovers⟩)
      simpa using And.intro hbatch (hlow d hd)
    rw [hstuck m hm] at hready
    exact Bool.false_ne_true hready
  rcases layers_cases net progress (progress.batch net) with ⟨_, h, hpeeled⟩ | ⟨_, h, -⟩
  · obtain rfl := Except.ok.inj (hlayers.symm.trans h)
    exact ⟨layers, hlayers, hpeeled.toLayered⟩
  · rw [hlayers] at h
    cases h

end Progress
end BindingPlan
