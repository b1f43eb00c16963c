/-!
# Flag words

A flag is a natural number, the position of a dirty bit. A set of flags is kept in words of 64 bits:
flag `f` is bit `f % 64` of word `f / 64`. The words grow when a flag is inserted and are never cut
off again, so that sets with the same members may have different numbers of words; a word after the
last one counts as zero.

Main results:

* `FlagWords.contains_insert`, `contains_erase`, `contains_union`, `contains_inter`,
  `contains_diff`: the members of each result.
* `FlagWords.isEmpty_iff`, `isSubset_iff`, `meets_iff`, `same_iff`: what the tests decide, whatever
  the numbers of words.
* `FlagWords.positions_eq_filter`: taking the lowest bit off a word until it is zero finds its bits
  in ascending order.
* `FlagWords.toList_eq_filter`, `length_toList`: the list and the number of the members.
-/

namespace BindingPlan

/-- A finite set of flags, as its words (`FlagSet`). -/
structure FlagWords where
  words : List (BitVec 64)

namespace FlagWords

/-- The bit of a flag in its word (`locate`). -/
def mask (flag : Nat) : BitVec 64 :=
  1#64 <<< (flag % 64)

/-- The word at an index, zero after the last one. -/
def word (s : FlagWords) (i : Nat) : BitVec 64 :=
  s.words.getD i 0#64

/-- At least so many words, with zeros behind the old ones. -/
def widen (s : FlagWords) (width : Nat) : FlagWords :=
  ⟨s.words.rightpad width 0#64⟩

/-- Combines the words at the indices that both lists have. The words of the first list behind them
stay as they are. -/
def zipInto (combine : BitVec 64 → BitVec 64 → BitVec 64) :
    List (BitVec 64) → List (BitVec 64) → List (BitVec 64)
  | mine :: own, theirs :: other => combine mine theirs :: zipInto combine own other
  | own, _ => own

def empty : FlagWords := ⟨[]⟩

instance : Inhabited FlagWords := ⟨empty⟩

/-- The flag is in the set (`contains`). -/
def contains (s : FlagWords) (flag : Nat) : Bool :=
  s.words[flag / 64]?.any fun w => w &&& mask flag != 0#64

/-- The set with a flag, and whether the flag was not in it before (`insert`). -/
def insert (s : FlagWords) (flag : Nat) : Bool × FlagWords :=
  let wide := s.widen (flag / 64 + 1)
  (wide.word (flag / 64) &&& mask flag == 0#64,
    ⟨wide.words.modify (flag / 64) (· ||| mask flag)⟩)

/-- The set without a flag, and whether the flag was in it before (`remove`). -/
def erase (s : FlagWords) (flag : Nat) : Bool × FlagWords :=
  if s.contains flag then (true, ⟨s.words.modify (flag / 64) (· &&& ~~~mask flag)⟩)
  else (false, s)

/-- The set of one flag (`single`). -/
def single (flag : Nat) : FlagWords :=
  (empty.insert flag).2

/-- The set of some flags (`from_iter`). -/
def ofList (flags : List Nat) : FlagWords :=
  flags.foldl (fun s flag => (s.insert flag).2) empty

/-- The members of either set (`union_with`). -/
def union (s t : FlagWords) : FlagWords :=
  ⟨zipInto (· ||| ·) (s.widen t.words.length).words t.words⟩

/-- The common members (`intersect_with`). -/
def inter (s t : FlagWords) : FlagWords :=
  ⟨s.words.zipIdx.map fun (mine, i) => mine &&& t.word i⟩

/-- The members of the first set that are not in the second (`difference_with`). -/
def diff (s t : FlagWords) : FlagWords :=
  ⟨zipInto (fun mine theirs => mine &&& ~~~theirs) s.words t.words⟩

/-- The set has no member (`is_empty`). -/
def isEmpty (s : FlagWords) : Bool :=
  s.words.all (· == 0#64)

/-- Every member of the first set is in the second (`is_subset`). -/
def isSubset (s t : FlagWords) : Bool :=
  s.words.zipIdx.all fun (w, i) => w &&& ~~~t.word i == 0#64

/-- The sets have a common member (`intersects`). -/
def meets (s t : FlagWords) : Bool :=
  (s.words.zip t.words).any fun (mine, theirs) => mine &&& theirs != 0#64

/-- The sets have the same members (`eq`): words that only one of them has are compared with
zero. -/
def same (s t : FlagWords) : Bool :=
  (List.range (max s.words.length t.words.length)).all fun i => s.word i == t.word i

/-- Number of members (`len`). -/
def size (s : FlagWords) : Nat :=
  s.words.foldl (fun count w => count + w.cpop.toNat) 0

theorem one_le_of_ne_zero {w : BitVec 64} (nonzero : w ≠ 0#64) : 1#64 ≤ w :=
  BitVec.le_def.mpr <| Nat.pos_of_ne_zero fun zero => nonzero (BitVec.eq_of_toNat_eq zero)

theorem clearLowest_lt {rest : BitVec 64} (nonzero : rest ≠ 0#64) :
    (rest &&& (rest - 1#64)).toNat < rest.toNat := by
  have positive : 0 < rest.toNat := BitVec.le_def.mp (one_le_of_ne_zero nonzero)
  have less : (rest - 1#64).toNat < rest.toNat := by
    rw [BitVec.toNat_sub_of_le (one_le_of_ne_zero nonzero)]
    exact Nat.sub_lt positive (by decide)
  rw [BitVec.toNat_and]
  exact Nat.lt_of_le_of_lt Nat.and_le_right less

/-- The positions of the bits of a word: the lowest one is taken off until no bit is left. -/
def positions (rest : BitVec 64) : List Nat :=
  if _none : rest = 0#64 then []
  else rest.ctz.toNat :: positions (rest &&& (rest - 1#64))
termination_by rest.toNat
decreasing_by exact clearLowest_lt _none

/-- The members in ascending order, word by word (`iter`). -/
def toList (s : FlagWords) : List Nat :=
  s.words.zipIdx.flatMap fun (w, i) => (positions w).map (i * 64 + ·)

/-! ## Words -/

theorem word_of_le {s : FlagWords} {i : Nat} (short : s.words.length ≤ i) : s.word i = 0#64 := by
  simp [word, short]

@[simp] theorem word_empty (i : Nat) : empty.word i = 0#64 :=
  word_of_le (Nat.zero_le i)

@[simp] theorem word_widen (s : FlagWords) (width i : Nat) : (s.widen width).word i = s.word i := by
  simp only [word, widen, List.rightpad, List.getD_eq_getElem?_getD, List.getElem?_append,
    List.getElem?_replicate]
  split
  · rfl
  · rename_i short
    rw [List.getElem?_eq_none (Nat.le_of_not_lt short)]
    split <;> rfl

theorem le_length_widen (s : FlagWords) (width : Nat) : width ≤ (s.widen width).words.length := by
  simp only [widen, List.length_rightpad]
  omega

/-- The words that two lists combine to, if nothing comes of the indices that only the second
has. -/
theorem getD_zipInto (combine : BitVec 64 → BitVec 64 → BitVec 64) {own other : List (BitVec 64)}
    (right : ∀ w, combine w 0#64 = w)
    (left : ∀ i, own.length ≤ i → combine 0#64 (other.getD i 0#64) = 0#64) (i : Nat) :
    (zipInto combine own other).getD i 0#64 = combine (own.getD i 0#64) (other.getD i 0#64) := by
  fun_induction zipInto combine own other generalizing i with
  | case1 mine own theirs other ih =>
    cases i with
    | zero => rfl
    | succ i => exact ih (fun i short => left (i + 1) (Nat.succ_le_succ short)) i
  | case2 own other disjoint =>
    match own, other with
    | [], other => simpa using (left i (Nat.zero_le i)).symm
    | mine :: own, [] => simp [right]
    | mine :: own, theirs :: other => exact (disjoint mine own theirs other rfl rfl).elim

@[simp] theorem word_union (s t : FlagWords) (i : Nat) :
    (s.union t).word i = s.word i ||| t.word i := by
  rw [← word_widen s t.words.length i]
  refine getD_zipInto (· ||| ·) (fun w => BitVec.or_zero) (fun i short => ?_) i
  rw [BitVec.zero_or]
  exact word_of_le (s := t) (Nat.le_trans (le_length_widen s _) short)

/-- The words of a set combined with their indices, if nothing comes of zero. -/
theorem word_zipIdx (s : FlagWords) (combine : BitVec 64 → Nat → BitVec 64)
    (zero : ∀ i, combine 0#64 i = 0#64) (i : Nat) :
    word ⟨s.words.zipIdx.map fun (mine, i) => combine mine i⟩ i = combine (s.word i) i := by
  simp only [word, List.getD_eq_getElem?_getD, List.getElem?_map, List.getElem?_zipIdx]
  cases s.words[i]? <;> simp [zero]

@[simp] theorem word_inter (s t : FlagWords) (i : Nat) :
    (s.inter t).word i = s.word i &&& t.word i :=
  word_zipIdx s (fun mine i => mine &&& t.word i) (fun _ => BitVec.zero_and) i

@[simp] theorem word_diff (s t : FlagWords) (i : Nat) :
    (s.diff t).word i = s.word i &&& ~~~t.word i :=
  getD_zipInto (fun mine theirs => mine &&& ~~~theirs)
    (fun w => by rw [BitVec.not_zero, BitVec.and_allOnes]) (fun _ _ => BitVec.zero_and) i

theorem word_modify (s : FlagWords) (i : Nat) {change : BitVec 64 → BitVec 64}
    (inside : i < s.words.length) (j : Nat) :
    word ⟨s.words.modify i change⟩ j = if i = j then change (s.word j) else s.word j := by
  simp only [word, List.getD_eq_getElem?_getD, List.getElem?_modify]
  split
  · rename_i same
    rw [← same, List.getElem?_eq_getElem inside]
    rfl
  · simp

@[simp] theorem word_insert (s : FlagWords) (flag i : Nat) :
    (s.insert flag).2.word i = if flag / 64 = i then s.word i ||| mask flag else s.word i := by
  rw [← word_widen s (flag / 64 + 1) i]
  exact word_modify (s.widen (flag / 64 + 1)) (flag / 64) (le_length_widen s _) i

/-! ## Members -/

/-- Only the word's own bit is left by a mask. -/
theorem and_mask_ne_zero (w : BitVec 64) (flag : Nat) :
    (w &&& mask flag != 0#64) = w.getLsbD (flag % 64) := by
  have below : flag % 64 < 64 := Nat.mod_lt flag (by decide)
  have nonzero : BitVec.twoPow 64 (flag % 64) ≠ 0#64 := by
    intro zero
    have := congrArg (·.getLsbD (flag % 64)) zero
    simp [below] at this
  rw [mask, ← BitVec.twoPow_eq, BitVec.and_twoPow]
  split
  · rename_i set
    simpa [set] using nonzero
  · rename_i unset
    simp [unset]

/-- The mask of a flag has the bit of the flag in its word, and no other. -/
theorem getLsbD_mask {flag other : Nat} (same : flag / 64 = other / 64) :
    (mask flag).getLsbD (other % 64) = decide (other = flag) := by
  rw [mask, ← BitVec.twoPow_eq, BitVec.getLsbD_twoPow]
  have : flag % 64 = other % 64 ↔ other = flag := by omega
  simp [this, Nat.mod_lt]

/-- A flag is a member if its bit is set in its word. -/
theorem contains_eq_getLsbD (s : FlagWords) (flag : Nat) :
    s.contains flag = (s.word (flag / 64)).getLsbD (flag % 64) := by
  simp only [contains, and_mask_ne_zero, word, List.getD_eq_getElem?_getD]
  cases s.words[flag / 64]? with
  | none => simp
  | some w => rfl

/-- The bits of a word, by the flags that they stand for. -/
theorem getLsbD_word (s : FlagWords) {i bit : Nat} (below : bit < 64) :
    (s.word i).getLsbD bit = s.contains (64 * i + bit) := by
  rw [contains_eq_getLsbD, Nat.mul_add_div (by decide), Nat.mul_add_mod, Nat.mod_eq_of_lt below,
    Nat.div_eq_of_lt below, Nat.add_zero]

/-- Sets have the same words exactly if they have the same flags. -/
theorem forall_word_eq_iff (s t : FlagWords) :
    (∀ i, s.word i = t.word i) ↔ ∀ flag, s.contains flag = t.contains flag := by
  constructor
  · intro same flag
    rw [contains_eq_getLsbD, contains_eq_getLsbD, same]
  · intro same i
    refine BitVec.eq_of_getLsbD_eq fun bit below => ?_
    rw [getLsbD_word s below, getLsbD_word t below, same]

@[simp] theorem contains_empty (flag : Nat) : empty.contains flag = false := by
  simp [contains_eq_getLsbD]

@[simp] theorem contains_union (s t : FlagWords) (flag : Nat) :
    (s.union t).contains flag = (s.contains flag || t.contains flag) := by
  simp [contains_eq_getLsbD]

@[simp] theorem contains_inter (s t : FlagWords) (flag : Nat) :
    (s.inter t).contains flag = (s.contains flag && t.contains flag) := by
  simp [contains_eq_getLsbD]

@[simp] theorem contains_diff (s t : FlagWords) (flag : Nat) :
    (s.diff t).contains flag = (s.contains flag && !t.contains flag) := by
  have below : flag % 64 < 64 := Nat.mod_lt flag (by decide)
  simp [contains_eq_getLsbD, below]

@[simp] theorem contains_insert (s : FlagWords) (flag other : Nat) :
    (s.insert flag).2.contains other = (s.contains other || decide (other = flag)) := by
  simp only [contains_eq_getLsbD, word_insert]
  split
  · rename_i same
    rw [BitVec.getLsbD_or, getLsbD_mask same]
  · rename_i apart
    have : other ≠ flag := fun same => apart (by rw [same])
    simp [this]

/-- An insertion reports that the flag was not in the set. -/
@[simp] theorem insert_fst (s : FlagWords) (flag : Nat) :
    (s.insert flag).1 = !s.contains flag := by
  rw [contains_eq_getLsbD, ← and_mask_ne_zero]
  simp [insert, bne]

/-- A removal reports that the flag was in the set. -/
@[simp] theorem erase_fst (s : FlagWords) (flag : Nat) : (s.erase flag).1 = s.contains flag := by
  unfold erase
  split <;> simp_all

/-- A flag in the set has a word of its own. -/
theorem index_lt_of_contains {s : FlagWords} {flag : Nat} (present : s.contains flag = true) :
    flag / 64 < s.words.length := by
  refine Nat.lt_of_not_le fun short => ?_
  rw [contains_eq_getLsbD, word_of_le short] at present
  simp at present

@[simp] theorem contains_erase (s : FlagWords) (flag other : Nat) :
    (s.erase flag).2.contains other = (s.contains other && !decide (other = flag)) := by
  unfold erase
  split
  · rename_i present
    have below : other % 64 < 64 := Nat.mod_lt other (by decide)
    simp only [contains_eq_getLsbD, word_modify s _ (index_lt_of_contains present)]
    split
    · rename_i same
      rw [BitVec.getLsbD_and, BitVec.getLsbD_not, getLsbD_mask same]
      simp [below]
    · rename_i apart
      have : other ≠ flag := fun same => apart (by rw [same])
      simp [this]
  · rename_i absent
    by_cases same : other = flag
    · subst same
      simpa using absent
    · simp [same]

@[simp] theorem contains_single (flag other : Nat) :
    (single flag).contains other = decide (other = flag) := by
  simp [single]

/-! ## Tests -/

theorem isEmpty_iff_word (s : FlagWords) : s.isEmpty = true ↔ ∀ i, s.word i = 0#64 := by
  simp only [isEmpty, List.all_eq_true, beq_iff_eq]
  constructor
  · intro all i
    simp only [word, List.getD_eq_getElem?_getD]
    cases found : s.words[i]? with
    | none => rfl
    | some w => exact all w (List.mem_of_getElem? found)
  · intro all w mem
    obtain ⟨i, found⟩ := List.mem_iff_getElem?.mp mem
    simpa [word, found] using all i

theorem isEmpty_iff (s : FlagWords) : s.isEmpty = true ↔ ∀ flag, s.contains flag = false := by
  simpa using (isEmpty_iff_word s).trans (forall_word_eq_iff s empty)

theorem isSubset_iff (s t : FlagWords) :
    s.isSubset t = true ↔ ∀ flag, s.contains flag = true → t.contains flag = true := by
  have zeros : s.isSubset t = true ↔ ∀ i, (s.diff t).word i = 0#64 := by
    have left : s.isSubset t =
        isEmpty ⟨s.words.zipIdx.map fun (w, i) => w &&& ~~~t.word i⟩ := by
      simp only [isSubset, isEmpty, List.all_map]
      rfl
    rw [left, isEmpty_iff_word]
    refine forall_congr' fun i => ?_
    rw [word_zipIdx s (fun w i => w &&& ~~~t.word i) (fun _ => BitVec.zero_and),
      word_diff]
  rw [zeros, ← isEmpty_iff_word, isEmpty_iff]
  simp

theorem meets_iff (s t : FlagWords) :
    s.meets t = true ↔ ∃ flag, s.contains flag = true ∧ t.contains flag = true := by
  have common : s.meets t = !isEmpty ⟨List.zipWith (· &&& ·) s.words t.words⟩ := by
    simp only [meets, isEmpty, ← List.map_uncurry_zip_eq_zipWith, List.all_map,
      List.not_all_eq_any_not]
    rfl
  have zeros : isEmpty ⟨List.zipWith (· &&& ·) s.words t.words⟩ = true ↔
      ∀ i, (s.inter t).word i = 0#64 := by
    rw [isEmpty_iff_word]
    refine forall_congr' fun i => ?_
    rw [word_inter]
    simp only [word, List.getD_eq_getElem?_getD, List.getElem?_zipWith]
    cases s.words[i]? <;> cases t.words[i]? <;> simp
  rw [common, Bool.not_eq_true', ← Bool.not_eq_true, zeros, ← isEmpty_iff_word, isEmpty_iff]
  simp

theorem same_iff (s t : FlagWords) :
    s.same t = true ↔ ∀ flag, s.contains flag = t.contains flag := by
  rw [← forall_word_eq_iff]
  simp only [same, List.all_eq_true, List.mem_range, beq_iff_eq]
  constructor
  · intro all i
    by_cases inside : i < max s.words.length t.words.length
    · exact all i inside
    · rw [word_of_le (by omega), word_of_le (by omega)]
  · intro all i _
    exact all i

/-! ## Lists of members -/

/-- A number that has its lowest bit split off and the number one below it have the bits above that
bit in common, and no other. -/
theorem testBit_and_pred (high low i : Nat) :
    (high <<< (low + 1) + 1 <<< low &&& high <<< (low + 1) + 1 <<< low - 1).testBit i =
      ((high <<< (low + 1) + 1 <<< low).testBit i && !decide (i = low)) := by
  have positive : 0 < 2 ^ low := Nat.two_pow_pos low
  have less : 2 ^ low < 2 ^ (low + 1) := Nat.pow_lt_pow_right (by decide) (Nat.lt_succ_self low)
  rw [Nat.shiftLeft_eq, Nat.one_shiftLeft, Nat.mul_comm, Nat.testBit_and,
    Nat.add_sub_assoc positive, Nat.testBit_two_pow_mul_add high less,
    Nat.testBit_two_pow_mul_add high (b := 2 ^ low - 1) (by omega),
    Nat.testBit_two_pow, Nat.testBit_two_pow_sub_one]
  split
  · by_cases same : i = low
    · simp [same]
    · simp [Ne.symm same]
  · have : i ≠ low := by omega
    simp [this]

/-- A word with its lowest bit split off. -/
theorem toNat_eq_of_ctz {rest : BitVec 64} (nonzero : rest ≠ 0#64) :
    rest.toNat = (rest.toNat >>> (rest.ctz.toNat + 1)) <<< (rest.ctz.toNat + 1) +
      1 <<< rest.ctz.toNat := by
  have lowest : rest.toNat % 2 ^ (rest.ctz.toNat + 1) = 2 ^ rest.ctz.toNat := by
    refine Nat.eq_of_testBit_eq fun i => ?_
    rw [Nat.testBit_mod_two_pow, Nat.testBit_two_pow]
    rcases Nat.lt_trichotomy i rest.ctz.toNat with less | same | more
    · have unset : rest.toNat.testBit i = false := BitVec.getLsbD_false_of_lt_ctz less
      simp [unset, Nat.ne_of_gt less]
    · have set : rest.toNat.testBit rest.ctz.toNat = true :=
        BitVec.getLsbD_true_ctz_of_ne_zero nonzero
      simp [same, set]
    · have : ¬i < rest.ctz.toNat + 1 := by omega
      simp [this, Nat.ne_of_lt more]
  rw [Nat.shiftLeft_eq, Nat.shiftRight_eq_div_pow, Nat.one_shiftLeft, Nat.mul_comm]
  conv => lhs; rw [← Nat.div_add_mod rest.toNat (2 ^ (rest.ctz.toNat + 1)), lowest]

/-- Taking one off and keeping the common bits clears the lowest bit, and no other. -/
theorem getLsbD_clearLowest {rest : BitVec 64} (nonzero : rest ≠ 0#64) (bit : Nat) :
    (rest &&& (rest - 1#64)).getLsbD bit =
      (rest.getLsbD bit && !decide (bit = rest.ctz.toNat)) := by
  have bits := testBit_and_pred (rest.toNat >>> (rest.ctz.toNat + 1)) rest.ctz.toNat bit
  rw [← toNat_eq_of_ctz nonzero] at bits
  simpa [BitVec.getLsbD, BitVec.toNat_sub_of_le (one_le_of_ne_zero nonzero)] using bits

/-- The least number that passes a test comes first. -/
theorem filter_range_least {test : Nat → Bool} {least n : Nat} (inside : least < n)
    (passes : test least = true) (none : ∀ i < least, test i = false) :
    (List.range n).filter test =
      least :: (List.range n).filter fun i => test i && !decide (i = least) := by
  induction n with
  | zero => exact (Nat.not_lt_zero least inside).elim
  | succ n ih =>
    rw [List.range_succ, List.filter_append, List.filter_append]
    by_cases last : least = n
    · subst last
      have nothing (more : Nat → Bool) :
          ((List.range least).filter fun i => test i && more i) = [] :=
        List.filter_eq_nil_iff.mpr fun i mem => by simp [none i (List.mem_range.mp mem)]
      simpa [passes, nothing] using nothing fun _ => true
    · rw [ih (by omega)]
      simp [List.filter_cons, Ne.symm last]

/-- The bits of a word are found in ascending order. -/
theorem positions_eq_filter (rest : BitVec 64) :
    positions rest = (List.range 64).filter fun bit => rest.getLsbD bit := by
  fun_induction positions rest with
  | case1 => simp
  | case2 rest nonzero ih =>
    have below : rest.ctz.toNat < 64 := BitVec.lt_def.mp (BitVec.ctz_lt_iff_ne_zero.mpr nonzero)
    rw [ih, filter_range_least below (BitVec.getLsbD_true_ctz_of_ne_zero nonzero)
      fun i less => BitVec.getLsbD_false_of_lt_ctz less]
    simp only [getLsbD_clearLowest nonzero]

/-- The bits of a word are counted from the highest position down. -/
theorem count_bits (w : BitVec 64) (n acc : Nat) :
    w.cpopNatRec n acc = acc + ((List.range n).filter fun bit => w.getLsbD bit).length := by
  induction n generalizing acc with
  | zero => rfl
  | succ n ih =>
    rw [BitVec.cpopNatRec_succ, ih, List.range_succ, List.filter_append, List.length_append]
    simp only [List.filter_cons, List.filter_nil]
    cases w.getLsbD n <;> simp [Nat.add_assoc, Nat.add_comm]

/-- As many positions are found as there are bits. -/
theorem length_positions (w : BitVec 64) : (positions w).length = w.cpop.toNat := by
  have small : w.cpopNatRec 64 0 ≤ 0 + 64 := BitVec.cpopNatRec_le 64
  rw [BitVec.cpop, BitVec.toNat_ofNat, Nat.mod_eq_of_lt (by omega), count_bits,
    positions_eq_filter, Nat.zero_add]

/-- The members in words from an index on, by their numbers. -/
theorem flatMap_positions (words : List (BitVec 64)) (first : Nat) :
    ((words.zipIdx first).flatMap fun (w, i) => (positions w).map (i * 64 + ·)) =
      (List.range' (first * 64) (words.length * 64)).filter fun flag =>
        (words.getD (flag / 64 - first) 0#64).getLsbD (flag % 64) := by
  induction words generalizing first with
  | nil => simp
  | cons w words ih =>
    have here : (positions w).map (first * 64 + ·) =
        (List.range' (first * 64) 64).filter fun flag =>
          ((w :: words).getD (flag / 64 - first) 0#64).getLsbD (flag % 64) := by
      rw [positions_eq_filter, List.range'_eq_map_range, List.filter_map]
      refine congrArg _ (List.filter_congr fun bit mem => ?_)
      have below : bit < 64 := List.mem_range.mp mem
      have index : (first * 64 + bit) / 64 - first = 0 := by omega
      have position : (first * 64 + bit) % 64 = bit := by omega
      simp [index, position]
    have behind : ∀ flag ∈ List.range' (first * 64 + 64) (words.length * 64),
        (words.getD (flag / 64 - (first + 1)) 0#64).getLsbD (flag % 64) =
          ((w :: words).getD (flag / 64 - first) 0#64).getLsbD (flag % 64) := by
      intro flag mem
      have lower := (List.mem_range'_1.mp mem).1
      have index : flag / 64 - first = flag / 64 - (first + 1) + 1 := by omega
      rw [index, List.getD_cons_succ]
    simp only [List.zipIdx_cons, List.flatMap_cons, ih, here]
    rw [List.length_cons, Nat.add_mul, Nat.one_mul, Nat.add_mul, Nat.one_mul,
      Nat.add_comm (words.length * 64) 64, ← List.range'_append_1, List.filter_append,
      List.filter_congr behind]

/-- The list has the members below any bound that leaves no word out. -/
theorem toList_eq_filter (s : FlagWords) {bound : Nat} (wide : s.words.length * 64 ≤ bound) :
    s.toList = (List.range bound).filter fun flag => s.contains flag := by
  have inside : s.toList =
      (List.range (s.words.length * 64)).filter fun flag => s.contains flag := by
    simpa [toList, contains_eq_getLsbD, word, List.range_eq_range'] using
      flatMap_positions s.words 0
  obtain ⟨more, rfl⟩ := Nat.exists_eq_add_of_le wide
  have none : ((List.range more).map (s.words.length * 64 + ·)).filter (s.contains ·) = [] := by
    refine List.filter_eq_nil_iff.mpr fun flag mem present => ?_
    obtain ⟨above, -, rfl⟩ := List.mem_map.mp mem
    have := index_lt_of_contains present
    omega
  rw [inside, List.range_add, List.filter_append, none, List.append_nil]

@[simp] theorem mem_toList {s : FlagWords} {flag : Nat} :
    flag ∈ s.toList ↔ s.contains flag = true := by
  rw [toList_eq_filter s (Nat.le_refl _), List.mem_filter, List.mem_range]
  refine ⟨And.right, fun present => ⟨?_, present⟩⟩
  have := index_lt_of_contains present
  omega

/-- The members stand in ascending order, each of them once. -/
theorem pairwise_toList (s : FlagWords) : s.toList.Pairwise (· < ·) := by
  rw [toList_eq_filter s (Nat.le_refl _)]
  exact List.pairwise_lt_range.filter _

/-- As many members are listed as counted. -/
theorem length_toList (s : FlagWords) : s.toList.length = s.size := by
  have counted (words : List (BitVec 64)) (first count : Nat) :
      words.foldl (fun count w => count + w.cpop.toNat) count = count +
        ((words.zipIdx first).flatMap fun (w, i) => (positions w).map (i * 64 + ·)).length := by
    induction words generalizing first count with
    | nil => rfl
    | cons w words ih =>
      rw [List.foldl_cons, ih (first + 1)]
      simp [List.zipIdx_cons, length_positions, Nat.add_assoc]
  rw [size, counted s.words 0, Nat.zero_add, toList]

/-- Sets with the same members list the same flags. -/
theorem toList_congr {s t : FlagWords} (same : ∀ flag, s.contains flag = t.contains flag) :
    s.toList = t.toList := by
  rw [toList_eq_filter s (Nat.le_max_left _ (t.words.length * 64)),
    toList_eq_filter t (Nat.le_max_right (s.words.length * 64) _)]
  simp only [same]

end FlagWords
end BindingPlan
