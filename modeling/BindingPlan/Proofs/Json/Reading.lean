import BindingPlan.Json.Reader
import BindingPlan.Json.Writer
import Mathlib.Data.List.Nodup

/-!
# Compact documents read back

A document that is written without blanks reads back, in front of any text. What a reader takes from
one is stated once for each kind of value; an object is read as a record when every one of its
entries is read by a slot of the form.

Main results:

* `Json.readText_flatMap_writeChar`: reading undoes the escapes of a text.
* `Reader.reads_list`: a list of documents that are read back is read back.
* `RecordForm.Fills.reads`: an object whose entries fill a record is read as that record.
-/

namespace BindingPlan

variable {α β : Type} {c : Char} {text rest written : List Char}

namespace Json

theorem ok_bind (value : α) (next : α → Except JsonError β) :
    (Except.ok value >>= next) = next value :=
  rfl

/-! ## Characters -/

theorem hexDigit?_digitChar : ∀ n < 16, hexDigit? (Nat.digitChar n) = some n := by
  decide

theorem utf8Size_digitChar : ∀ n < 16, (Nat.digitChar n).utf8Size = 1 := by
  decide

theorem digitChar_ne : ∀ n < 16, Nat.digitChar n ≠ '"' ∧ Nat.digitChar n ≠ '\\' := by
  decide

/-- The ways to write a character inside a text. -/
inductive WrittenAs (c : Char) : List Char → Prop
  | plain : c ≠ '"' → c ≠ '\\' → 0x20 ≤ c.toNat → WrittenAs c [c]
  | short (mark : Char) : mark ≠ 'u' → shortEscape? mark = some c → WrittenAs c ['\\', mark]
  | code (high low : Nat) : high < 16 → low < 16 → c.toNat = high * 16 + low →
      WrittenAs c ['\\', 'u', '0', '0', Nat.digitChar high, Nat.digitChar low]

theorem writtenAs_writeChar (c : Char) : WrittenAs c (writeChar c) := by
  unfold writeChar
  split_ifs with hquote hslash _ _ _ _ _ hcontrol
  any_goals
    subst c
    exact .short _ (by decide) rfl
  · exact .code _ _ (by omega) (by omega) (by omega)
  · exact .plain hquote hslash (Nat.le_of_not_lt hcontrol)

theorem takeHex_code {high low : Nat} (hhigh : high < 16) (hlow : low < 16) :
    takeHex ('0' :: '0' :: Nat.digitChar high :: Nat.digitChar low :: rest) =
      .ok (high * 16 + low, rest) := by
  have hzero : hexDigit? '0' = some 0 := hexDigit?_digitChar 0 (by decide)
  have hbytes : byteLength ['0', '0', Nat.digitChar high, Nat.digitChar low] = 4 := by
    simp only [byteLength_cons, byteLength_nil, utf8Size_digitChar _ hhigh,
      utf8Size_digitChar _ hlow]
    rfl
  simp [takeHex, hbytes, hzero, hexDigit?_digitChar, hhigh, hlow, -byteLength_cons]

theorem WrittenAs.takeChar_eq (h : WrittenAs c written) :
    takeChar (written ++ rest) = .ok (c, rest) := by
  cases h with
  | plain _ hslash hcontrol => simp [takeChar, Nat.not_lt.mpr hcontrol]
  | short mark hu hc => simp [takeChar, hc]
  | code high low hhigh hlow hc =>
    have hlt : high * 16 + low < 0xd800 := by omega
    have hge : ¬0xdc00 ≤ high * 16 + low := by omega
    have htake : takeCodePoint ('0' :: '0' :: Nat.digitChar high :: Nat.digitChar low :: rest) =
        .ok (Char.ofNat (high * 16 + low), rest) := by
      simp [takeCodePoint, takeHex_code hhigh hlow, hlt, hge, bind, Except.bind, pure, Except.pure]
    rw [← hc, Char.ofNat_toNat] at htake
    exact htake

/-- In front of a text, a written character puts the closing quote further off. -/
theorem WrittenAs.closingBound_lt (h : WrittenAs c written) :
    closingBound rest < closingBound (written ++ rest) := by
  cases h with
  | plain hquote hslash _ => simp [closingBound, hslash]
  | short mark _ _ => simp [closingBound]
  | code high low hhigh hlow _ =>
    -- the digits neither close the text nor start an escape
    obtain ⟨hhighQuote, hhighSlash⟩ := digitChar_ne high hhigh
    obtain ⟨hlowQuote, hlowSlash⟩ := digitChar_ne low hlow
    simp [closingBound]
    omega

theorem WrittenAs.ne_quote (h : WrittenAs c written) : ∀ tail, written ++ rest ≠ '"' :: tail := by
  cases h with
  | plain hquote _ _ => simp [hquote]
  | short | code => simp

theorem readChars_flatMap_writeChar (chars : List Char) {bound : Nat} (h : chars.length < bound) :
    readChars bound (chars.flatMap writeChar ++ '"' :: rest) = .ok (chars, rest) := by
  induction chars generalizing bound with
  | nil =>
    obtain ⟨bound, rfl⟩ := Nat.exists_eq_add_one_of_ne_zero (Nat.ne_zero_of_lt h)
    rfl
  | cons c chars ih =>
    obtain ⟨bound, rfl⟩ := Nat.exists_eq_add_one_of_ne_zero (Nat.ne_zero_of_lt h)
    have hc := writtenAs_writeChar c
    rw [List.flatMap_cons, List.append_assoc, readChars.eq_3 _ _ hc.ne_quote, hc.takeChar_eq,
      ok_bind]
    dsimp only
    rw [ih (Nat.lt_of_succ_lt_succ h)]
    rfl

theorem length_lt_closingBound (chars : List Char) :
    chars.length < closingBound (chars.flatMap writeChar ++ '"' :: rest) := by
  induction chars with
  | nil => exact Nat.one_pos
  | cons c chars ih =>
    rw [List.flatMap_cons, List.append_assoc]
    exact Nat.lt_of_le_of_lt ih (writtenAs_writeChar c).closingBound_lt

theorem readText_flatMap_writeChar (value : String) (rest : List Char) :
    readText (value.toList.flatMap writeChar ++ '"' :: rest) = .ok (value, rest) := by
  rw [readText, readChars_flatMap_writeChar _ (Nat.lt_succ_of_lt (length_lt_closingBound _))]
  simp

/-! ## Elements and entries -/

theorem compactElements_eq_map (elements : List Json) :
    compactElements elements = elements.map compact := by
  induction elements with
  | nil => rfl
  | cons value values ih => rw [compactElements, ih, List.map_cons]

/-- An entry of an object without blanks. -/
def compactEntry (entry : String × Json) : String :=
  writeText entry.1 ++ ":" ++ entry.2.compact

theorem compactEntries_eq_map (entries : List (String × Json)) :
    compactEntries entries = entries.map compactEntry := by
  induction entries with
  | nil => rfl
  | cons entry entries ih => rw [compactEntries, ih, List.map_cons, compactEntry]

/-- Texts as the items of a list, of which the first one has no comma in front of it if it is the
first of the list. -/
def items : Bool → List String → List Char
  | _, [] => []
  | first, item :: rest => (if first then [] else [',']) ++ item.toList ++ items false rest

theorem toList_intercalate_comma (texts : List String) :
    (",".intercalate texts).toList = items true texts := by
  have hrest : ∀ text texts,
      (",".intercalate (text :: texts)).toList = text.toList ++ items false texts := by
    intro text texts
    induction texts generalizing text with
    | nil => simp [items]
    | cons next texts ih => simp [String.intercalate_cons_cons, ih, items]
  cases texts with
  | nil => simp [items]
  | cons text texts => simp [hrest, items]

theorem length_le_items {texts : List String} (h : ∀ text ∈ texts, text.toList ≠ [])
    (first : Bool) : texts.length ≤ (items first texts).length := by
  induction texts generalizing first with
  | nil => exact Nat.zero_le _
  | cons text texts ih =>
    obtain ⟨htext, htexts⟩ := List.forall_mem_cons.mp h
    have hlength := ih htexts false
    have hpos := List.length_pos_iff.mpr htext
    simp only [items, List.length_append, List.length_cons]
    omega

theorem isBlank_of_isDigit (h : c.isDigit = true) : isBlank c = false := by
  by_contra hblank
  simp only [isBlank, Bool.not_eq_false, Bool.or_eq_true, beq_iff_eq] at hblank
  obtain ((rfl | rfl) | rfl) | rfl := hblank <;> contradiction

/-- A document starts with a character that is no blank and does not close a list. -/
theorem exists_toList_compact (value : Json) : ∃ c chars,
    value.compact.toList = c :: chars ∧ isBlank c = false ∧ c ≠ ']' := by
  cases value with
  | null => exact ⟨'n', _, rfl, rfl, by decide⟩
  | bool value =>
    cases value with
    | true => exact ⟨'t', _, rfl, rfl, by decide⟩
    | false => exact ⟨'f', _, rfl, rfl, by decide⟩
  | nat value =>
    have hne : Nat.toDigits 10 value ≠ [] := Nat.toDigits_ne_nil
    obtain ⟨c, chars, hdigits⟩ := List.exists_cons_of_ne_nil hne
    have hmem : c ∈ Nat.toDigits 10 value := hdigits ▸ List.mem_cons_self
    have hdigit : c.isDigit = true := Nat.isDigit_of_mem_toDigits (by decide) (Nat.le_refl 10) hmem
    exact ⟨c, chars, Nat.toList_repr.trans hdigits, isBlank_of_isDigit hdigit,
      fun heq => absurd hdigit (heq ▸ by decide)⟩
  | string value => exact ⟨'"', _, String.toList_ofList, rfl, by decide⟩
  | array elements =>
    have htext : (array elements).compact.toList =
        '[' :: ((",".intercalate (compactElements elements)).toList ++ [']']) := by
      rw [compact, String.toList_append, String.toList_append]
      rfl
    exact ⟨'[', _, htext, rfl, by decide⟩
  | object entries =>
    have htext : (object entries).compact.toList =
        '\x7b' :: ((",".intercalate (compactEntries entries)).toList ++ ['\x7d']) := by
      rw [compact, String.toList_append, String.toList_append]
      rfl
    exact ⟨'\x7b', _, htext, rfl, by decide⟩

end Json

/-! ## Readers -/

namespace Reader

open Json (isBlank)

variable {read : Reader α} {next : α → Reader β} {value : α} {bound : Nat} {first : Bool}

/-- A reader that succeeds is followed by the next one. -/
theorem run_bind_of_run (h : read.run text = .ok (value, rest)) :
    (read >>= next).run text = (next value).run rest := by
  rw [StateT.run_bind, h]
  rfl

theorem run_next? (h : isBlank c = false) : next?.run (c :: rest) = .ok (some c, c :: rest) := by
  have hdrop : (c :: rest).dropWhile isBlank = c :: rest :=
    List.dropWhile_cons_of_neg (by simp [h])
  show Except.ok (((c :: rest).dropWhile isBlank).head?, (c :: rest).dropWhile isBlank) = _
  rw [hdrop]
  rfl

theorem run_get : (get : Reader (List Char)).run text = .ok (text, text) :=
  rfl

theorem run_advance : advance.run (c :: rest) = .ok ((), rest) :=
  rfl

/-- In front of any text, a reader takes a text to a value and leaves what stands behind it. -/
def Reads (read : Reader α) (text : String) (value : α) : Prop :=
  ∀ rest, read.run (text.toList ++ rest) = .ok (value, rest)

theorem Reads.map {text : String} (h : Reads read text value) (f : α → β) :
    Reads (do return f (← read)) text (f value) := fun rest => by
  rw [run_bind_of_run (h rest)]
  rfl

theorem run_behind {inside : List Char → Except JsonError (α × List Char)}
    (h : inside text = .ok (value, rest)) :
    (behind inside).run (c :: text) = .ok (value, rest) := by
  have hinside : (liftM (inside text) : Reader (α × List Char)).run text =
      .ok ((value, rest), text) := by
    rw [h]
    rfl
  unfold behind
  rw [run_bind_of_run run_advance]
  rw [run_bind_of_run run_get, run_bind_of_run hinside]
  rfl

theorem toList_writeText (value : String) :
    (Json.writeText value).toList = '"' :: (value.toList.flatMap Json.writeChar ++ ['"']) :=
  String.toList_ofList

theorem reads_text (value : String) :
    Reads Reader.text (Json.writeText value) value := fun rest => by
  rw [toList_writeText, List.cons_append, List.append_assoc, List.singleton_append, Reader.text,
    run_bind_of_run (run_next? rfl)]
  exact run_behind (Json.readText_flatMap_writeChar value rest)

theorem reads_optionalText (value : String) :
    Reads Reader.optionalText (Json.writeText value) (some value) := fun rest => by
  have hread := reads_text value rest
  rw [toList_writeText, List.cons_append] at hread ⊢
  rw [optionalText, run_bind_of_run (run_next? rfl)]
  exact run_bind_of_run hread

theorem reads_bool (value : Bool) :
    Reads Reader.bool (Json.writeBool value) value := fun rest => by
  cases value <;> rfl

theorem run_hasElement (hblank : isBlank c = false) (hclose : c ≠ ']') :
    (hasElement first).run ((if first then [] else [',']) ++ c :: rest) =
      .ok (true, c :: rest) := by
  cases first with
  | true =>
    rw [if_pos rfl, List.nil_append, hasElement, run_bind_of_run (run_next? hblank)]
    split
    · contradiction
    · next heq => exact absurd (Option.some.inj heq) hclose
    · rfl
  | false =>
    rw [if_neg Bool.false_ne_true, List.singleton_append, hasElement,
      run_bind_of_run (run_next? rfl)]
    show (advance >>= _ : Reader Bool).run (',' :: c :: rest) = _
    rw [run_bind_of_run run_advance, run_bind_of_run (run_next? hblank)]
    split
    · contradiction
    · next heq => exact absurd (Option.some.inj heq) hclose
    · rfl

theorem run_elements {write : α → Json} {values : List α}
    (h : ∀ value ∈ values, Reads read (write value).compact value)
    (hbound : values.length ≤ bound) :
    (elements read (bound + 1) first).run
        (Json.items first (values.map fun value => (write value).compact) ++ ']' :: rest) =
      .ok (values, ']' :: rest) := by
  induction values generalizing bound first with
  | nil => rfl
  | cons value values ih =>
    obtain ⟨bound, rfl⟩ := Nat.exists_eq_add_one_of_ne_zero (Nat.ne_zero_of_lt hbound)
    obtain ⟨c, chars, hchars, hblank, hclose⟩ := (write value).exists_toList_compact
    obtain ⟨hvalue, hvalues⟩ := List.forall_mem_cons.mp h
    rw [List.map_cons, Json.items, List.append_assoc, List.append_assoc, elements, hchars,
      List.cons_append, run_bind_of_run (run_hasElement hblank hclose), if_pos rfl,
      ← List.cons_append, ← hchars, run_bind_of_run (hvalue _),
      run_bind_of_run (ih hvalues (Nat.le_of_succ_le_succ hbound))]
    rfl

theorem reads_list {write : α → Json} {values : List α}
    (h : ∀ value ∈ values, Reads read (write value).compact value) :
    Reads (list read) (Json.array (values.map write)).compact values := fun rest => by
  have htext : (Json.array (values.map write)).compact.toList ++ rest =
      '[' :: (Json.items true (values.map fun value => (write value).compact) ++ ']' :: rest) := by
    simp [Json.compact, Json.compactElements_eq_map, Json.toList_intercalate_comma,
      -String.toList_intercalate, Function.comp_def]
  have hlength : values.length ≤
      (Json.items true (values.map fun value => (write value).compact)).length := by
    have htexts : ∀ text ∈ values.map fun value => (write value).compact, text.toList ≠ [] := by
      intro text hmem
      obtain ⟨value, -, rfl⟩ := List.mem_map.mp hmem
      obtain ⟨c, chars, hchars, -, -⟩ := (write value).exists_toList_compact
      exact hchars ▸ List.cons_ne_nil c chars
    simpa only [List.length_map] using Json.length_le_items htexts true
  rw [htext, list, run_bind_of_run (run_next? rfl)]
  show (advance >>= _ : Reader (List α)).run _ = _
  rw [run_bind_of_run run_advance, run_bind_of_run run_get,
    run_bind_of_run (run_elements h (by rw [List.length_append]; omega))]
  rfl

/-! ## Objects -/

theorem run_colon : colon.run (':' :: rest) = .ok ((), rest) :=
  rfl

theorem run_hasEntry_close :
    (hasEntry first).run ('\x7d' :: rest) = .ok (false, '\x7d' :: rest) :=
  rfl

theorem run_hasEntry :
    (hasEntry first).run ((if first then [] else [',']) ++ '"' :: rest) =
      .ok (true, '"' :: rest) := by
  cases first <;> rfl

end Reader

namespace RecordForm

/-- The entries of an object fill one record up to another one: the slot of each entry reads its
value. -/
inductive Fills (form : RecordForm α) : α → List (String × Json) → α → Prop
  | nil (record : α) : Fills form record [] record
  | cons {key : String} {value : Json} {slot : Slot α} {record filled final : α}
      {entries : List (String × Json)} : form.slots.find? (·.key == key) = some slot →
      Reader.Reads (slot.read record) value.compact filled → Fills form filled entries final →
      Fills form record ((key, value) :: entries) final

variable {form : RecordForm α} {record final : α} {entries : List (String × Json)}
  {seen : List String} {bound : Nat} {first : Bool}

theorem Fills.run_entries (h : form.Fills record entries final)
    (hkeys : (entries.map Prod.fst).Nodup) (hseen : ∀ key ∈ entries.map Prod.fst, key ∉ seen)
    (hmissing : form.missing? ((entries.map Prod.fst).reverse ++ seen) = none)
    (hbound : entries.length ≤ bound) :
    (form.entries (bound + 1) first seen record).run
        (Json.items first (entries.map Json.compactEntry) ++ '\x7d' :: rest) =
      .ok (final, '\x7d' :: rest) := by
  induction h generalizing bound first seen with
  | nil record =>
    have hmissing : form.missing? seen = none := hmissing
    rw [List.map_nil, RecordForm.entries, Json.items, List.nil_append,
      Reader.run_bind_of_run Reader.run_hasEntry_close, if_neg Bool.false_ne_true, hmissing]
    rfl
  | @cons key value slot record filled final entries hslot hvalue _ ih =>
    obtain ⟨bound, rfl⟩ := Nat.exists_eq_add_one_of_ne_zero (Nat.ne_zero_of_lt hbound)
    obtain ⟨hkey, hkeys⟩ := List.nodup_cons.mp hkeys
    obtain ⟨hnew, hseen⟩ := List.forall_mem_cons.mp hseen
    have htext :
        Json.items first (((key, value) :: entries).map Json.compactEntry) ++ '\x7d' :: rest =
          (if first then [] else [',']) ++ '"' :: (key.toList.flatMap Json.writeChar ++
            '"' :: ':' :: (value.compact.toList ++
              (Json.items false (entries.map Json.compactEntry) ++ '\x7d' :: rest))) := by
      simp [Json.items, Json.compactEntry, Reader.toList_writeText]
    have hseen : ∀ other ∈ entries.map Prod.fst, other ∉ key :: seen := by
      intro other hother hmem
      obtain rfl | hmem := List.mem_cons.mp hmem
      · exact hkey hother
      · exact hseen other hother hmem
    have hmissing : form.missing? ((entries.map Prod.fst).reverse ++ key :: seen) = none := by
      simpa using hmissing
    rw [htext, RecordForm.entries, Reader.run_bind_of_run Reader.run_hasEntry, if_pos rfl,
      Reader.run_bind_of_run (Reader.run_behind (Json.readText_flatMap_writeChar key _)), hslot]
    dsimp only
    rw [if_neg (by simpa using hnew), Reader.run_bind_of_run Reader.run_colon,
      Reader.run_bind_of_run (hvalue _)]
    exact ih hkeys hseen hmissing (Nat.le_of_succ_le_succ hbound)

theorem Fills.reads (h : form.Fills form.blank entries final) (hkeys : (entries.map Prod.fst).Nodup)
    (hmissing : form.missing? (entries.map Prod.fst).reverse = none) :
    Reader.Reads form.read (Json.object entries).compact final := fun rest => by
  have htext : (Json.object entries).compact.toList ++ rest =
      '\x7b' :: (Json.items true (entries.map Json.compactEntry) ++ '\x7d' :: rest) := by
    simp [Json.compact, Json.compactEntries_eq_map, Json.toList_intercalate_comma,
      -String.toList_intercalate]
  have hlength : entries.length ≤ (Json.items true (entries.map Json.compactEntry)).length := by
    have htexts : ∀ text ∈ entries.map Json.compactEntry, text.toList ≠ [] := by
      intro text hmem
      obtain ⟨entry, -, rfl⟩ := List.mem_map.mp hmem
      simp [Json.compactEntry, Reader.toList_writeText]
    simpa only [List.length_map] using Json.length_le_items htexts true
  rw [htext, read, Reader.run_bind_of_run (Reader.run_next? rfl)]
  show (Reader.advance >>= _ : Reader α).run _ = _
  rw [Reader.run_bind_of_run Reader.run_advance, Reader.run_bind_of_run Reader.run_get,
    Reader.run_bind_of_run (h.run_entries hkeys (fun _ _ => List.not_mem_nil)
      (by simpa using hmissing) (by rw [List.length_append]; omega))]
  rfl

/-- A text that the form reads is a whole document. -/
theorem readDocument_of_reads {text : String} (h : Reader.Reads form.read text record) :
    form.readDocument text = .ok record := by
  have hread := h []
  rw [List.append_nil] at hread
  rw [readDocument, hread]
  rfl

end RecordForm
end BindingPlan
