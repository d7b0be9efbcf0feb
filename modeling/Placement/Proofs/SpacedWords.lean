import Mathlib.Data.List.TakeWhile
import Placement.Decimal.Reader
import Placement.Text.Blank

/-!
# Words with blanks between them

A text says which words it has and how they are laid out. `Spaced` is the layout as a relation, with
no account of how words are found, and a text is cut into exactly the words that it spaces
(`words_eq_iff`). For a writer this leaves the duty to write nothing but words. Numbers are words in
any form in which they can be read, so a writer of numbers may leave blanks as it likes.
-/

namespace Placement

namespace Text

/-- No blank is among the characters. -/
def Unbroken (cs : List Char) : Prop := ∀ c ∈ cs, isBlank c = false

instance : DecidablePred Unbroken := fun cs => List.decidableBAll (isBlank · = false) cs

/-- Characters that make one word of a text. -/
def IsWord (cs : List Char) : Prop := cs ≠ [] ∧ Unbroken cs

/-- The characters are the given pieces in order, with blanks around them. Two pieces need a blank
between them, and otherwise blanks are free. -/
inductive Spaced : List Char → List (List Char) → Prop
  | nil : Spaced [] []
  | blank {b : Char} {cs : List Char} {pieces : List (List Char)} (hb : isBlank b = true)
      (rest : Spaced cs pieces) : Spaced (b :: cs) pieces
  | last (piece : List Char) : Spaced piece [piece]
  | cons (piece : List Char) {b : Char} {cs : List Char} {pieces : List (List Char)}
      (hb : isBlank b = true) (rest : Spaced cs pieces) :
      Spaced (piece ++ b :: cs) (piece :: pieces)

/-- The text is the given words in order, with blanks around them. -/
def Spells (text : String) (words : List String) : Prop :=
  Spaced text.toList (words.map String.toList)

theorem IsWord.reverse {cs : List Char} (h : IsWord cs) : IsWord cs.reverse :=
  ⟨mt List.reverse_eq_nil_iff.mp h.1, fun c hc => h.2 c (List.mem_reverse.mp hc)⟩

/-! ## Blanks at the ends -/

/-- `text` is `raw` without the blanks at either end: only blanks stand around it there, and it neither
starts nor ends with one. -/
def Trims (raw text : String) : Prop :=
  ∃ before after : List Char, raw.toList = before ++ (text.toList ++ after) ∧
    (∀ c ∈ before, isBlank c = true) ∧ (∀ c ∈ after, isBlank c = true) ∧
    (∀ c ∈ text.toList.head?, isBlank c = false) ∧ ∀ c ∈ text.toList.getLast?, isBlank c = false

theorem dropWhile_of_head? {cs : List Char} (h : ∀ c ∈ cs.head?, isBlank c = false) :
    cs.dropWhile isBlank = cs := by
  cases cs with
  | nil => rfl
  | cons c cs => rw [List.dropWhile_cons_of_neg (by simp [h c rfl])]

theorem isBlank_of_head?_dropWhile {cs : List Char} {c : Char}
    (h : c ∈ (cs.dropWhile isBlank).head?) : isBlank c = false := by
  have hnot := List.head?_dropWhile_not isBlank cs
  rw [Option.mem_def.mp h] at hnot
  exact hnot

theorem trims_trim (raw : String) : Trims raw (trim raw) := by
  let front := raw.toList.dropWhile isBlank
  let back := front.reverse.dropWhile isBlank
  have hback : (front.reverse.takeWhile isBlank ++ back).reverse = front := by
    rw [List.takeWhile_append_dropWhile, List.reverse_reverse]
  have htext : (trim raw).toList = back.reverse := by
    rw [trim, trimChars, String.toList_ofList]
  refine ⟨raw.toList.takeWhile isBlank, (front.reverse.takeWhile isBlank).reverse, ?_,
    fun c hc => List.mem_takeWhile_imp hc,
    fun c hc => List.mem_takeWhile_imp (List.mem_reverse.mp hc), fun c hc => ?_, fun c hc => ?_⟩
  · rw [htext, ← List.reverse_append, hback, List.takeWhile_append_dropWhile]
  · rw [htext] at hc
    have hfront : c ∈ front.head? := by
      rw [← hback, List.reverse_append, List.head?_append, Option.mem_def.mp hc]
      rfl
    exact isBlank_of_head?_dropWhile hfront
  · rw [htext, List.getLast?_reverse] at hc
    exact isBlank_of_head?_dropWhile hc

theorem trim_eq_iff {raw text : String} : trim raw = text ↔ Trims raw text := by
  constructor
  · rintro rfl
    exact trims_trim raw
  · rintro ⟨before, after, hraw, hbefore, hafter, hhead, hlast⟩
    have hfront : raw.toList.dropWhile isBlank = (text.toList ++ after).dropWhile isBlank := by
      rw [hraw, List.dropWhile_append_of_pos hbefore]
    have hback : ((text.toList ++ after).dropWhile isBlank).reverse.dropWhile isBlank =
        text.toList.reverse := by
      cases hchars : text.toList with
      | nil =>
          rw [List.nil_append, List.dropWhile_eq_nil_iff.mpr hafter]
          rfl
      | cons c cs =>
          rw [hchars] at hhead hlast
          have hkeep : (c :: cs ++ after).dropWhile isBlank = c :: cs ++ after :=
            dropWhile_of_head? fun d hd => hhead d hd
          rw [hkeep, List.reverse_append,
            List.dropWhile_append_of_pos fun d hd => hafter d (List.mem_reverse.mp hd)]
          refine dropWhile_of_head? fun d hd => hlast d ?_
          rwa [List.head?_reverse] at hd
    rw [trim, trimChars, hfront, hback, List.reverse_reverse, String.ofList_toList]

/-- Where there are no blanks, none are dropped. -/
theorem trim_of_unbroken {s : String} (h : Unbroken s.toList) : trim s = s :=
  trim_eq_iff.mpr ⟨[], [], by simp, nofun, nofun, fun c hc => h c (List.mem_of_mem_head? hc),
    fun c hc => h c (List.mem_of_mem_getLast? hc)⟩

/-! ## Words -/

theorem wordsFrom_of_unbroken {cs : List Char} (h : Unbroken cs) (word : List Char) :
    wordsFrom word cs = if (word.reverse ++ cs).isEmpty then [] else [word.reverse ++ cs] := by
  induction cs generalizing word with
  | nil => simp [wordsFrom]
  | cons c cs ih =>
    have hc : isBlank c = false := h c List.mem_cons_self
    rw [wordsFrom, hc, if_neg Bool.false_ne_true, ih fun d hd => h d (List.mem_cons_of_mem c hd)]
    simp

theorem wordsFrom_of_isWord {cs : List Char} (h : IsWord cs) : wordsFrom [] cs = [cs] := by
  rw [wordsFrom_of_unbroken h.2]
  simp [h.1]

theorem wordsFrom_of_spaced {cs : List Char} {pieces : List (List Char)} (h : Spaced cs pieces)
    (hwords : ∀ piece ∈ pieces, IsWord piece) : wordsFrom [] cs = pieces := by
  induction h with
  | nil => rfl
  | blank hb _ ih =>
    rw [wordsFrom, if_pos hb]
    exact ih hwords
  | last piece => exact wordsFrom_of_isWord (hwords piece List.mem_cons_self)
  | cons piece hb _ ih =>
    rw [wordsFrom_append_blank hb, wordsFrom_of_isWord (hwords piece List.mem_cons_self),
      ih fun other hother => hwords other (List.mem_cons_of_mem piece hother)]
    rfl

/-- Behind a word under way, `word`, the words that are cut are those of the whole. -/
theorem spaced_wordsFrom {word : List Char} (h : Unbroken word) (cs : List Char) :
    Spaced (word.reverse ++ cs) (wordsFrom word cs) ∧
      ∀ piece ∈ wordsFrom word cs, IsWord piece := by
  induction cs generalizing word with
  | nil =>
    cases word with
    | nil => exact ⟨.nil, nofun⟩
    | cons d word =>
      have hword : IsWord (d :: word).reverse := IsWord.reverse ⟨List.cons_ne_nil d word, h⟩
      rw [List.append_nil]
      exact ⟨.last _, List.forall_mem_singleton.mpr hword⟩
  | cons c cs ih =>
    by_cases hc : isBlank c = true
    -- a blank ends the word under way, if there is one
    · obtain ⟨hspaced, hwords⟩ := @ih [] nofun
      rw [wordsFrom, if_pos hc]
      cases word with
      | nil => exact ⟨.blank hc hspaced, hwords⟩
      | cons d word =>
        have hword : IsWord (d :: word).reverse := IsWord.reverse ⟨List.cons_ne_nil d word, h⟩
        exact ⟨.cons _ hc hspaced, List.forall_mem_cons.mpr ⟨hword, hwords⟩⟩
    · have hword : Unbroken (c :: word) :=
        List.forall_mem_cons.mpr ⟨Bool.eq_false_iff.mpr hc, h⟩
      rw [wordsFrom, if_neg hc]
      simpa using ih hword

/-- A text is cut into the words that it spells, and these are the only words that it spells. -/
theorem words_eq_iff {text : String} {ws : List String} :
    words text = ws ↔ Spells text ws ∧ ∀ word ∈ ws, IsWord word.toList := by
  have hmap : (words text).map String.toList = wordsFrom [] text.toList := by
    simp [words]
  constructor
  · rintro rfl
    obtain ⟨hspaced, hwords⟩ := @spaced_wordsFrom [] nofun text.toList
    rw [Spells, hmap]
    refine ⟨hspaced, fun word hword => hwords _ ?_⟩
    rw [← hmap]
    exact List.mem_map_of_mem hword
  · rintro ⟨hspells, hwords⟩
    have hcut := wordsFrom_of_spaced hspells (List.forall_mem_map.mpr hwords)
    rw [words, hcut, List.map_map]
    simp [Function.comp_def]

/-- Behind a blank, a text is cut on its own. -/
theorem words_push_append {b : Char} (hb : isBlank b = true) (text more : String) :
    words (text.push b ++ more) = words text ++ words more := by
  have hlist : (text.push b ++ more).toList = text.toList ++ b :: more.toList := by simp
  rw [words, hlist, wordsFrom_append_blank hb, List.map_append, words, words]

/-! ## Numbers are words -/

/-- The characters from `!` to `~` are not blank. -/
theorem isBlank_of_visible {c : Char} (hlow : 0x21 ≤ c.toNat) (hhigh : c.toNat ≤ 0x7E) :
    isBlank c = false := by
  simp only [isBlank, blankRanges, List.any_cons, List.any_nil, Bool.or_false, Bool.or_eq_false_iff,
    Bool.and_eq_false_iff, decide_eq_false_iff_not]
  omega

theorem isBlank_of_isDigit {c : Char} (h : c.isDigit = true) : isBlank c = false := by
  simp only [Char.isDigit, Bool.and_eq_true, decide_eq_true_eq, UInt32.le_iff_toNat_le] at h
  have hlow : 0x30 ≤ c.toNat := h.1
  have hhigh : c.toNat ≤ 0x39 := h.2
  exact isBlank_of_visible (by omega) (by omega)

/-- Only letters, which are not blank, have another lower case. -/
theorem isBlank_of_toLower {c : Char} (h : isBlank c.toLower = false) : isBlank c = false := by
  unfold Char.toLower at h
  split at h
  · next hupper =>
    simp only [ge_iff_le, UInt32.le_iff_toNat_le] at hupper
    have hlow : 0x41 ≤ c.toNat := hupper.1
    have hhigh : c.toNat ≤ 0x5A := hupper.2
    exact isBlank_of_visible (by omega) (by omega)
  · exact h

theorem unbroken_of_digits {cs : List Char} (h : ∀ c ∈ cs, c.isDigit = true) : Unbroken cs :=
  fun c hc => isBlank_of_isDigit (h c hc)

theorem Unbroken.cons {c : Char} {cs : List Char} (hc : isBlank c = false) (h : Unbroken cs) :
    Unbroken (c :: cs) :=
  List.forall_mem_cons.mpr ⟨hc, h⟩

theorem Unbroken.append {cs ds : List Char} (hc : Unbroken cs) (hd : Unbroken ds) :
    Unbroken (cs ++ ds) :=
  List.forall_mem_append.mpr ⟨hc, hd⟩

theorem le_foldl_digits (cs : List Char) (sofar : Nat) :
    sofar ≤ cs.foldl (fun n c => n * 10 + digitValue c) sofar := by
  induction cs generalizing sofar with
  | nil => exact Nat.le_refl _
  | cons c cs ih =>
    have hnext := ih (sofar * 10 + digitValue c)
    rw [List.foldl_cons]
    omega

/-- Digits are taken one by one, but what is asked of them is asked of the whole: a number that is too
large stays so whatever follows. -/
theorem readDigits_eq_ok_iff {limit sofar n : Nat} {cs : List Char} (hsofar : sofar < limit) :
    readDigits limit sofar cs = .ok n ↔ (∀ c ∈ cs, c.isDigit = true) ∧
      cs.foldl (fun n c => n * 10 + digitValue c) sofar = n ∧ n < limit := by
  induction cs generalizing sofar with
  | nil =>
    rw [readDigits, Except.ok.injEq]
    constructor
    · rintro rfl
      exact ⟨nofun, rfl, hsofar⟩
    · exact fun h => h.2.1
  | cons c cs ih =>
    rw [readDigits, List.forall_mem_cons, List.foldl_cons]
    by_cases hc : c.isDigit = true
    · rw [if_pos hc]
      by_cases hnext : sofar * 10 + digitValue c < limit
      · simp only [if_pos hnext, ih hnext, hc, true_and]
      · have hle := le_foldl_digits cs (sofar * 10 + digitValue c)
        simp only [if_neg hnext]
        refine ⟨nofun, ?_⟩
        rintro ⟨-, rfl, hlt⟩
        omega
    · rw [if_neg hc]
      exact ⟨nofun, fun h => absurd h.1.1 hc⟩

/-- The text writes `n` in base ten: at least one digit, and at most one plus sign in front. -/
def WritesWhole (text : String) (n : Nat) : Prop :=
  ∃ digits : List Char, digits ≠ [] ∧ (text.toList = digits ∨ text.toList = '+' :: digits) ∧
    (∀ c ∈ digits, c.isDigit = true) ∧ Decimal.ofDigits digits = n

theorem WritesWhole.isWord {text : String} {n : Nat} (h : WritesWhole text n) :
    IsWord text.toList := by
  obtain ⟨digits, hne, heq | heq, hdigits, -⟩ := h
  · rw [heq]
    exact ⟨hne, unbroken_of_digits hdigits⟩
  · rw [heq]
    exact ⟨List.cons_ne_nil _ _, .cons (by decide) (unbroken_of_digits hdigits)⟩

theorem readDigits_map_eq_ok_iff {cs : List Char} {n : UInt64} :
    (readDigits UInt64.size 0 cs).map Nat.toUInt64 = .ok n ↔
      (∀ c ∈ cs, c.isDigit = true) ∧ Decimal.ofDigits cs = n.toNat := by
  have hiff (k : Nat) : readDigits UInt64.size 0 cs = .ok k ↔
      (∀ c ∈ cs, c.isDigit = true) ∧ Decimal.ofDigits cs = k ∧ k < UInt64.size :=
    readDigits_eq_ok_iff (by decide)
  constructor
  · intro h
    cases hread : readDigits UInt64.size 0 cs with
    | error e =>
      rw [hread] at h
      cases h
    | ok k =>
      rw [hread] at h
      cases h
      obtain ⟨hcs, hvalue, hlt⟩ := (hiff k).mp hread
      exact ⟨hcs, hvalue.trans (UInt64.toNat_ofNat_of_lt hlt).symm⟩
  · rintro ⟨hcs, hvalue⟩
    rw [(hiff n.toNat).mpr ⟨hcs, hvalue, n.toNat_lt⟩]
    exact congrArg Except.ok (UInt64.ofNat_toNat)

theorem readUInt64_eq_ok_iff {text : String} {n : UInt64} :
    readUInt64 text = .ok n ↔ WritesWhole text n.toNat := by
  have hplus : ¬Char.isDigit '+' = true := by decide
  unfold readUInt64
  split
  · next heq =>
    refine ⟨nofun, ?_⟩
    rintro ⟨digits, hne, h | h, -⟩
    · exact absurd (h.symm.trans heq) hne
    · cases heq.symm.trans h
  · next heq =>
    refine ⟨nofun, ?_⟩
    rintro ⟨digits, hne, h | h, hdigits, -⟩
    · cases heq.symm.trans h
      exact absurd (hdigits '+' List.mem_cons_self) hplus
    · cases heq.symm.trans h
      exact absurd rfl hne
  · next cs hcs heq =>
    rw [readDigits_map_eq_ok_iff]
    constructor
    · rintro ⟨hdigits, hvalue⟩
      exact ⟨cs, fun h => hcs (by rw [h]), .inr heq, hdigits, hvalue⟩
    · rintro ⟨digits, -, h | h, hdigits, hvalue⟩
      · cases heq.symm.trans h
        exact absurd (hdigits '+' List.mem_cons_self) hplus
      · cases heq.symm.trans h
        exact ⟨hdigits, hvalue⟩
  · next hnil _ hplain =>
    rw [readDigits_map_eq_ok_iff]
    constructor
    · rintro ⟨hdigits, hvalue⟩
      exact ⟨text.toList, hnil, .inl rfl, hdigits, hvalue⟩
    · rintro ⟨digits, -, rfl | h, hdigits, hvalue⟩
      · exact ⟨hdigits, hvalue⟩
      · exact absurd h (hplain digits)

theorem isWord_of_readUInt64 {word : String} {n : UInt64} (h : readUInt64 word = .ok n) :
    IsWord word.toList :=
  (readUInt64_eq_ok_iff.mp h).isWord

end Text

namespace Decimal

open Text

theorem unbroken_of_splitSign {cs : List Char} (h : Unbroken (splitSign cs).2) : Unbroken cs := by
  unfold splitSign at h
  split at h
  · exact .cons (by decide) h
  · exact .cons (by decide) h
  · exact h

theorem unbroken_of_readExponent? {cs : List Char} {e : Int} (h : readExponent? cs = some e) :
    Unbroken cs := by
  unfold readExponent? at h
  split at h
  · exact nofun
  · next c cs =>
    split at h
    · next hmark =>
      have hc : isBlank c = false := by
        rcases Bool.or_eq_true_iff.mp hmark with hmark | hmark <;>
          rw [of_decide_eq_true hmark] <;> decide
      refine .cons hc (unbroken_of_splitSign ?_)
      simp only at h
      split at h
      · cases h
      · next hdigits =>
        simp only [Bool.or_eq_true, Bool.not_eq_true', not_or, Bool.not_eq_false] at hdigits
        exact unbroken_of_digits (List.all_eq_true.mp hdigits.2)
    · cases h

theorem unbroken_takeWhile_digits (cs : List Char) : Unbroken (cs.takeWhile Char.isDigit) :=
  unbroken_of_digits fun _ hc => List.mem_takeWhile_imp hc

theorem unbroken_of_dropWhile_digits {cs : List Char}
    (h : Unbroken (cs.dropWhile Char.isDigit)) : Unbroken cs := by
  rw [← List.takeWhile_append_dropWhile (p := Char.isDigit) (l := cs)]
  exact (unbroken_takeWhile_digits cs).append h

theorem unbroken_of_readDecimal? {cs : List Char} {number : List Char × Int}
    (h : readDecimal? cs = some number) : Unbroken cs := by
  apply unbroken_of_dropWhile_digits
  simp only [readDecimal?] at h
  split at h
  · next ds heq =>
    split at h
    · cases h
    · obtain ⟨e, he, -⟩ := Option.map_eq_some_iff.mp h
      rw [heq]
      exact .cons (by decide) (unbroken_of_dropWhile_digits (unbroken_of_readExponent? he))
  · split at h
    · cases h
    · obtain ⟨e, he, -⟩ := Option.map_eq_some_iff.mp h
      exact unbroken_of_readExponent? he

theorem unbroken_of_map_toLower {cs : List Char} {word : String}
    (h : String.ofList (cs.map Char.toLower) = word) (hword : Unbroken word.toList) :
    Unbroken cs := by
  subst h
  intro c hc
  have hmem : c.toLower ∈ (String.ofList (cs.map Char.toLower)).toList := by
    rw [String.toList_ofList]
    exact List.mem_map_of_mem hc
  exact isBlank_of_toLower (hword _ hmem)

theorem unbroken_of_readUnsigned? {cs : List Char} {x : Float} (h : readUnsigned? cs = some x) :
    Unbroken cs := by
  simp only [readUnsigned?] at h
  split at h
  · next hinf =>
    rcases Bool.or_eq_true_iff.mp hinf with hinf | hinf
    · exact unbroken_of_map_toLower (of_decide_eq_true hinf) (by decide)
    · exact unbroken_of_map_toLower (of_decide_eq_true hinf) (by decide)
  · split at h
    · next hnan => exact unbroken_of_map_toLower hnan (by decide)
    · obtain ⟨number, hnumber, -⟩ := Option.map_eq_some_iff.mp h
      exact unbroken_of_readDecimal? hnumber

theorem isWord_of_read {word : String} {x : Float} (h : read word = .ok x) :
    IsWord word.toList := by
  unfold read at h
  split at h
  · cases h
  · next hne =>
    simp only at h
    split at h
    · next y hy => exact ⟨hne, unbroken_of_splitSign (unbroken_of_readUnsigned? hy)⟩
    · cases h

end Decimal

end Placement
