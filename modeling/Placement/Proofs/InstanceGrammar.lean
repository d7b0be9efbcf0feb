import Mathlib.Data.List.Forall2
import Placement.Proofs.SpacedWords
import Placement.Suite.InstanceText

/-!
# The grammar of instances in text

Which texts are instances can be said of their words at once: a side, and behind it at least two
squares of numbers (`Grammatical`). The reader goes about it in turns. It takes words off for one
matrix and then for the other, gives up at the first fault, and counts only when a part has been read.
Nothing of this order shows in what it accepts. Of the two matrices, each entry is read from a place
of its own among the words (`Fills`), and these places are fixed by the side alone.
-/

namespace Placement

section Except

variable {ε δ α β : Type}

/-- A sequence came to a value only if both its parts did. -/
theorem ok_of_bind {x : Except ε α} {f : α → Except ε β} {b : β} (h : x >>= f = .ok b) :
    ∃ a, x = .ok a ∧ f a = .ok b := by
  cases x with
  | error e => cases h
  | ok a => exact ⟨a, rfl, h⟩

/-- A sequence that failed did so in one of its parts. -/
theorem error_of_bind {x : Except ε α} {f : α → Except ε β} {e : ε} (h : x >>= f = .error e) :
    x = .error e ∨ ∃ a, x = .ok a ∧ f a = .error e := by
  cases x with
  | error e' =>
      cases h
      exact .inl rfl
  | ok a => exact .inr ⟨a, rfl, h⟩

theorem ok_of_mapError {x : Except ε α} {f : ε → δ} {a : α} (h : x.mapError f = .ok a) :
    x = .ok a := by
  cases x with
  | error e => cases h
  | ok b =>
      cases h
      rfl

theorem error_of_mapError {x : Except ε α} {f : ε → δ} {d : δ} (h : x.mapError f = .error d) :
    ∃ e, x = .error e ∧ f e = d := by
  cases x with
  | error e =>
      cases h
      exact ⟨e, rfl, rfl⟩
  | ok b => cases h

end Except

namespace InstanceText

/-! ## What the words say -/

/-- The first word is the side `n`, which is not zero, and 64 bits can count a square of that side. -/
structure Opens (words : List String) (n : Nat) : Prop where
  side : ∃ first side, words.head? = some first ∧ Text.readUInt64 first = .ok side ∧ side.toNat = n
  pos : 1 ≤ n
  fits : n * n < UInt64.size

/-- Behind the side `n` stand two squares of numbers. What follows them is free. -/
structure Grammatical (words : List String) (n : Nat) : Prop extends Opens words n where
  enough : 2 * (n * n) ≤ words.tail.length
  numbers : ∀ word ∈ words.tail.take (2 * (n * n)), ∃ x, Decimal.read word = .ok x

/-- The matrix has side `n`, and its entries are read row by row from the words that begin at
`start`. -/
structure Fills (words : List String) (start n : Nat) (m : Matrix Float) : Prop where
  dim_eq : m.dim = (n, n)
  entry : ∀ i < n, ∀ j < n, ∃ word x, words[start + (i * n + j)]? = some word ∧
    Decimal.read word = .ok x ∧ m.get? i j = some x

/-! ## Squares of words -/

section Square

variable {words : List String} {start n : Nat} {m : Matrix Float}

/-- The cells of a square are its places in row order. -/
theorem forall_cells {P : Nat → Prop} :
    (∀ i < n, ∀ j < n, P (i * n + j)) ↔ ∀ k < n * n, P k := by
  constructor
  · intro h k hk
    have hn : 0 < n := Nat.pos_of_mul_pos_left (Nat.zero_lt_of_lt hk)
    have hcell := h (k / n) (Nat.div_lt_of_lt_mul hk) (k % n) (Nat.mod_lt k hn)
    rwa [Nat.div_add_mod'] at hcell
  · intro h i hi j hj
    exact h _ (Matrix.index_lt hi hj)

theorem fills_iff : Fills words start n m ↔ m.dim = (n, n) ∧ ∀ k < n * n, ∃ word x,
    words[start + k]? = some word ∧ Decimal.read word = .ok x ∧ m.values[k]? = some x := by
  rw [← forall_cells]
  constructor
  · rintro ⟨hdim, hentry⟩
    have hcols : m.cols = n := congrArg Prod.snd hdim
    simp only [Matrix.get?, Matrix.place, hcols] at hentry
    exact ⟨hdim, hentry⟩
  · rintro ⟨hdim, hentry⟩
    have hcols : m.cols = n := congrArg Prod.snd hdim
    refine ⟨hdim, ?_⟩
    simp only [Matrix.get?, Matrix.place, hcols]
    exact hentry

theorem getElem?_square (words : List String) (start : Nat) {count k : Nat} (hk : k < count) :
    ((words.drop start).take count)[k]? = words[start + k]? := by
  rw [List.getElem?_take_of_lt hk, List.getElem?_drop]

theorem length_square {count : Nat}
    (h : ∀ k < count, ∃ word, words[start + k]? = some word) :
    ((words.drop start).take count).length = count := by
  rw [List.length_take, List.length_drop]
  rcases Nat.eq_zero_or_pos count with rfl | hpos
  · simp
  · obtain ⟨word, hword⟩ := h (count - 1) (by omega)
    have hlast := (List.getElem?_eq_some_iff.mp hword).1
    omega

theorem forall₂_square_iff {xs : List Float} {count : Nat} (hxs : xs.length = count) :
    List.Forall₂ (fun word x => Decimal.read word = .ok x) ((words.drop start).take count) xs ↔
      ∀ k < count, ∃ word x,
        words[start + k]? = some word ∧ Decimal.read word = .ok x ∧ xs[k]? = some x := by
  constructor
  · intro h k hk
    have hx : k < xs.length := by omega
    have hword : k < ((words.drop start).take count).length := h.length_eq ▸ hx
    refine ⟨_, _, ?_, h.get hword hx, List.getElem?_eq_getElem hx⟩
    rw [← getElem?_square words start hk]
    exact List.getElem?_eq_getElem hword
  · intro h
    have hlen : ((words.drop start).take count).length = count := length_square fun k hk => by
      obtain ⟨word, x, hword, -, -⟩ := h k hk
      exact ⟨word, hword⟩
    refine List.forall₂_iff_get.mpr ⟨hlen.trans hxs.symm, fun k hk hx => ?_⟩
    have hkc : k < count := by omega
    obtain ⟨word, x, hword, hread, hxk⟩ := h k hkc
    rw [← getElem?_square words start hkc] at hword
    rw [List.get_eq_getElem, List.get_eq_getElem, (List.getElem_eq_iff hk).mpr hword,
      (List.getElem_eq_iff hx).mpr hxk]
    exact hread

theorem mapM_readEntry_eq_ok_iff (part : Part) {xs : List Float} :
    words.mapM (readEntry part) = .ok xs ↔
      List.Forall₂ (fun word x => Decimal.read word = .ok x) words xs := by
  induction words generalizing xs with
  | nil =>
    rw [List.mapM_nil, List.forall₂_nil_left_iff]
    exact ⟨fun h => by cases h; rfl, fun h => by rw [h]; rfl⟩
  | cons word words ih =>
    rw [List.mapM_cons, List.forall₂_cons_left_iff]
    constructor
    · intro h
      obtain ⟨x, hx, hrest⟩ := ok_of_bind h
      obtain ⟨xs, hxs, hcons⟩ := ok_of_bind hrest
      cases hcons
      exact ⟨x, xs, ok_of_mapError hx, ih.mp hxs, rfl⟩
    · rintro ⟨x, xs, hx, hxs, rfl⟩
      rw [readEntry, hx, ih.mpr hxs]
      rfl

theorem length_values_of_dim (hdim : m.dim = (n, n)) : m.values.toList.length = n * n := by
  rw [Array.length_toList, Matrix.size_of_dim hdim]

/-- Words fill a matrix exactly if its entries are what they read as, in order. -/
theorem mapM_square_eq_ok_iff (part : Part) (hdim : m.dim = (n, n)) :
    ((words.drop start).take (n * n)).mapM (readEntry part) = .ok m.values.toList ↔
      Fills words start n m := by
  rw [mapM_readEntry_eq_ok_iff, forall₂_square_iff (length_values_of_dim hdim), fills_iff]
  simp only [hdim, Array.getElem?_toList, true_and]

/-- A part is read from the words that fill it. -/
theorem readPart_eq_ok_iff {part : Part} (hfits : n * n < UInt64.size) :
    readPart part n (words.drop start) = .ok m ↔ Fills words start n m := by
  constructor
  · intro h
    obtain ⟨entries, hentries, hmade⟩ := ok_of_bind h
    split at hmade
    · obtain ⟨-, hdim, hvalues⟩ := Matrix.ofValues_eq_ok_iff.mp (ok_of_mapError hmade)
      have hlist : m.values.toList = entries := congrArg Array.toList hvalues
      exact (mapM_square_eq_ok_iff part hdim).mp (hlist ▸ hentries)
    · cases hmade
  · intro h
    have hmade : Matrix.square n m.values.toList.toArray = .ok m :=
      Matrix.ofValues_eq_ok_iff.mpr ⟨hfits, h.dim_eq, rfl⟩
    rw [readPart, (mapM_square_eq_ok_iff part h.dim_eq).mpr h]
    simp only [bind, Except.bind, if_pos (length_values_of_dim h.dim_eq), hmade]
    rfl

theorem exists_forall₂_read (h : ∀ word ∈ words, ∃ x, Decimal.read word = .ok x) :
    ∃ xs, List.Forall₂ (fun word x => Decimal.read word = .ok x) words xs := by
  induction words with
  | nil => exact ⟨[], .nil⟩
  | cons word words ih =>
    obtain ⟨⟨x, hx⟩, hrest⟩ := List.forall_mem_cons.mp h
    obtain ⟨xs, hxs⟩ := ih hrest
    exact ⟨x :: xs, .cons hx hxs⟩

/-- There is a matrix to fill exactly if there are enough words and all of them are numbers. -/
theorem exists_fills_iff (hn : 1 ≤ n) : (∃ m, Fills words start n m) ↔
    start + n * n ≤ words.length ∧
      ∀ word ∈ (words.drop start).take (n * n), ∃ x, Decimal.read word = .ok x := by
  have hpos : 0 < n * n := Nat.mul_pos hn hn
  constructor
  · rintro ⟨m, hm⟩
    obtain ⟨-, hread⟩ := fills_iff.mp hm
    constructor
    -- the last entry has a word, so all places before it are there as well
    · obtain ⟨word, x, hword, -, -⟩ := hread (n * n - 1) (by omega)
      have hlast := (List.getElem?_eq_some_iff.mp hword).1
      omega
    · intro word hword
      obtain ⟨k, hk, rfl⟩ := List.mem_iff_getElem.mp hword
      have hkn : k < n * n := by
        rw [List.length_take] at hk
        omega
      obtain ⟨other, x, hother, hx, -⟩ := hread k hkn
      rw [← getElem?_square words start hkn, List.getElem?_eq_getElem hk] at hother
      cases hother
      exact ⟨x, hx⟩
  · rintro ⟨hlen, hnumbers⟩
    obtain ⟨xs, hxs⟩ := exists_forall₂_read hnumbers
    have hcount : xs.length = n * n := by
      rw [← hxs.length_eq, List.length_take, List.length_drop]
      omega
    exact ⟨⟨n, n, xs.toArray, hcount⟩,
      (mapM_square_eq_ok_iff .distance rfl).mp ((mapM_readEntry_eq_ok_iff .distance).mpr hxs)⟩

end Square

/-! ## What is read -/

variable {words : List String} {n : Nat}

theorem readSide_eq_ok_iff {word : String} : readSide word = .ok n ↔
    (∃ side, Text.readUInt64 word = .ok side ∧ side.toNat = n) ∧ 1 ≤ n ∧ n * n < UInt64.size := by
  unfold readSide
  cases Text.readUInt64 word with
  | error e => simp
  | ok side =>
    have hzero : side = 0 ↔ side.toNat = 0 := UInt64.toNat_inj.symm
    simp only [hzero]
    split
    · next h0 =>
      refine ⟨nofun, ?_⟩
      rintro ⟨⟨_, ⟨⟩, rfl⟩, hpos, -⟩
      omega
    · split
      · next hlarge =>
        refine ⟨nofun, ?_⟩
        rintro ⟨⟨_, ⟨⟩, rfl⟩, -, hfits⟩
        omega
      · constructor
        · intro h
          cases h
          exact ⟨⟨side, rfl, rfl⟩, by omega, by omega⟩
        · rintro ⟨⟨_, ⟨⟩, rfl⟩, -, -⟩
          rfl

theorem opens_cons_iff {first : String} : Opens (first :: words) n ↔ readSide first = .ok n := by
  rw [readSide_eq_ok_iff]
  constructor
  · rintro ⟨⟨_, side, ⟨⟩, hread, hside⟩, hpos, hfits⟩
    exact ⟨⟨side, hread, hside⟩, hpos, hfits⟩
  · rintro ⟨⟨side, hread, hside⟩, hpos, hfits⟩
    exact ⟨⟨first, side, rfl, hread, hside⟩, hpos, hfits⟩

theorem ofWords_eq_ok_iff {distance flow : Matrix Float} : ofWords words = .ok (distance, flow) ↔
    ∃ n, Opens words n ∧ Fills words.tail 0 n distance ∧ Fills words.tail (n * n) n flow := by
  cases words with
  | nil =>
    refine ⟨nofun, ?_⟩
    rintro ⟨n, ⟨⟨_, _, ⟨⟩, _⟩, _, _⟩, _⟩
  | cons first words =>
    constructor
    · intro h
      obtain ⟨n, hside, hrest⟩ := ok_of_bind h
      obtain ⟨d, hd, hrest⟩ := ok_of_bind hrest
      obtain ⟨f, hf, hpair⟩ := ok_of_bind hrest
      cases hpair
      have hopens : Opens (first :: words) n := opens_cons_iff.mpr hside
      exact ⟨n, hopens, (readPart_eq_ok_iff hopens.fits).mp hd,
        (readPart_eq_ok_iff hopens.fits).mp hf⟩
    · rintro ⟨n, hopens, hd, hf⟩
      have hdistance : readPart .distance n words = .ok distance :=
        (readPart_eq_ok_iff hopens.fits).mpr hd
      have hflow : readPart .flow n (words.drop (n * n)) = .ok flow :=
        (readPart_eq_ok_iff hopens.fits).mpr hf
      rw [ofWords, opens_cons_iff.mp hopens]
      simp only [bind, Except.bind, hdistance, hflow]
      rfl

theorem parse_eq_ok_iff {text : String} {distance flow : Matrix Float} :
    parse text = .ok (distance, flow) ↔ ∃ n, Opens (Text.words text) n ∧
      Fills (Text.words text).tail 0 n distance ∧ Fills (Text.words text).tail (n * n) n flow := by
  rw [← ofWords_eq_ok_iff]
  constructor
  · exact ok_of_mapError
  · intro h
    rw [parse, h]
    rfl

theorem Opens.unique {k : Nat} (hn : Opens words n) (hk : Opens words k) : n = k := by
  obtain ⟨first, side, hfirst, hread, rfl⟩ := hn.side
  obtain ⟨other, side', hother, hread', rfl⟩ := hk.side
  cases hfirst.symm.trans hother
  cases hread.symm.trans hread'
  rfl

theorem grammatical_iff : Grammatical words n ↔ Opens words n ∧
    (∃ distance, Fills words.tail 0 n distance) ∧ ∃ flow, Fills words.tail (n * n) n flow := by
  have hsplit : words.tail.take (2 * (n * n)) =
      (words.tail.drop 0).take (n * n) ++ (words.tail.drop (n * n)).take (n * n) := by
    rw [Nat.two_mul, List.take_add, List.drop_zero]
  constructor
  · rintro ⟨hopens, henough, hnumbers⟩
    rw [hsplit, List.forall_mem_append] at hnumbers
    exact ⟨hopens, (exists_fills_iff hopens.pos).mpr ⟨by omega, hnumbers.1⟩,
      (exists_fills_iff hopens.pos).mpr ⟨by omega, hnumbers.2⟩⟩
  · rintro ⟨hopens, hdistance, hflow⟩
    obtain ⟨-, hfirst⟩ := (exists_fills_iff hopens.pos).mp hdistance
    obtain ⟨henough, hsecond⟩ := (exists_fills_iff hopens.pos).mp hflow
    refine ⟨hopens, by omega, ?_⟩
    rw [hsplit, List.forall_mem_append]
    exact ⟨hfirst, hsecond⟩

theorem toFailure_of_readSide {word : String} {fault : Fault} (h : readSide word = .error fault) :
    fault.toFailure = .parse fault.message := by
  unfold readSide at h
  split at h
  · cases h
    rfl
  · split at h
    · cases h
      rfl
    · split at h
      · cases h
        rfl
      · cases h

theorem toFailure_of_mapM_readEntry {part : Part} {fault : Fault}
    (h : words.mapM (readEntry part) = .error fault) : fault.toFailure = .parse fault.message := by
  induction words with
  | nil => cases h
  | cons word words ih =>
    rw [List.mapM_cons] at h
    rcases error_of_bind h with hentry | ⟨x, -, hrest⟩
    · obtain ⟨cause, -, rfl⟩ := error_of_mapError hentry
      rfl
    · rcases error_of_bind hrest with hwords | ⟨xs, -, hcons⟩
      · exact ih hwords
      · cases hcons

/-- A part of a side that fits is never misshapen. -/
theorem toFailure_of_readPart {part : Part} {fault : Fault} (hfits : n * n < UInt64.size)
    (h : readPart part n words = .error fault) : fault.toFailure = .parse fault.message := by
  rcases error_of_bind h with hentries | ⟨entries, -, hmade⟩
  · exact toFailure_of_mapM_readEntry hentries
  · split at hmade
    · next hcount =>
      have hsquare : Matrix.square n entries.toArray = .ok ⟨n, n, entries.toArray, hcount⟩ :=
        Matrix.ofValues_eq_ok_iff.mpr ⟨hfits, rfl, rfl⟩
      rw [hsquare] at hmade
      cases hmade
    · cases hmade
      rfl

theorem toFailure_of_ofWords {fault : Fault} (h : ofWords words = .error fault) :
    fault.toFailure = .parse fault.message := by
  cases words with
  | nil =>
    cases h
    rfl
  | cons first words =>
    rcases error_of_bind h with hside | ⟨n, hside, hrest⟩
    · exact toFailure_of_readSide hside
    · obtain ⟨-, -, hfits⟩ := readSide_eq_ok_iff.mp hside
      rcases error_of_bind hrest with hdistance | ⟨d, -, hrest⟩
      · exact toFailure_of_readPart hfits hdistance
      · rcases error_of_bind hrest with hflow | ⟨f, -, hpair⟩
        · exact toFailure_of_readPart hfits hflow
        · cases hpair

/-- A text that is no instance fails as text. -/
theorem exists_parse_eq_error {text : String} (h : ¬ ∃ matrices, parse text = .ok matrices) :
    ∃ message, parse text = .error (.parse message) := by
  unfold parse at h ⊢
  cases hwords : ofWords (Text.words text) with
  | error fault => exact ⟨fault.message, congrArg Except.error (toFailure_of_ofWords hwords)⟩
  | ok matrices =>
    rw [hwords] at h
    exact absurd ⟨matrices, rfl⟩ h

/-- Behind the second matrix nothing is read. -/
theorem ofWords_append (hopens : Opens words n) (henough : 2 * (n * n) ≤ words.tail.length)
    (more : List String) : ofWords (words ++ more) = ofWords words := by
  cases words with
  | nil => exact absurd hopens.side nofun
  | cons first words =>
    have hside := opens_cons_iff.mp hopens
    rw [List.tail_cons] at henough
    have hdistance : (words ++ more).take (n * n) = words.take (n * n) :=
      List.take_append_of_le_length (by omega)
    have hflow : ((words ++ more).drop (n * n)).take (n * n) =
        (words.drop (n * n)).take (n * n) := by
      rw [List.drop_append_of_le_length (by omega), List.take_append_of_le_length]
      rw [List.length_drop]
      omega
    rw [List.cons_append, ofWords, ofWords, hside]
    simp only [bind, Except.bind, readPart, hdistance, hflow]

theorem exists_parse_iff {text : String} :
    (∃ matrices, parse text = .ok matrices) ↔ ∃ n, Grammatical (Text.words text) n := by
  constructor
  · rintro ⟨⟨distance, flow⟩, h⟩
    obtain ⟨n, hopens, hd, hf⟩ := parse_eq_ok_iff.mp h
    exact ⟨n, grammatical_iff.mpr ⟨hopens, ⟨distance, hd⟩, flow, hf⟩⟩
  · rintro ⟨n, h⟩
    obtain ⟨hopens, ⟨distance, hd⟩, flow, hf⟩ := grammatical_iff.mp h
    exact ⟨(distance, flow), parse_eq_ok_iff.mpr ⟨n, hopens, hd, hf⟩⟩

/-- Whatever is written as a side and numbers, with blanks left in any way, is read back. -/
theorem parse_of_spells {text first : String} {distance flow : Matrix Float}
    (hopens : Opens (first :: words) n) (hlen : words.length = 2 * (n * n))
    (hd : Fills words 0 n distance) (hf : Fills words (n * n) n flow)
    (hspells : Text.Spells text (first :: words)) : parse text = .ok (distance, flow) := by
  have hnumbers := (grammatical_iff.mpr ⟨hopens, ⟨distance, hd⟩, flow, hf⟩).numbers
  rw [List.tail_cons, List.take_of_length_le hlen.le] at hnumbers
  have hwords : ∀ word ∈ first :: words, Text.IsWord word.toList := by
    refine List.forall_mem_cons.mpr ⟨?_, fun word hword => ?_⟩
    · obtain ⟨_, side, ⟨⟩, hside, -⟩ := hopens.side
      exact Text.isWord_of_readUInt64 hside
    · obtain ⟨x, hx⟩ := hnumbers word hword
      exact Decimal.isWord_of_read hx
  have hcut : Text.words text = first :: words := Text.words_eq_iff.mpr ⟨hspells, hwords⟩
  refine parse_eq_ok_iff.mpr ⟨n, ?_⟩
  rw [hcut]
  exact ⟨hopens, hd, hf⟩

/-- The reader accepts the texts of the grammar and no others, and every entry has its place among
the words. Layout is free, and so is what follows the second matrix. -/
theorem parse_follows_grammar (text : String) :
    ((∃ matrices, parse text = .ok matrices) ↔ ∃ n, Grammatical (Text.words text) n) ∧
    (∀ n distance flow, Opens (Text.words text) n → parse text = .ok (distance, flow) →
      Fills (Text.words text).tail 0 n distance ∧ Fills (Text.words text).tail (n * n) n flow) ∧
    ((¬ ∃ n, Grammatical (Text.words text) n) → ∃ message, parse text = .error (.parse message)) ∧
    (∀ other words, (∀ word ∈ words, Text.IsWord word.toList) → Text.Spells text words →
      Text.Spells other words → parse other = parse text) ∧
    (∀ n b more, Opens (Text.words text) n → 2 * (n * n) ≤ (Text.words text).tail.length →
      Text.isBlank b = true → parse (text.push b ++ more) = parse text) ∧
    (∀ n side first words distance flow, Text.readUInt64 first = .ok side → side.toNat = n → 1 ≤ n →
      Matrix.square n distance.values = .ok distance → words.length = 2 * (n * n) →
      Fills words 0 n distance → Fills words (n * n) n flow → Text.Spells text (first :: words) →
      parse text = .ok (distance, flow)) := by
  refine ⟨exists_parse_iff, ?_, ?_, ?_, ?_, ?_⟩
  · intro n distance flow hopens h
    obtain ⟨k, hk, hd, hf⟩ := parse_eq_ok_iff.mp h
    cases hopens.unique hk
    exact ⟨hd, hf⟩
  · intro h
    exact exists_parse_eq_error (mt exists_parse_iff.mp h)
  · intro other words hwords htext hother
    rw [parse, parse, Text.words_eq_iff.mpr ⟨htext, hwords⟩, Text.words_eq_iff.mpr ⟨hother, hwords⟩]
  · intro n b more hopens henough hb
    rw [parse, parse, Text.words_push_append hb, ofWords_append hopens henough]
  · intro n side first words distance flow hread hside hpos hmade hlen hd hf hspells
    obtain ⟨hfits, -, -⟩ := Matrix.ofValues_eq_ok_iff.mp hmade
    exact parse_of_spells ⟨⟨first, side, rfl, hread, hside⟩, hpos, hfits⟩ hlen hd hf hspells

/-- A text of two slots, its words, and its words on one line. -/
def pairText : String := "2\n\n0 1\n1 0\n\n0 5\n-6.5 0"

def pairWords : List String := ["0", "1", "1", "0", "0", "5", "-6.5", "0"]

def pairLine : String := "2 0 1 1 0 0 5 -6.5 0"

theorem parse_follows_grammar_pair :
    Grammatical (Text.words pairText) 2 ∧
    parse pairText =
      .ok (⟨2, 2, #[0, 1, 1, 0], rfl⟩, ⟨2, 2, #[0, 5, -6.5, 0], rfl⟩) ∧
    Fills pairWords 4 2 ⟨2, 2, #[0, 5, -6.5, 0], rfl⟩ ∧
    parse pairLine = parse pairText ∧
    parse (pairText.push '\n' ++ "two slots") = parse pairText ∧
    ∃ message, parse "2 0 1 1 0 0 5" = .error (.parse message) := by
  obtain ⟨haccepts, hplaces, -, hlayout, hbehind, hback⟩ := parse_follows_grammar pairText
  have hcut : Text.words pairText = "2" :: pairWords := by decide
  have hline : Text.words pairLine = "2" :: pairWords := by decide
  have hopens : Opens ("2" :: pairWords) 2 :=
    ⟨⟨"2", 2, rfl, by decide, rfl⟩, by decide, by decide⟩
  have hd : Fills pairWords 0 2 ⟨2, 2, #[0, 1, 1, 0], rfl⟩ := by
    refine (mapM_square_eq_ok_iff .distance ?_).mp ?_
    · rfl
    · decide +kernel
  have hf : Fills pairWords 4 2 ⟨2, 2, #[0, 5, -6.5, 0], rfl⟩ := by
    refine (mapM_square_eq_ok_iff .flow ?_).mp ?_
    · rfl
    · decide +kernel
  obtain ⟨hspells, hwords⟩ := Text.words_eq_iff.mp hcut
  have hparse := hback 2 2 "2" pairWords _ _ (by decide) rfl (by decide) rfl rfl hd hf hspells
  rw [hcut] at haccepts hplaces hbehind
  refine ⟨?_, hparse, (hplaces 2 _ _ hopens hparse).2, ?_, ?_, ?_⟩
  · rw [hcut]
    obtain ⟨n, hn⟩ := haccepts.mp ⟨_, hparse⟩
    exact hopens.unique hn.toOpens ▸ hn
  · exact hlayout pairLine _ hwords hspells (Text.words_eq_iff.mp hline).1
  · exact hbehind 2 _ _ hopens (by decide) (by decide)
  · refine (parse_follows_grammar "2 0 1 1 0 0 5").2.2.1 ?_
    rintro ⟨n, hn⟩
    have hshort : Text.words "2 0 1 1 0 0 5" = ["2", "0", "1", "1", "0", "0", "5"] := by decide
    rw [hshort] at hn
    have hside : Opens ["2", "0", "1", "1", "0", "0", "5"] 2 :=
      ⟨⟨"2", 2, rfl, by decide, rfl⟩, by decide, by decide⟩
    cases hside.unique hn.toOpens
    exact absurd hn.enough (by decide)

end InstanceText

end Placement
