import GradidoBlockchain.Lib.HashLookup
import Mathlib.Data.Int.Notation
import Mathlib.Data.List.Basic
import Mathlib.Data.List.TakeWhile

/-!
# Mnemonic word lists

`Mnemonic::init` reads the words of a list from one text and enters them in two
tables: a word whose hash belongs to no other word of the list is found by its
hash alone, and words that share a hash are compared as strings.
-/

namespace Gradido

open HashLookup

/-- The bytes of a string. -/
abbrev Text := List UInt8

/-- The C string in a buffer, up to its first zero. -/
def cString (buffer : Text) : Text := buffer.takeWhile (fun c => decide (c ≠ 0))

theorem cString_of_ne_zero {word : Text} (h : ∀ c ∈ word, c ≠ 0) : cString word = word := by
  unfold cString
  rw [List.takeWhile_eq_self_iff]
  exact fun c hc => decide_eq_true (h c hc)

/-- `DRHashRotateLeft`. -/
def drHashRotateLeft (hash rotateBy : UInt32) : UInt32 :=
  (hash <<< rotateBy) ||| (hash >>> (32 - rotateBy))

/-- `DRMakeStringHash`; a character is a signed number of 8 bits. -/
def drMakeStringHash (string : Text) : UInt32 :=
  string.foldl (fun ret c => drHashRotateLeft ret 7 + c.toInt8.toInt32.toUInt32) 0

/-- `MnemonicException`. -/
structure MnemonicException where
  what : String
  word : Text := []
deriving DecidableEq, Repr

/-- `Mnemonic`, with the words that are set. -/
structure Mnemonic where
  mWords : List Text
  mWordHashIndices : UInt32 → Option ℕ
  mHashCollisionWords : UInt32 → Option (Text → Option ℕ)

namespace Mnemonic

variable (hash : Text → UInt32)

/-- The size of `mWords`. -/
def wordLimit : ℕ := 2048

/-- `Mnemonic::clear`. -/
def empty : Mnemonic := ⟨[], fun _ => none, fun _ => none⟩

/-- The part of `Mnemonic::init` that enters a word. -/
def insertWord (m : Mnemonic) (word : Text) : Except MnemonicException Mnemonic :=
  let cursor := m.mWords.length
  let wordHash := hash word
  match m.mWordHashIndices wordHash with
  | none =>
    .ok { m with
      mWords := m.mWords ++ [word]
      mWordHashIndices := Function.update m.mWordHashIndices wordHash (some cursor) }
  | some first =>
    -- the words with this hash, of which the first is only in the other table
    let collidedWords := (m.mHashCollisionWords wordHash).getD
      (Function.update (fun _ => none) (m.mWords.getD first []) (some first))
    if collidedWords word ≠ none then
      .error { what := "couldn't add new word into mHashCollisionWords entry" }
    else
      .ok { m with
        mWords := m.mWords ++ [word]
        mHashCollisionWords := Function.update m.mHashCollisionWords wordHash
          (some (Function.update collidedWords word (some cursor))) }

/-- The loop of `Mnemonic::init` over the text; `word` is what stands behind `word_begin`. -/
def readWords : Text → Text → Mnemonic → Except MnemonicException Mnemonic
  | [], _, m => .ok m
  | c :: rest, word, m =>
    if wordLimit ≤ m.mWords.length then
      .error { what := "more than 2048 words in word list" }
    -- 44 is the comma; the last word has none behind it
    else if c = 44 ∨ rest = [] then
      match m.insertWord hash (cString (if c = 44 then word else word ++ [c])) with
      | .error e => .error e
      | .ok m => readWords rest [] m
    else readWords rest (word ++ [c]) m

/-- The end of `Mnemonic::init`: hashes of several words are not found in the first table. -/
def eraseCollided (m : Mnemonic) : Mnemonic :=
  { m with
    mWordHashIndices := fun h =>
      if (m.mHashCollisionWords h).isSome then none else m.mWordHashIndices h }

/-- `Mnemonic::init`, with the text that was uncompressed, if it could be. -/
def init (uncompressed : Option Text) (originalSize : ℕ) : Except MnemonicException Mnemonic :=
  match uncompressed with
  | none => .error { what := "couldn't uncompress" }
  | some buffer =>
    if buffer.length ≠ originalSize then .error { what := "uncompressed size don't match" }
    else (readWords hash buffer [] empty).map eraseCollided

/-- `Mnemonic::getWordIndex`. -/
def getWordIndex (m : Mnemonic) (word : Text) : ℤ :=
  match m.mWordHashIndices (hash word) with
  | some i => i
  | none =>
    match m.mHashCollisionWords (hash word) with
    | none => -1
    | some collidedWords =>
      match collidedWords word with
      | some i => i
      | none => -1

/-- `Mnemonic::isWordExist`. -/
def isWordExist (m : Mnemonic) (word : Text) : Bool := decide (m.getWordIndex hash word ≠ -1)

variable {hash}

/-! ### The tables -/

/-- The tables while a list is read: the first word with each hash, and all of them where there
are several. -/
structure Reading (hash : Text → UInt32) (m : Mnemonic) : Prop where
  nodup : m.mWords.Nodup
  first : ∀ h, m.mWordHashIndices h = ((sameHash hash m.mWords h).head?).map Prod.snd
  collided : ∀ h, m.mHashCollisionWords h =
    if (sameHash hash m.mWords h).length < 2 then none
    else some (lookup (sameHash hash m.mWords h))

theorem reading_empty : Reading hash empty where
  nodup := List.nodup_nil
  first _ := rfl
  collided _ := rfl

/-- Words with the hash of a word, as `insertWord` finds them. -/
theorem Reading.collidedWords {m : Mnemonic} (hm : Reading hash m) {h : UInt32} {first : ℕ}
    (hfirst : m.mWordHashIndices h = some first) :
    (m.mHashCollisionWords h).getD
      (Function.update (fun _ => none) (m.mWords.getD first []) (some first)) =
        lookup (sameHash hash m.mWords h) := by
  rw [hm.first] at hfirst
  obtain ⟨⟨word, i⟩, hhead, hi⟩ := Option.map_eq_some_iff.1 hfirst
  dsimp only at hi
  rw [hm.collided]
  split_ifs with hlength
  · -- the only one is the word that the first table names
    have hsingle : sameHash hash m.mWords h = [(word, i)] := by
      cases hl : sameHash hash m.mWords h with
      | nil => simp [hl] at hhead
      | cons p l =>
        rw [hl, List.length_cons] at hlength
        rw [hl, List.head?_cons, Option.some.injEq] at hhead
        rw [hhead, List.eq_nil_of_length_eq_zero (by omega : l.length = 0)]
    have hword : m.mWords[i]? = some word :=
      (mem_sameHash.1 (hsingle ▸ List.mem_singleton_self _)).1
    rw [Option.getD_none, hsingle, lookup_singleton, ← hi, List.getD_eq_getElem?_getD, hword]
    rfl
  · rfl

/-- A new word is entered, and a word of the list is refused. -/
theorem Reading.insertWord {m : Mnemonic} (hm : Reading hash m) (word : Text) :
    if word ∈ m.mWords then ∃ e, m.insertWord hash word = .error e
    else ∃ m', m.insertWord hash word = .ok m' ∧ Reading hash m' ∧
      m'.mWords = m.mWords ++ [word] := by
  have hnodup : word ∉ m.mWords → (m.mWords ++ [word]).Nodup := by
    intro hnew
    rw [List.nodup_append]
    refine ⟨hm.nodup, List.nodup_singleton _, fun a ha b hb hab => hnew ?_⟩
    rw [← List.mem_singleton.1 hb, ← hab]
    exact ha
  unfold Mnemonic.insertWord
  dsimp only
  cases hfirst : m.mWordHashIndices (hash word) with
  | none =>
    have hnone : sameHash hash m.mWords (hash word) = [] := by
      rw [hm.first] at hfirst
      simpa using hfirst
    have hnew : word ∉ m.mWords := by
      have hlookup : lookup (sameHash hash m.mWords (hash word)) word = none := by
        rw [hnone]
        rfl
      exact lookup_sameHash_eq_none_iff.1 hlookup
    rw [if_neg hnew]
    refine ⟨_, rfl, ⟨hnodup hnew, fun h => ?_, fun h => ?_⟩, rfl⟩
    · dsimp only
      rw [sameHash_concat]
      split_ifs with hh
      · rw [← hh, Function.update_self, hnone]
        rfl
      · rw [Function.update_of_ne (Ne.symm hh), hm.first]
    · dsimp only
      rw [hm.collided, sameHash_concat]
      by_cases hh : hash word = h
      · rw [if_pos hh, ← hh, hnone]
        rfl
      · rw [if_neg hh]
  | some first =>
    dsimp only
    rw [hm.collidedWords hfirst]
    have hsome : sameHash hash m.mWords (hash word) ≠ [] := by
      intro hnone
      rw [hm.first, hnone] at hfirst
      cases hfirst
    by_cases hword : word ∈ m.mWords
    · rw [if_pos hword, if_pos (mt lookup_sameHash_eq_none_iff.1 (not_not_intro hword))]
      exact ⟨_, rfl⟩
    · have hlookup : lookup (sameHash hash m.mWords (hash word)) word = none :=
        lookup_sameHash_eq_none_iff.2 hword
      rw [if_neg hword, if_neg (not_not_intro hlookup)]
      refine ⟨_, rfl, ⟨hnodup hword, fun h => ?_, fun h => ?_⟩, rfl⟩
      · dsimp only
        rw [sameHash_concat, hm.first]
        split_ifs with hh
        · rw [← hh, List.head?_append_of_ne_nil _ hsome]
        · rfl
      · dsimp only
        rw [sameHash_concat]
        by_cases hh : hash word = h
        · -- with the new word there are at least two
          have hpos := List.length_pos_iff.2 hsome
          rw [if_pos hh, ← hh, Function.update_self, if_neg, lookup_concat hlookup]
          rw [List.length_append, List.length_singleton]
          omega
        · rw [if_neg hh, Function.update_of_ne (Ne.symm hh), hm.collided]

/-- The words that stand in a text, behind those of `word`: between commas, and the rest. -/
def wordsOf : Text → Text → List Text
  | [], _ => []
  | c :: rest, word =>
    if c = 44 ∨ rest = [] then
      cString (if c = 44 then word else word ++ [c]) :: wordsOf rest []
    else wordsOf rest (word ++ [c])

theorem Reading.readWords {text word : Text} {m m' : Mnemonic} (hm : Reading hash m)
    (h : readWords hash text word m = .ok m') :
    Reading hash m' ∧ m'.mWords = m.mWords ++ wordsOf text word := by
  induction text generalizing word m with
  | nil =>
    cases h
    exact ⟨hm, (List.append_nil _).symm⟩
  | cons c rest ih =>
    rw [Mnemonic.readWords] at h
    rw [wordsOf]
    by_cases hlimit : wordLimit ≤ m.mWords.length
    · rw [if_pos hlimit] at h
      cases h
    rw [if_neg hlimit] at h
    by_cases hend : c = 44 ∨ rest = []
    · rw [if_pos hend] at h ⊢
      have hinsert := hm.insertWord (cString (if c = 44 then word else word ++ [c]))
      by_cases hmem : cString (if c = 44 then word else word ++ [c]) ∈ m.mWords
      · rw [if_pos hmem] at hinsert
        obtain ⟨e, he⟩ := hinsert
        rw [he] at h
        cases h
      · rw [if_neg hmem] at hinsert
        obtain ⟨m1, hm1, hread, hwords⟩ := hinsert
        rw [hm1] at h
        obtain ⟨hread', hwords'⟩ := ih hread h
        refine ⟨hread', ?_⟩
        rw [hwords', hwords, List.append_assoc, List.singleton_append]
    · rw [if_neg hend] at h ⊢
      exact ih hm h

theorem wordsOf_ne_nil {text word : Text} (h : text ≠ []) : wordsOf text word ≠ [] := by
  induction text generalizing word with
  | nil => exact absurd rfl h
  | cons c rest ih =>
    rw [wordsOf]
    by_cases hend : c = 44 ∨ rest = []
    · rw [if_pos hend]
      exact List.cons_ne_nil _ _
    · rw [if_neg hend]
      exact ih (fun hrest => hend (.inr hrest))

/-- A text of at most so many different words is read. -/
theorem Reading.readWords_ok {text word : Text} {m : Mnemonic} (hm : Reading hash m)
    (hnodup : (m.mWords ++ wordsOf text word).Nodup)
    (hlimit : (m.mWords ++ wordsOf text word).length ≤ wordLimit) :
    ∃ m', Mnemonic.readWords hash text word m = .ok m' := by
  induction text generalizing word m with
  | nil => exact ⟨m, rfl⟩
  | cons c rest ih =>
    rw [Mnemonic.readWords]
    have hpos : 0 < (wordsOf (c :: rest) word).length :=
      List.length_pos_iff.2 (wordsOf_ne_nil (List.cons_ne_nil c rest))
    rw [List.length_append] at hlimit
    rw [if_neg (by omega)]
    rw [wordsOf] at hnodup hlimit
    by_cases hend : c = 44 ∨ rest = []
    · rw [if_pos hend] at hnodup hlimit ⊢
      have hinsert := hm.insertWord (cString (if c = 44 then word else word ++ [c]))
      have hnew : cString (if c = 44 then word else word ++ [c]) ∉ m.mWords :=
        fun hmem => (List.nodup_append.1 hnodup).2.2 _ hmem _ List.mem_cons_self rfl
      rw [if_neg hnew] at hinsert
      obtain ⟨m1, hm1, hread, hwords⟩ := hinsert
      rw [hm1]
      refine ih hread ?_ ?_
      · rwa [hwords, List.append_assoc, List.singleton_append]
      · rw [hwords, List.append_assoc, List.singleton_append, List.length_append]
        exact hlimit
    · rw [if_neg hend] at hnodup hlimit ⊢
      exact ih hm hnodup (by rwa [List.length_append])

/-- The text of a list of words, a comma between them. -/
def textOf : List Text → Text
  | [] => []
  | [word] => word
  | word :: words => word ++ 44 :: textOf words

theorem wordsOf_comma {word : Text} (h : ∀ c ∈ word, c ≠ 44) (rest before : Text) :
    wordsOf (word ++ 44 :: rest) before = cString (before ++ word) :: wordsOf rest [] := by
  induction word generalizing before with
  | nil =>
    rw [List.nil_append, List.append_nil, wordsOf, if_pos (.inl rfl), if_pos rfl]
  | cons c word ih =>
    have hc : ¬ (c = 44 ∨ word ++ 44 :: rest = []) := by
      rintro (hc | hnil)
      · exact h c List.mem_cons_self hc
      · exact List.append_ne_nil_of_right_ne_nil _ (List.cons_ne_nil _ _) hnil
    rw [List.cons_append, wordsOf, if_neg hc, ih (fun c hc => h c (List.mem_cons_of_mem _ hc)),
      List.append_assoc, List.singleton_append]

theorem wordsOf_last {word : Text} (h : ∀ c ∈ word, c ≠ 44) (hne : word ≠ []) (before : Text) :
    wordsOf word before = [cString (before ++ word)] := by
  induction word generalizing before with
  | nil => exact absurd rfl hne
  | cons c word ih =>
    have hc : c ≠ 44 := h c List.mem_cons_self
    rw [wordsOf]
    by_cases hnil : word = []
    · rw [if_pos (.inr hnil), if_neg hc, hnil, wordsOf]
    · rw [if_neg (not_or_intro hc hnil), ih (fun c hc => h c (List.mem_cons_of_mem _ hc)) hnil,
        List.append_assoc, List.singleton_append]

/-- The words of a text are those that it was made of. -/
theorem wordsOf_textOf {words : List Text}
    (h : ∀ word ∈ words, word ≠ [] ∧ ∀ c ∈ word, c ≠ 44 ∧ c ≠ 0) :
    wordsOf (textOf words) [] = words := by
  induction words with
  | nil => rfl
  | cons word words ih =>
    obtain ⟨hne, hbytes⟩ := h word List.mem_cons_self
    have hstring : cString ([] ++ word) = word := by
      rw [List.nil_append, cString_of_ne_zero (fun c hc => (hbytes c hc).2)]
    have hcomma : ∀ c ∈ word, c ≠ 44 := fun c hc => (hbytes c hc).1
    have hwords := ih (fun v hv => h v (List.mem_cons_of_mem _ hv))
    cases words with
    | nil => rw [textOf, wordsOf_last hcomma hne, hstring]
    | cons next words =>
      rw [textOf, wordsOf_comma hcomma, hstring, hwords]
      exact List.cons_ne_nil _ _

/-- The tables of a list that is loaded: what `getWordIndex` finds. -/
structure Loaded (hash : Text → UInt32) (m : Mnemonic) : Prop where
  nodup : m.mWords.Nodup
  single : ∀ h p, sameHash hash m.mWords h = [p] → m.mWordHashIndices h = some p.2
  several : ∀ h, (∀ p, sameHash hash m.mWords h ≠ [p]) → m.mWordHashIndices h = none ∧
    (m.mHashCollisionWords h).getD (fun _ => none) = lookup (sameHash hash m.mWords h)

theorem Reading.eraseCollided {m : Mnemonic} (hm : Reading hash m) :
    Loaded hash m.eraseCollided where
  nodup := hm.nodup
  single h p hp := by
    unfold Mnemonic.eraseCollided at hp ⊢
    dsimp only at hp ⊢
    rw [hm.collided, hm.first, hp]
    rfl
  several h hseveral := by
    unfold Mnemonic.eraseCollided at hseveral ⊢
    dsimp only at hseveral ⊢
    rw [hm.collided, hm.first]
    match hl : sameHash hash m.mWords h with
    | [] => exact ⟨rfl, rfl⟩
    | [p] => exact absurd hl (hseveral p)
    | p :: q :: l =>
      have hlength : ¬ (p :: q :: l).length < 2 := by
        rw [List.length_cons, List.length_cons]
        omega
      rw [if_neg hlength]
      exact ⟨rfl, rfl⟩

theorem loaded_of_init {uncompressed : Option Text} {originalSize : ℕ} {m : Mnemonic}
    (h : init hash uncompressed originalSize = .ok m) : Loaded hash m := by
  unfold init at h
  cases uncompressed with
  | none => cases h
  | some buffer =>
    dsimp only at h
    split_ifs at h with hsize
    cases hread : readWords hash buffer [] empty with
    | error e =>
      rw [hread] at h
      cases h
    | ok m1 =>
      rw [hread] at h
      cases h
      exact (reading_empty.readWords hread).1.eraseCollided

/-- So many different words are loaded from their text. -/
theorem init_textOf (hash : Text → UInt32) {words : List Text} (hnodup : words.Nodup)
    (hlimit : words.length ≤ wordLimit)
    (h : ∀ word ∈ words, word ≠ [] ∧ ∀ c ∈ word, c ≠ 44 ∧ c ≠ 0) :
    ∃ m, init hash (some (textOf words)) (textOf words).length = .ok m ∧ m.mWords = words := by
  have hwords := wordsOf_textOf h
  have hempty : empty.mWords ++ wordsOf (textOf words) [] = words := by
    rw [hwords]
    rfl
  have hread : Reading hash empty := reading_empty
  obtain ⟨m, hm⟩ := hread.readWords_ok (by rwa [hempty]) (by rwa [hempty])
  refine ⟨m.eraseCollided, ?_, ?_⟩
  · unfold init
    dsimp only
    rw [if_neg (not_not_intro rfl), hm]
    rfl
  · exact (hread.readWords hm).2.trans hempty

/-! ### Recognition -/

/-- A hash of one word finds it without a comparison. -/
theorem Loaded.getWordIndex_of_single {m : Mnemonic} (hm : Loaded hash m) {word : Text}
    {p : Text × ℕ} (hp : sameHash hash m.mWords (hash word) = [p]) :
    m.getWordIndex hash word = p.2 := by
  unfold getWordIndex
  rw [hm.single _ _ hp]

/-- Words with the hash of another one are compared. -/
theorem Loaded.getWordIndex_of_several {m : Mnemonic} (hm : Loaded hash m) {word : Text}
    (hseveral : ∀ p, sameHash hash m.mWords (hash word) ≠ [p]) :
    m.getWordIndex hash word =
      match lookup (sameHash hash m.mWords (hash word)) word with
      | some i => (i : ℤ)
      | none => -1 := by
  obtain ⟨hnone, hcollided⟩ := hm.several _ hseveral
  unfold getWordIndex
  rw [hnone, ← hcollided]
  cases m.mHashCollisionWords (hash word) with
  | none => rfl
  | some collidedWords => rfl

/-- A word is recognized only as the word of the list that it is. -/
def RecognizesOnly (hash : Text → UInt32) (m : Mnemonic) (word : Text) : Prop :=
  (∀ i : ℕ, m.getWordIndex hash word = i → m.mWords[i]? = some word) ∧
    (word ∉ m.mWords → m.getWordIndex hash word = -1)

/-- The words of the list are found at their positions. -/
theorem Loaded.getWordIndex_of_getElem? {m : Mnemonic} (hm : Loaded hash m) {word : Text} {i : ℕ}
    (hi : m.mWords[i]? = some word) : m.getWordIndex hash word = i := by
  by_cases hsingle : ∃ p, sameHash hash m.mWords (hash word) = [p]
  · obtain ⟨p, hp⟩ := hsingle
    have hmem : (word, i) ∈ sameHash hash m.mWords (hash word) := mem_sameHash.2 ⟨hi, rfl⟩
    rw [hp, List.mem_singleton] at hmem
    rw [hm.getWordIndex_of_single hp, ← hmem]
  · rw [hm.getWordIndex_of_several (not_exists.1 hsingle), (lookup_sameHash_iff hm.nodup).2 hi]

/-- Strings are recognized rightly exactly where no word of the list that is alone with its hash
has the hash of another string. -/
theorem recognizesOnly_iff {uncompressed : Option Text} {originalSize : ℕ} {m : Mnemonic}
    (h : init hash uncompressed originalSize = .ok m) (word : Text) :
    m.RecognizesOnly hash word ↔ ∀ other ∈ m.mWords, hash other = hash word →
      (∀ v ∈ m.mWords, hash v = hash word → v = other) → other = word := by
  have hm := loaded_of_init h
  by_cases hsingle : ∃ p, sameHash hash m.mWords (hash word) = [p]
  · obtain ⟨⟨other, i⟩, hp⟩ := hsingle
    have hindex := hm.getWordIndex_of_single hp
    obtain ⟨⟨hother, hh⟩, honly⟩ := (sameHash_eq_singleton_iff hm.nodup).1 ⟨i, hp⟩
    have hget : m.mWords[i]? = some other :=
      (mem_sameHash.1 (hp ▸ List.mem_singleton_self _)).1
    constructor
    · rintro ⟨hfound, -⟩ other' hother' hh' -
      have hword := hfound i hindex
      rw [hget, Option.some.injEq] at hword
      rw [honly other' hother' hh', hword]
    · intro hall
      have hword : other = word := hall other hother hh honly
      refine ⟨fun j hj => ?_, fun hnot => absurd (hword ▸ hother) hnot⟩
      rw [hindex, Int.ofNat_inj] at hj
      rw [← hj, hget, hword]
  · rw [not_exists] at hsingle
    have hindex := hm.getWordIndex_of_several hsingle
    refine iff_of_true ⟨fun i hi => ?_, fun hnot => ?_⟩ ?_
    · rw [hindex] at hi
      cases hlookup : lookup (sameHash hash m.mWords (hash word)) word with
      | none =>
        rw [hlookup] at hi
        dsimp only at hi
        omega
      | some j =>
        rw [hlookup, Int.ofNat_inj] at hi
        rw [← hi]
        exact (lookup_sameHash_iff hm.nodup).1 hlookup
    · rw [hindex, lookup_sameHash_eq_none_iff.2 hnot]
    · intro other hother hh honly
      obtain ⟨i, hi⟩ := (sameHash_eq_singleton_iff hm.nodup).2 ⟨⟨hother, hh⟩, honly⟩
      exact absurd hi (hsingle _)

/-- The bytes of `aaaab` and of `qaaaa`, two strings with one hash. -/
def listed : Text := [97, 97, 97, 97, 98]
def notListed : Text := [113, 97, 97, 97, 97]

theorem notListed_recognized : ∃ m, init drMakeStringHash (some listed) 5 = .ok m ∧
    ¬ m.RecognizesOnly drMakeStringHash notListed := by
  refine ⟨_, rfl, fun h => ?_⟩
  exact absurd (h.2 (by decide)) (by decide)

theorem listed_recognized : ∃ m, init drMakeStringHash (some listed) 5 = .ok m ∧
    m.RecognizesOnly drMakeStringHash listed := by
  obtain ⟨m, hm, hwords⟩ : ∃ m, init drMakeStringHash (some listed) 5 = .ok m ∧
      m.mWords = [listed] := ⟨_, rfl, rfl⟩
  refine ⟨m, hm, (recognizesOnly_iff hm listed).2 (fun other hother _ _ => ?_)⟩
  rw [hwords] at hother
  exact List.mem_singleton.1 hother

end Mnemonic

end Gradido
