import GradidoBlockchain.Crypto.Passphrase

/-!
# Words of a passphrase

`Passphrase::create` writes the words of some indices one behind the other, and
`createWordIndices` finds their indices again.  Between them stand the filter,
which must leave the words as they are, and the tables of the word list.
-/

namespace Gradido

open Checked

namespace Mnemonic

/-- `g_checkValidWord`, with the bytes of the replacement character that stands in it. -/
def checkValidWord (word : Text) : Bool :=
  word.all fun c => (decide (97 ≤ c) && decide (c ≤ 122)) || (decide (65 ≤ c) && decide (c ≤ 90)) ||
    decide (c = 0xEF) || decide (c = 0xBF) || decide (c = 0xBD) || decide (c = 38) ||
      decide (c = 59)

/-- `Mnemonic::getWord`, and the list behind it; `reload` is `CryptoConfig::loadMnemonicWordLists`.
An index from `2 ^ 15` on is negative there.  There is nothing for a word that is not set. -/
def getWord (reload : Mnemonic → Except MnemonicException Mnemonic) (m : Mnemonic) (index : ℕ) :
    Option (Except MnemonicException (Option Text × Mnemonic)) :=
  if index < wordLimit then
    m.mWords[index]?.bind fun word =>
      if checkValidWord word then some (.ok (some word, m))
      else
        match reload m with
        | .error e => some (.error e)
        | .ok m =>
          m.mWords[index]?.map fun word =>
            if checkValidWord word then .ok (some word, m)
            else .error { what := "empty or invalid word, reload mnemonic word list doesn't helped",
                          word := word }
  else some (.ok (none, m))

end Mnemonic

/-- `Passphrase`. -/
structure Passphrase where
  mPassphraseString : Text
  mWordIndices : List ℕ
deriving DecidableEq, Repr

namespace Passphrase

/-- `PHRASE_WORD_COUNT`. -/
def phraseWordCount : ℕ := 24

/-- `STR_BUFFER_SIZE`. -/
def strBufferSize : ℕ := 25

variable (hash : Text → UInt32)

/-- The look up of the word in the buffer.  There is nothing when no zero ends it. -/
def findWord (wordList : Mnemonic) (buffer : Text) (wordCursor : ℕ) : Option (Option ℕ) :=
  if phraseWordCount ≤ wordCursor then some none
  else if strBufferSize ≤ buffer.length then none
  else if wordList.isWordExist hash (cString buffer) then
    some (some (wordList.getWordIndex hash (cString buffer)).toNat)
  else some none

/-- The loop of `createWordIndices` and its end, with the characters in the buffer.  There is
nothing when the buffer is left. -/
def createWordIndices (wordList : Mnemonic) : Text → Text → ℕ → List ℕ →
    Option (Except MnemonicException (List ℕ))
  | [], buffer, wordCursor, mWordIndices =>
    (findWord hash wordList buffer wordCursor).map fun found =>
      match found with
      | some index => .ok (mWordIndices.set wordCursor index)
      | none => .ok mWordIndices
  | c :: rest, buffer, wordCursor, mWordIndices =>
    if c = 32 then
      if buffer.length < 3 then createWordIndices wordList rest buffer wordCursor mWordIndices
      else
        (findWord hash wordList buffer wordCursor).bind fun found =>
          match found with
          | some index =>
            createWordIndices wordList rest [] (wordCursor + 1) (mWordIndices.set wordCursor index)
          | none => some (.error { what := "word don't exist", word := cString buffer })
    else if buffer.length < strBufferSize then
      createWordIndices wordList rest (buffer ++ [c]) wordCursor mWordIndices
    else none

/-- The constructor of `Passphrase`. -/
def construct (behind : ℕ → UInt8) (wordList : Mnemonic) (passphrase : Text) :
    Option (Except MnemonicException Passphrase) :=
  (filter behind passphrase).2.bind fun mPassphraseString =>
    (createWordIndices hash wordList mPassphraseString [] 0
      (List.replicate phraseWordCount 0)).map fun made =>
        made.map fun mWordIndices => ⟨mPassphraseString, mWordIndices⟩

/-- The loop of `Passphrase::create` over the indices that are left, and its end. -/
def createFrom (reload : Mnemonic → Except MnemonicException Mnemonic) (behind : ℕ → UInt8) :
    List ℕ → Text → Mnemonic → Option (Except MnemonicException (Option Passphrase))
  | [], clearPassphrase, m => (construct hash behind m clearPassphrase).map (·.map some)
  | index :: rest, clearPassphrase, m =>
    (m.getWord reload index).bind fun found =>
      match found with
      | .error e => some (.error e)
      | .ok (none, _) => some (.ok none)
      | .ok (some word, m) => createFrom reload behind rest (clearPassphrase ++ word ++ [32]) m

/-- `Passphrase::create`. -/
def create (reload : Mnemonic → Except MnemonicException Mnemonic) (behind : ℕ → UInt8)
    (m : Mnemonic) (wordIndices : List ℕ) : Option (Except MnemonicException (Option Passphrase)) :=
  createFrom hash reload behind wordIndices [] m

variable {hash}

/-! ### Words that survive -/

/-- Letters, `&` and `;`. -/
def isWordByte (c : UInt8) : Bool :=
  (decide (97 ≤ c) && decide (c ≤ 122)) || (decide (65 ≤ c) && decide (c ≤ 90)) ||
    decide (c = 38) || decide (c = 59)

/-- A word of a list: it fits into the buffer, and is not too short for the tokenizer. -/
structure IsListWord (word : Text) : Prop where
  three_le : 3 ≤ word.length
  le_24 : word.length ≤ 24
  bytes : ∀ c ∈ word, isWordByte c = true

theorem isKept_of_isWordByte {c : UInt8} (h : isWordByte c = true) : isKept c = true := by
  unfold isWordByte at h
  unfold isKept
  simp only [Bool.or_eq_true] at h ⊢
  tauto

theorem isHigh_of_isKept {c : UInt8} (h : isKept c = true) : isHigh c = false := by
  unfold isKept at h
  unfold isHigh
  simp only [Bool.or_eq_true, Bool.and_eq_true, decide_eq_true_eq, UInt8.le_iff_toNat_le,
    UInt8.ext_iff] at h
  simp only [decide_eq_false_iff_not, UInt8.lt_iff_toNat_lt]
  simp at h ⊢
  omega

theorem ne_of_isWordByte {c : UInt8} (h : isWordByte c = true) : c ≠ 32 ∧ c ≠ 0 := by
  constructor <;> rintro rfl <;> exact absurd h (by decide)

theorem IsListWord.checkValidWord {word : Text} (h : IsListWord word) :
    Mnemonic.checkValidWord word = true := by
  unfold Mnemonic.checkValidWord
  rw [List.all_eq_true]
  intro c hc
  have hbyte := h.bytes c hc
  unfold isWordByte at hbyte
  simp only [Bool.or_eq_true] at hbyte ⊢
  tauto

theorem IsListWord.cString {word : Text} (h : IsListWord word) : cString word = word :=
  cString_of_ne_zero (fun c hc => (ne_of_isWordByte (h.bytes c hc)).2)

/-- Behind a position where all that follows is kept, the filter copies it. -/
theorem filterFrom_of_isKept {s rest : Text} {behind : ℕ → UInt8} {i : ℕ}
    (hrest : s.drop i = rest) (hi : i ≤ s.length) (hmax : s.length ≤ intMax)
    (hkept : ∀ c ∈ rest, isKept c = true) :
    (filterFrom (memoryOf s behind) s.length i).2 = some rest := by
  have hlength := length_of_drop hrest
  induction rest generalizing i with
  | nil =>
    rw [List.length_nil] at hlength
    rw [filterFrom, if_neg (by omega)]
  | cons c rest ih =>
    rw [List.length_cons] at hlength
    have hc : isKept c = true := hkept c List.mem_cons_self
    have hturn : filterTurn (memoryOf s behind) i = ⟨[i], [c], i + 1⟩ := by
      unfold filterTurn
      rw [memoryOf_of_drop hrest]
      simp [isHigh_of_isKept hc, hc]
    have hnext := ih (drop_succ hrest) (by omega)
      (fun c hc => hkept c (List.mem_cons_of_mem _ hc)) (by omega)
    rw [filterFrom, if_pos (by omega), hturn]
    dsimp only
    rw [if_neg (by omega), hnext]
    rfl

/-- Words, a space behind each. -/
def phraseOf (words : List Text) : Text := words.flatMap (· ++ [32])

@[simp] theorem phraseOf_nil : phraseOf [] = [] := rfl

@[simp] theorem phraseOf_cons (word : Text) (words : List Text) :
    phraseOf (word :: words) = word ++ 32 :: phraseOf words := by
  simp [phraseOf]

theorem phraseOf_length_le {words : List Text} (h : ∀ word ∈ words, IsListWord word) :
    (phraseOf words).length ≤ 25 * words.length := by
  induction words with
  | nil => rfl
  | cons word words ih =>
    have hword := (h word List.mem_cons_self).le_24
    have hwords := ih (fun v hv => h v (List.mem_cons_of_mem _ hv))
    rw [phraseOf_cons, List.length_append, List.length_cons, List.length_cons]
    omega

theorem isKept_of_mem_phraseOf {words : List Text} (h : ∀ word ∈ words, IsListWord word) :
    ∀ c ∈ phraseOf words, isKept c = true := by
  intro c hc
  obtain ⟨word, hword, hc⟩ := List.mem_flatMap.1 hc
  rw [List.mem_append, List.mem_singleton] at hc
  obtain hc | rfl := hc
  · exact isKept_of_isWordByte ((h word hword).bytes c hc)
  · decide

/-! ### The way there and back -/

/-- The characters of a word go into the buffer. -/
theorem createWordIndices_append {wordList : Mnemonic} {word rest buffer : Text} {wordCursor : ℕ}
    {mWordIndices : List ℕ} (hbytes : ∀ c ∈ word, isWordByte c = true)
    (hlength : buffer.length + word.length ≤ 24) :
    createWordIndices hash wordList (word ++ rest) buffer wordCursor mWordIndices =
      createWordIndices hash wordList rest (buffer ++ word) wordCursor mWordIndices := by
  induction word generalizing buffer with
  | nil => rw [List.nil_append, List.append_nil]
  | cons c word ih =>
    rw [List.length_cons] at hlength
    have hfits : buffer.length < strBufferSize := by
      unfold strBufferSize
      omega
    rw [List.cons_append, createWordIndices, if_neg (ne_of_isWordByte (hbytes c
      List.mem_cons_self)).1, if_pos hfits, ih (fun c hc => hbytes c (List.mem_cons_of_mem _ hc)),
      List.append_assoc, List.singleton_append]
    rw [List.length_append, List.length_singleton]
    omega

/-- A word of the list is found. -/
theorem findWord_of_getElem? {m : Mnemonic} (hm : m.Loaded hash) {word : Text} {i wordCursor : ℕ}
    (hi : m.mWords[i]? = some word) (hword : IsListWord word)
    (hcursor : wordCursor < phraseWordCount) : findWord hash m word wordCursor = some (some i) := by
  have hindex : m.getWordIndex hash word = i := hm.getWordIndex_of_getElem? hi
  have hexist : m.isWordExist hash word = true := by
    unfold Mnemonic.isWordExist
    rw [hindex]
    exact decide_eq_true (by omega)
  have hlength := hword.le_24
  unfold findWord strBufferSize
  rw [if_neg (by omega), if_neg (by omega), hword.cString, hexist, if_pos rfl, hindex]
  rfl

/-- A word and the space behind it are one index. -/
theorem createWordIndices_word {m : Mnemonic} (hm : m.Loaded hash) {word rest : Text}
    {i wordCursor : ℕ} {mWordIndices : List ℕ} (hi : m.mWords[i]? = some word)
    (hword : IsListWord word) (hcursor : wordCursor < phraseWordCount) :
    createWordIndices hash m (word ++ 32 :: rest) [] wordCursor mWordIndices =
      createWordIndices hash m rest [] (wordCursor + 1) (mWordIndices.set wordCursor i) := by
  have hlength := hword.le_24
  have hthree := hword.three_le
  rw [createWordIndices_append hword.bytes (by rw [List.length_nil]; omega), List.nil_append,
    createWordIndices, if_pos rfl, if_neg (by omega), findWord_of_getElem? hm hi hword hcursor]
  rfl

/-- A list of which all words survive. -/
def IsWordList (m : Mnemonic) : Prop :=
  m.mWords.length = Mnemonic.wordLimit ∧ ∀ word ∈ m.mWords, IsListWord word

/-- The words at some positions of a list. -/
def wordsAt (m : Mnemonic) (wordIndices : List ℕ) : List Text :=
  wordIndices.map fun i => m.mWords.getD i []

theorem wordsAt_cons (m : Mnemonic) (i : ℕ) (wordIndices : List ℕ) :
    wordsAt m (i :: wordIndices) = m.mWords.getD i [] :: wordsAt m wordIndices := rfl

theorem IsWordList.getElem? {m : Mnemonic} (h : IsWordList m) {i : ℕ}
    (hi : i < Mnemonic.wordLimit) :
    m.mWords[i]? = some (m.mWords.getD i []) ∧ IsListWord (m.mWords.getD i []) := by
  have hlt : i < m.mWords.length := h.1 ▸ hi
  have hget : m.mWords[i]? = some (m.mWords.getD i []) := by
    rw [List.getD_eq_getElem?_getD, List.getElem?_eq_getElem hlt, Option.getD_some]
  exact ⟨hget, h.2 _ (List.mem_of_getElem? hget)⟩

theorem IsWordList.isListWord_of_mem {m : Mnemonic} (h : IsWordList m) {wordIndices : List ℕ}
    (hbelow : ∀ i ∈ wordIndices, i < Mnemonic.wordLimit) :
    ∀ word ∈ wordsAt m wordIndices, IsListWord word := by
  intro word hword
  obtain ⟨i, hi, rfl⟩ := List.mem_map.1 hword
  exact (h.getElem? (hbelow i hi)).2

/-- By induction on the indices that are left: those behind are set, and zeros follow. -/
theorem createWordIndices_phraseOf {m : Mnemonic} (hm : m.Loaded hash) (hlist : IsWordList m)
    {done left : List ℕ} (hcount : done.length + left.length = phraseWordCount)
    (hbelow : ∀ i ∈ left, i < Mnemonic.wordLimit) :
    createWordIndices hash m (phraseOf (wordsAt m left)) [] done.length
      (done ++ List.replicate left.length 0) = some (.ok (done ++ left)) := by
  induction left generalizing done with
  | nil =>
    rw [List.length_nil] at hcount
    have hfull : findWord hash m [] done.length = some none := by
      unfold findWord
      rw [if_pos (by omega)]
    simp only [wordsAt, List.map_nil, phraseOf_nil, createWordIndices, hfull, Option.map_some,
      List.length_nil, List.replicate_zero]
  | cons i left ih =>
    rw [List.length_cons] at hcount
    obtain ⟨hi, hword⟩ := hlist.getElem? (hbelow i List.mem_cons_self)
    have hset : (done ++ List.replicate (i :: left).length 0).set done.length i =
        (done ++ [i]) ++ List.replicate left.length 0 := by
      rw [List.set_append_right _ _ (Nat.le_refl _), Nat.sub_self, List.length_cons,
        List.replicate_succ, List.set_cons_zero, List.append_assoc, List.singleton_append]
    have hcount' : (done ++ [i]).length + left.length = phraseWordCount := by
      rw [List.length_append, List.length_singleton]
      omega
    have hnext := ih hcount' (fun j hj => hbelow j (List.mem_cons_of_mem _ hj))
    rw [List.append_assoc done [i] left, List.singleton_append, List.length_append,
      List.length_singleton] at hnext
    rw [wordsAt_cons, phraseOf_cons, createWordIndices_word hm hi hword (by omega), hset, hnext]

/-- The constructor finds the indices of the words in their phrase. -/
theorem construct_phraseOf {m : Mnemonic} (hm : m.Loaded hash) (hlist : IsWordList m)
    (behind : ℕ → UInt8) {wordIndices : List ℕ} (hcount : wordIndices.length = phraseWordCount)
    (hbelow : ∀ i ∈ wordIndices, i < Mnemonic.wordLimit) :
    construct hash behind m (phraseOf (wordsAt m wordIndices)) =
      some (.ok ⟨phraseOf (wordsAt m wordIndices), wordIndices⟩) := by
  have hwords := hlist.isListWord_of_mem hbelow
  have hmax : (phraseOf (wordsAt m wordIndices)).length ≤ intMax := by
    refine (phraseOf_length_le hwords).trans ?_
    rw [wordsAt, List.length_map, hcount]
    decide
  have hfilter : (filter behind (phraseOf (wordsAt m wordIndices))).2 =
      some (phraseOf (wordsAt m wordIndices)) :=
    filterFrom_of_isKept rfl (Nat.zero_le _) hmax (isKept_of_mem_phraseOf hwords)
  have hcount' : ([] : List ℕ).length + wordIndices.length = phraseWordCount := by
    rw [List.length_nil, hcount, Nat.zero_add]
  have hindices := createWordIndices_phraseOf hm hlist hcount' hbelow
  rw [hcount, List.length_nil, List.nil_append, List.nil_append] at hindices
  rw [construct, hfilter, Option.bind_some, hindices]
  rfl

/-- By induction on the indices that are left: the words of all of them are written. -/
theorem createFrom_eq {m : Mnemonic} (hlist : IsWordList m)
    (reload : Mnemonic → Except MnemonicException Mnemonic) (behind : ℕ → UInt8)
    {wordIndices : List ℕ} (hbelow : ∀ i ∈ wordIndices, i < Mnemonic.wordLimit)
    (clearPassphrase : Text) :
    createFrom hash reload behind wordIndices clearPassphrase m =
      (construct hash behind m (clearPassphrase ++ phraseOf (wordsAt m wordIndices))).map
        (·.map some) := by
  induction wordIndices generalizing clearPassphrase with
  | nil => rw [createFrom, wordsAt, List.map_nil, phraseOf_nil, List.append_nil]
  | cons i wordIndices ih =>
    obtain ⟨hi, hword⟩ := hlist.getElem? (hbelow i List.mem_cons_self)
    have hget : m.getWord reload i = some (.ok (some (m.mWords.getD i []), m)) := by
      unfold Mnemonic.getWord
      rw [if_pos (hbelow i List.mem_cons_self), hi, Option.bind_some, hword.checkValidWord,
        if_pos rfl]
    rw [createFrom, hget, Option.bind_some]
    dsimp only
    rw [ih (fun j hj => hbelow j (List.mem_cons_of_mem _ hj)), wordsAt_cons, phraseOf_cons,
      List.append_assoc, List.append_assoc, List.singleton_append]

/-- The words of any indices of a loaded list are a passphrase with these indices. -/
theorem create_wordIndices {uncompressed : Option Text} {originalSize : ℕ} {m : Mnemonic}
    (h : Mnemonic.init hash uncompressed originalSize = .ok m) (hlist : IsWordList m)
    (reload : Mnemonic → Except MnemonicException Mnemonic) (behind : ℕ → UInt8)
    {wordIndices : List ℕ} (hcount : wordIndices.length = phraseWordCount)
    (hbelow : ∀ i ∈ wordIndices, i < Mnemonic.wordLimit) :
    ∃ p, create hash reload behind m wordIndices = some (.ok (some p)) ∧
      p.mWordIndices = wordIndices := by
  rw [create, createFrom_eq hlist reload behind hbelow, List.nil_append,
    construct_phraseOf (Mnemonic.loaded_of_init h) hlist behind hcount hbelow]
  exact ⟨_, rfl, rfl⟩

/-- Words of three letters, in the order of the numbers that they are to the base 13. -/
def threeLetters (i : ℕ) : Text :=
  [UInt8.ofNat (97 + i / 169), UInt8.ofNat (97 + i / 13 % 13), UInt8.ofNat (97 + i % 13)]

/-- The list of the first of these words. -/
def threeLetterWords : List Text := (List.range Mnemonic.wordLimit).map threeLetters

theorem isListWord_threeLetters {i : ℕ} (hi : i < Mnemonic.wordLimit) :
    IsListWord (threeLetters i) where
  three_le := Nat.le_refl 3
  le_24 := by
    rw [threeLetters, List.length_cons, List.length_cons, List.length_singleton]
    omega
  bytes := by
    unfold Mnemonic.wordLimit at hi
    have hletter : ∀ n < 13, isWordByte (UInt8.ofNat (97 + n)) = true := by decide
    simp only [threeLetters, List.forall_mem_cons, List.not_mem_nil, false_implies, implies_true,
      and_true]
    exact ⟨hletter _ (by omega), hletter _ (by omega), hletter _ (by omega)⟩

theorem threeLetterWords_nodup : threeLetterWords.Nodup := by
  refine List.Nodup.map_on (fun i hi j hj h => ?_) List.nodup_range
  rw [List.mem_range, Mnemonic.wordLimit] at hi hj
  have hletter : ∀ {a b : ℕ}, a < 13 → b < 13 →
      UInt8.ofNat (97 + a) = UInt8.ofNat (97 + b) → a = b := by
    intro a b ha hb h
    have hab := congrArg UInt8.toNat h
    rw [UInt8.toNat_ofNat', UInt8.toNat_ofNat'] at hab
    omega
  simp only [threeLetters, List.cons.injEq, and_true] at h
  have h169 := hletter (by omega) (by omega) h.1
  have h13 := hletter (by omega) (by omega) h.2.1
  have h1 := hletter (by omega) (by omega) h.2.2
  omega

theorem threeLetterWords_isListWord : ∀ word ∈ threeLetterWords, IsListWord word := by
  intro word hword
  obtain ⟨i, hi, rfl⟩ := List.mem_map.1 hword
  exact isListWord_threeLetters (List.mem_range.1 hi)

theorem threeLetters_wordIndices : ∃ m p,
    Mnemonic.init drMakeStringHash (some (Mnemonic.textOf threeLetterWords))
      (Mnemonic.textOf threeLetterWords).length = .ok m ∧
    create drMakeStringHash .ok (fun _ => 0) m (List.range 24) = some (.ok (some p)) ∧
    p.mWordIndices = List.range 24 := by
  have hlength : threeLetterWords.length = Mnemonic.wordLimit := by
    rw [threeLetterWords, List.length_map, List.length_range]
  have hbytes : ∀ word ∈ threeLetterWords, word ≠ [] ∧ ∀ c ∈ word, c ≠ 44 ∧ c ≠ 0 := by
    intro word hword
    have hlist := threeLetterWords_isListWord word hword
    refine ⟨?_, fun c hc => ⟨?_, (ne_of_isWordByte (hlist.bytes c hc)).2⟩⟩
    · rintro rfl
      exact absurd hlist.three_le (by decide)
    · rintro rfl
      exact absurd (hlist.bytes _ hc) (by decide)
  obtain ⟨m, hm, hwords⟩ := Mnemonic.init_textOf drMakeStringHash threeLetterWords_nodup
    (Nat.le_of_eq hlength) hbytes
  have hlist : IsWordList m := ⟨hwords ▸ hlength, hwords ▸ threeLetterWords_isListWord⟩
  have hbelow : ∀ i ∈ List.range 24, i < Mnemonic.wordLimit := by decide
  obtain ⟨p, hp, hindices⟩ := create_wordIndices hm hlist .ok (fun _ => 0) (by rfl) hbelow
  exact ⟨m, p, hm, hp, hindices⟩

end Passphrase

end Gradido
