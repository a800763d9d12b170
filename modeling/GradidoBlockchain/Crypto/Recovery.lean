import GradidoBlockchain.Crypto.KeyPairEd25519
import GradidoBlockchain.Crypto.WordIndices
import GradidoBlockchain.Data.Transaction

/-!
# Recovering a key pair

A passphrase stands for the indices of its words.  `Passphrase::transform` writes
the words with the same indices of another list, and the key pair is made of the
indices and of the words of one of the lists, so that it does not depend on the
list in which the passphrase was written down.  `Passphrase::detectMnemonic` finds
a list that a passphrase can be read in, with the help of the key pair when it is
known.
-/

namespace Gradido

open Checked Crypto

/-- `MnemonicType`, in the order of the enumeration. -/
inductive MnemonicType
  | GRADIDO_BOOK_GERMAN_RANDOM_ORDER
  | GRADIDO_BOOK_GERMAN_RANDOM_ORDER_FIXED_CASES
  | BIP0039_SORTED_ORDER
  | MAX
deriving DecidableEq, Repr

namespace MnemonicType

/-- The number of the enumeration. -/
def enumInteger : MnemonicType → ℕ
  | GRADIDO_BOOK_GERMAN_RANDOM_ORDER => 0
  | GRADIDO_BOOK_GERMAN_RANDOM_ORDER_FIXED_CASES => 1
  | BIP0039_SORTED_ORDER => 2
  | MAX => 3

/-- The types that have a list. -/
def lists : List MnemonicType :=
  [GRADIDO_BOOK_GERMAN_RANDOM_ORDER, GRADIDO_BOOK_GERMAN_RANDOM_ORDER_FIXED_CASES,
    BIP0039_SORTED_ORDER]

theorem mem_lists {type : MnemonicType} : type ∈ lists ↔ type ≠ MAX := by
  cases type <;> decide

end MnemonicType

/-- `g_Mnemonic_WordLists`, and `CryptoConfig::loadMnemonicWordLists` for the list of a type. -/
structure WordLists where
  wordList : MnemonicType → Mnemonic
  reload : MnemonicType → Mnemonic → Except MnemonicException Mnemonic

/-- `CryptoConfig::getWordList`.  There is nothing behind the last list. -/
def WordLists.getWordList (lists : WordLists) (type : MnemonicType) : Option Mnemonic :=
  if type = .MAX then none else some (lists.wordList type)

/-- What is thrown when a key pair is made of a passphrase. -/
inductive PassphraseException
  | mnemonic (e : MnemonicException)
  | ed25519 (e : Ed25519Exception)
deriving DecidableEq

namespace Passphrase

variable (hash : Text → UInt32) (lists : WordLists) (behind : ℕ → UInt8)

/-- `Passphrase::create` for a type. -/
def createOfType (wordIndices : List ℕ) (wordListType : MnemonicType) :
    Option (Except MnemonicException (Option Passphrase)) :=
  (lists.getWordList wordListType).bind fun m =>
    create hash (lists.reload wordListType) behind m wordIndices

/-- `Passphrase::generate`, with the random numbers. -/
def generate (random : List ℕ) (wordListType : MnemonicType) :
    Option (Except MnemonicException (Option Passphrase)) :=
  createOfType hash lists behind (random.map (· % 2048)) wordListType

/-- `Passphrase::transform`. -/
def transform (p : Passphrase) (wordListType : MnemonicType) :
    Option (Except MnemonicException (Option Passphrase)) :=
  createOfType hash lists behind p.mWordIndices wordListType

/-- The loop of `createClearPassphrase` over the indices that are left. -/
def clearFrom (reload : Mnemonic → Except MnemonicException Mnemonic) :
    List ℕ → Text → Mnemonic → Option (Except MnemonicException Text)
  | [], clearPassphrase, _ => some (.ok clearPassphrase)
  | index :: rest, clearPassphrase, m =>
    (m.getWord reload index).bind fun found =>
      match found with
      | .error e => some (.error e)
      | .ok (none, m) => clearFrom reload rest clearPassphrase m
      | .ok (some word, m) => clearFrom reload rest (clearPassphrase ++ word ++ [32]) m

/-- `Passphrase::createClearPassphrase`. -/
def createClearPassphrase (p : Passphrase) : Option (Except MnemonicException Text) :=
  clearFrom (lists.reload .BIP0039_SORTED_ORDER) p.mWordIndices []
    (lists.wordList .BIP0039_SORTED_ORDER)

/-- What the stream operator skips. -/
def isSpace (c : UInt8) : Bool := decide (c = 32) || (decide (9 ≤ c) && decide (c ≤ 13))

/-- The words that the stream operator reads, behind the beginning of one. -/
def streamWords : Text → Text → List Text
  | [], word => if word = [] then [] else [word]
  | c :: rest, word =>
    if isSpace c then
      if word = [] then streamWords rest [] else word :: streamWords rest []
    else streamWords rest (word ++ [c])

/-- `Passphrase::checkIfValid`, with the list of the passphrase. -/
def checkIfValid (wordList : Mnemonic) (p : Passphrase) : Bool :=
  (streamWords p.mPassphraseString []).all fun word =>
    decide (word.length < 3) || wordList.isWordExist hash (cString word)

end Passphrase

/-- `KeyPairEd25519::create(passphrase)`.  With assertions there is nothing when one of the first
indices is zero. -/
def Crypto.KeyPairEd25519.createFrom (debug : Bool) (sodium : SignSodium) (lists : WordLists)
    (p : Passphrase) : Option (Except PassphraseException KeyPairEd25519) :=
  if debug && (p.mWordIndices.take 4).any (fun i => decide (i = 0)) then none
  else
    (p.createClearPassphrase lists).map fun cleared =>
      match cleared with
      | .error e => .error (.mnemonic e)
      | .ok clearPassphrase =>
        (KeyPairEd25519.create sodium (sodium.hashSha512
          (p.mWordIndices.flatMap (fun i => littleEndian i 8) ++ clearPassphrase)).1).mapError
            .ed25519

namespace Passphrase

section Detect

variable (hash : Text → UInt32) (lists : WordLists) (behind : ℕ → UInt8)
variable (debug : Bool) (sodium : SignSodium)

/-- The loop of `detectMnemonic` over the words, after `count` of them were found. -/
def existAll (m : Mnemonic) : List Text → (count : ℕ) → Bool
  | [], _ => true
  | word :: rest, count =>
    if phraseWordCount ≤ count then true
    else if word.length < 3 then existAll m rest count
    else if m.isWordExist hash (cString word) then existAll m rest (count + 1)
    else false

/-- The key pair of a passphrase that is read in a list; the indices are looked up twice. -/
def testKeyPair (m : Mnemonic) (passphrase : Text) :
    Option (Except PassphraseException KeyPairEd25519) :=
  (construct hash behind m passphrase).bind fun made =>
    match made with
    | .error e => some (.error (.mnemonic e))
    | .ok p =>
      (createWordIndices hash m p.mPassphraseString [] 0 p.mWordIndices).bind fun again =>
        match again with
        | .error e => some (.error (.mnemonic e))
        | .ok mWordIndices =>
          KeyPairEd25519.createFrom debug sodium lists { p with mWordIndices := mWordIndices }

/-- The loop of `detectMnemonic` over the types that are left. -/
def detectFrom (passphrase : Text) (userKeyPair : Option KeyPairEd25519) :
    List MnemonicType → Option (Except PassphraseException MnemonicType)
  | [] => some (.ok .MAX)
  | type :: types =>
    if existAll hash (lists.wordList type) (streamWords passphrase []) 0 then
      match userKeyPair with
      | none => some (.ok type)
      | some userKeyPair =>
        (testKeyPair hash lists behind debug sodium (lists.wordList type) passphrase).bind
          fun tested =>
            match tested with
            | .error e => some (.error e)
            | .ok keyPairFromPassphrase =>
              if keyPairFromPassphrase.isTheSame userKeyPair then some (.ok type)
              else detectFrom passphrase (some userKeyPair) types
    else detectFrom passphrase userKeyPair types

/-- `Passphrase::detectMnemonic`. -/
def detectMnemonic (passphrase : Text) (userKeyPair : Option KeyPairEd25519) :
    Option (Except PassphraseException MnemonicType) :=
  detectFrom hash lists behind debug sodium passphrase userKeyPair MnemonicType.lists

end Detect

variable {hash : Text → UInt32} {lists : WordLists}

/-! ### Reading a phrase in any list -/

/-- The index that a list gives a word. -/
def indexOf (hash : Text → UInt32) (m : Mnemonic) (word : Text) : ℕ :=
  (m.getWordIndex hash word).toNat

/-- A word that is recognized has an index of the list, also when it is taken for another word. -/
theorem indexOf_lt {m : Mnemonic} (hm : m.Loaded hash) {word : Text}
    (hexist : m.isWordExist hash word = true) : indexOf hash m word < m.mWords.length := by
  have hne : m.getWordIndex hash word ≠ -1 := of_decide_eq_true hexist
  have hlt : ∀ {other : Text} {i : ℕ}, m.mWords[i]? = some other → i < m.mWords.length :=
    fun h => (List.getElem?_eq_some_iff.1 h).1
  unfold indexOf
  by_cases hsingle : ∃ p, HashLookup.sameHash hash m.mWords (hash word) = [p]
  · obtain ⟨p, hp⟩ := hsingle
    have hmem : p ∈ HashLookup.sameHash hash m.mWords (hash word) := by
      rw [hp]
      exact List.mem_singleton_self p
    rw [hm.getWordIndex_of_single hp, Int.toNat_natCast]
    exact hlt (HashLookup.mem_sameHash.1 hmem).1
  · have hindex := hm.getWordIndex_of_several (not_exists.1 hsingle)
    cases hlookup : HashLookup.lookup (HashLookup.sameHash hash m.mWords (hash word)) word with
    | none =>
      rw [hlookup] at hindex
      exact absurd hindex hne
    | some i =>
      rw [hlookup] at hindex
      dsimp only at hindex
      rw [hindex, Int.toNat_natCast]
      exact hlt (HashLookup.mem_sameHash.1 (HashLookup.mem_of_lookup hlookup)).1

/-- The words of a list have their own indices. -/
theorem map_indexOf_wordsAt {m : Mnemonic} (hm : m.Loaded hash) (hlist : IsWordList m)
    {wordIndices : List ℕ} (hbelow : ∀ i ∈ wordIndices, i < Mnemonic.wordLimit) :
    (wordsAt m wordIndices).map (indexOf hash m) = wordIndices := by
  rw [wordsAt, List.map_map]
  refine (List.map_congr_left fun i hi => ?_).trans (List.map_id _)
  rw [Function.comp_apply, indexOf,
    hm.getWordIndex_of_getElem? (hlist.getElem? (hbelow i hi)).1, Int.toNat_natCast, id]

theorem isWordExist_of_mem_wordsAt {m : Mnemonic} (hm : m.Loaded hash) (hlist : IsWordList m)
    {wordIndices : List ℕ} (hbelow : ∀ i ∈ wordIndices, i < Mnemonic.wordLimit) :
    ∀ word ∈ wordsAt m wordIndices, m.isWordExist hash word = true := by
  intro word hword
  obtain ⟨i, hi, rfl⟩ := List.mem_map.1 hword
  refine decide_eq_true ?_
  rw [hm.getWordIndex_of_getElem? (hlist.getElem? (hbelow i hi)).1]
  omega

/-- A recognized word and the space behind it are one index. -/
theorem createWordIndices_recognized {m : Mnemonic} {word rest : Text} {wordCursor : ℕ}
    {mWordIndices : List ℕ} (hword : IsListWord word) (hexist : m.isWordExist hash word = true)
    (hcursor : wordCursor < phraseWordCount) :
    createWordIndices hash m (word ++ 32 :: rest) [] wordCursor mWordIndices =
      createWordIndices hash m rest [] (wordCursor + 1)
        (mWordIndices.set wordCursor (indexOf hash m word)) := by
  have hlength := hword.le_24
  have hthree := hword.three_le
  have hfound : findWord hash m word wordCursor = some (some (indexOf hash m word)) := by
    unfold findWord strBufferSize
    rw [if_neg (by omega), if_neg (by omega), hword.cString, if_pos hexist]
    rfl
  rw [createWordIndices_append hword.bytes (by rw [List.length_nil]; omega), List.nil_append,
    createWordIndices, if_pos rfl, if_neg (by omega), hfound]
  rfl

/-- By induction on the words that are left: the indices behind are set, whatever follows. -/
theorem createWordIndices_phrase {m : Mnemonic} {words : List Text} {done old : List ℕ}
    (hwords : ∀ word ∈ words, IsListWord word)
    (hexist : ∀ word ∈ words, m.isWordExist hash word = true)
    (hcount : done.length + words.length = phraseWordCount) (hold : old.length = words.length) :
    createWordIndices hash m (phraseOf words) [] done.length (done ++ old) =
      some (.ok (done ++ words.map (indexOf hash m))) := by
  induction words generalizing done old with
  | nil =>
    rw [List.length_nil] at hcount hold
    have hfull : findWord hash m [] done.length = some none := by
      unfold findWord
      rw [if_pos (by omega)]
    rw [List.eq_nil_of_length_eq_zero hold, phraseOf_nil, createWordIndices, hfull, Option.map_some,
      List.map_nil]
  | cons word words ih =>
    rw [List.length_cons] at hcount hold
    obtain ⟨first, rest, rfl⟩ := List.exists_cons_of_length_eq_add_one hold
    have hset : (done ++ first :: rest).set done.length (indexOf hash m word) =
        (done ++ [indexOf hash m word]) ++ rest := by
      rw [List.set_append_right _ _ (Nat.le_refl _), Nat.sub_self, List.set_cons_zero,
        List.append_assoc, List.singleton_append]
    have hnext := @ih (done ++ [indexOf hash m word]) rest
      (fun v hv => hwords v (List.mem_cons_of_mem _ hv))
      (fun v hv => hexist v (List.mem_cons_of_mem _ hv))
      (by rw [List.length_append, List.length_singleton]; omega)
      (by rw [List.length_cons] at hold; omega)
    rw [List.length_append, List.length_singleton, List.append_assoc done [_] (words.map _),
      List.singleton_append] at hnext
    rw [phraseOf_cons, createWordIndices_recognized (hwords word List.mem_cons_self)
      (hexist word List.mem_cons_self) (by omega), hset, hnext, List.map_cons]

/-- The constructor reads a phrase in every list that recognizes its words. -/
theorem construct_phrase {m : Mnemonic} (behind : ℕ → UInt8) {words : List Text}
    (hwords : ∀ word ∈ words, IsListWord word)
    (hexist : ∀ word ∈ words, m.isWordExist hash word = true)
    (hcount : words.length = phraseWordCount) :
    construct hash behind m (phraseOf words) =
      some (.ok ⟨phraseOf words, words.map (indexOf hash m)⟩) := by
  have hmax : (phraseOf words).length ≤ intMax := by
    refine (phraseOf_length_le hwords).trans ?_
    rw [hcount]
    decide
  have hfilter : (filter behind (phraseOf words)).2 = some (phraseOf words) :=
    filterFrom_of_isKept rfl (Nat.zero_le _) hmax (isKept_of_mem_phraseOf hwords)
  have hindices := @createWordIndices_phrase hash m words [] (List.replicate phraseWordCount 0)
    hwords hexist (by rw [List.length_nil, hcount, Nat.zero_add])
    (by rw [List.length_replicate, hcount])
  rw [List.length_nil, List.nil_append, List.nil_append] at hindices
  rw [construct, hfilter, Option.bind_some, hindices]
  rfl

/-! ### Words of a stream -/

theorem isSpace_of_isWordByte {c : UInt8} (h : isWordByte c = true) : isSpace c = false := by
  unfold isWordByte at h
  unfold isSpace
  simp only [Bool.or_eq_true, Bool.and_eq_true, decide_eq_true_eq, UInt8.le_iff_toNat_le,
    UInt8.ext_iff] at h
  simp only [Bool.or_eq_false_iff, Bool.and_eq_false_iff, decide_eq_false_iff_not,
    UInt8.le_iff_toNat_le, UInt8.ext_iff]
  simp at h ⊢
  omega

theorem streamWords_append {word rest : Text} (h : ∀ c ∈ word, isWordByte c = true)
    (before : Text) : streamWords (word ++ rest) before = streamWords rest (before ++ word) := by
  induction word generalizing before with
  | nil => rw [List.nil_append, List.append_nil]
  | cons c word ih =>
    rw [List.cons_append, streamWords, isSpace_of_isWordByte (h c List.mem_cons_self),
      if_neg Bool.false_ne_true, ih (fun d hd => h d (List.mem_cons_of_mem _ hd)),
      List.append_assoc, List.singleton_append]

/-- The words of a phrase are read one by one. -/
theorem streamWords_phraseOf {words : List Text} (h : ∀ word ∈ words, IsListWord word) :
    streamWords (phraseOf words) [] = words := by
  induction words with
  | nil => rfl
  | cons word words ih =>
    have hword := h word List.mem_cons_self
    have hne : word ≠ [] := by
      rintro rfl
      exact absurd hword.three_le (by decide)
    rw [phraseOf_cons, streamWords_append hword.bytes, List.nil_append, streamWords,
      if_pos (by decide), if_neg hne, ih (fun v hv => h v (List.mem_cons_of_mem _ hv))]

/-- So many words are all looked up. -/
theorem existAll_iff {m : Mnemonic} {words : List Text} (h : ∀ word ∈ words, IsListWord word)
    {count : ℕ} (hcount : count + words.length ≤ phraseWordCount) :
    existAll hash m words count = true ↔ ∀ word ∈ words, m.isWordExist hash word = true := by
  induction words generalizing count with
  | nil => exact ⟨fun _ word hword => absurd hword List.not_mem_nil, fun _ => rfl⟩
  | cons word words ih =>
    rw [List.length_cons] at hcount
    have hword := h word List.mem_cons_self
    have hthree := hword.three_le
    have hrest := @ih (fun v hv => h v (List.mem_cons_of_mem _ hv)) (count + 1) (by omega)
    rw [existAll, if_neg (by omega), if_neg (by omega), hword.cString, List.forall_mem_cons]
    split_ifs with hexist
    · rw [hrest, and_iff_right hexist]
    · exact ⟨False.elim, fun hall => absurd hall.1 hexist⟩

/-! ### Loaded lists -/

/-- All lists are loaded, and all their words survive. -/
structure ListsLoaded (hash : Text → UInt32) (lists : WordLists) : Prop where
  loaded : ∀ type ∈ MnemonicType.lists, (lists.wordList type).Loaded hash
  words : ∀ type ∈ MnemonicType.lists, IsWordList (lists.wordList type)

section Loaded

variable {sodium : SignSodium} {debug : Bool} {behind : ℕ → UInt8}
variable {type : MnemonicType} {wordIndices : List ℕ}

/-- The passphrase of some indices in the list of a type. -/
def ofIndices (lists : WordLists) (type : MnemonicType) (wordIndices : List ℕ) : Passphrase :=
  ⟨phraseOf (wordsAt (lists.wordList type) wordIndices), wordIndices⟩

theorem createOfType_eq (hlists : ListsLoaded hash lists) (behind : ℕ → UInt8)
    (htype : type ∈ MnemonicType.lists) (hcount : wordIndices.length = phraseWordCount)
    (hbelow : ∀ i ∈ wordIndices, i < Mnemonic.wordLimit) :
    createOfType hash lists behind wordIndices type =
      some (.ok (some (ofIndices lists type wordIndices))) := by
  rw [createOfType, WordLists.getWordList, if_neg (MnemonicType.mem_lists.1 htype),
    Option.bind_some, create, createFrom_eq (hlists.words type htype) _ _ hbelow, List.nil_append,
    construct_phraseOf (hlists.loaded type htype) (hlists.words type htype) behind hcount hbelow]
  rfl

theorem checkIfValid_ofIndices (hlists : ListsLoaded hash lists)
    (htype : type ∈ MnemonicType.lists) (hbelow : ∀ i ∈ wordIndices, i < Mnemonic.wordLimit) :
    checkIfValid hash (lists.wordList type) (ofIndices lists type wordIndices) = true := by
  have hwords := (hlists.words type htype).isListWord_of_mem hbelow
  rw [checkIfValid, ofIndices, streamWords_phraseOf hwords, List.all_eq_true]
  intro word hword
  rw [(hwords word hword).cString, isWordExist_of_mem_wordsAt (hlists.loaded type htype)
    (hlists.words type htype) hbelow word hword, Bool.or_true]

/-- By induction on the indices that are left: the words of all of them are written. -/
theorem clearFrom_eq {m : Mnemonic} (hlist : IsWordList m)
    (reload : Mnemonic → Except MnemonicException Mnemonic)
    (hbelow : ∀ i ∈ wordIndices, i < Mnemonic.wordLimit) (clearPassphrase : Text) :
    clearFrom reload wordIndices clearPassphrase m =
      some (.ok (clearPassphrase ++ phraseOf (wordsAt m wordIndices))) := by
  induction wordIndices generalizing clearPassphrase with
  | nil => rw [clearFrom, wordsAt, List.map_nil, phraseOf_nil, List.append_nil]
  | cons i wordIndices ih =>
    obtain ⟨hi, hword⟩ := hlist.getElem? (hbelow i List.mem_cons_self)
    have hget : m.getWord reload i = some (.ok (some (m.mWords.getD i []), m)) := by
      unfold Mnemonic.getWord
      rw [if_pos (hbelow i List.mem_cons_self), hi, Option.bind_some, hword.checkValidWord,
        if_pos rfl]
    rw [clearFrom, hget, Option.bind_some]
    dsimp only
    rw [ih (fun j hj => hbelow j (List.mem_cons_of_mem _ hj)), wordsAt_cons, phraseOf_cons,
      List.append_assoc, List.append_assoc, List.singleton_append]

/-- **The key pair of some indices**: the same for every passphrase that has them. -/
theorem exists_createFrom (hlists : ListsLoaded hash lists) (sodium : SignSodium)
    (hassert : debug = true → ∀ i ∈ wordIndices.take 4, i ≠ 0)
    (hbelow : ∀ i ∈ wordIndices, i < Mnemonic.wordLimit) :
    ∃ k, ∀ p : Passphrase, p.mWordIndices = wordIndices →
      KeyPairEd25519.createFrom debug sodium lists p = some (.ok k) := by
  have hclear := clearFrom_eq (hlists.words .BIP0039_SORTED_ORDER (by decide))
    (lists.reload .BIP0039_SORTED_ORDER) hbelow []
  obtain ⟨k, hk, -⟩ := KeyPairEd25519.create_ofSeed sodium (sodium.hashSha512
    (wordIndices.flatMap (fun i => littleEndian i 8) ++
      ([] ++ phraseOf (wordsAt (lists.wordList .BIP0039_SORTED_ORDER) wordIndices)))).1
  refine ⟨k, fun p hp => ?_⟩
  have hpasses : (debug && (p.mWordIndices.take 4).any (fun i => decide (i = 0))) = false := by
    rw [hp, Bool.and_eq_false_imp]
    intro hdebug
    rw [List.any_eq_false]
    intro i hi hzero
    exact hassert hdebug i hi (of_decide_eq_true hzero)
  rw [KeyPairEd25519.createFrom, hpasses, if_neg Bool.false_ne_true, createClearPassphrase, hp,
    hclear, Option.map_some]
  dsimp only
  rw [hk]
  rfl

/-- **A passphrase in any list.**  Random numbers make a passphrase in the list of any type.  It is
valid, and so is the passphrase that it is transformed into, for any other type; transforming that
one back gives the first one, and both make the same key pair. -/
theorem generate_transform (hlists : ListsLoaded hash lists) (sodium : SignSodium)
    (behind : ℕ → UInt8) {type type' : MnemonicType} (htype : type ≠ .MAX) (htype' : type' ≠ .MAX)
    {random : List ℕ} (hcount : random.length = phraseWordCount)
    (hassert : debug = true → ∀ i ∈ random.take 4, i % 2048 ≠ 0) :
    ∃ p q k, generate hash lists behind random type = some (.ok (some p)) ∧
      checkIfValid hash (lists.wordList type) p = true ∧
      transform hash lists behind p type' = some (.ok (some q)) ∧
      checkIfValid hash (lists.wordList type') q = true ∧
      transform hash lists behind q type = some (.ok (some p)) ∧
      KeyPairEd25519.createFrom debug sodium lists p = some (.ok k) ∧
      KeyPairEd25519.createFrom debug sodium lists q = some (.ok k) := by
  rw [← MnemonicType.mem_lists] at htype htype'
  have hlength : (random.map (· % 2048)).length = phraseWordCount := by
    rw [List.length_map, hcount]
  have hbelow : ∀ i ∈ random.map (· % 2048), i < Mnemonic.wordLimit := by
    intro i hi
    obtain ⟨r, -, rfl⟩ := List.mem_map.1 hi
    exact Nat.mod_lt _ (by decide)
  have hfirst : debug = true → ∀ i ∈ (random.map (· % 2048)).take 4, i ≠ 0 := by
    intro hdebug i hi
    rw [← List.map_take] at hi
    obtain ⟨r, hr, rfl⟩ := List.mem_map.1 hi
    exact hassert hdebug r hr
  obtain ⟨k, hk⟩ := exists_createFrom hlists sodium hfirst hbelow
  refine ⟨ofIndices lists type _, ofIndices lists type' _, k,
    createOfType_eq hlists behind htype hlength hbelow,
    checkIfValid_ofIndices hlists htype hbelow, ?_, checkIfValid_ofIndices hlists htype' hbelow, ?_,
    hk _ rfl, hk _ rfl⟩
  · exact createOfType_eq hlists behind htype' hlength hbelow
  · exact createOfType_eq hlists behind htype hlength hbelow

/-! ### Detecting a list -/

/-- A list recognizes all words of a passphrase, and when the key pair of the user is known, the
passphrase that is read in the list makes a key pair with the same public key. -/
structure ReadsTo (hash : Text → UInt32) (lists : WordLists) (behind : ℕ → UInt8) (debug : Bool)
    (sodium : SignSodium) (passphrase : Text) (userKeyPair : Option KeyPairEd25519)
    (type : MnemonicType) : Prop where
  words : ∀ word ∈ streamWords passphrase [],
    (lists.wordList type).isWordExist hash word = true
  keyPair : ∀ user ∈ userKeyPair, ∃ p k,
    construct hash behind (lists.wordList type) passphrase = some (.ok p) ∧
      KeyPairEd25519.createFrom debug sodium lists p = some (.ok k) ∧ k.isTheSame user = true

/-- A phrase of twenty-four words, read in a list that recognizes them; the second time the indices
are looked up changes nothing. -/
theorem testKeyPair_phrase (hlists : ListsLoaded hash lists) (sodium : SignSodium)
    (behind : ℕ → UInt8) (htype : type ∈ MnemonicType.lists) {words : List Text}
    (hwords : ∀ word ∈ words, IsListWord word) (hcount : words.length = phraseWordCount)
    (hexist : ∀ word ∈ words, (lists.wordList type).isWordExist hash word = true)
    (hassert : debug = true → ∀ word ∈ words.take 4, indexOf hash (lists.wordList type) word ≠ 0) :
    ∃ p k, construct hash behind (lists.wordList type) (phraseOf words) = some (.ok p) ∧
      KeyPairEd25519.createFrom debug sodium lists p = some (.ok k) ∧
      testKeyPair hash lists behind debug sodium (lists.wordList type) (phraseOf words) =
        some (.ok k) := by
  have hm := hlists.loaded type htype
  have hread := construct_phrase behind hwords hexist hcount
  have hbelow : ∀ i ∈ words.map (indexOf hash (lists.wordList type)), i < Mnemonic.wordLimit := by
    intro i hi
    obtain ⟨word, hword, rfl⟩ := List.mem_map.1 hi
    rw [← (hlists.words type htype).1]
    exact indexOf_lt hm (hexist word hword)
  obtain ⟨k, hk⟩ := @exists_createFrom hash lists debug _ hlists sodium (fun hdebug i hi => by
    rw [← List.map_take] at hi
    obtain ⟨word, hword, rfl⟩ := List.mem_map.1 hi
    exact hassert hdebug word hword) hbelow
  have hagain := @createWordIndices_phrase hash (lists.wordList type) words []
    (words.map (indexOf hash (lists.wordList type))) hwords hexist
    (by rw [List.length_nil, hcount, Nat.zero_add]) (List.length_map _)
  rw [List.length_nil, List.nil_append] at hagain
  refine ⟨_, k, hread, hk _ rfl, ?_⟩
  rw [testKeyPair, hread, Option.bind_some]
  dsimp only
  rw [hagain, Option.bind_some]
  exact hk _ rfl

/-- By induction on the types that are left: those before the one that is found do not read the
passphrase. -/
theorem detectFrom_first {passphrase : Text} {userKeyPair : Option KeyPairEd25519}
    {types : List MnemonicType}
    (hwords : ∀ type ∈ types, existAll hash (lists.wordList type) (streamWords passphrase []) 0 =
      true ↔ ∀ word ∈ streamWords passphrase [],
        (lists.wordList type).isWordExist hash word = true)
    (htest : ∀ type ∈ types, (∀ word ∈ streamWords passphrase [],
        (lists.wordList type).isWordExist hash word = true) →
      ∃ p k, construct hash behind (lists.wordList type) passphrase = some (.ok p) ∧
        KeyPairEd25519.createFrom debug sodium lists p = some (.ok k) ∧
        testKeyPair hash lists behind debug sodium (lists.wordList type) passphrase =
          some (.ok k))
    (hfound : ∃ type ∈ types, ReadsTo hash lists behind debug sodium passphrase userKeyPair type) :
    ∃ before type after, types = before ++ type :: after ∧
      (∀ t ∈ before, ¬ ReadsTo hash lists behind debug sodium passphrase userKeyPair t) ∧
      ReadsTo hash lists behind debug sodium passphrase userKeyPair type ∧
      detectFrom hash lists behind debug sodium passphrase userKeyPair types = some (.ok type) := by
  induction types with
  | nil =>
    obtain ⟨type, htype, -⟩ := hfound
    exact absurd htype List.not_mem_nil
  | cons type types ih =>
    have hhead := hwords type List.mem_cons_self
    -- a type that does not read the passphrase is passed over
    have hskip : ¬ ReadsTo hash lists behind debug sodium passphrase userKeyPair type →
        detectFrom hash lists behind debug sodium passphrase userKeyPair (type :: types) =
          detectFrom hash lists behind debug sodium passphrase userKeyPair types →
        ∃ before t after, type :: types = before ++ t :: after ∧
          (∀ t ∈ before, ¬ ReadsTo hash lists behind debug sodium passphrase userKeyPair t) ∧
          ReadsTo hash lists behind debug sodium passphrase userKeyPair t ∧
          detectFrom hash lists behind debug sodium passphrase userKeyPair (type :: types) =
            some (.ok t) := by
      intro hnot heq
      obtain ⟨t, ht, hreads⟩ := hfound
      obtain rfl | ht := List.mem_cons.1 ht
      · exact absurd hreads hnot
      · obtain ⟨before, t', after, rfl, hbefore, hreads', hdetect⟩ :=
          ih (fun s hs => hwords s (List.mem_cons_of_mem _ hs))
            (fun s hs => htest s (List.mem_cons_of_mem _ hs)) ⟨t, ht, hreads⟩
        refine ⟨type :: before, t', after, rfl, ?_, hreads', heq.trans hdetect⟩
        rw [List.forall_mem_cons]
        exact ⟨hnot, hbefore⟩
    by_cases hexist : existAll hash (lists.wordList type) (streamWords passphrase []) 0 = true
    · have hall := hhead.1 hexist
      cases userKeyPair with
      | none =>
        refine ⟨[], type, types, rfl, fun t ht => absurd ht List.not_mem_nil,
          ⟨hall, fun user huser => absurd huser (by simp)⟩, ?_⟩
        rw [detectFrom, if_pos hexist]
      | some user =>
        obtain ⟨p, k, hp, hk, htested⟩ := htest type List.mem_cons_self hall
        have hstep : detectFrom hash lists behind debug sodium passphrase (some user)
            (type :: types) = if k.isTheSame user then some (.ok type)
              else detectFrom hash lists behind debug sodium passphrase (some user) types := by
          rw [detectFrom, if_pos hexist, htested, Option.bind_some]
        by_cases hsame : k.isTheSame user = true
        · rw [hstep, if_pos hsame]
          refine ⟨[], type, types, rfl, fun t ht => absurd ht List.not_mem_nil, ⟨hall, ?_⟩, rfl⟩
          rintro user' ⟨⟩
          exact ⟨p, k, hp, hk, hsame⟩
        · refine hskip (fun hreads => ?_) (by rw [hstep, if_neg hsame])
          obtain ⟨p', k', hp', hk', hsame'⟩ := hreads.keyPair user rfl
          rw [hp, Option.some.injEq, Except.ok.injEq] at hp'
          subst hp'
          rw [hk, Option.some.injEq, Except.ok.injEq] at hk'
          subst hk'
          exact hsame hsame'
    · refine hskip (fun hreads => hexist (hhead.2 hreads.words)) ?_
      cases userKeyPair with
      | none => rw [detectFrom, if_neg hexist]
      | some user => rw [detectFrom, if_neg hexist]

/-- **Detecting the list.**  For a passphrase that was made in the list of some type, and with the
key pair of this passphrase or without one, `detectMnemonic` returns the first type whose list
recognizes all words and, with the key pair, reads the passphrase to the same public key.  It is not
behind the type that the passphrase was made in. -/
theorem detectMnemonic_ofIndices (hlists : ListsLoaded hash lists) (sodium : SignSodium)
    (behind : ℕ → UInt8) {type : MnemonicType} (htype : type ≠ .MAX) {wordIndices : List ℕ}
    (hcount : wordIndices.length = phraseWordCount)
    (hbelow : ∀ i ∈ wordIndices, i < Mnemonic.wordLimit)
    (hassert : debug = true → ∀ t ≠ .MAX,
      ∀ word ∈ (wordsAt (lists.wordList type) wordIndices).take 4,
        indexOf hash (lists.wordList t) word ≠ 0) :
    ∃ p k, createOfType hash lists behind wordIndices type = some (.ok (some p)) ∧
      KeyPairEd25519.createFrom debug sodium lists p = some (.ok k) ∧
      ∀ userKeyPair, userKeyPair = none ∨ userKeyPair = some k →
        ∃ before t after, MnemonicType.lists = before ++ t :: after ∧ type ∈ t :: after ∧
          (∀ t' ∈ before,
            ¬ ReadsTo hash lists behind debug sodium p.mPassphraseString userKeyPair t') ∧
          ReadsTo hash lists behind debug sodium p.mPassphraseString userKeyPair t ∧
          detectMnemonic hash lists behind debug sodium p.mPassphraseString userKeyPair =
            some (.ok t) := by
  rw [← MnemonicType.mem_lists] at htype
  have hm := hlists.loaded type htype
  have hlist := hlists.words type htype
  have hwords := hlist.isListWord_of_mem hbelow
  have hlength : (wordsAt (lists.wordList type) wordIndices).length = phraseWordCount := by
    rw [wordsAt, List.length_map, hcount]
  have hown := isWordExist_of_mem_wordsAt hm hlist hbelow
  have hphrase := streamWords_phraseOf hwords
  have hstream : streamWords (ofIndices lists type wordIndices).mPassphraseString [] =
      wordsAt (lists.wordList type) wordIndices := hphrase
  have htest : ∀ t ∈ MnemonicType.lists, (∀ word ∈ wordsAt (lists.wordList type) wordIndices,
        (lists.wordList t).isWordExist hash word = true) →
      ∃ p k, construct hash behind (lists.wordList t)
          (phraseOf (wordsAt (lists.wordList type) wordIndices)) = some (.ok p) ∧
        KeyPairEd25519.createFrom debug sodium lists p = some (.ok k) ∧
        testKeyPair hash lists behind debug sodium (lists.wordList t)
          (phraseOf (wordsAt (lists.wordList type) wordIndices)) = some (.ok k) :=
    fun t ht hexist => testKeyPair_phrase hlists sodium behind ht hwords hlength hexist
      (fun hdebug => hassert hdebug t (MnemonicType.mem_lists.1 ht))
  obtain ⟨p, k, hp, hk, -⟩ := htest type htype hown
  have hsame : p = ofIndices lists type wordIndices := by
    rw [construct_phraseOf hm hlist behind hcount hbelow, Option.some.injEq, Except.ok.injEq] at hp
    exact hp.symm
  subst hsame
  refine ⟨_, k, createOfType_eq hlists behind htype hcount hbelow, hk, ?_⟩
  intro userKeyPair huser
  have hreads : ReadsTo hash lists behind debug sodium
      (ofIndices lists type wordIndices).mPassphraseString userKeyPair type := by
    refine ⟨by rwa [hstream], ?_⟩
    rintro user hmem
    obtain rfl | rfl := huser
    · exact absurd hmem (by simp)
    · cases hmem
      exact ⟨_, k, hp, hk, decide_eq_true rfl⟩
  obtain ⟨before, t, after, heq, hbefore, hfound, hdetect⟩ := detectFrom_first
    (fun t _ => by
      rw [hphrase]
      exact existAll_iff hwords (by rw [hlength, Nat.zero_add]))
    (fun t ht hexist => htest t ht (by rwa [hphrase] at hexist))
    ⟨type, htype, hreads⟩
  refine ⟨before, t, after, heq, ?_, hbefore, hfound, hdetect⟩
  rw [heq] at htype
  exact (List.mem_append.1 htype).resolve_left (fun hmem => hbefore type hmem hreads)

end Loaded

end Passphrase

namespace Crypto.Sample

open Passphrase

/-- The list that is loaded from the text of some words. -/
def loadedList (words : List Text) : Mnemonic :=
  match Mnemonic.init drMakeStringHash (some (Mnemonic.textOf words))
      (Mnemonic.textOf words).length with
  | .ok m => m
  | .error _ => .empty

theorem loadedList_spec {words : List Text} (hnodup : words.Nodup)
    (hlength : words.length = Mnemonic.wordLimit) (hwords : ∀ word ∈ words, IsListWord word) :
    (loadedList words).Loaded drMakeStringHash ∧ IsWordList (loadedList words) := by
  obtain ⟨m, hm, hmWords⟩ := Mnemonic.init_textOf drMakeStringHash hnodup (Nat.le_of_eq hlength)
    (fun word hword => by
      refine ⟨?_, fun c hc => ⟨?_, (ne_of_isWordByte ((hwords word hword).bytes c hc)).2⟩⟩
      · rintro rfl
        exact absurd (hwords _ hword).three_le (by decide)
      · rintro rfl
        exact absurd ((hwords word hword).bytes _ hc) (by decide))
  have heq : loadedList words = m := by
    rw [loadedList, hm]
  rw [heq]
  exact ⟨Mnemonic.loaded_of_init hm, hmWords ▸ hlength, hmWords ▸ hwords⟩

/-- The words of three letters in the list with sorted order, and backwards in the other ones. -/
def wordLists : WordLists where
  wordList type :=
    if type = .BIP0039_SORTED_ORDER then loadedList threeLetterWords
    else loadedList threeLetterWords.reverse
  reload _ := .ok

theorem wordLists_loaded : ListsLoaded drMakeStringHash wordLists := by
  have hlength : threeLetterWords.length = Mnemonic.wordLimit := by
    rw [threeLetterWords, List.length_map, List.length_range]
  have hsorted := loadedList_spec threeLetterWords_nodup hlength threeLetterWords_isListWord
  have hbackwards := loadedList_spec (List.nodup_reverse.2 threeLetterWords_nodup)
    (List.length_reverse.trans hlength)
    (fun word hword => threeLetterWords_isListWord word (List.mem_reverse.1 hword))
  constructor <;> intro type _ <;> unfold wordLists <;> dsimp only <;> split_ifs
  exacts [hsorted.1, hbackwards.1, hsorted.2, hbackwards.2]

/-- A passphrase in the backward order, with the assertions of the debug build. -/
theorem backwards_generate_transform : ∃ p q k,
    generate drMakeStringHash wordLists (fun _ => 0) (List.range' 5000 24)
        .GRADIDO_BOOK_GERMAN_RANDOM_ORDER = some (.ok (some p)) ∧
      transform drMakeStringHash wordLists (fun _ => 0) p .BIP0039_SORTED_ORDER =
        some (.ok (some q)) ∧
      KeyPairEd25519.createFrom true signSodium wordLists p = some (.ok k) ∧
      KeyPairEd25519.createFrom true signSodium wordLists q = some (.ok k) := by
  obtain ⟨p, q, k, hp, -, hq, -, -, hk, hk'⟩ := generate_transform wordLists_loaded signSodium
    (fun _ => 0) (by decide : MnemonicType.GRADIDO_BOOK_GERMAN_RANDOM_ORDER ≠ .MAX)
    (by decide : MnemonicType.BIP0039_SORTED_ORDER ≠ .MAX)
    (rfl : (List.range' 5000 24).length = phraseWordCount) (fun _ => by decide)
  exact ⟨p, q, k, hp, hq, hk, hk'⟩

/-- A passphrase in sorted order, whose words are in the lists before it too. -/
theorem sorted_detectMnemonic : ∃ p k t,
    createOfType drMakeStringHash wordLists (fun _ => 0) (List.range 24) .BIP0039_SORTED_ORDER =
        some (.ok (some p)) ∧
      KeyPairEd25519.createFrom false signSodium wordLists p = some (.ok k) ∧
      detectMnemonic drMakeStringHash wordLists (fun _ => 0) false signSodium p.mPassphraseString
        (some k) = some (.ok t) := by
  obtain ⟨p, k, hp, hk, hdetect⟩ := detectMnemonic_ofIndices wordLists_loaded signSodium
    (fun _ => 0) (by decide : MnemonicType.BIP0039_SORTED_ORDER ≠ .MAX)
    (rfl : (List.range 24).length = phraseWordCount) (by decide)
    (fun hdebug => absurd hdebug Bool.false_ne_true)
  obtain ⟨-, t, -, -, -, -, -, ht⟩ := hdetect (some k) (.inr rfl)
  exact ⟨p, k, t, hp, hk, ht⟩

end Crypto.Sample

end Gradido
