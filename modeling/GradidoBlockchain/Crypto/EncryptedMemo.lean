import GradidoBlockchain.Crypto.AuthenticatedEncryption
import GradidoBlockchain.Data.Transaction

/-!
# Encrypted memos

A memo is compressed, encrypted for the community or between two parties, and
read back the other way round.  A short memo, and one that compression does not
make smaller, stays as it is, so the reader goes by the two bytes every
compressed text begins with.  The compressor and its reader are parameters.
-/

namespace Gradido.Crypto

/-! ### Compression -/

/-- The codes that `tinf_zlib_uncompress` returns for an error. -/
inductive TinfStatus
  | TINF_DATA_ERROR
  | TINF_BUF_ERROR
deriving DecidableEq

/-- The functions of miniz and tinf that are used, each with the size of its buffer, and the text
that a compressed one stands for. -/
structure Zlib where
  compressBound : ℕ → ℕ
  compress2 : ℕ → Bytes → Option Bytes
  uncompress : ℕ → Bytes → Except TinfStatus Bytes
  inflate : Bytes → Option Bytes

/-- `zlibHeaderData`: the header on maximal compression level. -/
def zlibHeaderData : Bytes := [0x78, 0xDA]

/-- What is documented: a buffer of `compressBound` bytes is enough, the text begins with the header
and stands for what was compressed; it is unpacked when there is room for it, and otherwise an error
of the data is reported. -/
structure Zlib.Documented (zlib : Zlib) : Prop where
  packs : ∀ size plain, zlib.compressBound plain.length ≤ size → ∃ packed,
    zlib.compress2 size plain = some packed ∧ packed.take 2 = zlibHeaderData ∧
      zlib.inflate packed = some plain
  unpacks : ∀ size packed plain, zlib.inflate packed = some plain → plain.length ≤ size →
    zlib.uncompress size packed = .ok plain
  tooLong : ∀ size packed plain, zlib.inflate packed = some plain → size < plain.length →
    zlib.uncompress size packed = .error .TINF_DATA_ERROR
  invalid : ∀ size packed, zlib.inflate packed = none →
    ∃ status, zlib.uncompress size packed = .error status

/-- `GRADIDO_ENCRYPTED_MEMO_COMPRESSION_DEFAULT_BUFFER_BYTES`. -/
def defaultBufferBytes : ℕ := 512

/-- `GRADIDO_ENCRYPTED_MEMO_COMPRESSION_DEFAULT_SKIP_SIZE_BYTES`. -/
def defaultSkipSizeBytes : ℕ := 120

namespace Zlib

variable (zlib : Zlib)

/-- `compress`. -/
def compress (plain : Bytes) : Except CryptoException Bytes :=
  if plain.length < defaultSkipSizeBytes then .ok plain
  else
    let maxExpectedSize := zlib.compressBound plain.length
    let bufferSize :=
      if maxExpectedSize ≤ defaultBufferBytes then defaultBufferBytes else maxExpectedSize
    match zlib.compress2 bufferSize plain with
    | none => .error .minizCompress
    | some compressed => if plain.length ≤ compressed.length then .ok plain else .ok compressed

/-- `decompress`: the bytes of an empty block are not there to be compared, and behind a single one
stands a zero. -/
def decompress (compressed : Bytes) : Except CryptoException Bytes :=
  if compressed = [] then .error .nullDereference
  else if compressed.take 2 ≠ zlibHeaderData then .ok compressed
  else
    match zlib.uncompress defaultBufferBytes compressed with
    | .ok plain => .ok plain
    | .error .TINF_BUF_ERROR => .error .tinfDecompress
    | .error .TINF_DATA_ERROR =>
      match zlib.uncompress (2 * defaultBufferBytes) compressed with
      | .ok plain => .ok plain
      | .error _ => .error .tinfDecompress

/-- Compression leaves a memo as it is. -/
def Stored (plain : Bytes) : Prop := zlib.compress plain = .ok plain

/-- The memos that are read back: not the empty one, none beyond the second buffer that was
compressed, and none that looks compressed without being so. -/
structure Recoverable (plain : Bytes) : Prop where
  nonempty : plain ≠ []
  stored : zlib.Stored plain → plain.take 2 = zlibHeaderData →
    zlib.inflate plain = some plain ∧ plain.length ≤ 2 * defaultBufferBytes
  packed : ¬ zlib.Stored plain → plain.length ≤ 2 * defaultBufferBytes

variable {zlib}

/-- A text with the header is unpacked within the second buffer. -/
theorem decompress_packed (h : zlib.Documented) {packed plain : Bytes}
    (hheader : packed.take 2 = zlibHeaderData) (hinflate : zlib.inflate packed = some plain) :
    zlib.decompress packed =
      if plain.length ≤ 2 * defaultBufferBytes then .ok plain else .error .tinfDecompress := by
  have hne : packed ≠ [] := by
    rintro rfl
    cases hheader
  rw [decompress, if_neg hne, if_neg (not_not_intro hheader)]
  by_cases hfirst : plain.length ≤ defaultBufferBytes
  · rw [h.unpacks _ _ _ hinflate hfirst, if_pos (by omega)]
  · rw [h.tooLong _ _ _ hinflate (by omega)]
    dsimp only
    split_ifs with hsecond
    · rw [h.unpacks _ _ _ hinflate hsecond]
    · rw [h.tooLong _ _ _ hinflate (by omega)]

/-- What compression may return: the memo, or a shorter text with the header. -/
theorem compress_cases (h : zlib.Documented) (plain : Bytes) : zlib.Stored plain ∨
    ∃ packed, zlib.compress plain = .ok packed ∧ packed.length < plain.length ∧
      packed.take 2 = zlibHeaderData ∧ zlib.inflate packed = some plain := by
  unfold Stored compress
  by_cases hskip : plain.length < defaultSkipSizeBytes
  · exact .inl (if_pos hskip)
  · rw [if_neg hskip]
    dsimp only
    obtain ⟨packed, hpacked, hheader, hinflate⟩ := h.packs
      (if zlib.compressBound plain.length ≤ defaultBufferBytes then defaultBufferBytes
        else zlib.compressBound plain.length) plain (by split_ifs <;> omega)
    rw [hpacked]
    dsimp only
    split_ifs with hlonger
    · exact .inl rfl
    · exact .inr ⟨packed, rfl, by omega, hheader, hinflate⟩

/-- A memo is read back from what compression made of it. -/
theorem decompress_iff (h : zlib.Documented) {plain compressed : Bytes}
    (hcompress : zlib.compress plain = .ok compressed) :
    zlib.decompress compressed = .ok plain ↔ zlib.Recoverable plain := by
  obtain hstored | ⟨packed, hpacked, hshorter, hheader, hinflate⟩ := compress_cases h plain
  · obtain rfl : plain = compressed := Except.ok.inj (hstored.symm.trans hcompress)
    by_cases hempty : plain = []
    · refine iff_of_false ?_ (fun hrec => hrec.nonempty hempty)
      rw [decompress, if_pos hempty]
      exact fun hok => by cases hok
    · by_cases hheader : plain.take 2 = zlibHeaderData
      · cases hinflate : zlib.inflate plain with
        | none =>
          refine iff_of_false ?_ (fun hrec => ?_)
          · obtain ⟨status, hstatus⟩ := h.invalid defaultBufferBytes plain hinflate
            obtain ⟨status', hstatus'⟩ := h.invalid (2 * defaultBufferBytes) plain hinflate
            rw [decompress, if_neg hempty, if_neg (not_not_intro hheader), hstatus]
            cases status with
            | TINF_BUF_ERROR => exact fun hok => by cases hok
            | TINF_DATA_ERROR =>
              dsimp only
              rw [hstatus']
              exact fun hok => by cases hok
          · have hsome := (hrec.stored hstored hheader).1
            rw [hinflate] at hsome
            cases hsome
        | some text =>
          rw [decompress_packed h hheader hinflate]
          constructor
          · intro hok
            split_ifs at hok with hlength
            · obtain rfl : text = plain := Except.ok.inj hok
              exact ⟨hempty, fun _ _ => ⟨hinflate, hlength⟩, fun hnot => (hnot hstored).elim⟩
          · intro hrec
            obtain ⟨hself, hlength⟩ := hrec.stored hstored hheader
            obtain rfl : text = plain := Option.some.inj (hinflate.symm.trans hself)
            rw [if_pos hlength]
      · rw [decompress, if_neg hempty, if_pos hheader]
        exact iff_of_true rfl ⟨hempty, fun _ hheader' => (hheader hheader').elim,
          fun hnot => (hnot hstored).elim⟩
  · obtain rfl : packed = compressed := Except.ok.inj (hpacked.symm.trans hcompress)
    have hnot : ¬ zlib.Stored plain := by
      intro hstored
      obtain rfl : packed = plain := Except.ok.inj (hpacked.symm.trans hstored)
      exact Nat.lt_irrefl _ hshorter
    rw [decompress_packed h hheader hinflate]
    constructor
    · intro hok
      split_ifs at hok with hlength
      exact ⟨List.ne_nil_of_length_pos (Nat.lt_of_le_of_lt (Nat.zero_le _) hshorter),
        fun hstored => (hnot hstored).elim, fun _ => hlength⟩
    · intro hrec
      rw [if_pos (hrec.packed hnot)]

end Zlib

/-! ### Memos -/

section Memo

variable {sodium : Sodium} (zlib : Zlib)

/-- `SealedBoxes::encrypt`, with what the library drew for the sender. -/
def sealedBoxesEncrypt (keys : AuthenticatedEncryption sodium) (message random : Bytes) : Bytes :=
  sodium.boxSeal message random keys.mPublicKey

/-- `SealedBoxes::decrypt`. -/
def sealedBoxesDecrypt (keys : AuthenticatedEncryption sodium) (encryptedMessage : Bytes) :
    Except CryptoException Bytes :=
  if encryptedMessage.length < sealBytes then .error .allocationFailed
  else
    match keys.mPrivkey with
    | none => .error .nullDereference
    | some privkey =>
      match sodium.boxSealOpen encryptedMessage keys.mPublicKey privkey with
      | none => .error (.sealedBoxesDecrypt "couldn't decrypt message")
      | some clearMessage => .ok clearMessage

/-- `EncryptedMemo(memo, communityKeyPair)`. -/
def encryptForCommunity (memo : Bytes) (communityKeyPair : AuthenticatedEncryption sodium)
    (random : Bytes) : Except CryptoException EncryptedMemo :=
  match zlib.compress memo with
  | .error e => .error e
  | .ok compressedMemo =>
    .ok ⟨.communitySecret, sealedBoxesEncrypt communityKeyPair compressedMemo random⟩

/-- `EncryptedMemo(memo, firstKeyPair, secondKeyPair)`. -/
def encryptShared (memo : Bytes) (firstKeyPair secondKeyPair : AuthenticatedEncryption sodium)
    (nonce : Nonce) : Except CryptoException EncryptedMemo :=
  match zlib.compress memo with
  | .error e => .error e
  | .ok compressedMemo =>
    match (if firstKeyPair.hasPrivateKey then
        firstKeyPair.encrypt compressedMemo secondKeyPair nonce
      else secondKeyPair.encrypt compressedMemo firstKeyPair nonce) with
    | .error e => .error e
    | .ok mMemo => .ok ⟨.sharedSecret, mMemo⟩

/-- `EncryptedMemo::decrypt(communityKeyPair)`. -/
def decryptForCommunity (m : EncryptedMemo) (communityKeyPair : AuthenticatedEncryption sodium) :
    Except CryptoException Bytes :=
  match sealedBoxesDecrypt communityKeyPair m.memo with
  | .error e => .error e
  | .ok compressedMemo => zlib.decompress compressedMemo

/-- `EncryptedMemo::decrypt(firstKeyPair, secondKeyPair)`. -/
def decryptShared (m : EncryptedMemo)
    (firstKeyPair secondKeyPair : AuthenticatedEncryption sodium) : Except CryptoException Bytes :=
  match (if firstKeyPair.hasPrivateKey then firstKeyPair.decrypt m.memo secondKeyPair
    else secondKeyPair.decrypt m.memo firstKeyPair) with
  | .error e => .error e
  | .ok compressedMemo => zlib.decompress compressedMemo

/-- The public keys of two parties, in one order or the other. -/
def Parties (pk pk' : Bytes) (firstKeyPair secondKeyPair : AuthenticatedEncryption sodium) : Prop :=
  firstKeyPair.mPublicKey = pk ∧ secondKeyPair.mPublicKey = pk' ∨
    firstKeyPair.mPublicKey = pk' ∧ secondKeyPair.mPublicKey = pk

variable {zlib} {sk sk' : Bytes}

/-- Whoever has a private key of one party calculates the secret of both. -/
theorem boxBeforenm_eq (hboxes : sodium.Boxes) {e f : AuthenticatedEncryption sodium}
    (hparties : Parties (sodium.scalarmultBase sk) (sodium.scalarmultBase sk') e f)
    {privkey : Bytes} (hprivkey : e.mPrivkey = some privkey) :
    sodium.boxBeforenm f.mPublicKey privkey =
      sodium.boxBeforenm (sodium.scalarmultBase sk') sk := by
  have hpair := e.keyPair privkey hprivkey
  obtain ⟨he, hf⟩ | ⟨he, hf⟩ := hparties
  · calc sodium.boxBeforenm f.mPublicKey privkey
        = sodium.boxBeforenm (sodium.scalarmultBase sk') privkey := by rw [hf]
      _ = sodium.boxBeforenm (sodium.scalarmultBase sk) sk' := by
          rw [hboxes.shared, ← hpair, he]
      _ = sodium.boxBeforenm (sodium.scalarmultBase sk') sk := hboxes.shared _ _
  · calc sodium.boxBeforenm f.mPublicKey privkey
        = sodium.boxBeforenm (sodium.scalarmultBase sk) privkey := by rw [hf]
      _ = sodium.boxBeforenm (sodium.scalarmultBase sk') sk := by
          rw [hboxes.shared, ← hpair, he]

/-- The key pair with the private key, and the other one. -/
theorem exists_privkey {e f : AuthenticatedEncryption sodium}
    (h : e.hasPrivateKey = true ∨ f.hasPrivateKey = true) {pk pk' : Bytes}
    (hparties : Parties pk pk' e f) :
    ∃ (e' f' : AuthenticatedEncryption sodium) (privkey : Bytes),
      Parties pk pk' e' f' ∧ e'.mPrivkey = some privkey ∧
      (∀ message nonce, (if e.hasPrivateKey then e.encrypt message f nonce
        else f.encrypt message e nonce) = e'.encrypt message f' nonce) ∧
      ∀ cipher, (if e.hasPrivateKey then e.decrypt cipher f else f.decrypt cipher e) =
        e'.decrypt cipher f' := by
  by_cases hfirst : e.hasPrivateKey = true
  · obtain ⟨privkey, hprivkey⟩ := Option.isSome_iff_exists.1 hfirst
    exact ⟨e, f, privkey, hparties, hprivkey, fun _ _ => if_pos hfirst, fun _ => if_pos hfirst⟩
  · obtain ⟨privkey, hprivkey⟩ := Option.isSome_iff_exists.1 (h.resolve_left hfirst)
    exact ⟨f, e, privkey, hparties.symm.imp And.symm And.symm, hprivkey,
      fun _ _ => if_neg hfirst, fun _ => if_neg hfirst⟩

/-- What one party encrypts, the other one decrypts. -/
theorem decrypt_encrypt (hboxes : sodium.Boxes) {e f e' f' : AuthenticatedEncryption sodium}
    (hparties : Parties (sodium.scalarmultBase sk) (sodium.scalarmultBase sk') e f)
    (hparties' : Parties (sodium.scalarmultBase sk) (sodium.scalarmultBase sk') e' f')
    {privkey' : Bytes} (hprivkey' : e'.mPrivkey = some privkey') {message cipher : Bytes}
    {nonce : Nonce} (hencrypt : e.encrypt message f nonce = .ok cipher) :
    e'.decrypt cipher f' = .ok message := by
  unfold AuthenticatedEncryption.encrypt at hencrypt
  cases hprivkey : e.mPrivkey with
  | none =>
    rw [hprivkey] at hencrypt
    cases hencrypt
  | some privkey =>
    rw [hprivkey] at hencrypt
    dsimp only at hencrypt
    rw [hboxes.easy, boxBeforenm_eq hboxes hparties hprivkey] at hencrypt
    cases hsecret : sodium.boxBeforenm (sodium.scalarmultBase sk') sk with
    | none =>
      rw [hsecret] at hencrypt
      cases hencrypt
    | some secret =>
      rw [hsecret] at hencrypt
      obtain rfl := Except.ok.inj hencrypt
      have hlength : (nonce.1 ++ sodium.boxEasyAfternm message nonce.1 secret).length =
          nonceBytes + (macBytes + message.length) := by
        rw [List.length_append, nonce.2, hboxes.length]
      unfold AuthenticatedEncryption.decrypt
      rw [hprivkey']
      dsimp only
      rw [if_neg (by omega), List.drop_left' nonce.2, List.take_left' nonce.2, hboxes.openEasy,
        boxBeforenm_eq hboxes hparties' hprivkey', hsecret, Option.bind_some, hboxes.opens]

/-- **Memos between two parties.**  A memo that one of two parties has encrypted is read back by
whoever knows the private key of one of them, with the key pairs in any order, exactly if
compression lets it. -/
theorem decryptShared_iff (hboxes : sodium.Boxes) (hzlib : zlib.Documented)
    {e f e' f' : AuthenticatedEncryption sodium}
    (hparties : Parties (sodium.scalarmultBase sk) (sodium.scalarmultBase sk') e f)
    (hparties' : Parties (sodium.scalarmultBase sk) (sodium.scalarmultBase sk') e' f')
    (hprivate : e'.hasPrivateKey = true ∨ f'.hasPrivateKey = true) {memo : Bytes} {nonce : Nonce}
    {m : EncryptedMemo} (hm : encryptShared zlib memo e f nonce = .ok m) :
    decryptShared zlib m e' f' = .ok memo ↔ zlib.Recoverable memo := by
  unfold encryptShared at hm
  cases hcompress : zlib.compress memo with
  | error exception =>
    rw [hcompress] at hm
    cases hm
  | ok compressed =>
    rw [hcompress] at hm
    dsimp only at hm
    by_cases hprivate₀ : e.hasPrivateKey = true ∨ f.hasPrivateKey = true
    · obtain ⟨e₁, f₁, -, hparties₁, -, hencrypt, -⟩ := exists_privkey hprivate₀ hparties
      obtain ⟨e₂, f₂, privkey, hparties₂, hprivkey, -, hdecrypt⟩ :=
        exists_privkey hprivate hparties'
      rw [hencrypt] at hm
      cases hcipher : e₁.encrypt compressed f₁ nonce with
      | error exception =>
        rw [hcipher] at hm
        cases hm
      | ok cipher =>
        rw [hcipher] at hm
        obtain rfl := Except.ok.inj hm
        unfold decryptShared
        dsimp only
        rw [hdecrypt, decrypt_encrypt hboxes hparties₁ hparties₂ hprivkey hcipher]
        exact Zlib.decompress_iff hzlib hcompress
    · -- without a private key nothing was encrypted
      rw [not_or] at hprivate₀
      have hnone : f.mPrivkey = none :=
        Option.isNone_iff_eq_none.1 (Option.isSome_eq_false_iff.1 (Bool.eq_false_iff.2 hprivate₀.2))
      rw [if_neg hprivate₀.1, AuthenticatedEncryption.encrypt, hnone] at hm
      cases hm

/-- **Memos for the community** are read back with its private key, exactly if compression lets
them. -/
theorem decryptForCommunity_iff (hboxes : sodium.SealedBoxes) (hzlib : zlib.Documented)
    {e e' : AuthenticatedEncryption sodium} (hsame : e'.mPublicKey = e.mPublicKey)
    (hprivate : e'.hasPrivateKey = true) {memo random : Bytes} {m : EncryptedMemo}
    (hm : encryptForCommunity zlib memo e random = .ok m) :
    decryptForCommunity zlib m e' = .ok memo ↔ zlib.Recoverable memo := by
  unfold encryptForCommunity at hm
  cases hcompress : zlib.compress memo with
  | error exception =>
    rw [hcompress] at hm
    cases hm
  | ok compressed =>
    rw [hcompress] at hm
    obtain rfl := Except.ok.inj hm
    obtain ⟨privkey, hprivkey⟩ := Option.isSome_iff_exists.1 hprivate
    have hpair := e'.keyPair privkey hprivkey
    have hopen : sealedBoxesDecrypt e' (sealedBoxesEncrypt e compressed random) =
        .ok compressed := by
      unfold sealedBoxesDecrypt sealedBoxesEncrypt
      rw [hboxes.length, if_neg (by omega), hprivkey]
      dsimp only
      rw [← hsame, hpair, hboxes.opens]
    unfold decryptForCommunity
    dsimp only
    rw [hopen]
    exact Zlib.decompress_iff hzlib hcompress

/-- **Encrypted memos** are read back exactly if compression lets them: those between two parties by
whoever knows a private key of one of them, and those for the community with its private key. -/
theorem memos_readBack (hboxes : sodium.Boxes) (hsealed : sodium.SealedBoxes)
    (hzlib : zlib.Documented) (memo : Bytes) :
    (∀ (sk sk' : Bytes) (e f e' f' : AuthenticatedEncryption sodium) (nonce : Nonce)
      (m : EncryptedMemo),
      Parties (sodium.scalarmultBase sk) (sodium.scalarmultBase sk') e f →
      Parties (sodium.scalarmultBase sk) (sodium.scalarmultBase sk') e' f' →
      (e'.hasPrivateKey = true ∨ f'.hasPrivateKey = true) →
      encryptShared zlib memo e f nonce = .ok m →
      (decryptShared zlib m e' f' = .ok memo ↔ zlib.Recoverable memo)) ∧
    ∀ (e e' : AuthenticatedEncryption sodium) (random : Bytes) (m : EncryptedMemo),
      e'.mPublicKey = e.mPublicKey → e'.hasPrivateKey = true →
      encryptForCommunity zlib memo e random = .ok m →
      (decryptForCommunity zlib m e' = .ok memo ↔ zlib.Recoverable memo) :=
  ⟨fun _ _ _ _ _ _ _ _ hparties hparties' hprivate hm =>
      decryptShared_iff hboxes hzlib hparties hparties' hprivate hm,
    fun _ _ _ _ hsame hprivate hm => decryptForCommunity_iff hsealed hzlib hsame hprivate hm⟩

end Memo

namespace Sample

/-- A compressor that puts the header in front of a text, and its reader. -/
def header : Zlib where
  compressBound n := n + 2
  compress2 size plain :=
    if plain.length + 2 ≤ size then some (zlibHeaderData ++ plain) else none
  uncompress size packed :=
    if packed.take 2 = zlibHeaderData then
      if (packed.drop 2).length ≤ size then .ok (packed.drop 2) else .error .TINF_DATA_ERROR
    else .error .TINF_DATA_ERROR
  inflate packed := if packed.take 2 = zlibHeaderData then some (packed.drop 2) else none

theorem header_documented : header.Documented where
  packs size plain hsize := ⟨zlibHeaderData ++ plain, if_pos hsize, rfl, rfl⟩
  unpacks size packed plain hinflate hsize := by
    simp only [header] at hinflate ⊢
    split_ifs at hinflate with hheader
    obtain rfl := Option.some.inj hinflate
    rw [if_pos hheader, if_pos hsize]
  tooLong size packed plain hinflate hsize := by
    simp only [header] at hinflate ⊢
    split_ifs at hinflate with hheader
    obtain rfl := Option.some.inj hinflate
    rw [if_pos hheader, if_neg (by omega)]
  invalid size packed hinflate := by
    simp only [header] at hinflate ⊢
    split_ifs at hinflate with hheader
    exact ⟨.TINF_DATA_ERROR, if_neg hheader⟩

/-- A short memo. -/
def memo : Bytes := [104, 101, 108, 108, 111]

theorem memo_recoverable : header.Recoverable memo where
  nonempty := by decide
  stored _ hheader := absurd hheader (by decide)
  packed hnot := (hnot rfl).elim

/-- The other key pair with its private key, and the public key of the first. -/
def bobPrivate : AuthenticatedEncryption framing := .ofPrivate framing (List.replicate 32 2)

/-- The public key of the first key pair. -/
def alicePublic : AuthenticatedEncryption framing := .ofPublicKey framing (List.replicate 32 1)

/-- The memo as it is stored. -/
def encrypted : EncryptedMemo :=
  ⟨.sharedSecret, nonce.1 ++ (List.replicate macBytes 0 ++ memo)⟩

theorem encryptShared_memo : encryptShared header memo alice bob nonce = .ok encrypted := rfl

end Sample

/-- The recipient reads a memo with the key pairs the other way round. -/
theorem memos_readBack_sample : decryptShared Sample.header Sample.encrypted Sample.bobPrivate
    Sample.alicePublic = .ok Sample.memo :=
  ((memos_readBack Sample.framing_boxes Sample.framing_sealedBoxes Sample.header_documented
    Sample.memo).1 (List.replicate 32 1) (List.replicate 32 2) Sample.alice Sample.bob
    Sample.bobPrivate Sample.alicePublic Sample.nonce Sample.encrypted (.inl ⟨rfl, rfl⟩)
    (.inr ⟨rfl, rfl⟩) (.inl rfl) Sample.encryptShared_memo).2 Sample.memo_recoverable

end Gradido.Crypto
