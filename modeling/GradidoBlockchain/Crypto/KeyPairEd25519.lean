import GradidoBlockchain.Crypto.Passphrase
import Mathlib.Data.List.Basic

/-!
# Key pairs and their children

A key pair is made of a seed or of a passphrase, and other key pairs are derived
from it by indices.  Only the upper half of the indices can be derived, and only
with the private key.  The constructor checks the sizes of all keys, so that they
are part of the type.  The functions of libsodium are parameters; the sizes of
the blocks that they write are part of their types.
-/

namespace Gradido.Crypto

/-! ### libsodium -/

/-- A block that was allocated with this size. -/
abbrev SizedBlock (size : ℕ) := { block : Text // block.length = size }

/-- `ED25519_PUBLIC_KEY_SIZE`. -/
def publicKeySize : ℕ := 32

/-- `ED25519_PRIVATE_KEY_SIZE`. -/
def privateKeySize : ℕ := 64

/-- `ED25519_SIGNATURE_SIZE`. -/
def signatureSize : ℕ := 64

/-- `ED25519_CHAIN_CODE_SIZE`. -/
def chainCodeSize : ℕ := 32

/-- The size of the seed that `crypto_sign_seed_keypair` reads. -/
def seedSize : ℕ := 32

/-- The functions of libsodium that are used; `none` stands for a result that is not zero. -/
structure SignSodium where
  hashSha512 : Text → SizedBlock 64
  authHmacsha512 : (key message : Text) → SizedBlock 64
  signSeedKeypair : (seed : Text) → SizedBlock publicKeySize × SizedBlock privateKeySize
  signDetached : (message privateKey : Text) → Option (SizedBlock signatureSize)
  signVerifyDetached : (signature message publicKey : Text) → Bool

/-- What is documented of the signatures: the private key is the seed with the public key behind it,
and what was signed with it is verified with the public key. -/
structure SignSodium.Signs (sodium : SignSodium) : Prop where
  privateKey : ∀ seed, seed.length = seedSize →
    (sodium.signSeedKeypair seed).2.1 = seed ++ (sodium.signSeedKeypair seed).1.1
  verified : ∀ seed message, seed.length = seedSize → ∃ signature,
    sodium.signDetached message (sodium.signSeedKeypair seed).2.1 = some signature ∧
      sodium.signVerifyDetached signature.1 message (sodium.signSeedKeypair seed).1.1 = true

/-! ### The class -/

/-- What is thrown here, with the key that the exception carries. -/
inductive Ed25519Exception
  | sign (what : String) (pubkey : Text) (message : String)
  | derive (what : String) (pubkey : Text)
  | invalidKey (what : String) (invalidKey : Text) (expectedKeySize : ℕ)
  | missingKey (what : String)
deriving DecidableEq

/-- `Ed25519DerivationType`. -/
inductive Ed25519DerivationType
  | SOFT
  | HARD
deriving DecidableEq

/-- `KeyPairEd25519`: the sizes are checked by the constructor. -/
structure KeyPairEd25519 where
  mSodiumPublic : Text
  mExtendedSecret : Option Text
  mChainCode : Option Text
  publicKey_size : mSodiumPublic.length = publicKeySize
  privateKey_size : ∀ sk ∈ mExtendedSecret, sk.length = privateKeySize
  chainCode_size : ∀ c ∈ mChainCode, c.length = chainCodeSize
deriving DecidableEq

/-- `KeyPairEd25519Ex`. -/
structure KeyPairEd25519Ex extends KeyPairEd25519 where
  mDerivationIndex : UInt32
deriving DecidableEq

namespace KeyPairEd25519

/-- `KeyPairEd25519::checkKeySizes`, and the key pair that passes it. -/
def checkKeySizes (mSodiumPublic mExtendedSecret mChainCode : Option Text) :
    Except Ed25519Exception KeyPairEd25519 :=
  if hsecret : ∀ sk ∈ mExtendedSecret, sk.length = privateKeySize then
    match mSodiumPublic with
    | none => .error (.missingKey "missing public key")
    | some pk =>
      if hpublic : pk.length = publicKeySize then
        if hchain : ∀ c ∈ mChainCode, c.length = chainCodeSize then
          .ok ⟨pk, mExtendedSecret, mChainCode, hpublic, hsecret, hchain⟩
        else .error (.invalidKey "invalid chain code size" (mChainCode.getD []) chainCodeSize)
      else .error (.invalidKey "invalid public key size or missing public key" pk publicKeySize)
  else .error (.invalidKey "invalid private key size" (mExtendedSecret.getD []) privateKeySize)

/-- The constructor.  A public key with one byte before it is cut, one of any other size is not
taken. -/
def ofKeys (publicKey : Text) (privateKey chainCode : Option Text) :
    Except Ed25519Exception KeyPairEd25519 :=
  checkKeySizes
    (if publicKey.length = publicKeySize + 1 then some (publicKey.drop 1)
      else if publicKey.length = publicKeySize then some publicKey
      else none)
    privateKey chainCode

variable (sodium : SignSodium)

/-- The key pair of the first half of a hash, with the second half as chain code. -/
def ofHash (hash : SizedBlock 64) : Except Ed25519Exception KeyPairEd25519 :=
  ofKeys (sodium.signSeedKeypair (hash.1.take seedSize)).1
    (some (sodium.signSeedKeypair (hash.1.take seedSize)).2) (some (hash.1.drop seedSize))

/-- `"ed25519 seed"`. -/
def curveId : Text := [101, 100, 50, 53, 53, 49, 57, 32, 115, 101, 101, 100]

/-- `KeyPairEd25519::create(seed)`. -/
def create (seed : Text) : Except Ed25519Exception KeyPairEd25519 :=
  ofHash sodium (sodium.authHmacsha512 curveId seed)

/-- `KeyPairEd25519::calculatePublicKey`. -/
def calculatePublicKey (privateKey : Text) : Except Ed25519Exception Text :=
  if privateKey.length ≠ privateKeySize then
    .error (.invalidKey "invalid key size" privateKey privateKeySize)
  else .ok (sodium.signSeedKeypair (privateKey.take seedSize)).1

/-- `KeyPairEd25519::getDerivationType`. -/
def getDerivationType (index : UInt32) : Ed25519DerivationType :=
  if 0x80000000 ≤ index then .HARD else .SOFT

/-- What is hashed for a child: a zero, the seed in the private key, and the index, its highest byte
first. -/
def childData (privateKey : Text) (index : UInt32) : Text :=
  0 :: privateKey.take 32 ++ [(index >>> 24).toUInt8, (index >>> 16).toUInt8, (index >>> 8).toUInt8,
    index.toUInt8]

/-- `KeyPairEd25519::derivePrivateKey`. -/
def derivePrivateKey (k : KeyPairEd25519) (index : UInt32) :
    Except Ed25519Exception KeyPairEd25519Ex :=
  if getDerivationType index ≠ .HARD then
    .error (.derive "only harden key allowed for ed25519 key derivation" k.mSodiumPublic)
  else
    match k.mExtendedSecret with
    | none =>
      .error (.derive "invalid extended secret for private key derivation" k.mSodiumPublic)
    | some privateKey =>
      match k.mChainCode with
      | none => .error (.derive "invalid chain code for private key derivation" k.mSodiumPublic)
      | some chainCode =>
        (ofHash sodium (sodium.authHmacsha512 chainCode (childData privateKey index))).map
          fun child => { child with mDerivationIndex := index }

/-- `KeyPairEd25519::derivePublicKey`. -/
def derivePublicKey (k : KeyPairEd25519) (_index : UInt32) :
    Except Ed25519Exception KeyPairEd25519Ex :=
  .error (.derive "public key derivation is not supported for ed25519" k.mSodiumPublic)

/-- `KeyPairEd25519::hasPrivateKey`. -/
def hasPrivateKey (k : KeyPairEd25519) : Bool := k.mExtendedSecret.isSome

/-- `KeyPairEd25519::deriveChild`. -/
def deriveChild (k : KeyPairEd25519) (index : UInt32) : Except Ed25519Exception KeyPairEd25519Ex :=
  if k.mChainCode = none then
    .error (.derive "derivation without chain code not possible" k.mSodiumPublic)
  else if k.hasPrivateKey then k.derivePrivateKey sodium index
  else k.derivePublicKey index

/-- `KeyPairEd25519::sign`. -/
def sign (k : KeyPairEd25519) (message : Text) : Except Ed25519Exception Text :=
  match k.mExtendedSecret with
  | none => .error (.missingKey "missing or invalid secret key for sign")
  | some privateKey =>
    if message = [] then
      .error (.sign "invalid message for sign" k.mSodiumPublic "empty/missing message")
    else
      match sodium.signDetached message privateKey with
      | none => .error (.sign "signing failed" k.mSodiumPublic
          "libsodium signing function returned non-zero")
      | some signature => .ok signature

/-- `KeyPairEd25519::verify`. -/
def verify (k : KeyPairEd25519) (message signature : Text) : Bool :=
  if message = [] ∨ signature = [] then false
  else sodium.signVerifyDetached signature message k.mSodiumPublic

/-- `KeyPairEd25519::getSlip10PublicKey`. -/
def getSlip10PublicKey (k : KeyPairEd25519) : Text := 0 :: k.mSodiumPublic

/-- `KeyPairEd25519::isTheSame`. -/
def isTheSame (k b : KeyPairEd25519) : Bool := decide (b.mSodiumPublic = k.mSodiumPublic)

end KeyPairEd25519

/-- `KeyPairEd25519Ex::isChildOf`. -/
def KeyPairEd25519Ex.isChildOf (sodium : SignSodium) (k : KeyPairEd25519Ex)
    (parent : KeyPairEd25519) : Except Ed25519Exception Bool :=
  if parent.mChainCode = none then
    .error (.derive "missing chain code for child validation" k.mSodiumPublic)
  else
    (parent.deriveChild sodium k.mDerivationIndex).map fun freshDerived =>
      k.isTheSame freshDerived.toKeyPairEd25519

namespace KeyPairEd25519

/-- One child after the other. -/
def derivePath (sodium : SignSodium) :
    KeyPairEd25519 → List UInt32 → Except Ed25519Exception KeyPairEd25519
  | k, [] => .ok k
  | k, index :: path =>
    match k.deriveChild sodium index with
    | .error e => .error e
    | .ok child => derivePath sodium child.toKeyPairEd25519 path

/-! ### Key pairs of seeds -/

variable {sodium : SignSodium} {k : KeyPairEd25519} {index : UInt32}

/-- The keys are those that libsodium makes of a seed, and there is a chain code. -/
structure OfSeed (sodium : SignSodium) (k : KeyPairEd25519) : Prop where
  keys : ∃ seed, seed.length = seedSize ∧ k.mSodiumPublic = (sodium.signSeedKeypair seed).1.1 ∧
    k.mExtendedSecret = some (sodium.signSeedKeypair seed).2.1
  chainCode : k.mChainCode.isSome = true

/-- The blocks of libsodium pass the check of the sizes. -/
theorem ofHash_ofSeed (sodium : SignSodium) (hash : SizedBlock 64) :
    ∃ k, ofHash sodium hash = .ok k ∧ OfSeed sodium k := by
  have hseed : (hash.1.take seedSize).length = seedSize := by
    rw [List.length_take, hash.2]
    rfl
  have hchain : (hash.1.drop seedSize).length = chainCodeSize := by
    rw [List.length_drop, hash.2]
    rfl
  have hpublic := (sodium.signSeedKeypair (hash.1.take seedSize)).1.2
  have hsecret : ∀ sk ∈ some (sodium.signSeedKeypair (hash.1.take seedSize)).2.1,
      sk.length = privateKeySize := by
    rintro sk ⟨⟩
    exact (sodium.signSeedKeypair (hash.1.take seedSize)).2.2
  have hcode : ∀ c ∈ some (hash.1.drop seedSize), c.length = chainCodeSize := by
    rintro c ⟨⟩
    exact hchain
  refine ⟨⟨_, _, _, hpublic, hsecret, hcode⟩, ?_, ⟨_, hseed, rfl, rfl⟩, rfl⟩
  rw [ofHash, ofKeys, if_neg (by rw [hpublic]; decide), if_pos hpublic, checkKeySizes,
    dif_pos hsecret]
  dsimp only
  rw [dif_pos hpublic, dif_pos hcode]

theorem create_ofSeed (sodium : SignSodium) (seed : Text) :
    ∃ k, create sodium seed = .ok k ∧ OfSeed sodium k :=
  ofHash_ofSeed sodium _

theorem OfSeed.deriveChild_eq (h : OfSeed sodium k) (index : UInt32) :
    k.deriveChild sodium index = k.derivePrivateKey sodium index := by
  obtain ⟨seed, -, -, hsecret⟩ := h.keys
  have hchain : k.mChainCode ≠ none := Option.isSome_iff_ne_none.1 h.chainCode
  have hprivate : k.hasPrivateKey = true := by
    rw [hasPrivateKey, hsecret]
    rfl
  rw [deriveChild, if_neg hchain, if_pos hprivate]

/-- **A child.**  The upper half of the indices is derived, and gives a key pair of a seed. -/
theorem OfSeed.deriveChild_hard (h : OfSeed sodium k) (hindex : getDerivationType index = .HARD) :
    ∃ child, k.deriveChild sodium index = .ok child ∧ child.mDerivationIndex = index ∧
      OfSeed sodium child.toKeyPairEd25519 := by
  obtain ⟨seed, -, -, hsecret⟩ := h.keys
  obtain ⟨chainCode, hchain⟩ := Option.isSome_iff_exists.1 h.chainCode
  obtain ⟨child, hchild, hofSeed⟩ := ofHash_ofSeed sodium (sodium.authHmacsha512 chainCode
    (childData (sodium.signSeedKeypair seed).2.1 index))
  refine ⟨{ child with mDerivationIndex := index }, ?_, rfl, hofSeed⟩
  rw [h.deriveChild_eq, derivePrivateKey, if_neg (by rw [hindex]; decide), hsecret, hchain]
  dsimp only
  rw [hchild]
  rfl

theorem OfSeed.deriveChild_soft (h : OfSeed sodium k) (hindex : getDerivationType index = .SOFT) :
    k.deriveChild sodium index =
      .error (.derive "only harden key allowed for ed25519 key derivation" k.mSodiumPublic) := by
  rw [h.deriveChild_eq, derivePrivateKey, if_pos (by rw [hindex]; decide)]

/-! ### What can be done with a key pair -/

/-- A key pair that signs and derives, and of which a copy without the private key does neither. -/
structure Usable (sodium : SignSodium) (k : KeyPairEd25519) : Prop where
  calculated : ∃ privateKey, k.mExtendedSecret = some privateKey ∧
    calculatePublicKey sodium privateKey = .ok k.mSodiumPublic
  signed : ∀ message, message ≠ [] → ∃ signature, k.sign sodium message = .ok signature ∧
    k.verify sodium message signature = true
  children : ∀ index, getDerivationType index = .HARD → ∃ child,
    k.deriveChild sodium index = .ok child ∧ child.mDerivationIndex = index ∧
      child.isChildOf sodium k = .ok true
  publicCopy : ∃ copy, ofKeys k.getSlip10PublicKey none k.mChainCode = .ok copy ∧
    copy.isTheSame k = true ∧
    (∀ message signature, copy.verify sodium message signature =
      k.verify sodium message signature) ∧
    (∀ message, copy.sign sodium message =
      .error (.missingKey "missing or invalid secret key for sign")) ∧
    ∀ index, copy.deriveChild sodium index =
      .error (.derive "public key derivation is not supported for ed25519" k.mSodiumPublic)

/-- The key pair without its private key, by way of the longer public key. -/
theorem ofKeys_getSlip10PublicKey (k : KeyPairEd25519) :
    ofKeys k.getSlip10PublicKey none k.mChainCode = .ok
      { k with mExtendedSecret := none, privateKey_size := by rintro sk ⟨⟩ } := by
  have hsize : k.getSlip10PublicKey.length = publicKeySize + 1 := by
    rw [getSlip10PublicKey, List.length_cons, k.publicKey_size]
  rw [ofKeys, if_pos hsize, checkKeySizes, dif_pos (by rintro sk ⟨⟩)]
  dsimp only
  have hdrop : k.getSlip10PublicKey.drop 1 = k.mSodiumPublic := rfl
  simp only [hdrop]
  rw [dif_pos k.publicKey_size, dif_pos k.chainCode_size]

theorem OfSeed.usable (hsigns : sodium.Signs) (h : OfSeed sodium k) : Usable sodium k where
  calculated := by
    obtain ⟨seed, hseed, hpublic, hsecret⟩ := h.keys
    have htake : ((sodium.signSeedKeypair seed).2.1).take seedSize = seed := by
      rw [hsigns.privateKey seed hseed, ← hseed, List.take_left]
    refine ⟨_, hsecret, ?_⟩
    rw [calculatePublicKey, if_neg (not_not.2 (sodium.signSeedKeypair seed).2.2), htake, hpublic]
  signed := by
    intro message hmessage
    obtain ⟨seed, hseed, hpublic, hsecret⟩ := h.keys
    obtain ⟨signature, hsigned, hverified⟩ := hsigns.verified seed message hseed
    refine ⟨signature.1, ?_, ?_⟩
    · rw [sign, hsecret]
      dsimp only
      rw [if_neg hmessage, hsigned]
    · have hne : signature.1 ≠ [] := by
        intro hnil
        have hsize := signature.2
        rw [hnil] at hsize
        exact absurd hsize (by decide)
      rw [verify, if_neg (not_or.2 ⟨hmessage, hne⟩), hpublic, hverified]
  children := by
    intro index hindex
    obtain ⟨child, hchild, hmIndex, -⟩ := h.deriveChild_hard hindex
    refine ⟨child, hchild, hmIndex, ?_⟩
    rw [KeyPairEd25519Ex.isChildOf, if_neg (Option.isSome_iff_ne_none.1 h.chainCode), hmIndex,
      hchild, Except.map, isTheSame, decide_eq_true rfl]
  publicCopy := by
    refine ⟨_, ofKeys_getSlip10PublicKey k, decide_eq_true rfl, fun _ _ => rfl, fun _ => rfl, ?_⟩
    intro index
    rw [deriveChild, if_neg (Option.isSome_iff_ne_none.1 h.chainCode),
      if_neg (by simp [hasPrivateKey])]
    rfl

/-! ### Paths -/

/-- By induction on the path: every key pair on it is one of a seed. -/
theorem OfSeed.derivePath (h : OfSeed sodium k) {path : List UInt32}
    (hpath : ∀ index ∈ path, getDerivationType index = .HARD) :
    ∃ k', derivePath sodium k path = .ok k' ∧ OfSeed sodium k' := by
  induction path generalizing k with
  | nil => exact ⟨k, rfl, h⟩
  | cons index path ih =>
    obtain ⟨child, hchild, -, hofSeed⟩ := h.deriveChild_hard (hpath index List.mem_cons_self)
    obtain ⟨k', hk', hofSeed'⟩ := ih hofSeed (fun j hj => hpath j (List.mem_cons_of_mem _ hj))
    refine ⟨k', ?_, hofSeed'⟩
    rw [KeyPairEd25519.derivePath, hchild]
    exact hk'

theorem derivePath_append {k' : KeyPairEd25519} {path : List UInt32}
    (h : derivePath sodium k path = .ok k') (rest : List UInt32) :
    derivePath sodium k (path ++ rest) = derivePath sodium k' rest := by
  induction path generalizing k with
  | nil =>
    rw [derivePath, Except.ok.injEq] at h
    rw [h, List.nil_append]
  | cons index path ih =>
    rw [derivePath] at h
    rw [List.cons_append, derivePath]
    cases hchild : k.deriveChild sodium index with
    | error e =>
      rw [hchild] at h
      exact absurd h (by simp)
    | ok child =>
      rw [hchild] at h
      exact ih h

/-- **The tree of a seed.**  Every seed makes a key pair.  Along the upper half of the indices all
key pairs can be derived; each of them signs, and is recognized as a child of the one before, and a
copy with the public key only verifies.  At the first other index the derivation stops, with the
public key that it has come to. -/
theorem create_derivePath (hsigns : sodium.Signs) (seed : Text) :
    ∃ root, create sodium seed = .ok root ∧
      (∀ path, (∀ index ∈ path, getDerivationType index = .HARD) →
        ∃ k, derivePath sodium root path = .ok k ∧ Usable sodium k) ∧
      ∀ path index rest, (∀ i ∈ path, getDerivationType i = .HARD) →
        getDerivationType index = .SOFT →
        ∃ k, derivePath sodium root path = .ok k ∧
          derivePath sodium root (path ++ index :: rest) =
            .error (.derive "only harden key allowed for ed25519 key derivation"
              k.mSodiumPublic) := by
  obtain ⟨root, hroot, hofSeed⟩ := create_ofSeed sodium seed
  refine ⟨root, hroot, ?_, ?_⟩
  · intro path hpath
    obtain ⟨k, hk, hofSeed'⟩ := hofSeed.derivePath hpath
    exact ⟨k, hk, hofSeed'.usable hsigns⟩
  · intro path index rest hpath hindex
    obtain ⟨k, hk, hofSeed'⟩ := hofSeed.derivePath hpath
    refine ⟨k, hk, ?_⟩
    rw [derivePath_append hk, KeyPairEd25519.derivePath, hofSeed'.deriveChild_soft hindex]

end KeyPairEd25519

namespace Sample

/-- The bytes in a block of a size, cut or with zeros behind them. -/
def fit (size : ℕ) (bytes : Text) : SizedBlock size :=
  ⟨(bytes ++ List.replicate size 0).take size, by simp⟩

theorem fit_of_length {size : ℕ} {bytes : Text} (h : bytes.length = size) :
    (fit size bytes).1 = bytes :=
  List.take_left' h

/-- A library whose hashes are cut, whose public key is the seed backwards, and whose signatures are
the public key and the message. -/
def signSodium : SignSodium where
  hashSha512 := fit 64
  authHmacsha512 key message := fit 64 (message ++ key)
  signSeedKeypair seed := (fit publicKeySize seed.reverse,
    fit privateKeySize (seed ++ (fit publicKeySize seed.reverse).1))
  signDetached message privateKey := some (fit signatureSize (privateKey.drop seedSize ++ message))
  signVerifyDetached signature message publicKey :=
    decide (signature = (fit signatureSize (publicKey ++ message)).1)

theorem signSodium_signs : signSodium.Signs := by
  have hkeys : ∀ seed : Text, seed.length = seedSize → (signSodium.signSeedKeypair seed).2.1 =
      seed ++ (signSodium.signSeedKeypair seed).1.1 := by
    intro seed hseed
    refine fit_of_length ?_
    rw [List.length_append, hseed, (fit publicKeySize seed.reverse).2]
    rfl
  refine ⟨hkeys, ?_⟩
  intro seed message hseed
  refine ⟨_, rfl, decide_eq_true ?_⟩
  rw [hkeys seed hseed, ← hseed, List.drop_left]

/-- A grandchild of the first hardened index. -/
theorem grandchild_usable : ∃ root k, KeyPairEd25519.create signSodium [1, 2, 3] = .ok root ∧
    KeyPairEd25519.derivePath signSodium root [0x80000000, 0x80000001] = .ok k ∧
    KeyPairEd25519.Usable signSodium k := by
  obtain ⟨root, hroot, hpaths, -⟩ := KeyPairEd25519.create_derivePath signSodium_signs [1, 2, 3]
  have hhard : ∀ index ∈ [0x80000000, 0x80000001],
      KeyPairEd25519.getDerivationType index = .HARD := by
    intro index hindex
    rcases List.mem_pair.1 hindex with rfl | rfl <;> rfl
  obtain ⟨k, hk, husable⟩ := hpaths [0x80000000, 0x80000001] hhard
  exact ⟨root, k, hroot, hk, husable⟩

end Sample

end Gradido.Crypto
