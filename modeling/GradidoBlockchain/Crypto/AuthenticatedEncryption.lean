import GradidoBlockchain.Lib.Answers
import Mathlib.Logic.Function.Basic
import Mathlib.Tactic.Ring

/-!
# Authenticated encryption

A party has a public key, and often the private key of it.  A message is
encrypted with the private key of one party and the public key of the other, and
whoever has one of the two private keys reads it.

The shared secret of a recipient may be calculated beforehand and is then used
by an index.  The functions of libsodium are parameters.
-/

namespace Gradido.Crypto

/-- A text of bytes. -/
abbrev Bytes := List UInt8

/-- What is thrown here; `allocationFailed` comes from a block whose size has run below zero. -/
inductive CryptoException
  | encryption (message : String)
  | decryption (message : String)
  | keyTransformation (message : String)
  | prepare (message : String)
  | sealedBoxesDecrypt (message : String)
  | minizCompress
  | tinfDecompress
  | allocationFailed
  | nullDereference
deriving DecidableEq

/-! ### libsodium -/

/-- The functions of libsodium that are used; `none` stands for a result that is not zero. -/
structure Sodium where
  scalarmultBase : Bytes → Bytes
  skToCurve25519 : Bytes → Bytes
  pkToCurve25519 : Bytes → Option Bytes
  boxBeforenm : Bytes → Bytes → Option Bytes
  boxEasy : Bytes → Bytes → Bytes → Bytes → Option Bytes
  boxOpenEasy : Bytes → Bytes → Bytes → Bytes → Option Bytes
  boxEasyAfternm : Bytes → Bytes → Bytes → Bytes
  boxOpenEasyAfternm : Bytes → Bytes → Bytes → Option Bytes
  boxSeal : Bytes → Bytes → Bytes → Bytes
  boxSealOpen : Bytes → Bytes → Bytes → Option Bytes

/-- `crypto_box_NONCEBYTES`. -/
def nonceBytes : ℕ := 24

/-- `crypto_box_MACBYTES`. -/
def macBytes : ℕ := 16

/-- `crypto_box_SEALBYTES`. -/
def sealBytes : ℕ := 48

/-- What `randombytes_buf` writes before a message. -/
abbrev Nonce := { n : Bytes // n.length = nonceBytes }

/-- What is documented of boxes: `crypto_box_easy` calculates the shared secret, which both parties
share, and encrypts with it; what was encrypted is decrypted with the same nonce and secret. -/
structure Sodium.Boxes (sodium : Sodium) : Prop where
  easy : ∀ message nonce pk sk, sodium.boxEasy message nonce pk sk =
    (sodium.boxBeforenm pk sk).map (sodium.boxEasyAfternm message nonce)
  openEasy : ∀ cipher nonce pk sk, sodium.boxOpenEasy cipher nonce pk sk =
    (sodium.boxBeforenm pk sk).bind (sodium.boxOpenEasyAfternm cipher nonce)
  opens : ∀ message nonce key,
    sodium.boxOpenEasyAfternm (sodium.boxEasyAfternm message nonce key) nonce key = some message
  length : ∀ message nonce key,
    (sodium.boxEasyAfternm message nonce key).length = macBytes + message.length
  shared : ∀ sk sk', sodium.boxBeforenm (sodium.scalarmultBase sk') sk =
    sodium.boxBeforenm (sodium.scalarmultBase sk) sk'

/-- What is documented of sealed boxes: the key pair of the recipient opens them. -/
structure Sodium.SealedBoxes (sodium : Sodium) : Prop where
  opens : ∀ message random sk, sodium.boxSealOpen
    (sodium.boxSeal message random (sodium.scalarmultBase sk)) (sodium.scalarmultBase sk) sk =
      some message
  length : ∀ message random pk,
    (sodium.boxSeal message random pk).length = sealBytes + message.length

/-! ### The class -/

variable {sodium : Sodium}

/-- `AuthenticatedEncryption`: a private key belongs to the public key. -/
structure AuthenticatedEncryption (sodium : Sodium) where
  mPublicKey : Bytes
  mPrivkey : Option Bytes
  mPrecalculatedSharedSecrets : ℤ → Option Bytes
  mPrecalculatedSharedSecretLastIndex : ℤ
  keyPair : ∀ sk ∈ mPrivkey, mPublicKey = sodium.scalarmultBase sk

namespace AuthenticatedEncryption

/-- A key pair without shared secrets. -/
def ofPrivate (sodium : Sodium) (sk : Bytes) : AuthenticatedEncryption sodium where
  mPublicKey := sodium.scalarmultBase sk
  mPrivkey := some sk
  mPrecalculatedSharedSecrets _ := none
  mPrecalculatedSharedSecretLastIndex := 0
  keyPair := by rintro sk ⟨⟩; rfl

/-- `AuthenticatedEncryption(publicKey)`. -/
def ofPublicKey (sodium : Sodium) (pubkeyx25519 : Bytes) : AuthenticatedEncryption sodium where
  mPublicKey := pubkeyx25519
  mPrivkey := none
  mPrecalculatedSharedSecrets _ := none
  mPrecalculatedSharedSecretLastIndex := 0
  keyPair := by rintro sk ⟨⟩

/-- `AuthenticatedEncryption(privateKey)`: the block of the private key stays as it was allocated,
and the argument is not read. -/
def ofPrivateKey (sodium : Sodium) (_privateKeyx25519 : Bytes) : AuthenticatedEncryption sodium :=
  ofPrivate sodium (List.replicate 32 0)

/-- `AuthenticatedEncryption(ed25519KeyPair)`. -/
def ofKeyPairEd25519 (sodium : Sodium) (publicKey : Bytes) (privateKey : Option Bytes) :
    Except CryptoException (AuthenticatedEncryption sodium) :=
  match privateKey with
  | some privateKey => .ok (ofPrivate sodium (sodium.skToCurve25519 privateKey))
  | none =>
    match sodium.pkToCurve25519 publicKey with
    | some pubkey => .ok (ofPublicKey sodium pubkey)
    | none => .error (.keyTransformation "error transforming ed25519 key to curve25519")

/-- `AuthenticatedEncryption::hasPrivateKey`. -/
def hasPrivateKey (e : AuthenticatedEncryption sodium) : Bool := e.mPrivkey.isSome

/-- `AuthenticatedEncryption::encrypt`, with what the random generator wrote. -/
def encrypt (e : AuthenticatedEncryption sodium) (message : Bytes)
    (recipiantKey : AuthenticatedEncryption sodium) (nonce : Nonce) :
    Except CryptoException Bytes :=
  match e.mPrivkey with
  | none => .error (.encryption "encrypt called with empty private key")
  | some privkey =>
    match sodium.boxEasy message nonce recipiantKey.mPublicKey privkey with
    | none => .error (.encryption "error by encrypt message")
    | some cipher => .ok (nonce.1 ++ cipher)

/-- `AuthenticatedEncryption::decrypt`. -/
def decrypt (e : AuthenticatedEncryption sodium) (encryptedMessage : Bytes)
    (senderKey : AuthenticatedEncryption sodium) : Except CryptoException Bytes :=
  match e.mPrivkey with
  | none => .error (.encryption "decrypt called with empty private key")
  | some privkey =>
    if encryptedMessage.length < nonceBytes + macBytes then .error .allocationFailed
    else
      match sodium.boxOpenEasy (encryptedMessage.drop nonceBytes) (encryptedMessage.take nonceBytes)
          senderKey.mPublicKey privkey with
      | none => .error (.decryption "error by decrypt message")
      | some message => .ok message

/-- `AuthenticatedEncryption::encrypt` by an index: without a secret the block behind the nonce
stays as it was allocated. -/
def encryptAt (e : AuthenticatedEncryption sodium) (message : Bytes)
    (precalculatedSharedSecretIndex : ℤ) (nonce : Nonce) : Except CryptoException Bytes :=
  match e.mPrivkey with
  | none => .error (.encryption
      "encrypt with precalculated shared secret index called with empty private key")
  | some _ =>
    match e.mPrecalculatedSharedSecrets precalculatedSharedSecretIndex with
    | some sharedSecret => .ok (nonce.1 ++ sodium.boxEasyAfternm message nonce sharedSecret)
    | none => .ok (nonce.1 ++ List.replicate (macBytes + message.length) 0)

/-- `AuthenticatedEncryption::decrypt` by an index: without a secret the result stays as it was
allocated. -/
def decryptAt (e : AuthenticatedEncryption sodium) (encryptedMessage : Bytes)
    (precalculatedSharedSecretIndex : ℤ) : Except CryptoException Bytes :=
  match e.mPrivkey with
  | none => .error (.encryption
      "decrypt with precalculated shared secret index called with empty private key")
  | some _ =>
    if encryptedMessage.length < nonceBytes + macBytes then .error .allocationFailed
    else
      match e.mPrecalculatedSharedSecrets precalculatedSharedSecretIndex with
      | some sharedSecret =>
        match sodium.boxOpenEasyAfternm (encryptedMessage.drop nonceBytes)
            (encryptedMessage.take nonceBytes) sharedSecret with
        | none => .error (.decryption "error by decrypt message")
        | some message => .ok message
      | none => .ok (List.replicate (encryptedMessage.length - (nonceBytes + macBytes)) 0)

/-- `mPrecalculatedSharedSecrets.insert`, which leaves an entry that is there. -/
def insert (secrets : ℤ → Option Bytes) (index : ℤ) (sharedSecret : Bytes) : ℤ → Option Bytes :=
  Function.update secrets index (some ((secrets index).getD sharedSecret))

/-- The key pair with other shared secrets. -/
def withSecrets (e : AuthenticatedEncryption sodium) (secrets : ℤ → Option Bytes) (last : ℤ) :
    AuthenticatedEncryption sodium :=
  { e with mPrecalculatedSharedSecrets := secrets, mPrecalculatedSharedSecretLastIndex := last }

@[simp] theorem mPrecalculatedSharedSecrets_withSecrets (e : AuthenticatedEncryption sodium)
    (secrets : ℤ → Option Bytes) (last : ℤ) :
    (e.withSecrets secrets last).mPrecalculatedSharedSecrets = secrets := rfl

/-- `AuthenticatedEncryption::precalculateSharedSecret`; the index is an `int`. -/
def precalculateSharedSecret (e recipiantKey : AuthenticatedEncryption sodium) :
    AuthenticatedEncryption sodium × Except CryptoException ℤ :=
  match e.mPrivkey with
  | none => (e, .ok (-1))
  | some privkey =>
    match sodium.boxBeforenm recipiantKey.mPublicKey privkey with
    | none => (e, .error (.prepare "error in precalculateSharedSecret"))
    | some sharedSecret =>
      let index := (e.mPrecalculatedSharedSecretLastIndex + 1).bmod 4294967296
      (e.withSecrets (insert e.mPrecalculatedSharedSecrets index sharedSecret) index, .ok index)

/-- `AuthenticatedEncryption::removePrecalculatedSharedSecret`. -/
def removePrecalculatedSharedSecret (e : AuthenticatedEncryption sodium) (index : ℤ) :
    AuthenticatedEncryption sodium × Bool :=
  if (e.mPrecalculatedSharedSecrets index).isSome then
    (e.withSecrets (Function.update e.mPrecalculatedSharedSecrets index none)
      e.mPrecalculatedSharedSecretLastIndex, true)
  else (e, false)

/-! ### Shared secrets by an index -/

/-- A call that uses or changes the shared secrets. -/
inductive SecretCall (sodium : Sodium)
  | precalculate (recipiantKey : AuthenticatedEncryption sodium)
  | remove (index : ℤ)
  | encrypt (message : Bytes) (index : ℤ) (nonce : Nonce)
  | decrypt (encryptedMessage : Bytes) (index : ℤ)

/-- What a call returns or throws. -/
inductive SecretAnswer
  | index (result : Except CryptoException ℤ)
  | removed (result : Bool)
  | block (result : Except CryptoException Bytes)

/-- A call of a key pair. -/
def call (e : AuthenticatedEncryption sodium) :
    SecretCall sodium → AuthenticatedEncryption sodium × SecretAnswer
  | .precalculate recipiantKey =>
    ((e.precalculateSharedSecret recipiantKey).1,
      .index (e.precalculateSharedSecret recipiantKey).2)
  | .remove index =>
    ((e.removePrecalculatedSharedSecret index).1,
      .removed (e.removePrecalculatedSharedSecret index).2)
  | .encrypt message index nonce => (e, .block (e.encryptAt message index nonce))
  | .decrypt encryptedMessage index => (e, .block (e.decryptAt encryptedMessage index))

/-- What the indices stand for: recipients, numbered from one in the order of the calls. -/
structure Recipients (sodium : Sodium) where
  recipient : ℤ → Option (AuthenticatedEncryption sodium)
  last : ℤ

/-- No index was given. -/
def Recipients.none (sodium : Sodium) : Recipients sodium := ⟨fun _ => .none, 0⟩

/-- A key pair that keeps the recipients, and encrypts for them and decrypts from them when it is
called.  An index that stands for no recipient encrypts to zeros behind the nonce, and decrypts to
zeros whatever the message is. -/
def callByRecipient (e : AuthenticatedEncryption sodium) (r : Recipients sodium) :
    SecretCall sodium → Recipients sodium × SecretAnswer
  | .precalculate recipiantKey =>
    match e.mPrivkey with
    | .none => (r, .index (.ok (-1)))
    | some privkey =>
      if (sodium.boxBeforenm recipiantKey.mPublicKey privkey).isSome then
        (⟨Function.update r.recipient (r.last + 1) (some recipiantKey), r.last + 1⟩,
          .index (.ok (r.last + 1)))
      else (r, .index (.error (.prepare "error in precalculateSharedSecret")))
  | .remove index =>
    (⟨Function.update r.recipient index .none, r.last⟩, .removed (r.recipient index).isSome)
  | .encrypt message index nonce =>
    (r, .block (
      if e.hasPrivateKey then
        match r.recipient index with
        | some recipiantKey => e.encrypt message recipiantKey nonce
        | .none => .ok (nonce.1 ++ List.replicate (macBytes + message.length) 0)
      else .error (.encryption
        "encrypt with precalculated shared secret index called with empty private key")))
  | .decrypt encryptedMessage index =>
    (r, .block (
      if e.hasPrivateKey then
        match r.recipient index with
        | some senderKey => e.decrypt encryptedMessage senderKey
        | .none =>
          if encryptedMessage.length < nonceBytes + macBytes then .error .allocationFailed
          else .ok (List.replicate (encryptedMessage.length - (nonceBytes + macBytes)) 0)
      else .error (.encryption
        "decrypt with precalculated shared secret index called with empty private key")))

/-- A key pair after some calls: its keys are those of `e`, an index has the secret that `e` shares
with the recipient it stands for, and no index above the last one was given. -/
structure Represents (e f : AuthenticatedEncryption sodium) (r : Recipients sodium) : Prop where
  publicKey : f.mPublicKey = e.mPublicKey
  privkey : f.mPrivkey = e.mPrivkey
  last : f.mPrecalculatedSharedSecretLastIndex = r.last
  nonneg : 0 ≤ r.last
  fresh : ∀ index, r.last < index → r.recipient index = .none
  shared : ∀ index recipiantKey, r.recipient index = some recipiantKey → ∃ privkey sharedSecret,
    e.mPrivkey = some privkey ∧
    sodium.boxBeforenm recipiantKey.mPublicKey privkey = some sharedSecret ∧
    f.mPrecalculatedSharedSecrets index = some sharedSecret
  empty : ∀ index, r.recipient index = .none → f.mPrecalculatedSharedSecrets index = .none

variable {e f : AuthenticatedEncryption sodium} {r : Recipients sodium}

/-- The next index is a new one. -/
theorem Represents.next (h : e.Represents f r) (hlast : r.last < 2147483647) :
    (f.mPrecalculatedSharedSecretLastIndex + 1).bmod 4294967296 = r.last + 1 := by
  have hnonneg := h.nonneg
  rw [h.last]
  exact Int.bmod_eq_of_le (by omega) (by omega)

/-- A secret that is calculated is the one that the index stands for from then on. -/
theorem Represents.precalculate (h : e.Represents f r) (hlast : r.last < 2147483647)
    (recipiantKey : AuthenticatedEncryption sodium) :
    (f.call (.precalculate recipiantKey)).2 = (e.callByRecipient r (.precalculate recipiantKey)).2 ∧
      e.Represents (f.call (.precalculate recipiantKey)).1
        (e.callByRecipient r (.precalculate recipiantKey)).1 := by
  unfold call callByRecipient precalculateSharedSecret
  rw [h.privkey]
  cases hprivkey : e.mPrivkey with
  | none => exact ⟨rfl, h⟩
  | some privkey =>
    dsimp only
    cases hsecret : sodium.boxBeforenm recipiantKey.mPublicKey privkey with
    | none => exact ⟨rfl, h⟩
    | some sharedSecret =>
      have hfresh : f.mPrecalculatedSharedSecrets (r.last + 1) = none :=
        h.empty _ (h.fresh _ (Int.lt_succ r.last))
      dsimp only
      rw [h.next hlast, if_pos (Option.isSome_some)]
      refine ⟨rfl, h.publicKey, h.privkey, rfl, by have := h.nonneg; dsimp only; omega, ?_, ?_, ?_⟩
      · intro index hindex
        dsimp only at hindex ⊢
        rw [Function.update_of_ne (by omega), h.fresh index (by omega)]
      · intro index other hother
        dsimp only at hother ⊢
        by_cases hindex : index = r.last + 1
        · subst hindex
          rw [Function.update_self, Option.some.injEq] at hother
          subst hother
          refine ⟨privkey, sharedSecret, hprivkey, hsecret, ?_⟩
          rw [mPrecalculatedSharedSecrets_withSecrets, insert, Function.update_self, hfresh]
          rfl
        · rw [Function.update_of_ne hindex] at hother
          obtain ⟨privkey', secret, hpriv, hbefore, hfound⟩ := h.shared index other hother
          refine ⟨privkey', secret, hpriv, hbefore, ?_⟩
          rw [mPrecalculatedSharedSecrets_withSecrets, insert, Function.update_of_ne hindex, hfound]
      · intro index hindex
        dsimp only at hindex ⊢
        by_cases hsame : index = r.last + 1
        · subst hsame
          rw [Function.update_self] at hindex
          cases hindex
        · rw [Function.update_of_ne hsame] at hindex
          rw [mPrecalculatedSharedSecrets_withSecrets, insert, Function.update_of_ne hsame,
            h.empty index hindex]

theorem Represents.isSome_eq (h : e.Represents f r) (index : ℤ) :
    (f.mPrecalculatedSharedSecrets index).isSome = (r.recipient index).isSome := by
  cases hr : r.recipient index with
  | none => rw [h.empty index hr]; rfl
  | some recipiantKey =>
    obtain ⟨privkey, secret, -, -, hfound⟩ := h.shared index recipiantKey hr
    rw [hfound]
    rfl

/-- An index that is removed stands for nobody. -/
theorem Represents.remove (h : e.Represents f r) (index : ℤ) :
    (f.call (.remove index)).2 = (e.callByRecipient r (.remove index)).2 ∧
      e.Represents (f.call (.remove index)).1 (e.callByRecipient r (.remove index)).1 := by
  have hremoved : e.Represents
      (f.withSecrets (Function.update f.mPrecalculatedSharedSecrets index none)
        f.mPrecalculatedSharedSecretLastIndex)
        ⟨Function.update r.recipient index .none, r.last⟩ := by
    refine ⟨h.publicKey, h.privkey, h.last, h.nonneg, ?_, ?_, ?_⟩
    · intro i hi
      by_cases hsame : i = index
      · rw [hsame]
        exact Function.update_self ..
      · exact (Function.update_of_ne hsame ..).trans (h.fresh i hi)
    · intro i recipiantKey hi
      by_cases hsame : i = index
      · subst hsame
        rw [show (Recipients.mk (Function.update r.recipient i .none) r.last).recipient i = none
          from Function.update_self ..] at hi
        cases hi
      · obtain ⟨privkey, secret, hpriv, hbefore, hfound⟩ := h.shared i recipiantKey
          ((Function.update_of_ne hsame ..).symm.trans hi)
        exact ⟨privkey, secret, hpriv, hbefore, (Function.update_of_ne hsame ..).trans hfound⟩
    · intro i hi
      by_cases hsame : i = index
      · rw [hsame]
        exact Function.update_self ..
      · exact (Function.update_of_ne hsame ..).trans
          (h.empty i ((Function.update_of_ne hsame ..).symm.trans hi))
  unfold call callByRecipient removePrecalculatedSharedSecret
  dsimp only
  rw [h.isSome_eq]
  cases hr : (r.recipient index).isSome with
  | true => exact ⟨rfl, hremoved⟩
  | false =>
    have hnone : r.recipient index = none :=
      Option.isNone_iff_eq_none.1 (Option.isSome_eq_false_iff.1 hr)
    have hsecrets : Function.update f.mPrecalculatedSharedSecrets index none =
        f.mPrecalculatedSharedSecrets := by
      rw [← h.empty index hnone, Function.update_eq_self]
    rw [hsecrets] at hremoved
    exact ⟨rfl, hremoved⟩

/-- Encrypting by an index is encrypting for the recipient. -/
theorem Represents.encrypt (hboxes : sodium.Boxes) (h : e.Represents f r) (message : Bytes)
    (index : ℤ) (nonce : Nonce) : (f.call (.encrypt message index nonce)).2 =
      (e.callByRecipient r (.encrypt message index nonce)).2 := by
  unfold call callByRecipient encryptAt hasPrivateKey
  rw [h.privkey]
  dsimp only
  cases hr : r.recipient index with
  | none =>
    rw [h.empty index hr]
    cases e.mPrivkey <;> rfl
  | some recipiantKey =>
    obtain ⟨privkey, secret, hprivkey, hbefore, hfound⟩ := h.shared index recipiantKey hr
    rw [hfound, hprivkey]
    dsimp only [Option.isSome_some]
    rw [if_pos rfl, AuthenticatedEncryption.encrypt, hprivkey]
    dsimp only
    rw [hboxes.easy, hbefore]
    rfl

/-- Decrypting by an index is decrypting from the recipient. -/
theorem Represents.decrypt (hboxes : sodium.Boxes) (h : e.Represents f r)
    (encryptedMessage : Bytes) (index : ℤ) : (f.call (.decrypt encryptedMessage index)).2 =
      (e.callByRecipient r (.decrypt encryptedMessage index)).2 := by
  unfold call callByRecipient decryptAt hasPrivateKey
  rw [h.privkey]
  dsimp only
  cases hr : r.recipient index with
  | none =>
    rw [h.empty index hr]
    cases e.mPrivkey <;> rfl
  | some senderKey =>
    obtain ⟨privkey, secret, hprivkey, hbefore, hfound⟩ := h.shared index senderKey hr
    rw [hfound, hprivkey]
    dsimp only [Option.isSome_some]
    rw [if_pos rfl, AuthenticatedEncryption.decrypt, hprivkey]
    dsimp only
    rw [hboxes.openEasy, hbefore]
    rfl

/-- Indices are handed out within an `int`. -/
def Room (e : AuthenticatedEncryption sodium) (calls : ℕ) (f : AuthenticatedEncryption sodium)
    (r : Recipients sodium) : Prop := e.Represents f r ∧ r.last + calls ≤ 2147483647

/-- A call hands out one index at most. -/
theorem last_callByRecipient_le (c : SecretCall sodium) :
    (e.callByRecipient r c).1.last ≤ r.last + 1 := by
  have hle : r.last ≤ r.last + 1 := (Int.lt_succ r.last).le
  cases c with
  | precalculate recipiantKey =>
    unfold callByRecipient
    dsimp only
    cases e.mPrivkey with
    | none => exact hle
    | some privkey =>
      dsimp only
      split_ifs
      · exact le_refl _
      · exact hle
  | remove index => exact hle
  | encrypt message index nonce => exact hle
  | decrypt encryptedMessage index => exact hle

theorem simulates (hboxes : sodium.Boxes) (e : AuthenticatedEncryption sodium) :
    Answers.Simulates call e.callByRecipient e.Room (fun _ => True) where
  answer n f r c _ h := by
    obtain ⟨hrep, hroom⟩ := h
    cases c with
    | precalculate recipiantKey => exact (hrep.precalculate (by omega) recipiantKey).1
    | remove index => exact (hrep.remove index).1
    | encrypt message index nonce => exact hrep.encrypt hboxes message index nonce
    | decrypt encryptedMessage index => exact hrep.decrypt hboxes encryptedMessage index
  next n f r c _ h := by
    obtain ⟨hrep, hroom⟩ := h
    have hlast := last_callByRecipient_le (e := e) (r := r) c
    refine ⟨?_, by omega⟩
    cases c with
    | precalculate recipiantKey => exact (hrep.precalculate (by omega) recipiantKey).2
    | remove index => exact (hrep.remove index).2
    | encrypt message index nonce => exact hrep
    | decrypt encryptedMessage index => exact hrep

/-- A key pair without shared secrets, as its constructors leave it. -/
structure New (e : AuthenticatedEncryption sodium) : Prop where
  secrets : ∀ index, e.mPrecalculatedSharedSecrets index = none
  last : e.mPrecalculatedSharedSecretLastIndex = 0

/-- **Shared secrets by an index** answer every list of calls as the key of the recipient does that
the index was given for: each recipient gets the next number, and a number that was removed, or
never given, neither protects a message nor checks one. -/
theorem run_precalculated (hboxes : sodium.Boxes) (hnew : e.New) {calls : List (SecretCall sodium)}
    (hlength : calls.length ≤ 2147483647) :
    (Answers.run call e calls).2 =
      (Answers.run e.callByRecipient (Recipients.none sodium) calls).2 := by
  refine ((simulates hboxes e).run_eq ⟨?_, ?_⟩ (fun _ _ => trivial)).1
  · exact ⟨rfl, rfl, hnew.last, le_refl _, fun _ _ => rfl,
      fun _ _ h => (Option.some_ne_none _ h.symm).elim, fun index _ => hnew.secrets index⟩
  · show (0 : ℤ) + calls.length ≤ 2147483647
    omega

end AuthenticatedEncryption

namespace Sample

/-- What stands in front of a message is cut off again. -/
def unframe (size : ℕ) (cipher : Bytes) : Option Bytes :=
  if cipher.take size = List.replicate size 0 then some (cipher.drop size) else none

theorem unframe_append (size : ℕ) (message : Bytes) :
    unframe size (List.replicate size 0 ++ message) = some message := by
  have htake : (List.replicate size 0 ++ message).take size = List.replicate size 0 :=
    List.take_left' List.length_replicate
  rw [unframe, if_pos htake, List.drop_left' List.length_replicate]

/-- A library of boxes that hide nothing, with the sum of two keys as their secret. -/
def framing : Sodium where
  scalarmultBase sk := sk
  skToCurve25519 sk := sk
  pkToCurve25519 pk := some pk
  boxBeforenm pk sk := some (List.zipWith (· + ·) pk sk)
  boxEasy message _ _ _ := some (List.replicate macBytes 0 ++ message)
  boxOpenEasy cipher _ _ _ := unframe macBytes cipher
  boxEasyAfternm message _ _ := List.replicate macBytes 0 ++ message
  boxOpenEasyAfternm cipher _ _ := unframe macBytes cipher
  boxSeal message _ _ := List.replicate sealBytes 0 ++ message
  boxSealOpen cipher _ _ := unframe sealBytes cipher

theorem framing_boxes : framing.Boxes where
  easy _ _ _ _ := rfl
  openEasy _ _ _ _ := rfl
  opens message _ _ := unframe_append macBytes message
  length message _ _ := by
    show (List.replicate macBytes 0 ++ message).length = macBytes + message.length
    rw [List.length_append, List.length_replicate]
  shared sk sk' := congrArg some (List.zipWith_comm_of_comm UInt8.add_comm)

theorem framing_sealedBoxes : framing.SealedBoxes where
  opens message _ _ := unframe_append sealBytes message
  length message _ _ := by
    show (List.replicate sealBytes 0 ++ message).length = sealBytes + message.length
    rw [List.length_append, List.length_replicate]

/-- A key pair. -/
def alice : AuthenticatedEncryption framing := .ofPrivate framing (List.replicate 32 1)

/-- Another one, of which the private key is not known here. -/
def bob : AuthenticatedEncryption framing := .ofPublicKey framing (List.replicate 32 2)

/-- A nonce. -/
def nonce : Nonce := ⟨List.replicate 24 7, rfl⟩

/-- A secret is calculated, used and removed. -/
def calls : List (AuthenticatedEncryption.SecretCall framing) :=
  [.precalculate bob, .encrypt [1, 2, 3] 1 nonce, .remove 1, .encrypt [1, 2, 3] 1 nonce]

end Sample

theorem AuthenticatedEncryption.run_precalculated_sample :
    (Answers.run call Sample.alice Sample.calls).2 =
      (Answers.run Sample.alice.callByRecipient (Recipients.none Sample.framing) Sample.calls).2 :=
  run_precalculated Sample.framing_boxes ⟨fun _ => rfl, rfl⟩ (by decide)

end Gradido.Crypto
