import GradidoBlockchain.Data.Transaction

/-!
# The transaction builder

`GradidoTransactionBuilder` collects a body, and with the first signature writes
it to bytes: once for a local transaction, twice for a transaction across
communities.  Both times it is the same body object, which is changed in between.

A session is a list of calls.  A call that throws is part of it as well, with
what it had changed before.
-/

namespace Gradido

/-- What the builder uses: the serialization of bodies, which is read for a community, key pairs,
and the number by which a body is told from others with the same content. -/
structure BuilderEnv (Bytes KeyPair : Type) where
  serialize : (communityIdIndex : ℕ) → TransactionBody → Except Exception Bytes
  deserialize : Bytes → (communityIdIndex : ℕ) → Option TransactionBody
  isEmpty : Bytes → Bool
  encoding : Bytes → ℕ
  publicKey : KeyPair → ℕ
  sign : KeyPair → Bytes → ℕ

/-- The exceptions of the builder, and those that it passes on. -/
inductive BuilderException
  | builder (what : String)
  | wrongBuildingState (what expectedBuildState actualBuildState : String)
  | alreadyExist (what : String)
  | badOptionalAccess
  | serialization (e : Exception)
deriving DecidableEq, Repr

namespace SignatureMap

/-- A map without signatures. -/
def empty : SignatureMap := ⟨[], List.nodup_nil⟩

theorem nodup_push {m : SignatureMap} {p : SignaturePair}
    (h : p.publicKey ∉ m.signaturePairs.map SignaturePair.publicKey) :
    ((m.signaturePairs ++ [p]).map SignaturePair.publicKey).Nodup := by
  rw [List.map_append, List.map_singleton, List.nodup_append]
  refine ⟨m.nodup, List.nodup_singleton _, ?_⟩
  intro a ha b hb heq
  rw [List.mem_singleton.1 hb] at heq
  exact h (heq ▸ ha)

/-- `SignatureMap::push`. -/
def push (m : SignatureMap) (p : SignaturePair) : Except BuilderException SignatureMap :=
  if h : p.publicKey ∈ m.signaturePairs.map SignaturePair.publicKey then
    .error (.alreadyExist "public key already exist in signature map of gradido transaction")
  else .ok ⟨m.signaturePairs ++ [p], nodup_push h⟩

theorem push_eq_ok {m m' : SignatureMap} {p : SignaturePair} (h : m.push p = .ok m') :
    m'.signaturePairs = m.signaturePairs ++ [p] ∧
      p.publicKey ∉ m.signaturePairs.map SignaturePair.publicKey := by
  unfold push at h
  split_ifs at h with hkey
  cases h
  exact ⟨rfl, hkey⟩

theorem push_of_not_mem {m : SignatureMap} {p : SignaturePair}
    (h : p.publicKey ∉ m.signaturePairs.map SignaturePair.publicKey) :
    ∃ m', m.push p = .ok m' := by
  rw [push, dif_neg h]
  exact ⟨_, rfl⟩

end SignatureMap

/-- A `GradidoTransaction` as the builder returns it, with the bytes of its body. -/
structure SignedBody (Bytes : Type) where
  signatureMap : SignatureMap
  bodyBytes : Option Bytes
  communityIdIndex : ℕ
  pairingLedgerAnchor : LedgerAnchor

/-- `GradidoTransaction::getTransactionBody`, and the transaction with the body that it returns. -/
def SignedBody.toGradidoTransaction {Bytes KeyPair : Type} (benv : BuilderEnv Bytes KeyPair)
    (tx : SignedBody Bytes) : Option GradidoTransaction := do
  let bytes ← tx.bodyBytes
  if benv.isEmpty bytes = true then none
  else
    let body ← benv.deserialize bytes tx.communityIdIndex
    return { signatureMap := tx.signatureMap
             body := body
             encoding := benv.encoding bytes
             communityIdIndex := tx.communityIdIndex
             pairingLedgerAnchor := tx.pairingLedgerAnchor }

/-- `GradidoTransactionBuilder::BuildingState`. -/
inductive BuildingState
  | BUILDING_BODY
  | LOCAL
  | CROSS_COMMUNITY
deriving DecidableEq, Repr

/-- The name that `magic_enum` gives a state. -/
def BuildingState.name : BuildingState → String
  | BUILDING_BODY => "BUILDING_BODY"
  | LOCAL => "LOCAL"
  | CROSS_COMMUNITY => "CROSS_COMMUNITY"

/-- `GradidoTransactionBuilder::BodyBytesSignatureMap`. -/
structure BodyBytesSignatureMap (Bytes : Type) where
  bodyBytes : Option Bytes
  signatureMap : SignatureMap

/-- `GradidoTransactionBuilder`.  The community of the body stands beside it. -/
structure GradidoTransactionBuilder (Bytes : Type) where
  mState : BuildingState
  mBody : TransactionBody
  mBodyCommunityIdIndex : ℕ
  mSenderCommunityIdIndex : Option ℕ
  mRecipientCommunityIdIndex : Option ℕ
  mBodyByteSignatureMaps : List (BodyBytesSignatureMap Bytes)
  mSpecificTransactionChoosen : Bool
  mLedgerAnchor : LedgerAnchor

namespace GradidoTransactionBuilder

variable {Bytes KeyPair : Type} (benv : BuilderEnv Bytes KeyPair)

/-- The constructor and `GradidoTransactionBuilder::reset`, at a time. -/
def fresh (now : ℤ) : GradidoTransactionBuilder Bytes where
  mState := .BUILDING_BODY
  mBody :=
    { memos := []
      createdAt := .ofTimepoint now
      type := .localGroup
      otherCommunityIdIndex := none
      specific := .none }
  mBodyCommunityIdIndex := 0
  mSenderCommunityIdIndex := none
  mRecipientCommunityIdIndex := none
  mBodyByteSignatureMaps := []
  mSpecificTransactionChoosen := false
  mLedgerAnchor := .unspecified

/-- `GradidoTransactionBuilder::isCrossCommunityTransaction`. -/
def isCrossCommunityTransaction (b : GradidoTransactionBuilder Bytes) : Bool :=
  b.mSenderCommunityIdIndex.isSome && b.mRecipientCommunityIdIndex.isSome &&
    decide (b.mSenderCommunityIdIndex ≠ b.mRecipientCommunityIdIndex)

/-- `GradidoTransactionBuilder::checkBuildState`.  The message it prepares is not used. -/
def checkBuildState (b : GradidoTransactionBuilder Bytes) (expectedState : BuildingState) :
    Except BuilderException Unit :=
  if b.mState ≠ expectedState then
    .error (.wrongBuildingState "incorrect building state for this action" expectedState.name
      b.mState.name)
  else .ok ()

/-- A function that changes the builder when it may still be changed. -/
def setting (b : GradidoTransactionBuilder Bytes)
    (change : GradidoTransactionBuilder Bytes →
      GradidoTransactionBuilder Bytes × Except BuilderException Unit) :
    GradidoTransactionBuilder Bytes × Except BuilderException Unit :=
  match b.checkBuildState .BUILDING_BODY with
  | .error e => (b, .error e)
  | .ok () => change b

/-- The part of the functions that choose the specific transaction: `setDeferredTransfer`,
`setCommunityFriendsUpdate`, `setTransactionCreation`, `setTransactionTransfer`,
`setRedeemDeferredTransfer`, and with a function that needs the sender community
`setRegisterAddress` and `setCommunityRoot`. -/
def setSpecific (b : GradidoTransactionBuilder Bytes) (specific : Specific)
    (needsSender : Option String) :
    GradidoTransactionBuilder Bytes × Except BuilderException Unit :=
  b.setting (fun b =>
    if b.mSpecificTransactionChoosen = true then
      (b, .error (.builder "specific transaction already choosen, only one is possible!"))
    else
      match needsSender, b.mSenderCommunityIdIndex with
      | some what, none => (b, .error (.builder what))
      | _, _ =>
        ({ b with
            mBody := { b.mBody with specific := specific }
            mSpecificTransactionChoosen := true }, .ok ()))

/-- `GradidoTransactionBuilder::setDeferredTransfer`. -/
def setDeferredTransfer (b : GradidoTransactionBuilder Bytes) (d : GradidoDeferredTransfer) :=
  b.setSpecific (.deferredTransfer d) none

/-- `GradidoTransactionBuilder::setCommunityFriendsUpdate`. -/
def setCommunityFriendsUpdate (b : GradidoTransactionBuilder Bytes) (colorFusion : Bool) :=
  b.setSpecific (.communityFriendsUpdate colorFusion) none

/-- `GradidoTransactionBuilder::setRegisterAddress`. -/
def setRegisterAddress (b : GradidoTransactionBuilder Bytes) (userPublicKey : ℕ)
    (type : AddressType) (nameHashIndex accountPublicKey : ℕ) :=
  b.setSpecific (.registerAddress ⟨type, 1, nameHashIndex, userPublicKey, accountPublicKey⟩)
    (some "sender community id index missing, please call setSenderCommunity before setRegisterAddress")

/-- `GradidoTransactionBuilder::setTransactionCreation`. -/
def setTransactionCreation (b : GradidoTransactionBuilder Bytes) (c : GradidoCreation) :=
  b.setSpecific (.creation c) none

/-- `GradidoTransactionBuilder::setTransactionTransfer`. -/
def setTransactionTransfer (b : GradidoTransactionBuilder Bytes) (t : GradidoTransfer) :=
  b.setSpecific (.transfer t) none

/-- `GradidoTransactionBuilder::setCommunityRoot`. -/
def setCommunityRoot (b : GradidoTransactionBuilder Bytes) (r : CommunityRoot) :=
  b.setSpecific (.communityRoot r)
    (some "sender community id index missing, please call setSenderCommunity before setCommunityRoot")

/-- `GradidoTransactionBuilder::setRedeemDeferredTransfer`. -/
def setRedeemDeferredTransfer (b : GradidoTransactionBuilder Bytes)
    (r : GradidoRedeemDeferredTransfer) :=
  b.setSpecific (.redeemDeferredTransfer r) none

/-- The body bytes of one of the transactions. -/
def setBodyBytes (b : GradidoTransactionBuilder Bytes) (i : ℕ) (bytes : Bytes) :
    GradidoTransactionBuilder Bytes :=
  { b with
    mBodyByteSignatureMaps :=
      b.mBodyByteSignatureMaps.modify i (fun m => { m with bodyBytes := some bytes }) }

/-- Another element of `mBodyByteSignatureMaps`. -/
def pushBodyBytes (b : GradidoTransactionBuilder Bytes) : GradidoTransactionBuilder Bytes :=
  { b with mBodyByteSignatureMaps := b.mBodyByteSignatureMaps ++ [⟨none, .empty⟩] }

/-- `serializer.run()` into one of the transactions. -/
def serializeInto (b : GradidoTransactionBuilder Bytes) (i : ℕ) :
    GradidoTransactionBuilder Bytes × Except BuilderException Unit :=
  match benv.serialize b.mBodyCommunityIdIndex b.mBody with
  | .error e => (b, .error (.serialization e))
  | .ok bytes => (b.setBodyBytes i bytes, .ok ())

/-- The body for one side of a transaction across communities. -/
def prepareBody (b : GradidoTransactionBuilder Bytes) (type : CrossGroupType) (community : ℕ)
    (otherCommunity : Option ℕ) : GradidoTransactionBuilder Bytes :=
  { b with
    mBody := { b.mBody with type := type, otherCommunityIdIndex := otherCommunity }
    mBodyCommunityIdIndex := community }

/-- `GradidoTransactionBuilder::switchBuildState`. -/
def switchBuildState (b : GradidoTransactionBuilder Bytes) :
    GradidoTransactionBuilder Bytes × Except BuilderException Unit :=
  b.setting (fun b =>
    let b := b.pushBodyBytes
    if b.isCrossCommunityTransaction = true then
      let b := { b with mState := .CROSS_COMMUNITY }
      let sender := b.mSenderCommunityIdIndex
      let recipient := b.mRecipientCommunityIdIndex
      -- the outbound body
      match (b.prepareBody .outbound (sender.getD 0) recipient).serializeInto benv 0 with
      | (b, .error e) => (b, .error e)
      | (b, .ok ()) =>
        -- the inbound body, from the same object
        ((b.prepareBody .inbound (recipient.getD 0) sender).pushBodyBytes).serializeInto benv 1
    else
      let b := { b with mState := .LOCAL, mBody := { b.mBody with type := .localGroup } }
      let creation := decide (b.mBody.transactionType = .creation)
      match if creation then b.mRecipientCommunityIdIndex else b.mSenderCommunityIdIndex with
      | none =>
        (b, .error (.builder (if creation then
            "missing recipient community id index for creation transaction"
          else "missing sender community id index for local transaction")))
      | some community => { b with mBodyCommunityIdIndex := community }.serializeInto benv 0)

/-- `GradidoTransactionBuilder::setTimeoutDeferredTransfer`: it needs no signatures and switches the
state itself. -/
def setTimeoutDeferredTransfer (b : GradidoTransactionBuilder Bytes) (nr : ℕ) :
    GradidoTransactionBuilder Bytes × Except BuilderException Unit :=
  b.setting (fun b =>
    if b.mSpecificTransactionChoosen = true then
      (b, .error (.builder "specific transaction already choosen, only one is possible!"))
    else
      let b := { b with mBody := { b.mBody with specific := .timeoutDeferredTransfer nr } }
      match b.switchBuildState benv with
      | (b, .error e) => (b, .error e)
      | (b, .ok ()) => ({ b with mSpecificTransactionChoosen := true }, .ok ()))

/-- `GradidoTransactionBuilder::setCreatedAt`. -/
def setCreatedAt (b : GradidoTransactionBuilder Bytes) (createdAt : ℤ) :
    GradidoTransactionBuilder Bytes × Except BuilderException Unit :=
  b.setting (fun b =>
    ({ b with mBody := { b.mBody with createdAt := .ofTimepoint createdAt } }, .ok ()))

/-- `GradidoTransactionBuilder::addMemo`. -/
def addMemo (b : GradidoTransactionBuilder Bytes) (memo : EncryptedMemo) :
    GradidoTransactionBuilder Bytes × Except BuilderException Unit :=
  b.setting (fun b =>
    ({ b with mBody := { b.mBody with memos := b.mBody.memos ++ [memo] } }, .ok ()))

/-- `GradidoTransactionBuilder::setTransactionBody`, with a body of a community. -/
def setTransactionBody (b : GradidoTransactionBuilder Bytes) (communityIdIndex : ℕ)
    (body : TransactionBody) : GradidoTransactionBuilder Bytes × Except BuilderException Unit :=
  b.setting (fun b =>
    ({ b with mBody := body, mBodyCommunityIdIndex := communityIdIndex }, .ok ()))

/-- `GradidoTransactionBuilder::setTransactionBody`, with the bytes of a body. -/
def setTransactionBodyBytes (b : GradidoTransactionBuilder Bytes) (bodyBytes : Bytes) :
    GradidoTransactionBuilder Bytes × Except BuilderException Unit :=
  b.setting (fun b =>
    match benv.deserialize bodyBytes 1 with
    | none => (b, .error (.builder "cannot deserialize TransactionBody"))
    | some body => ({ b with mBody := body, mBodyCommunityIdIndex := 1 }, .ok ()))

/-- `GradidoTransactionBuilder::setSenderCommunity`. -/
def setSenderCommunity (b : GradidoTransactionBuilder Bytes) (communityIdIndex : ℕ) :
    GradidoTransactionBuilder Bytes × Except BuilderException Unit :=
  b.setting (fun b => ({ b with mSenderCommunityIdIndex := some communityIdIndex }, .ok ()))

/-- `GradidoTransactionBuilder::setRecipientCommunity`. -/
def setRecipientCommunity (b : GradidoTransactionBuilder Bytes) (communityIdIndex : ℕ) :
    GradidoTransactionBuilder Bytes × Except BuilderException Unit :=
  b.setting (fun b => ({ b with mRecipientCommunityIdIndex := some communityIdIndex }, .ok ()))

/-- The loop of `sign`: a transaction that cannot be signed ends it, and those before it stay
signed. -/
def signAll (keyPair : KeyPair) : List (BodyBytesSignatureMap Bytes) →
    List (BodyBytesSignatureMap Bytes) × Except BuilderException Unit
  | [] => ([], .ok ())
  | m :: ms =>
    match m.bodyBytes.filter (fun bytes => !benv.isEmpty bytes) with
    | none => (m :: ms, .error (.builder
        "system error, missing body bytes, please check Builder Implementation."))
    | some bytes =>
      match m.signatureMap.push ⟨benv.publicKey keyPair, benv.sign keyPair bytes⟩ with
      | .error e => (m :: ms, .error e)
      | .ok signatureMap =>
        let rest := signAll keyPair ms
        ({ m with signatureMap := signatureMap } :: rest.1, rest.2)

/-- `GradidoTransactionBuilder::sign`. -/
def sign (b : GradidoTransactionBuilder Bytes) (keyPair : KeyPair) :
    GradidoTransactionBuilder Bytes × Except BuilderException Unit :=
  match if b.mState = .BUILDING_BODY then b.switchBuildState benv else (b, .ok ()) with
  | (b, .error e) => (b, .error e)
  | (b, .ok ()) =>
    let signed := signAll benv keyPair b.mBodyByteSignatureMaps
    ({ b with mBodyByteSignatureMaps := signed.1 }, signed.2)

/-- `GradidoTransactionBuilder::setParentLedgerAnchor`. -/
def setParentLedgerAnchor (b : GradidoTransactionBuilder Bytes) (ledgerAnchor : LedgerAnchor) :
    GradidoTransactionBuilder Bytes :=
  { b with mLedgerAnchor := ledgerAnchor }

/-- One of the transactions, for a community.  Where an element or the community is missing, the
assertion before it fails. -/
def buildFor (b : GradidoTransactionBuilder Bytes) (i : ℕ) (community : Option ℕ) :
    Except BuilderException (SignedBody Bytes) :=
  match b.mBodyByteSignatureMaps[i]?, community with
  | some m, some community => .ok ⟨m.signatureMap, m.bodyBytes, community, b.mLedgerAnchor⟩
  | _, _ => .error .badOptionalAccess

/-- `GradidoTransactionBuilder::build`, without the reset. -/
def build (b : GradidoTransactionBuilder Bytes) : Except BuilderException (SignedBody Bytes) :=
  match b.checkBuildState .LOCAL with
  | .error e => .error e
  | .ok () => b.buildFor 0 (some b.mBodyCommunityIdIndex)

/-- `GradidoTransactionBuilder::buildOutbound`. -/
def buildOutbound (b : GradidoTransactionBuilder Bytes) :
    Except BuilderException (SignedBody Bytes) :=
  match b.checkBuildState .CROSS_COMMUNITY with
  | .error e => .error e
  | .ok () => b.buildFor 0 b.mSenderCommunityIdIndex

/-- `GradidoTransactionBuilder::buildInbound`, without the reset. -/
def buildInbound (b : GradidoTransactionBuilder Bytes) :
    Except BuilderException (SignedBody Bytes) :=
  match b.checkBuildState .CROSS_COMMUNITY with
  | .error e => .error e
  | .ok () =>
    if b.mLedgerAnchor.empty = true then
      .error (.builder
        "missing pairing ledger anchor from outbound transaction for inbound transaction")
    else b.buildFor 1 b.mRecipientCommunityIdIndex

/-! ### Sessions -/

/-- A call of a function of the builder.  `reset`, `build` and `buildInbound` read the clock. -/
inductive Op (Bytes KeyPair : Type)
  | reset (now : ℤ)
  | build (now : ℤ)
  | buildOutbound
  | buildInbound (now : ℤ)
  | setDeferredTransfer (d : GradidoDeferredTransfer)
  | setCommunityFriendsUpdate (colorFusion : Bool)
  | setRegisterAddress (userPublicKey : ℕ) (type : AddressType)
      (nameHashIndex accountPublicKey : ℕ)
  | setTransactionCreation (c : GradidoCreation)
  | setTransactionTransfer (t : GradidoTransfer)
  | setCommunityRoot (r : CommunityRoot)
  | setRedeemDeferredTransfer (r : GradidoRedeemDeferredTransfer)
  | setTimeoutDeferredTransfer (nr : ℕ)
  | setCreatedAt (createdAt : ℤ)
  | addMemo (memo : EncryptedMemo)
  | setTransactionBody (communityIdIndex : ℕ) (body : TransactionBody)
  | setTransactionBodyBytes (bodyBytes : Bytes)
  | setSenderCommunity (communityIdIndex : ℕ)
  | setRecipientCommunity (communityIdIndex : ℕ)
  | sign (keyPair : KeyPair)
  | setParentLedgerAnchor (ledgerAnchor : LedgerAnchor)

/-- The builder after a call. -/
def exec (b : GradidoTransactionBuilder Bytes) :
    Op Bytes KeyPair → GradidoTransactionBuilder Bytes × Except BuilderException Unit
  | .reset now => (fresh now, .ok ())
  | .build now =>
    match b.build with
    | .error e => (b, .error e)
    | .ok _ => (fresh now, .ok ())
  | .buildOutbound => (b, b.buildOutbound.map (fun _ => ()))
  | .buildInbound now =>
    match b.buildInbound with
    | .error e => (b, .error e)
    | .ok _ => (fresh now, .ok ())
  | .setDeferredTransfer d => b.setDeferredTransfer d
  | .setCommunityFriendsUpdate colorFusion => b.setCommunityFriendsUpdate colorFusion
  | .setRegisterAddress userPublicKey type nameHashIndex accountPublicKey =>
    b.setRegisterAddress userPublicKey type nameHashIndex accountPublicKey
  | .setTransactionCreation c => b.setTransactionCreation c
  | .setTransactionTransfer t => b.setTransactionTransfer t
  | .setCommunityRoot r => b.setCommunityRoot r
  | .setRedeemDeferredTransfer r => b.setRedeemDeferredTransfer r
  | .setTimeoutDeferredTransfer nr => b.setTimeoutDeferredTransfer benv nr
  | .setCreatedAt createdAt => b.setCreatedAt createdAt
  | .addMemo memo => b.addMemo memo
  | .setTransactionBody communityIdIndex body => b.setTransactionBody communityIdIndex body
  | .setTransactionBodyBytes bodyBytes => b.setTransactionBodyBytes benv bodyBytes
  | .setSenderCommunity communityIdIndex => b.setSenderCommunity communityIdIndex
  | .setRecipientCommunity communityIdIndex => b.setRecipientCommunity communityIdIndex
  | .sign keyPair => b.sign benv keyPair
  | .setParentLedgerAnchor ledgerAnchor => (b.setParentLedgerAnchor ledgerAnchor, .ok ())

/-- The keys that have signed since the builder was fresh. -/
def signers (keys : List KeyPair) (result : Except BuilderException Unit) :
    Op Bytes KeyPair → List KeyPair
  | .sign keyPair => if result = .ok () then keys ++ [keyPair] else keys
  | .reset _ => []
  | .build _ => if result = .ok () then [] else keys
  | .buildInbound _ => if result = .ok () then [] else keys
  | _ => keys

/-- The builder after a session that starts at a time, and the keys that have signed. -/
def session (now : ℤ) (ops : List (Op Bytes KeyPair)) :
    GradidoTransactionBuilder Bytes × List KeyPair :=
  ops.foldl (fun s op =>
    ((s.1.exec benv op).1, signers s.2 (s.1.exec benv op).2 op)) (fresh now, [])

end GradidoTransactionBuilder

end Gradido
