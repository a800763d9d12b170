import GradidoBlockchain.Builder.GradidoTransactionBuilder
import GradidoBlockchain.System
import Mathlib.Data.List.Forall2
import Mathlib.Data.List.Induction

/-!
# Pairing of the two halves

A transaction across communities is built in two halves, from one body that is
written once for each of them.  The invariant of a session says what the two
byte strings are, and that every signer has signed both: it is kept by every
call, also by those that throw.

* `Tracked`: the invariant of a builder and its signers;
* `session_tracked`: every session keeps it;
* `session_buildOutbound_buildInbound`: the two halves pair.
-/

namespace Gradido

namespace BuilderEnv

variable {Bytes KeyPair : Type} (benv : BuilderEnv Bytes KeyPair)

/-- The body is written to these bytes, which are not empty. -/
def Writes (community : ℕ) (body : TransactionBody) (bytes : Bytes) : Prop :=
  benv.serialize community body = .ok bytes ∧ benv.isEmpty bytes = false

/-- The body can be written, and what is written is read back as the body. -/
def ReadsBack (community : ℕ) (body : TransactionBody) : Prop :=
  ∃ bytes, benv.Writes community body bytes ∧ benv.deserialize bytes community = some body

/-- The signature of a key. -/
def signaturePair (bytes : Bytes) (keyPair : KeyPair) : SignaturePair :=
  ⟨benv.publicKey keyPair, benv.sign keyPair bytes⟩

/-- Bytes that exactly these keys have signed, in this order. -/
structure SignedBy (keys : List KeyPair) (bytes : Bytes) (m : BodyBytesSignatureMap Bytes) :
    Prop where
  bodyBytes : m.bodyBytes = some bytes
  signaturePairs : m.signatureMap.signaturePairs = keys.map (benv.signaturePair bytes)

end BuilderEnv

namespace GradidoTransactionBuilder

variable {Bytes KeyPair : Type} {benv : BuilderEnv Bytes KeyPair}

/-- The body as the outbound half has it. -/
def outboundBody (b : GradidoTransactionBuilder Bytes) : TransactionBody :=
  { b.mBody with type := .outbound, otherCommunityIdIndex := b.mRecipientCommunityIdIndex }

/-- The body as the inbound half has it. -/
def inboundBody (b : GradidoTransactionBuilder Bytes) : TransactionBody :=
  { b.mBody with type := .inbound, otherCommunityIdIndex := b.mSenderCommunityIdIndex }

theorem isCrossCommunityTransaction_eq_true (b : GradidoTransactionBuilder Bytes) :
    b.isCrossCommunityTransaction = true ↔
      ∃ s r, b.mSenderCommunityIdIndex = some s ∧ b.mRecipientCommunityIdIndex = some r ∧
        s ≠ r := by
  unfold isCrossCommunityTransaction
  rcases b.mSenderCommunityIdIndex with _ | s <;> rcases b.mRecipientCommunityIdIndex with _ | r <;>
    simp

/-! ### The invariant -/

/-- The two transactions of a builder, when both bodies could be written. -/
def BothSigned (benv : BuilderEnv Bytes KeyPair) (b : GradidoTransactionBuilder Bytes)
    (keys : List KeyPair) (s r : ℕ) : Prop :=
  ∀ bytesOut bytesIn, benv.Writes s b.outboundBody bytesOut → benv.Writes r b.inboundBody bytesIn →
    List.Forall₂ (benv.SignedBy keys) [bytesOut, bytesIn] b.mBodyByteSignatureMaps

/-- What every session keeps of a builder and the keys that have signed. -/
structure Tracked (benv : BuilderEnv Bytes KeyPair) (b : GradidoTransactionBuilder Bytes)
    (keys : List KeyPair) : Prop where
  building : b.mState = .BUILDING_BODY → b.mBodyByteSignatureMaps = [] ∧ keys = []
  localState : b.mState = .LOCAL → b.isCrossCommunityTransaction = false
  crossState : b.mState = .CROSS_COMMUNITY →
    ∃ s r, b.mSenderCommunityIdIndex = some s ∧ b.mRecipientCommunityIdIndex = some r ∧ s ≠ r ∧
      BothSigned benv b keys s r

/-- While the body is built there is nothing to know but that nothing is signed. -/
theorem Tracked.of_building {b : GradidoTransactionBuilder Bytes}
    (hstate : b.mState = .BUILDING_BODY) (hmaps : b.mBodyByteSignatureMaps = []) :
    Tracked benv b [] where
  building _ := ⟨hmaps, rfl⟩
  localState h := absurd (hstate.symm.trans h) (by decide)
  crossState h := absurd (hstate.symm.trans h) (by decide)

theorem Tracked.of_cross {b : GradidoTransactionBuilder Bytes} {keys : List KeyPair} {s r : ℕ}
    (hstate : b.mState = .CROSS_COMMUNITY) (hs : b.mSenderCommunityIdIndex = some s)
    (hr : b.mRecipientCommunityIdIndex = some r) (hne : s ≠ r)
    (hsigned : BothSigned benv b keys s r) : Tracked benv b keys where
  building h := absurd (hstate.symm.trans h) (by decide)
  localState h := absurd (hstate.symm.trans h) (by decide)
  crossState _ := ⟨s, r, hs, hr, hne, hsigned⟩

theorem Tracked.of_local {b : GradidoTransactionBuilder Bytes} {keys : List KeyPair}
    (hstate : b.mState = .LOCAL) (hcross : b.isCrossCommunityTransaction = false) :
    Tracked benv b keys where
  building h := absurd (hstate.symm.trans h) (by decide)
  localState _ := hcross
  crossState h := absurd (hstate.symm.trans h) (by decide)

theorem tracked_fresh (now : ℤ) : Tracked benv (fresh now) [] :=
  .of_building rfl rfl

/-! ### Calls that change the body -/

theorem checkBuildState_eq_ok {b : GradidoTransactionBuilder Bytes} {state : BuildingState} :
    b.checkBuildState state = .ok () ↔ b.mState = state := by
  unfold checkBuildState
  by_cases h : b.mState = state
  · simp [h]
  · simp [h]

theorem setting_of_building {b : GradidoTransactionBuilder Bytes}
    (h : b.mState = .BUILDING_BODY)
    (change : GradidoTransactionBuilder Bytes →
      GradidoTransactionBuilder Bytes × Except BuilderException Unit) :
    b.setting change = change b := by
  rw [setting, checkBuildState_eq_ok.2 h]

/-- After the body is written it cannot be changed any more. -/
theorem setting_of_not_building {b : GradidoTransactionBuilder Bytes}
    (h : b.mState ≠ .BUILDING_BODY)
    (change : GradidoTransactionBuilder Bytes →
      GradidoTransactionBuilder Bytes × Except BuilderException Unit) :
    (b.setting change).1 = b := by
  rw [setting]
  cases hcheck : b.checkBuildState .BUILDING_BODY with
  | error e => rfl
  | ok u => exact absurd (checkBuildState_eq_ok.1 hcheck) h

/-- A function that leaves the state and the transactions alone. -/
def KeepsState (change : GradidoTransactionBuilder Bytes →
    GradidoTransactionBuilder Bytes × Except BuilderException Unit) : Prop :=
  ∀ b, (change b).1.mState = b.mState ∧
    (change b).1.mBodyByteSignatureMaps = b.mBodyByteSignatureMaps

theorem Tracked.setting {b : GradidoTransactionBuilder Bytes} {keys : List KeyPair}
    (hb : Tracked benv b keys)
    {change : GradidoTransactionBuilder Bytes →
      GradidoTransactionBuilder Bytes × Except BuilderException Unit}
    (hchange : KeepsState change) : Tracked benv (b.setting change).1 keys := by
  by_cases hstate : b.mState = .BUILDING_BODY
  · rw [setting_of_building hstate]
    obtain ⟨hmaps, rfl⟩ := hb.building hstate
    exact .of_building ((hchange b).1.trans hstate) ((hchange b).2.trans hmaps)
  · rw [setting_of_not_building hstate]
    exact hb

theorem Tracked.setSpecific {b : GradidoTransactionBuilder Bytes} {keys : List KeyPair}
    (hb : Tracked benv b keys) (specific : Specific) (needsSender : Option String) :
    Tracked benv (b.setSpecific specific needsSender).1 keys := by
  refine hb.setting (fun b => ?_)
  by_cases hchoosen : b.mSpecificTransactionChoosen = true
  · rw [if_pos hchoosen]
    exact ⟨rfl, rfl⟩
  · rw [if_neg hchoosen]
    rcases needsSender with _ | what
    · exact ⟨rfl, rfl⟩
    · cases hsender : b.mSenderCommunityIdIndex <;> exact ⟨rfl, rfl⟩

/-! ### The two bodies are written -/

/-- A transaction across communities: both bodies are written, from what the builder held. -/
theorem switchBuildState_cross {b : GradidoTransactionBuilder Bytes} {s r : ℕ}
    (hstate : b.mState = .BUILDING_BODY) (hmaps : b.mBodyByteSignatureMaps = [])
    (hs : b.mSenderCommunityIdIndex = some s) (hr : b.mRecipientCommunityIdIndex = some r)
    (hne : s ≠ r) :
    b.switchBuildState benv =
      match benv.serialize s b.outboundBody with
      | .error e =>
        ({ b with
            mState := .CROSS_COMMUNITY
            mBody := b.outboundBody
            mBodyCommunityIdIndex := s
            mBodyByteSignatureMaps := [⟨none, .empty⟩] }, .error (.serialization e))
      | .ok bytesOut =>
        match benv.serialize r b.inboundBody with
        | .error e =>
          ({ b with
              mState := .CROSS_COMMUNITY
              mBody := b.inboundBody
              mBodyCommunityIdIndex := r
              mBodyByteSignatureMaps := [⟨some bytesOut, .empty⟩, ⟨none, .empty⟩] },
            .error (.serialization e))
        | .ok bytesIn =>
          ({ b with
              mState := .CROSS_COMMUNITY
              mBody := b.inboundBody
              mBodyCommunityIdIndex := r
              mBodyByteSignatureMaps := [⟨some bytesOut, .empty⟩, ⟨some bytesIn, .empty⟩] },
            .ok ()) := by
  have hcross : b.pushBodyBytes.isCrossCommunityTransaction = true :=
    (isCrossCommunityTransaction_eq_true _).2 ⟨s, r, hs, hr, hne⟩
  obtain ⟨state, body, community, sender, recipient, maps, choosen, anchor⟩ := b
  cases hstate
  cases hmaps
  cases hs
  cases hr
  rw [switchBuildState, setting_of_building rfl, if_pos hcross]
  simp only [serializeInto, prepareBody, pushBodyBytes, outboundBody, inboundBody,
    Option.getD_some]
  cases benv.serialize s _ with
  | error e => rfl
  | ok bytesOut =>
    simp only [setBodyBytes]
    cases benv.serialize r _ with
    | error e => rfl
    | ok bytesIn => rfl

/-- A local transaction: whatever happens, the builder is in its state afterwards, with the
communities that it had. -/
theorem switchBuildState_local {b : GradidoTransactionBuilder Bytes}
    (hstate : b.mState = .BUILDING_BODY) (hcross : b.isCrossCommunityTransaction = false) :
    (b.switchBuildState benv).1.mState = .LOCAL ∧
      (b.switchBuildState benv).1.isCrossCommunityTransaction = false := by
  have hpushed : ¬b.pushBodyBytes.isCrossCommunityTransaction = true := by
    rw [show b.pushBodyBytes.isCrossCommunityTransaction = b.isCrossCommunityTransaction from rfl,
      hcross]
    decide
  rw [switchBuildState, setting_of_building hstate, if_neg hpushed]
  simp only
  split
  · exact ⟨rfl, hcross⟩
  · rw [serializeInto]
    split
    · exact ⟨rfl, hcross⟩
    · exact ⟨rfl, hcross⟩

/-- The state is left in any case. -/
theorem switchBuildState_mState {b : GradidoTransactionBuilder Bytes}
    (hstate : b.mState = .BUILDING_BODY) (hmaps : b.mBodyByteSignatureMaps = []) :
    (b.switchBuildState benv).1.mState ≠ .BUILDING_BODY := by
  cases hcross : b.isCrossCommunityTransaction with
  | false =>
    rw [(switchBuildState_local hstate hcross).1]
    decide
  | true =>
    obtain ⟨s, r, hs, hr, hne⟩ := (isCrossCommunityTransaction_eq_true b).1 hcross
    rw [switchBuildState_cross hstate hmaps hs hr hne]
    cases benv.serialize s b.outboundBody with
    | error e => simp
    | ok bytesOut => cases benv.serialize r b.inboundBody <;> simp

theorem Tracked.switchBuildState {b : GradidoTransactionBuilder Bytes}
    (hstate : b.mState = .BUILDING_BODY) (hmaps : b.mBodyByteSignatureMaps = []) :
    Tracked benv (b.switchBuildState benv).1 [] := by
  cases hcross : b.isCrossCommunityTransaction with
  | false =>
    obtain ⟨hlocal, hcross'⟩ := @switchBuildState_local _ _ benv _ hstate hcross
    exact .of_local hlocal hcross'
  | true =>
    obtain ⟨s, r, hs, hr, hne⟩ := (isCrossCommunityTransaction_eq_true b).1 hcross
    rw [switchBuildState_cross hstate hmaps hs hr hne]
    cases hout : benv.serialize s b.outboundBody with
    | error e =>
      refine .of_cross rfl hs hr hne (fun bytesOut _ hwrites _ => ?_)
      exact absurd (hout.symm.trans hwrites.1) (by simp)
    | ok bytesOut =>
      simp only
      cases hin : benv.serialize r b.inboundBody with
      | error e =>
        refine .of_cross rfl hs hr hne (fun _ bytesIn _ hwrites => ?_)
        exact absurd (hin.symm.trans hwrites.1) (by simp)
      | ok bytesIn =>
        refine .of_cross rfl hs hr hne (fun bytesOut' bytesIn' hwritesOut hwritesIn => ?_)
        obtain rfl : bytesOut = bytesOut' := Except.ok.inj (hout.symm.trans hwritesOut.1)
        obtain rfl : bytesIn = bytesIn' := Except.ok.inj (hin.symm.trans hwritesIn.1)
        exact .cons ⟨rfl, rfl⟩ (.cons ⟨rfl, rfl⟩ .nil)

theorem Tracked.setTimeoutDeferredTransfer {b : GradidoTransactionBuilder Bytes}
    {keys : List KeyPair} (hb : Tracked benv b keys) (nr : ℕ) :
    Tracked benv (b.setTimeoutDeferredTransfer benv nr).1 keys := by
  by_cases hstate : b.mState = .BUILDING_BODY
  · obtain ⟨hmaps, rfl⟩ := hb.building hstate
    rw [GradidoTransactionBuilder.setTimeoutDeferredTransfer, setting_of_building hstate]
    by_cases hchoosen : b.mSpecificTransactionChoosen = true
    · rw [if_pos hchoosen]
      exact hb
    · rw [if_neg hchoosen]
      have hswitched := @Tracked.switchBuildState _ _ benv
        { b with mBody := { b.mBody with specific := .timeoutDeferredTransfer nr } }
        hstate hmaps
      simp only
      split
      · next b' e heq =>
        rw [heq] at hswitched
        exact hswitched
      · next b' heq =>
        rw [heq] at hswitched
        exact ⟨hswitched.building, hswitched.localState, hswitched.crossState⟩
  · rw [GradidoTransactionBuilder.setTimeoutDeferredTransfer, setting_of_not_building hstate]
    exact hb

/-! ### Signing -/

theorem signedBy_push {keyPair : KeyPair} {keys : List KeyPair} {bytes : Bytes}
    {m : BodyBytesSignatureMap Bytes} {signatureMap : SignatureMap}
    (hm : benv.SignedBy keys bytes m)
    (hpush : m.signatureMap.push (benv.signaturePair bytes keyPair) = .ok signatureMap) :
    benv.SignedBy (keys ++ [keyPair]) bytes { m with signatureMap := signatureMap } where
  bodyBytes := hm.bodyBytes
  signaturePairs := by
    rw [(SignatureMap.push_eq_ok hpush).1, hm.signaturePairs, List.map_append, List.map_singleton]

theorem publicKeys_signedBy {keys : List KeyPair} {bytes : Bytes}
    {m : BodyBytesSignatureMap Bytes} (hm : benv.SignedBy keys bytes m) :
    m.signatureMap.signaturePairs.map SignaturePair.publicKey = keys.map benv.publicKey := by
  rw [hm.signaturePairs, List.map_map]
  rfl

theorem mem_signaturePairs {keys : List KeyPair} {bytes : Bytes}
    {m : BodyBytesSignatureMap Bytes} (hm : benv.SignedBy keys bytes m) :
    ∀ keyPair ∈ keys, benv.signaturePair bytes keyPair ∈ m.signatureMap.signaturePairs := by
  intro keyPair hkey
  rw [hm.signaturePairs]
  exact List.mem_map_of_mem hkey

/-- A new key signs all transactions. -/
theorem signAll_of_not_mem {keyPair : KeyPair} {keys : List KeyPair}
    (hkey : benv.publicKey keyPair ∉ keys.map benv.publicKey) {contents : List Bytes}
    {ms : List (BodyBytesSignatureMap Bytes)}
    (hms : List.Forall₂ (benv.SignedBy keys) contents ms)
    (hempty : ∀ bytes ∈ contents, benv.isEmpty bytes = false) :
    ∃ ms', signAll benv keyPair ms = (ms', .ok ()) ∧
      List.Forall₂ (benv.SignedBy (keys ++ [keyPair])) contents ms' := by
  induction hms with
  | nil => exact ⟨[], rfl, .nil⟩
  | @cons bytes m contents ms hm _ ih =>
    obtain ⟨ms', hsign, hsigned⟩ :=
      ih (fun bytes h => hempty bytes (List.mem_cons_of_mem _ h))
    have hbytes : benv.isEmpty bytes = false := hempty bytes List.mem_cons_self
    obtain ⟨signatureMap, hpush⟩ :
        ∃ signatureMap, m.signatureMap.push (benv.signaturePair bytes keyPair) =
          .ok signatureMap :=
      SignatureMap.push_of_not_mem (by rwa [publicKeys_signedBy hm])
    refine ⟨{ m with signatureMap := signatureMap } :: ms', ?_,
      .cons (signedBy_push hm hpush) hsigned⟩
    unfold BuilderEnv.signaturePair at hpush
    rw [signAll, hm.bodyBytes]
    simp only [Option.filter_some, hbytes, Bool.not_false, if_true, hpush, hsign]

/-- A key that has signed already cannot sign again: the first transaction refuses it, and the
others are not reached. -/
theorem signAll_of_mem {keyPair : KeyPair} {keys : List KeyPair} {bytes : Bytes}
    {m : BodyBytesSignatureMap Bytes}
    (hkey : benv.publicKey keyPair ∈ keys.map benv.publicKey)
    (hm : benv.SignedBy keys bytes m) (hempty : benv.isEmpty bytes = false)
    (ms : List (BodyBytesSignatureMap Bytes)) :
    signAll benv keyPair (m :: ms) = (m :: ms, .error (.alreadyExist
      "public key already exist in signature map of gradido transaction")) := by
  have hpush : m.signatureMap.push ⟨benv.publicKey keyPair, benv.sign keyPair bytes⟩ =
      .error (.alreadyExist "public key already exist in signature map of gradido transaction") :=
    dif_pos (by rwa [publicKeys_signedBy hm])
  rw [signAll, hm.bodyBytes]
  simp only [Option.filter_some, hempty, Bool.not_false, if_true, hpush]

/-- The builder after `sign`, when the state was switched before. -/
def signed (benv : BuilderEnv Bytes KeyPair) (b : GradidoTransactionBuilder Bytes)
    (keyPair : KeyPair) : GradidoTransactionBuilder Bytes :=
  { b with mBodyByteSignatureMaps := (signAll benv keyPair b.mBodyByteSignatureMaps).1 }

theorem Tracked.signed {b : GradidoTransactionBuilder Bytes} {keys : List KeyPair}
    (hb : Tracked benv b keys) (hstate : b.mState ≠ .BUILDING_BODY) (keyPair : KeyPair) :
    Tracked benv (b.signed benv keyPair)
      (if (signAll benv keyPair b.mBodyByteSignatureMaps).2 = .ok () then keys ++ [keyPair]
        else keys) := by
  cases hb' : b.mState with
  | BUILDING_BODY => exact absurd hb' hstate
  | LOCAL => exact .of_local hb' (hb.localState hb')
  | CROSS_COMMUNITY =>
    obtain ⟨s, r, hs, hr, hne, hsigned⟩ := hb.crossState hb'
    refine .of_cross hb' hs hr hne (fun bytesOut bytesIn hwritesOut hwritesIn => ?_)
    have hms := hsigned bytesOut bytesIn hwritesOut hwritesIn
    by_cases hkey : benv.publicKey keyPair ∈ keys.map benv.publicKey
    · unfold GradidoTransactionBuilder.signed
      generalize b.mBodyByteSignatureMaps = maps at hms ⊢
      cases hms with
      | cons hm hms =>
        rw [signAll_of_mem hkey hm hwritesOut.2, if_neg (by simp)]
        exact .cons hm hms
    · obtain ⟨ms', hsign, hsigned'⟩ := signAll_of_not_mem hkey hms (by
        intro bytes hbytes
        rcases List.mem_pair.1 hbytes with rfl | rfl
        · exact hwritesOut.2
        · exact hwritesIn.2)
      unfold GradidoTransactionBuilder.signed
      rw [hsign, if_pos rfl]
      exact hsigned'

theorem Tracked.sign {b : GradidoTransactionBuilder Bytes} {keys : List KeyPair}
    (hb : Tracked benv b keys) (keyPair : KeyPair) :
    Tracked benv (b.sign benv keyPair).1
      (signers keys (b.sign benv keyPair).2 (.sign keyPair : Op Bytes KeyPair)) := by
  unfold GradidoTransactionBuilder.sign signers
  by_cases hstate : b.mState = .BUILDING_BODY
  · rw [if_pos hstate]
    obtain ⟨hmaps, rfl⟩ := hb.building hstate
    have hswitched := @Tracked.switchBuildState _ _ benv _ hstate hmaps
    have hleft := @switchBuildState_mState _ _ benv _ hstate hmaps
    cases hswitch : b.switchBuildState benv with
    | mk b' result =>
      rw [hswitch] at hswitched hleft
      cases result with
      | error e => exact hswitched
      | ok u => exact hswitched.signed hleft keyPair
  · rw [if_neg hstate]
    exact hb.signed hstate keyPair

/-! ### Sessions -/

theorem Tracked.ledgerAnchor {b : GradidoTransactionBuilder Bytes} {keys : List KeyPair}
    (hb : Tracked benv b keys) (anchor : LedgerAnchor) :
    Tracked benv (b.setParentLedgerAnchor anchor) keys :=
  ⟨hb.building, hb.localState, hb.crossState⟩

/-- Every call keeps the invariant, whether it throws or not. -/
theorem Tracked.exec {b : GradidoTransactionBuilder Bytes} {keys : List KeyPair}
    (hb : Tracked benv b keys) (op : Op Bytes KeyPair) :
    Tracked benv (b.exec benv op).1 (signers keys (b.exec benv op).2 op) := by
  cases op with
  | reset now => exact tracked_fresh now
  | build now =>
    simp only [GradidoTransactionBuilder.exec]
    cases b.build with
    | error e => exact hb
    | ok tx => exact tracked_fresh now
  | buildOutbound => exact hb
  | buildInbound now =>
    simp only [GradidoTransactionBuilder.exec]
    cases b.buildInbound with
    | error e => exact hb
    | ok tx => exact tracked_fresh now
  | setDeferredTransfer d => exact hb.setSpecific _ _
  | setCommunityFriendsUpdate colorFusion => exact hb.setSpecific _ _
  | setRegisterAddress userPublicKey type nameHashIndex accountPublicKey =>
    exact hb.setSpecific _ _
  | setTransactionCreation c => exact hb.setSpecific _ _
  | setTransactionTransfer t => exact hb.setSpecific _ _
  | setCommunityRoot r => exact hb.setSpecific _ _
  | setRedeemDeferredTransfer r => exact hb.setSpecific _ _
  | setTimeoutDeferredTransfer nr => exact hb.setTimeoutDeferredTransfer nr
  | setCreatedAt createdAt => exact hb.setting (fun _ => ⟨rfl, rfl⟩)
  | addMemo memo => exact hb.setting (fun _ => ⟨rfl, rfl⟩)
  | setTransactionBody communityIdIndex body => exact hb.setting (fun _ => ⟨rfl, rfl⟩)
  | setTransactionBodyBytes bodyBytes =>
    refine hb.setting (fun b => ?_)
    cases benv.deserialize bodyBytes 1 <;> exact ⟨rfl, rfl⟩
  | setSenderCommunity communityIdIndex => exact hb.setting (fun _ => ⟨rfl, rfl⟩)
  | setRecipientCommunity communityIdIndex => exact hb.setting (fun _ => ⟨rfl, rfl⟩)
  | sign keyPair => exact hb.sign keyPair
  | setParentLedgerAnchor anchor => exact hb.ledgerAnchor anchor

theorem session_append_singleton (now : ℤ) (ops : List (Op Bytes KeyPair))
    (op : Op Bytes KeyPair) :
    session benv now (ops ++ [op]) =
      (((session benv now ops).1.exec benv op).1,
        signers (session benv now ops).2 ((session benv now ops).1.exec benv op).2 op) := by
  rw [session, List.foldl_append]
  rfl

theorem session_tracked (now : ℤ) (ops : List (Op Bytes KeyPair)) :
    Tracked benv (session benv now ops).1 (session benv now ops).2 := by
  induction ops using List.reverseRecOn with
  | nil => exact tracked_fresh now
  | append_singleton ops op ih =>
    rw [session_append_singleton]
    exact ih.exec op

/-! ### The two halves -/

theorem buildOutbound_eq {b : GradidoTransactionBuilder Bytes} {m : BodyBytesSignatureMap Bytes}
    {s : ℕ} (hstate : b.mState = .CROSS_COMMUNITY) (hs : b.mSenderCommunityIdIndex = some s)
    (hm : b.mBodyByteSignatureMaps[0]? = some m) :
    b.buildOutbound = .ok ⟨m.signatureMap, m.bodyBytes, s, b.mLedgerAnchor⟩ := by
  rw [buildOutbound, checkBuildState_eq_ok.2 hstate]
  simp only [buildFor, hm, hs]

theorem buildInbound_eq {b : GradidoTransactionBuilder Bytes} {m : BodyBytesSignatureMap Bytes}
    {r : ℕ} (hstate : b.mState = .CROSS_COMMUNITY) (hr : b.mRecipientCommunityIdIndex = some r)
    (hanchor : b.mLedgerAnchor.empty = false) (hm : b.mBodyByteSignatureMaps[1]? = some m) :
    b.buildInbound = .ok ⟨m.signatureMap, m.bodyBytes, r, b.mLedgerAnchor⟩ := by
  rw [buildInbound, checkBuildState_eq_ok.2 hstate]
  simp only [buildFor, hm, hr, hanchor, Bool.false_eq_true, if_false]

/-- What is read back from a signed transaction. -/
theorem toGradidoTransaction_eq {keys : List KeyPair} {bytes : Bytes} {community : ℕ}
    {body : TransactionBody} {m : BodyBytesSignatureMap Bytes} {anchor : LedgerAnchor}
    (hm : benv.SignedBy keys bytes m) (hempty : benv.isEmpty bytes = false)
    (hread : benv.deserialize bytes community = some body) :
    SignedBody.toGradidoTransaction benv ⟨m.signatureMap, m.bodyBytes, community, anchor⟩ =
      some ⟨m.signatureMap, body, benv.encoding bytes, community, anchor⟩ := by
  simp [SignedBody.toGradidoTransaction, hm.bodyBytes, hempty, hread]

/-- A transfer or a redeem of a deferred transfer pairs with itself in another community. -/
theorem isPairing_of_specific {env : Env} {x y : GradidoTransaction}
    (hmemos : x.body.memos = y.body.memos) (hcreatedAt : x.body.createdAt = y.body.createdAt)
    (hother : x.body.otherCommunityIdIndex ≠ y.body.otherCommunityIdIndex)
    (hspecific : x.body.specific = y.body.specific)
    (htype : (∃ t, y.body.specific = .transfer t) ∨
      ∃ t, y.body.specific = .redeemDeferredTransfer t) : x.isPairing env y = true := by
  unfold GradidoTransaction.isPairing
  rw [if_neg (by simp [hmemos, hcreatedAt, hother]), hspecific]
  rcases htype with ⟨t, ht⟩ | ⟨t, ht⟩
  · simp [ht, GradidoTransfer.isPairing, TransferAmount.isPairing]
  · simp [ht, GradidoRedeemDeferredTransfer.isPairing, GradidoTransfer.isPairing,
      TransferAmount.isPairing]

/-- What holds of the outbound and the inbound transaction of a builder, and of the transactions
that are read back from them. -/
structure PairedHalves (env : Env) (benv : BuilderEnv Bytes KeyPair) (keys : List KeyPair)
    (s r : ℕ) (outbound inbound : SignedBody Bytes) (txOut txIn : GradidoTransaction) : Prop where
  outboundRead : outbound.toGradidoTransaction benv = some txOut
  inboundRead : inbound.toGradidoTransaction benv = some txIn
  pairing : txOut.isPairing env txIn = true
  pairingBack : txIn.isPairing env txOut = true
  outboundType : txOut.body.type = .outbound
  inboundType : txIn.body.type = .inbound
  outboundCommunity : txOut.communityIdIndex = s
  inboundCommunity : txIn.communityIdIndex = r
  outboundOther : txOut.body.otherCommunityIdIndex = some r
  inboundOther : txIn.body.otherCommunityIdIndex = some s
  outboundSigned : ∃ bytes, outbound.bodyBytes = some bytes ∧
    ∀ keyPair ∈ keys, benv.signaturePair bytes keyPair ∈ txOut.signatureMap.signaturePairs
  inboundSigned : ∃ bytes, inbound.bodyBytes = some bytes ∧
    ∀ keyPair ∈ keys, benv.signaturePair bytes keyPair ∈ txIn.signatureMap.signaturePairs

/-- The two halves of a transfer or a redeem of a deferred transfer that a session has signed: they
pair in both directions, each belongs to its community and names the other one, and each carries
a signature of every signer over its own bytes. -/
theorem session_buildOutbound_buildInbound (env : Env) (now : ℤ) (ops : List (Op Bytes KeyPair))
    {b : GradidoTransactionBuilder Bytes} {keys : List KeyPair} {s r : ℕ} {anchor : LedgerAnchor}
    (hsession : session benv now ops = (b, keys))
    (hs : b.mSenderCommunityIdIndex = some s) (hr : b.mRecipientCommunityIdIndex = some r)
    (hne : s ≠ r)
    (htype : (∃ t, b.mBody.specific = .transfer t) ∨
      ∃ t, b.mBody.specific = .redeemDeferredTransfer t)
    (hstate : b.mState ≠ .BUILDING_BODY)
    (hout : benv.ReadsBack s b.outboundBody) (hin : benv.ReadsBack r b.inboundBody)
    (hanchor : anchor.empty = false) :
    ∃ outbound inbound txOut txIn, b.buildOutbound = .ok outbound ∧
      (b.setParentLedgerAnchor anchor).buildInbound = .ok inbound ∧
      PairedHalves env benv keys s r outbound inbound txOut txIn := by
  have htracked := @session_tracked _ _ benv now ops
  rw [hsession] at htracked
  have hcross : b.isCrossCommunityTransaction = true :=
    (isCrossCommunityTransaction_eq_true b).2 ⟨s, r, hs, hr, hne⟩
  have hstate' : b.mState = .CROSS_COMMUNITY := by
    cases h : b.mState with
    | BUILDING_BODY => exact absurd h hstate
    | LOCAL => exact absurd hcross (by simp [htracked.localState h])
    | CROSS_COMMUNITY => rfl
  obtain ⟨s', r', hs', hr', _, hsigned⟩ := htracked.crossState hstate'
  obtain rfl : s = s' := Option.some.inj (hs.symm.trans hs')
  obtain rfl : r = r' := Option.some.inj (hr.symm.trans hr')
  obtain ⟨bytesOut, hwritesOut, hreadOut⟩ := hout
  obtain ⟨bytesIn, hwritesIn, hreadIn⟩ := hin
  have hms := hsigned bytesOut bytesIn hwritesOut hwritesIn
  obtain ⟨mOut, mIn, hmaps, hmOut, hmIn⟩ : ∃ mOut mIn,
      b.mBodyByteSignatureMaps = [mOut, mIn] ∧ benv.SignedBy keys bytesOut mOut ∧
        benv.SignedBy keys bytesIn mIn := by
    generalize b.mBodyByteSignatureMaps = maps at hms
    obtain _ | ⟨hmOut, _ | ⟨hmIn, _ | _⟩⟩ := hms
    exact ⟨_, _, rfl, hmOut, hmIn⟩
  refine ⟨_, _, ⟨mOut.signatureMap, b.outboundBody, benv.encoding bytesOut, s, b.mLedgerAnchor⟩,
    ⟨mIn.signatureMap, b.inboundBody, benv.encoding bytesIn, r, anchor⟩,
    buildOutbound_eq (m := mOut) hstate' hs (by rw [hmaps]; rfl),
    buildInbound_eq (b := b.setParentLedgerAnchor anchor) (m := mIn) hstate' hr hanchor
      (by rw [setParentLedgerAnchor, hmaps]; rfl), ?_⟩
  exact
    { outboundRead := toGradidoTransaction_eq hmOut hwritesOut.2 hreadOut
      inboundRead := toGradidoTransaction_eq hmIn hwritesIn.2 hreadIn
      pairing := isPairing_of_specific rfl rfl
        (fun heq => hne (Option.some.inj ((hr.symm.trans heq).trans hs)).symm) rfl htype
      pairingBack := isPairing_of_specific rfl rfl
        (fun heq => hne (Option.some.inj ((hs.symm.trans heq).trans hr))) rfl htype
      outboundType := rfl
      inboundType := rfl
      outboundCommunity := rfl
      inboundCommunity := rfl
      outboundOther := hr
      inboundOther := hs
      outboundSigned := ⟨bytesOut, hmOut.bodyBytes, mem_signaturePairs hmOut⟩
      inboundSigned := ⟨bytesIn, hmIn.bodyBytes, mem_signaturePairs hmIn⟩ }

end GradidoTransactionBuilder

namespace Sample

/-- Bodies are written as they are, with the community in front. -/
def builderEnv : BuilderEnv (ℕ × TransactionBody) ℕ where
  serialize community body := .ok (community, body)
  deserialize bytes _ := some bytes.2
  isEmpty _ := false
  encoding bytes := bytes.1
  publicKey keyPair := keyPair
  sign keyPair bytes := 100 * keyPair + bytes.1

/-- A transfer from one community to another, signed by two keys. -/
def builderOps : List (GradidoTransactionBuilder.Op (ℕ × TransactionBody) ℕ) :=
  [.setSenderCommunity 1, .setRecipientCommunity 2, .setCreatedAt 1000000000,
    .setTransactionTransfer ⟨⟨11, 500, 1⟩, 12⟩, .sign 11, .sign 13]

/-- The builder after this session. -/
def builder : GradidoTransactionBuilder (ℕ × TransactionBody) :=
  (GradidoTransactionBuilder.session builderEnv 0 builderOps).1

theorem builder_buildOutbound_buildInbound :
    ∃ outbound inbound txOut txIn, builder.buildOutbound = .ok outbound ∧
      (builder.setParentLedgerAnchor (.legacyGradidoDb .transaction 7)).buildInbound =
        .ok inbound ∧
      GradidoTransactionBuilder.PairedHalves env builderEnv [11, 13] 1 2 outbound inbound
        txOut txIn :=
  GradidoTransactionBuilder.session_buildOutbound_buildInbound env 0 builderOps rfl rfl rfl
    (by decide) (.inl ⟨_, rfl⟩) (by decide) ⟨_, ⟨rfl, rfl⟩, rfl⟩ ⟨_, ⟨rfl, rfl⟩, rfl⟩ (by decide)

end Sample

end Gradido
