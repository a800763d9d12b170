import GradidoBlockchain.Builder.Pairing
import GradidoBlockchain.Lib.Steps

/-!
# Calls that throw

A call of the builder that throws should leave it as it was.  The calls that
look something up before they change the builder do; those that write the body
to bytes change its state first, and `setRegisterAddress` and `setCommunityRoot`
set the type of the body before they look up the keys.

* `Continues`: what is wanted after every call;
* `Allowed`: the bytes that a call writes and the keys that it looks up are there;
* `throughout_continues`: when every call is allowed, every state is as wanted.
-/

namespace Gradido

namespace GradidoTransactionBuilder

variable {Bytes KeyPair : Type}

/-- A call, with what it looks up outside of the builder. -/
inductive BuilderCall (Bytes KeyPair : Type)
  | op (op : Op Bytes KeyPair)
  | setRegisterAddress (lookedUp : Except Exception RegisterAddress)
  | setCommunityRoot (lookedUp : Except Exception CommunityRoot)
  | setSenderCommunityByName (lookedUp : Except Exception ℕ)
  | setRecipientCommunityByName (lookedUp : Except Exception ℕ)

/-- What was given to the builder since it was fresh. -/
structure Given where
  specific : Specific
  memos : List EncryptedMemo
  createdAt : Timestamp
deriving DecidableEq, Repr

/-- A body has what was given. -/
def Given.Matches (given : Given) (body : TransactionBody) : Prop :=
  body.specific = given.specific ∧ body.memos = given.memos ∧ body.createdAt = given.createdAt

/-- What a body has. -/
def Given.ofBody (body : TransactionBody) : Given := ⟨body.specific, body.memos, body.createdAt⟩

/-- What was given after a call that returned. -/
def Given.after (benv : BuilderEnv Bytes KeyPair) (given : Given) :
    BuilderCall Bytes KeyPair → Given
  | .op (.reset now) | .op (.build now) | .op (.buildInbound now) =>
    ⟨.none, [], .ofTimepoint now⟩
  | .op (.setDeferredTransfer d) => { given with specific := .deferredTransfer d }
  | .op (.setCommunityFriendsUpdate colorFusion) =>
    { given with specific := .communityFriendsUpdate colorFusion }
  | .op (.setRegisterAddress userPublicKey type nameHashIndex accountPublicKey) =>
    { given with
      specific := .registerAddress ⟨type, 1, nameHashIndex, userPublicKey, accountPublicKey⟩ }
  | .op (.setTransactionCreation c) => { given with specific := .creation c }
  | .op (.setTransactionTransfer t) => { given with specific := .transfer t }
  | .op (.setCommunityRoot r) => { given with specific := .communityRoot r }
  | .op (.setRedeemDeferredTransfer r) => { given with specific := .redeemDeferredTransfer r }
  | .op (.setTimeoutDeferredTransfer nr) => { given with specific := .timeoutDeferredTransfer nr }
  | .op (.setCreatedAt createdAt) => { given with createdAt := .ofTimepoint createdAt }
  | .op (.addMemo memo) => { given with memos := given.memos ++ [memo] }
  | .op (.setTransactionBody _ body) => .ofBody body
  | .op (.setTransactionBodyBytes bodyBytes) =>
    ((benv.deserialize bodyBytes 1).map Given.ofBody).getD given
  | .setRegisterAddress (.ok registerAddress) =>
    { given with specific := .registerAddress registerAddress }
  | .setCommunityRoot (.ok communityRoot) => { given with specific := .communityRoot communityRoot }
  | _ => given

/-- A builder in a run: with a type of the body that was set without its content, what was given,
and how the last call ended and found the builder. -/
structure Run (Bytes : Type) where
  builder : GradidoTransactionBuilder Bytes
  strayType : Option TransactionType
  given : Given
  before : GradidoTransactionBuilder Bytes × Option TransactionType
  result : Except BuilderException Unit

namespace Run

/-- The constructor, at a time. -/
def start (now : ℤ) : Run Bytes :=
  ⟨fresh now, none, ⟨.none, [], .ofTimepoint now⟩, (fresh now, none), .ok ()⟩

end Run

/-- `setRegisterAddress` and `setCommunityRoot`, which set the type before they look up the keys. -/
def setLookedUp (b : GradidoTransactionBuilder Bytes) (type : TransactionType)
    (lookedUp : Except Exception Specific) (what : String) :
    (GradidoTransactionBuilder Bytes × Option TransactionType) × Except BuilderException Unit :=
  match lookedUp with
  | .ok specific =>
    (((b.setSpecific specific (some what)).1, none), (b.setSpecific specific (some what)).2)
  | .error e =>
    match b.checkBuildState .BUILDING_BODY with
    | .error wrongState => ((b, none), .error wrongState)
    | .ok () =>
      if b.mSpecificTransactionChoosen = true then
        ((b, none), .error
          (.builder "specific transaction already choosen, only one is possible!"))
      else if b.mSenderCommunityIdIndex = none then ((b, none), .error (.builder what))
      else ((b, some type), .error (.serialization e))

/-- `setSenderCommunity` and `setRecipientCommunity`, which look up the name first. -/
def setByName (b : GradidoTransactionBuilder Bytes)
    (set : ℕ → GradidoTransactionBuilder Bytes × Except BuilderException Unit)
    (lookedUp : Except Exception ℕ) :
    GradidoTransactionBuilder Bytes × Except BuilderException Unit :=
  b.setting (fun b =>
    match lookedUp with
    | .ok communityIdIndex => set communityIdIndex
    | .error e => (b, .error (.serialization e)))

variable (benv : BuilderEnv Bytes KeyPair)

/-- The builder after a call, and how the call ended. -/
def execCall (b : GradidoTransactionBuilder Bytes) : BuilderCall Bytes KeyPair →
    (GradidoTransactionBuilder Bytes × Option TransactionType) × Except BuilderException Unit
  | .op op => (((b.exec benv op).1, none), (b.exec benv op).2)
  | .setRegisterAddress lookedUp =>
    b.setLookedUp .registerAddress (lookedUp.map .registerAddress)
      "sender community id index missing, please call setSenderCommunity before setRegisterAddress"
  | .setCommunityRoot lookedUp =>
    b.setLookedUp .communityRoot (lookedUp.map .communityRoot)
      "sender community id index missing, please call setSenderCommunity before setCommunityRoot"
  | .setSenderCommunityByName lookedUp =>
    (((b.setByName b.setSenderCommunity lookedUp).1, none),
      (b.setByName b.setSenderCommunity lookedUp).2)
  | .setRecipientCommunityByName lookedUp =>
    (((b.setByName b.setRecipientCommunity lookedUp).1, none),
      (b.setByName b.setRecipientCommunity lookedUp).2)

namespace Run

/-- A call in a run.  A builder whose body has a type without its content is not followed on. -/
def step (s : Run Bytes) (call : BuilderCall Bytes KeyPair) : Option (Run Bytes) :=
  if s.strayType ≠ none then none
  else
    let next := s.builder.execCall benv call
    some ⟨next.1.1, next.1.2, if next.2 = .ok () then s.given.after benv call else s.given,
      (s.builder, s.strayType), next.2⟩

end Run

/-! ### What is wanted, and when -/

/-- A transaction of which the body bytes are there, and are read as what was given. -/
def Returns (given : Given) (tx : SignedBody Bytes) : Prop :=
  ∃ bytes body, tx.bodyBytes = some bytes ∧ benv.isEmpty bytes = false ∧
    benv.deserialize bytes tx.communityIdIndex = some body ∧ given.Matches body

/-- After a call that threw the builder is as it was before, and every transaction that it returns
now has what was given. -/
structure Continues (s : Run Bytes) : Prop where
  unchanged : s.result ≠ .ok () → (s.builder, s.strayType) = s.before
  returned : ∀ tx, s.builder.build = .ok tx ∨ s.builder.buildOutbound = .ok tx ∨
    s.builder.buildInbound = .ok tx → Returns benv s.given tx

/-- A body can be written for a community, to bytes that are read as what is in it. -/
def WritesContent (community : ℕ) (body : TransactionBody) : Prop :=
  ∃ bytes body', benv.Writes community body bytes ∧
    benv.deserialize bytes community = some body' ∧ (Given.ofBody body).Matches body'

/-- What is written when the state is switched: the body of a local transaction for its community,
which is there, or those of the two halves. -/
def ReadyToSwitch (b : GradidoTransactionBuilder Bytes) : Prop :=
  if b.isCrossCommunityTransaction = true then
    ∀ s r, b.mSenderCommunityIdIndex = some s → b.mRecipientCommunityIdIndex = some r →
      WritesContent benv s b.outboundBody ∧ WritesContent benv r b.inboundBody
  else
    ∃ community,
      (if b.mBody.transactionType = .creation then b.mRecipientCommunityIdIndex
        else b.mSenderCommunityIdIndex) = some community ∧
      WritesContent benv community { b.mBody with type := .localGroup }

/-- A body that gets its content. -/
def withSpecific (b : GradidoTransactionBuilder Bytes) (specific : Specific) :
    GradidoTransactionBuilder Bytes :=
  { b with mBody := { b.mBody with specific := specific } }

/-- What a call writes to bytes can be written, and the keys that it looks up are there. -/
def Allowed (s : Run Bytes) : BuilderCall Bytes KeyPair → Prop
  | .op (.sign _) => s.builder.mState = .BUILDING_BODY → ReadyToSwitch benv s.builder
  | .op (.setTimeoutDeferredTransfer nr) => s.builder.mState = .BUILDING_BODY →
      s.builder.mSpecificTransactionChoosen = false →
        ReadyToSwitch benv (s.builder.withSpecific (.timeoutDeferredTransfer nr))
  | .setRegisterAddress lookedUp => LooksUp lookedUp.isOk
  | .setCommunityRoot lookedUp => LooksUp lookedUp.isOk
  | _ => True
where
  /-- Keys are only looked up when the transaction may be chosen. -/
  LooksUp (found : Bool) : Prop :=
    s.builder.mState = .BUILDING_BODY → s.builder.mSpecificTransactionChoosen = false →
      s.builder.mSenderCommunityIdIndex.isSome = true → found = true

variable {benv}

/-! ### What the builder holds -/

/-- Bytes that are read for a community as what was given. -/
def Reads (benv : BuilderEnv Bytes KeyPair) (given : Given) (bytes : Bytes) (community : ℕ) :
    Prop :=
  benv.isEmpty bytes = false ∧
    ∃ body, benv.deserialize bytes community = some body ∧ given.Matches body

/-- The communities of the transactions of a builder, when they are written. -/
def communities (b : GradidoTransactionBuilder Bytes) : List ℕ :=
  if b.mState = .LOCAL then [b.mBodyCommunityIdIndex]
  else [b.mSenderCommunityIdIndex.getD 0, b.mRecipientCommunityIdIndex.getD 0]

/-- Before the state is switched the body has what was given; afterwards the bytes have it, and
the same keys have signed all of them. -/
structure Holds (benv : BuilderEnv Bytes KeyPair) (b : GradidoTransactionBuilder Bytes)
    (given : Given) : Prop where
  building : b.mState = .BUILDING_BODY →
    b.mBodyByteSignatureMaps = [] ∧ given.Matches b.mBody
  written : b.mState ≠ .BUILDING_BODY → ∃ keys contents,
    List.Forall₂ (benv.SignedBy keys) contents b.mBodyByteSignatureMaps ∧
      List.Forall₂ (Reads benv given) contents b.communities

theorem Holds.of_building {b : GradidoTransactionBuilder Bytes} {given : Given}
    (hstate : b.mState = .BUILDING_BODY) (hmaps : b.mBodyByteSignatureMaps = [])
    (hmatches : given.Matches b.mBody) : Holds benv b given where
  building _ := ⟨hmaps, hmatches⟩
  written h := absurd hstate h

theorem Holds.of_written {b : GradidoTransactionBuilder Bytes} {given : Given}
    {keys : List KeyPair} {contents : List Bytes} (hstate : b.mState ≠ .BUILDING_BODY)
    (hsigned : List.Forall₂ (benv.SignedBy keys) contents b.mBodyByteSignatureMaps)
    (hreads : List.Forall₂ (Reads benv given) contents b.communities) : Holds benv b given where
  building h := absurd h hstate
  written _ := ⟨keys, contents, hsigned, hreads⟩

theorem Given.Matches.ofBody (body : TransactionBody) : (Given.ofBody body).Matches body :=
  ⟨rfl, rfl, rfl⟩

theorem Given.Matches.trans {given : Given} {body body' : TransactionBody}
    (h : given.Matches body) (h' : (Given.ofBody body).Matches body') : given.Matches body' :=
  ⟨h'.1.trans h.1, h'.2.1.trans h.2.1, h'.2.2.trans h.2.2⟩

theorem holds_fresh (now : ℤ) :
    Holds benv (fresh now) ⟨.none, [], .ofTimepoint now⟩ :=
  .of_building rfl rfl ⟨rfl, rfl, rfl⟩

/-- How a call may end: it returns, and the builder has what was given then, or it throws and
changes nothing. -/
def Ends (benv : BuilderEnv Bytes KeyPair) (b : GradidoTransactionBuilder Bytes)
    (out : GradidoTransactionBuilder Bytes × Except BuilderException Unit) (given : Given) : Prop :=
  (out.2 = .ok () → Holds benv out.1 given) ∧ (out.2 ≠ .ok () → out.1 = b)

theorem ends_error {b : GradidoTransactionBuilder Bytes} {e : BuilderException} {given : Given} :
    Ends benv b (b, .error e) given :=
  ⟨fun h => absurd h (by simp), fun _ => rfl⟩

theorem ends_ok {b b' : GradidoTransactionBuilder Bytes} {given : Given}
    (h : Holds benv b' given) : Ends benv b (b', .ok ()) given :=
  ⟨fun _ => h, fun hne => absurd rfl hne⟩

variable {b : GradidoTransactionBuilder Bytes} {given given' : Given}

/-- What is checked first: the state is the one that is expected, or the check throws. -/
theorem checkBuildState_cases (b : GradidoTransactionBuilder Bytes) (state : BuildingState) :
    (b.mState = state ∧ b.checkBuildState state = .ok ()) ∨
      ∃ e, b.checkBuildState state = .error e := by
  cases hcheck : b.checkBuildState state with
  | ok u => exact .inl ⟨checkBuildState_eq_ok.1 hcheck, rfl⟩
  | error e => exact .inr ⟨e, rfl⟩

/-- A function that first checks that the body may be changed. -/
theorem Holds.setting (hb : Holds benv b given)
    {change : GradidoTransactionBuilder Bytes →
      GradidoTransactionBuilder Bytes × Except BuilderException Unit}
    (hchange : b.mState = .BUILDING_BODY → b.mBodyByteSignatureMaps = [] →
      given.Matches b.mBody → Ends benv b (change b) given') :
    Ends benv b (b.setting change) given' := by
  unfold GradidoTransactionBuilder.setting
  obtain ⟨hstate, hcheck⟩ | ⟨e, hcheck⟩ := b.checkBuildState_cases .BUILDING_BODY
  all_goals rw [hcheck]
  · obtain ⟨hmaps, hmatches⟩ := hb.building hstate
    exact hchange hstate hmaps hmatches
  · exact ends_error

theorem Holds.setSpecific (hb : Holds benv b given) (specific : Specific)
    (needsSender : Option String) :
    Ends benv b (b.setSpecific specific needsSender) { given with specific := specific } := by
  refine hb.setting (fun hstate hmaps hmatches => ?_)
  by_cases hchoosen : b.mSpecificTransactionChoosen = true
  · rw [if_pos hchoosen]
    exact ends_error
  · rw [if_neg hchoosen]
    have hset : Holds benv { b with
        mBody := { b.mBody with specific := specific }
        mSpecificTransactionChoosen := true } { given with specific := specific } :=
      .of_building hstate hmaps ⟨rfl, hmatches.2⟩
    rcases needsSender with _ | what
    · exact ends_ok hset
    · cases hsender : b.mSenderCommunityIdIndex with
      | none => exact ends_error
      | some community =>
        rw [hsender] at hset
        exact ends_ok hset

/-! ### The bytes are written -/

theorem switchBuildState_local_ok {community : ℕ} {bytes : Bytes}
    (hstate : b.mState = .BUILDING_BODY) (hmaps : b.mBodyByteSignatureMaps = [])
    (hcross : b.isCrossCommunityTransaction ≠ true)
    (hcommunity : (if b.mBody.transactionType = .creation then b.mRecipientCommunityIdIndex
      else b.mSenderCommunityIdIndex) = some community)
    (hbytes : benv.serialize community { b.mBody with type := .localGroup } = .ok bytes) :
    b.switchBuildState benv =
      ({ b with
          mState := .LOCAL
          mBody := { b.mBody with type := .localGroup }
          mBodyCommunityIdIndex := community
          mBodyByteSignatureMaps := [⟨some bytes, .empty⟩] }, .ok ()) := by
  have hpushed : ¬ b.pushBodyBytes.isCrossCommunityTransaction = true := hcross
  obtain ⟨state, body, index, sender, recipient, maps, choosen, anchor⟩ := b
  cases hstate
  cases hmaps
  have htype : TransactionBody.transactionType { body with type := .localGroup } =
      body.transactionType := rfl
  dsimp only at hcommunity hbytes
  rw [switchBuildState, setting_of_building rfl, if_neg hpushed]
  simp only [pushBodyBytes, htype, decide_eq_true_eq, hcommunity, serializeInto, hbytes]
  rfl

/-- When the bytes can be written, the state is switched and nobody has signed. -/
theorem switchBuildState_of_ready (hstate : b.mState = .BUILDING_BODY)
    (hmaps : b.mBodyByteSignatureMaps = []) (hmatches : given.Matches b.mBody)
    (hready : ReadyToSwitch benv b) : ∃ b' contents, b.switchBuildState benv = (b', .ok ()) ∧
      b'.mState ≠ .BUILDING_BODY ∧
      List.Forall₂ (benv.SignedBy []) contents b'.mBodyByteSignatureMaps ∧
      List.Forall₂ (Reads benv given) contents b'.communities := by
  have hreads : ∀ {community : ℕ} {body body' : TransactionBody} {bytes : Bytes},
      benv.Writes community body bytes → benv.deserialize bytes community = some body' →
      (Given.ofBody body).Matches body' → Given.ofBody body = Given.ofBody b.mBody →
        Reads benv given bytes community := by
    intro community body body' bytes hwrites hread hcontent hsame
    exact ⟨hwrites.2, body', hread, hmatches.trans (hsame ▸ hcontent)⟩
  unfold ReadyToSwitch at hready
  by_cases hcross : b.isCrossCommunityTransaction = true
  · rw [if_pos hcross] at hready
    obtain ⟨s, r, hs, hr, hne⟩ := (isCrossCommunityTransaction_eq_true b).1 hcross
    obtain ⟨⟨bytesOut, bodyOut, hwritesOut, hreadOut, hcontentOut⟩,
      ⟨bytesIn, bodyIn, hwritesIn, hreadIn, hcontentIn⟩⟩ := hready s r hs hr
    have hswitch := @switchBuildState_cross _ _ benv b s r hstate hmaps hs hr hne
    rw [hwritesOut.1] at hswitch
    dsimp only at hswitch
    rw [hwritesIn.1] at hswitch
    refine ⟨_, [bytesOut, bytesIn], hswitch, (fun h => by cases h),
      .cons ⟨rfl, rfl⟩ (.cons ⟨rfl, rfl⟩ .nil), ?_⟩
    simp only [communities, hs, hr, Option.getD_some, reduceCtorEq, if_false]
    exact .cons (hreads hwritesOut hreadOut hcontentOut rfl)
      (.cons (hreads hwritesIn hreadIn hcontentIn rfl) .nil)
  · rw [if_neg hcross] at hready
    obtain ⟨community, hcommunity, bytes, body, hwrites, hread, hcontent⟩ := hready
    refine ⟨_, [bytes], switchBuildState_local_ok hstate hmaps hcross hcommunity hwrites.1,
      (fun h => by cases h), .cons ⟨rfl, rfl⟩ .nil, ?_⟩
    simp only [communities, if_true]
    exact .cons (hreads hwrites hread hcontent rfl) .nil

theorem Holds.setTimeoutDeferredTransfer (hb : Holds benv b given) (nr : ℕ)
    (hready : b.mState = .BUILDING_BODY → b.mSpecificTransactionChoosen = false →
      ReadyToSwitch benv (b.withSpecific (.timeoutDeferredTransfer nr))) :
    Ends benv b (b.setTimeoutDeferredTransfer benv nr)
      { given with specific := .timeoutDeferredTransfer nr } := by
  refine hb.setting (fun hstate hmaps hmatches => ?_)
  by_cases hchoosen : b.mSpecificTransactionChoosen = true
  · rw [if_pos hchoosen]
    exact ends_error
  · rw [if_neg hchoosen]
    have hmatches' : Given.Matches { given with specific := .timeoutDeferredTransfer nr }
        (b.withSpecific (.timeoutDeferredTransfer nr)).mBody := ⟨rfl, hmatches.2⟩
    obtain ⟨b', contents, hswitch, hstate', hsigned, hreads⟩ :=
      switchBuildState_of_ready (b := b.withSpecific (.timeoutDeferredTransfer nr)) hstate hmaps
        hmatches' (hready hstate (by simpa using hchoosen))
    dsimp only [withSpecific] at hswitch ⊢
    rw [hswitch]
    exact ends_ok (.of_written hstate' hsigned hreads)

/-! ### Signing -/

theorem forall₂_getElem? {α β : Type} {R : α → β → Prop} {l : List α} {l' : List β}
    (h : List.Forall₂ R l l') {i : ℕ} {a : α} (ha : l[i]? = some a) :
    ∃ b, l'[i]? = some b ∧ R a b := by
  induction h generalizing i with
  | nil => cases ha
  | @cons x y l l' hR _ ih =>
    cases i with
    | zero =>
      obtain rfl : x = a := Option.some.inj ha
      exact ⟨y, rfl, hR⟩
    | succ i => exact ih ha

/-- A key signs all transactions, or none. -/
theorem ends_signed (hstate : b.mState ≠ .BUILDING_BODY) {keys : List KeyPair}
    {contents : List Bytes}
    (hsigned : List.Forall₂ (benv.SignedBy keys) contents b.mBodyByteSignatureMaps)
    (hreads : List.Forall₂ (Reads benv given) contents b.communities) (keyPair : KeyPair) :
    Ends benv b (b.signed benv keyPair, (signAll benv keyPair b.mBodyByteSignatureMaps).2)
        given ∧
      (keys = [] → (signAll benv keyPair b.mBodyByteSignatureMaps).2 = .ok ()) := by
  have hempty : ∀ bytes ∈ contents, benv.isEmpty bytes = false := by
    intro bytes hbytes
    obtain ⟨i, hi⟩ := List.mem_iff_getElem?.1 hbytes
    obtain ⟨community, -, hread⟩ := forall₂_getElem? hreads hi
    exact hread.1
  unfold GradidoTransactionBuilder.signed
  by_cases hkey : benv.publicKey keyPair ∈ keys.map benv.publicKey
  · have hne : keys ≠ [] := by
      rintro rfl
      exact absurd hkey List.not_mem_nil
    have hcontents : contents ≠ [] := by
      rintro rfl
      have hlength := hreads.length_eq
      unfold communities at hlength
      split_ifs at hlength
    have hsame : signAll benv keyPair b.mBodyByteSignatureMaps =
        (b.mBodyByteSignatureMaps, .error (.alreadyExist
          "public key already exist in signature map of gradido transaction")) := by
      generalize b.mBodyByteSignatureMaps = maps at hsigned ⊢
      cases hsigned with
      | nil => exact absurd rfl hcontents
      | cons hm _ => exact signAll_of_mem hkey hm (hempty _ List.mem_cons_self) _
    rw [hsame]
    exact ⟨ends_error, fun h => absurd h hne⟩
  · obtain ⟨ms', hsign, hsigned'⟩ := signAll_of_not_mem hkey hsigned hempty
    rw [hsign]
    exact ⟨ends_ok (.of_written hstate hsigned' hreads), fun _ => rfl⟩

theorem Holds.sign (hb : Holds benv b given) (keyPair : KeyPair)
    (hready : b.mState = .BUILDING_BODY → ReadyToSwitch benv b) :
    Ends benv b (b.sign benv keyPair) given := by
  unfold GradidoTransactionBuilder.sign
  by_cases hstate : b.mState = .BUILDING_BODY
  · obtain ⟨hmaps, hmatches⟩ := hb.building hstate
    obtain ⟨b', contents, hswitch, hstate', hsigned, hreads⟩ :=
      switchBuildState_of_ready hstate hmaps hmatches (hready hstate)
    -- nobody has signed yet, so that this key is not refused
    obtain ⟨hends, hok⟩ := ends_signed hstate' hsigned hreads keyPair
    rw [if_pos hstate, hswitch]
    dsimp only
    rw [hok rfl]
    exact ends_ok (hends.1 (hok rfl))
  · obtain ⟨keys, contents, hsigned, hreads⟩ := hb.written hstate
    rw [if_neg hstate]
    exact (ends_signed hstate hsigned hreads keyPair).1

/-! ### Every call -/

/-- A transaction that is built has what was given. -/
theorem Holds.returns (hb : Holds benv b given) (hstate : b.mState ≠ .BUILDING_BODY) {i : ℕ}
    {community : Option ℕ} {tx : SignedBody Bytes} (hbuild : b.buildFor i community = .ok tx)
    (hcommunity : ∀ c, community = some c → b.communities[i]? = some c) :
    Returns benv given tx := by
  obtain ⟨keys, contents, hsigned, hreads⟩ := hb.written hstate
  unfold buildFor at hbuild
  cases hm : b.mBodyByteSignatureMaps[i]? with
  | none =>
    rw [hm] at hbuild
    cases hbuild
  | some m =>
    cases community with
    | none =>
      rw [hm] at hbuild
      cases hbuild
    | some c =>
      rw [hm] at hbuild
      cases hbuild
      obtain ⟨bytes, hbytes, hread⟩ := forall₂_getElem? hreads.flip (hcommunity c rfl)
      obtain ⟨m', hm', hsigns⟩ := forall₂_getElem? hsigned hbytes
      obtain rfl : m = m' := Option.some.inj (hm.symm.trans hm')
      obtain ⟨hempty, body, hdeserialize, hmatches⟩ := hread
      exact ⟨bytes, body, hsigns.bodyBytes, hempty, hdeserialize, hmatches⟩

theorem build_eq_ok {tx : SignedBody Bytes} (h : b.build = .ok tx) :
    b.mState = .LOCAL ∧ b.buildFor 0 (some b.mBodyCommunityIdIndex) = .ok tx := by
  unfold build at h
  obtain ⟨hstate, hcheck⟩ | ⟨e, hcheck⟩ := b.checkBuildState_cases .LOCAL
  all_goals rw [hcheck] at h
  · exact ⟨hstate, h⟩
  · cases h

theorem buildOutbound_eq_ok {tx : SignedBody Bytes} (h : b.buildOutbound = .ok tx) :
    b.mState = .CROSS_COMMUNITY ∧ b.buildFor 0 b.mSenderCommunityIdIndex = .ok tx := by
  unfold buildOutbound at h
  obtain ⟨hstate, hcheck⟩ | ⟨e, hcheck⟩ := b.checkBuildState_cases .CROSS_COMMUNITY
  all_goals rw [hcheck] at h
  · exact ⟨hstate, h⟩
  · cases h

theorem buildInbound_eq_ok {tx : SignedBody Bytes} (h : b.buildInbound = .ok tx) :
    b.mState = .CROSS_COMMUNITY ∧ b.buildFor 1 b.mRecipientCommunityIdIndex = .ok tx := by
  unfold buildInbound at h
  obtain ⟨hstate, hcheck⟩ | ⟨e, hcheck⟩ := b.checkBuildState_cases .CROSS_COMMUNITY
  all_goals rw [hcheck] at h
  · dsimp only at h
    split_ifs at h with hanchor
    exact ⟨hstate, h⟩
  · cases h

theorem Holds.returned (hb : Holds benv b given) {tx : SignedBody Bytes}
    (h : b.build = .ok tx ∨ b.buildOutbound = .ok tx ∨ b.buildInbound = .ok tx) :
    Returns benv given tx := by
  obtain hbuild | hbuild | hbuild := h
  · obtain ⟨hstate, hbuild⟩ := build_eq_ok hbuild
    refine hb.returns (by rw [hstate]; decide) hbuild (fun c hc => ?_)
    rw [communities, if_pos hstate]
    exact hc
  · obtain ⟨hstate, hbuild⟩ := buildOutbound_eq_ok hbuild
    refine hb.returns (by rw [hstate]; decide) hbuild (fun c hc => ?_)
    rw [communities, if_neg (by rw [hstate]; decide), hc]
    rfl
  · obtain ⟨hstate, hbuild⟩ := buildInbound_eq_ok hbuild
    refine hb.returns (by rw [hstate]; decide) hbuild (fun c hc => ?_)
    rw [communities, if_neg (by rw [hstate]; decide), hc]
    rfl

/-- Functions that leave what was given as it is. -/
theorem Holds.setCommunity (hb : Holds benv b given)
    {change : GradidoTransactionBuilder Bytes → GradidoTransactionBuilder Bytes}
    (hchange : ∀ b, (change b).mState = b.mState ∧
      (change b).mBodyByteSignatureMaps = b.mBodyByteSignatureMaps ∧ (change b).mBody = b.mBody) :
    Ends benv b (b.setting (fun b => (change b, .ok ()))) given := by
  refine hb.setting (fun hstate hmaps hmatches => ends_ok ?_)
  obtain ⟨hstate', hmaps', hbody⟩ := hchange b
  exact .of_building (hstate'.trans hstate) (hmaps'.trans hmaps) (hbody ▸ hmatches)

theorem Holds.setSenderCommunity (hb : Holds benv b given) (communityIdIndex : ℕ) :
    Ends benv b (b.setSenderCommunity communityIdIndex) given :=
  hb.setCommunity (fun _ => ⟨rfl, rfl, rfl⟩)

theorem Holds.setRecipientCommunity (hb : Holds benv b given) (communityIdIndex : ℕ) :
    Ends benv b (b.setRecipientCommunity communityIdIndex) given :=
  hb.setCommunity (fun _ => ⟨rfl, rfl, rfl⟩)

/-- Another body: what was given is what it has. -/
theorem Holds.setBody (hb : Holds benv b given) (community : ℕ) (body : TransactionBody) :
    Ends benv b (b.setting (fun b =>
      ({ b with mBody := body, mBodyCommunityIdIndex := community }, .ok ())))
      (Given.ofBody body) :=
  hb.setting (fun hstate hmaps _ => ends_ok (.of_building hstate hmaps (.ofBody body)))

theorem Holds.exec {s : Run Bytes} (hb : Holds benv s.builder s.given) (op : Op Bytes KeyPair)
    (hallowed : Allowed benv s (.op op)) :
    Ends benv s.builder (s.builder.exec benv op) (s.given.after benv (.op op)) := by
  cases op with
  | reset now => exact ends_ok (holds_fresh now)
  | build now =>
    simp only [GradidoTransactionBuilder.exec]
    cases s.builder.build with
    | error e => exact ends_error
    | ok tx => exact ends_ok (holds_fresh now)
  | buildOutbound =>
    simp only [GradidoTransactionBuilder.exec]
    cases s.builder.buildOutbound with
    | error e => exact ends_error
    | ok tx => exact ends_ok hb
  | buildInbound now =>
    simp only [GradidoTransactionBuilder.exec]
    cases s.builder.buildInbound with
    | error e => exact ends_error
    | ok tx => exact ends_ok (holds_fresh now)
  | setDeferredTransfer d => exact hb.setSpecific _ _
  | setCommunityFriendsUpdate colorFusion => exact hb.setSpecific _ _
  | setRegisterAddress userPublicKey type nameHashIndex accountPublicKey =>
    exact hb.setSpecific _ _
  | setTransactionCreation c => exact hb.setSpecific _ _
  | setTransactionTransfer t => exact hb.setSpecific _ _
  | setCommunityRoot r => exact hb.setSpecific _ _
  | setRedeemDeferredTransfer r => exact hb.setSpecific _ _
  | setTimeoutDeferredTransfer nr => exact hb.setTimeoutDeferredTransfer nr hallowed
  | setCreatedAt createdAt =>
    exact hb.setting (fun hstate hmaps hmatches =>
      ends_ok (.of_building hstate hmaps ⟨hmatches.1, hmatches.2.1, rfl⟩))
  | addMemo memo =>
    exact hb.setting (fun hstate hmaps hmatches =>
      ends_ok (.of_building hstate hmaps
        ⟨hmatches.1, congrArg (· ++ [memo]) hmatches.2.1, hmatches.2.2⟩))
  | setTransactionBody communityIdIndex body => exact hb.setBody communityIdIndex body
  | setTransactionBodyBytes bodyBytes =>
    refine hb.setting (fun hstate hmaps _ => ?_)
    simp only [Given.after]
    cases benv.deserialize bodyBytes 1 with
    | none => exact ends_error
    | some body => exact ends_ok (.of_building hstate hmaps (.ofBody body))
  | setSenderCommunity communityIdIndex => exact hb.setSenderCommunity communityIdIndex
  | setRecipientCommunity communityIdIndex => exact hb.setRecipientCommunity communityIdIndex
  | sign keyPair => exact hb.sign keyPair hallowed
  | setParentLedgerAnchor ledgerAnchor => exact ends_ok ⟨hb.building, hb.written⟩

/-- A call that ends well sets no type without its content. -/
def EndsClean (benv : BuilderEnv Bytes KeyPair) (b : GradidoTransactionBuilder Bytes)
    (out : (GradidoTransactionBuilder Bytes × Option TransactionType) ×
      Except BuilderException Unit) (given : Given) : Prop :=
  out.1.2 = none ∧ Ends benv b (out.1.1, out.2) given

/-- The keys are looked up between the type and the content of the body. -/
theorem Holds.setLookedUp {α : Type} (hb : Holds benv b given) (type : TransactionType)
    {lookedUp : Except Exception α} {specific : α → Specific} (what : String)
    (hgiven : ∀ a, lookedUp = .ok a → given' = { given with specific := specific a })
    (hfound : b.mState = .BUILDING_BODY → b.mSpecificTransactionChoosen = false →
      b.mSenderCommunityIdIndex.isSome = true → lookedUp.isOk = true) :
    EndsClean benv b (b.setLookedUp type (lookedUp.map specific) what) given' := by
  unfold GradidoTransactionBuilder.setLookedUp
  cases lookedUp with
  | ok a =>
    rw [hgiven a rfl]
    exact ⟨rfl, hb.setSpecific (specific a) (some what)⟩
  | error e =>
    obtain ⟨hstate, hcheck⟩ | ⟨wrongState, hcheck⟩ := b.checkBuildState_cases .BUILDING_BODY
    all_goals
      rw [hcheck]
      dsimp only
    · split_ifs with hchoosen hsender
      · exact ⟨rfl, ends_error⟩
      · exact ⟨rfl, ends_error⟩
      · have hnever := hfound hstate (by simpa using hchoosen)
          (Option.isSome_iff_ne_none.2 hsender)
        cases hnever
    · exact ⟨rfl, ends_error⟩

theorem Holds.setByName (hb : Holds benv b given)
    {set : ℕ → GradidoTransactionBuilder Bytes × Except BuilderException Unit}
    (hset : ∀ communityIdIndex, Ends benv b (set communityIdIndex) given)
    (lookedUp : Except Exception ℕ) : Ends benv b (b.setByName set lookedUp) given := by
  refine hb.setting (fun _ _ _ => ?_)
  cases lookedUp with
  | ok communityIdIndex => exact hset communityIdIndex
  | error e => exact ends_error

/-- Every call that is allowed ends well. -/
theorem Holds.execCall {s : Run Bytes} (hb : Holds benv s.builder s.given)
    (call : BuilderCall Bytes KeyPair) (hallowed : Allowed benv s call) :
    EndsClean benv s.builder (s.builder.execCall benv call) (s.given.after benv call) := by
  cases call with
  | op op => exact ⟨rfl, hb.exec op hallowed⟩
  | setRegisterAddress lookedUp =>
    refine hb.setLookedUp _ _ (fun registerAddress hfound => ?_) hallowed
    rw [hfound]
    rfl
  | setCommunityRoot lookedUp =>
    refine hb.setLookedUp _ _ (fun communityRoot hfound => ?_) hallowed
    rw [hfound]
    rfl
  | setSenderCommunityByName lookedUp =>
    exact ⟨rfl, hb.setByName hb.setSenderCommunity lookedUp⟩
  | setRecipientCommunityByName lookedUp =>
    exact ⟨rfl, hb.setByName hb.setRecipientCommunity lookedUp⟩

/-! ### Whole runs -/

/-- What the calls that are allowed keep. -/
structure Kept (benv : BuilderEnv Bytes KeyPair) (s : Run Bytes) : Prop where
  holds : Holds benv s.builder s.given
  clean : s.strayType = none
  unchanged : s.result ≠ .ok () → (s.builder, s.strayType) = s.before

theorem Kept.continues {s : Run Bytes} (hs : Kept benv s) : Continues benv s where
  unchanged := hs.unchanged
  returned _ h := hs.holds.returned h

theorem kept_start (now : ℤ) : Kept benv (Run.start now) where
  holds := holds_fresh now
  clean := rfl
  unchanged h := absurd rfl h

theorem Kept.step {s t : Run Bytes} (hs : Kept benv s) {call : BuilderCall Bytes KeyPair}
    (hallowed : Allowed benv s call) (hstep : s.step benv call = some t) : Kept benv t := by
  rw [Run.step, if_neg (not_not_intro hs.clean)] at hstep
  cases hstep
  obtain ⟨hclean, hok, herror⟩ := hs.holds.execCall call hallowed
  dsimp only at hok herror
  refine ⟨?_, hclean, fun hne => ?_⟩
  · dsimp only
    split_ifs with hresult
    · exact hok hresult
    · rw [herror hresult]
      exact hs.holds
  · dsimp only at hne ⊢
    rw [hclean, hs.clean, herror hne]

end GradidoTransactionBuilder

namespace Sample

open GradidoTransactionBuilder

/-- A transfer that is signed before a community is set. -/
def unsetCommunityCalls : List (BuilderCall (ℕ × TransactionBody) ℕ) :=
  [.op (.setTransactionTransfer ⟨⟨11, 500, 1⟩, 12⟩), .op (.sign 11)]

/-- The calls of a local transfer that two keys sign, one of them twice. -/
def localTransferCalls : List (BuilderCall (ℕ × TransactionBody) ℕ) :=
  [.setSenderCommunityByName (.ok 1), .op (.setTransactionTransfer ⟨⟨11, 500, 1⟩, 12⟩),
    .op (.sign 11), .op (.sign 11), .op (.sign 13)]

end Sample

end Gradido
