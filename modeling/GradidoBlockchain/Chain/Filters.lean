import GradidoBlockchain.Chain.Indexed

/-!
# Rich and compact filters

A search can be asked of the rich form of a transaction, with `Filter::matches`,
or of its compact form, with `CompactFilter::matches`.  `filtersAgree_iff` says,
criterion by criterion, when the two give the same answer: `Comparable` collects
the conditions on the coin community, the interval and the keys.
-/

namespace Gradido

open Checked

namespace ConfirmedTransaction

/-- A key signed a transaction. -/
def SignedBy (tx : ConfirmedTransaction) (publicKey : ℕ) : Prop :=
  ∃ p ∈ tx.gradidoTransaction.signatureMap.signaturePairs, p.publicKey = publicKey

instance {tx : ConfirmedTransaction} {publicKey : ℕ} : Decidable (tx.SignedBy publicKey) :=
  inferInstanceAs (Decidable (∃ p ∈ _, _))

/-- A key has a balance after a transaction. -/
def HasBalance (tx : ConfirmedTransaction) (publicKey : ℕ) : Prop :=
  ∃ b ∈ tx.accountBalances, b.publicKey = publicKey

instance {tx : ConfirmedTransaction} {publicKey : ℕ} : Decidable (tx.HasBalance publicKey) :=
  inferInstanceAs (Decidable (∃ b ∈ _, _))

theorem isBalanceUpdated_eq_true {tx : ConfirmedTransaction} {publicKey : ℕ} :
    tx.isBalanceUpdated publicKey = true ↔ tx.HasBalance publicKey := by
  simp [isBalanceUpdated, HasBalance]

end ConfirmedTransaction

/-! ### Keys that a body names -/

/-- The rich and the compact body of a transfer name the same keys of the own community: the
compact form knows the other community only from a pairing. -/
def SamePartner (own : ℕ) (tx : ConfirmedTransaction) (transfer : GradidoTransfer) (k : ℕ) : Prop :=
  (tx.body.type = .outbound → tx.body.otherCommunityIdIndex = some own →
    transfer.recipient = k → transfer.sender.publicKey ≠ k →
    tx.gradidoTransaction.pairingLedgerAnchor.empty = false) ∧
  (tx.body.type = .inbound → tx.body.otherCommunityIdIndex = some own →
    transfer.sender.publicKey = k → transfer.recipient ≠ k →
    tx.gradidoTransaction.pairingLedgerAnchor.empty = false)

/-- A key of the own community is named by keys that another community has numbered. -/
def SameNumbers (env : Env) (own : ℕ) (tx : ConfirmedTransaction) (keys : List ℕ) (k : ℕ) : Prop :=
  tx.body.type = .inbound → ∀ other, tx.body.otherCommunityIdIndex = some other →
    (k ∈ keys ↔ env.dict.index own k ∈ keys.map (env.dict.index other))

/-- The body of a transaction and of its compact form name a key, or both do not.

* The recipient of a creation for another community gets a number of that community.
* So do the keys of a registration or a root that come from another community.
* Only the compact form of a timeout names the parties of the deferred transfer. -/
def SameBodyKeys (env : Env) (own : ℕ) (tx : ConfirmedTransaction) (c : ConfirmedGradidoTx)
    (k : ℕ) : Prop :=
  match tx.body.specific with
  | .creation r => tx.body.type = .outbound → r.recipient.publicKey = k →
    tx.body.otherCommunityIdIndex = some own ∧
      tx.gradidoTransaction.pairingLedgerAnchor.empty = false
  | .transfer t => SamePartner own tx t k
  | .redeemDeferredTransfer r => SamePartner own tx r.transfer k
  | .registerAddress r => SameNumbers env own tx [r.userPublicKey, r.accountPublicKey] k
  | .communityRoot r => SameNumbers env own tx [r.publicKey, r.aufPublicKey, r.gmwPublicKey] k
  | .timeoutDeferredTransfer _ => env.dict.toPublicKeyIndex k own ∉ c.bodyAddresses
  | _ => True

namespace CompactOf

variable {env : Env} {own : ℕ} {tx : ConfirmedTransaction} {c : ConfirmedGradidoTx}

theorem pairing (h : CompactOf env own tx c) :
    c.pairingTxCommunityIdIndex =
      if tx.gradidoTransaction.pairingLedgerAnchor.empty then 0
      else tx.body.otherCommunityIdIndex.getD 0 := by
  obtain ⟨getTx, h⟩ := h
  simp only [ConfirmedGradidoTx.fromConfirmedTransaction, bind_eq_ok, exists_unit, pure_eq_ok] at h
  obtain ⟨-, ⟨sender, recipient⟩, -, ⟨specific, coin⟩, -, -, rfl⟩ := h
  rfl

/-- A party of the own community, as `getSender` and `getRecipient` return it. -/
theorem ownParty_eq_iff {p k : ℕ} (hk : k ≠ 0) :
    (if env.dict.index own p = 0 then ⟨0, 0⟩ else ⟨own, env.dict.index own p⟩ : PublicKeyIndex) =
      env.dict.toPublicKeyIndex k own ↔ p = k := by
  have hzero : env.dict.index own k ≠ 0 := by simp [hk]
  unfold PublicKeyDictionary.toPublicKeyIndex
  split_ifs with hp
  · rw [PublicKeyDictionary.index_eq_zero] at hp
    subst hp
    refine iff_of_false ?_ (Ne.symm hk)
    intro heq
    exact hzero (PublicKeyIndex.mk.inj heq).2.symm
  · simp

/-- A party of another community. -/
theorem foreignParty_eq_iff (h : CompactOf env own tx c) {other : ℕ}
    (hother : tx.body.otherCommunityIdIndex = some other) (hown : own ≠ 0) {p k : ℕ} (hk : k ≠ 0) :
    (if env.dict.index other p = 0 then ⟨0, 0⟩
      else ⟨c.pairingTxCommunityIdIndex, env.dict.index other p⟩ : PublicKeyIndex) =
      env.dict.toPublicKeyIndex k own ↔
    p = k ∧ tx.body.otherCommunityIdIndex = some own ∧
      tx.gradidoTransaction.pairingLedgerAnchor.empty = false := by
  have hpairing := h.pairing
  rw [hother, Option.getD_some] at hpairing
  rw [hother, Option.some.injEq]
  cases hanchor : tx.gradidoTransaction.pairingLedgerAnchor.empty with
  | true =>
    -- the community is lost, and zero is not the own one
    rw [hanchor, if_pos rfl] at hpairing
    refine iff_of_false ?_ (by simp)
    rw [hpairing, PublicKeyDictionary.toPublicKeyIndex]
    split_ifs
    · exact fun heq => hown (PublicKeyIndex.mk.inj heq).1.symm
    · exact fun heq => hown (PublicKeyIndex.mk.inj heq).1.symm
  | false =>
    rw [hanchor, if_neg (by decide)] at hpairing
    rw [hpairing]
    by_cases hsame : other = own
    · subst hsame
      rw [ownParty_eq_iff hk]
      simp
    · refine iff_of_false ?_ (fun hand => hsame hand.2.1)
      rw [PublicKeyDictionary.toPublicKeyIndex]
      split_ifs
      · exact fun heq => hown (PublicKeyIndex.mk.inj heq).1.symm
      · exact fun heq => hsame (PublicKeyIndex.mk.inj heq).1

/-- The communities of the two parties: a transaction that crosses communities names the other
one. -/
def Parties (own : ℕ) (body : TransactionBody) (sender recipient : ℕ) : Prop :=
  body.type = .localGroup ∧ sender = own ∧ recipient = own ∨
    ∃ other, body.otherCommunityIdIndex = some other ∧
      (body.type = .outbound ∧ sender = own ∧ recipient = other ∨
        body.type = .inbound ∧ sender = other ∧ recipient = own)

/-- What the compact form does with communities. -/
theorem communities_cases (h : CompactOf env own tx c) :
    ∃ getTx sender recipient,
      ConfirmedGradidoTx.fillSpecific env own sender recipient getTx
        (ConfirmedGradidoTx.compactBalances env own tx) tx.confirmedAt tx.body =
        .ok (c.specific, c.coinCommunityIdIndex) ∧
      Parties own tx.body sender recipient := by
  obtain ⟨getTx, sender, recipient, hcommunities, hspecific⟩ := h.content
  refine ⟨getTx, sender, recipient, hspecific, ?_⟩
  unfold ConfirmedGradidoTx.communities at hcommunities
  split at hcommunities
  · next hlocal =>
    simp only [Except.ok.injEq, Prod.mk.injEq] at hcommunities
    exact .inl ⟨hlocal, hcommunities.1.symm, hcommunities.2.symm⟩
  · simp at hcommunities
  · next other hout hother =>
    simp only [Except.ok.injEq, Prod.mk.injEq] at hcommunities
    exact .inr ⟨other, hother, .inl ⟨hout, hcommunities.1.symm, hcommunities.2.symm⟩⟩
  · next other hin hother =>
    simp only [Except.ok.injEq, Prod.mk.injEq] at hcommunities
    exact .inr ⟨other, hother, .inr ⟨hin, hcommunities.1.symm, hcommunities.2.symm⟩⟩
  · simp at hcommunities

/-- Two forms name a party `A`, and one that is `B` of a community `C`, but one form only with `D`:
they agree unless only `D` is missing. -/
theorem party_agree_iff {A B C D : Prop} : (A ∨ C ∧ B ↔ A ∨ B ∧ C ∧ D) ↔ (C → B → ¬ A → D) := by
  by_cases hA : A
  · simp [hA]
  · simp only [hA, false_or, not_false_eq_true, forall_const]
    constructor
    · intro hiff hC hB
      exact (hiff.1 ⟨hC, hB⟩).2.2
    · intro hD
      constructor
      · rintro ⟨hC, hB⟩
        exact ⟨hB, hC, hD hC hB⟩
      · rintro ⟨hB, hC, -⟩
        exact ⟨hC, hB⟩

/-- Both forms of a transfer. -/
theorem transfer_agree_iff (h : CompactOf env own tx c)
    (hcommunity : tx.gradidoTransaction.communityIdIndex = own) (hown : own ≠ 0)
    {transfer : GradidoTransfer} {sender recipient : ℕ} {amount : ℤ}
    (hcases : Parties own tx.body sender recipient)
    (hspecific : c.specific = .transfer amount
      (env.dict.index sender transfer.sender.publicKey)
      (env.dict.index recipient transfer.recipient)) {k : ℕ} (hk : k ≠ 0) :
    ∃ l, tx.gradidoTransaction.fillFromGradidoTransfer env transfer = .ok l ∧
      ((env.dict.toPublicKeyIndex k own ∈ l ↔ env.dict.toPublicKeyIndex k own ∈ c.bodyAddresses) ↔
        SamePartner own tx transfer k) := by
  obtain ⟨-, -, hc, htype, -⟩ := h.fields
  have hbody : tx.gradidoTransaction.body = tx.body := rfl
  have hinj : ∀ p other, env.dict.toPublicKeyIndex k own = env.dict.toPublicKeyIndex p other ↔
      other = own ∧ p = k := by
    intro p other
    rw [PublicKeyDictionary.toPublicKeyIndex_inj, eq_comm, eq_comm (a := k)]
  have haddresses : env.dict.toPublicKeyIndex k own ∈ c.bodyAddresses ↔
      c.getSender = env.dict.toPublicKeyIndex k own ∨
        c.getRecipient = env.dict.toPublicKeyIndex k own := by
    simp [ConfirmedGradidoTx.bodyAddresses, hspecific, eq_comm]
  rw [haddresses]
  unfold GradidoTransaction.fillFromGradidoTransfer SamePartner
  unfold ConfirmedGradidoTx.getSender ConfirmedGradidoTx.getRecipient
  rw [hbody, hcommunity, hc, htype, hspecific]
  rcases hcases with ⟨hlocal, rfl, rfl⟩ | ⟨other, hother, ⟨hout, rfl, rfl⟩ | ⟨hin, rfl, rfl⟩⟩
  · rw [hlocal]
    refine ⟨_, rfl, ?_⟩
    simp only [reduceCtorEq, if_false, ownParty_eq_iff hk, List.mem_cons, List.not_mem_nil,
      or_false, hinj, true_and, false_implies, and_self]
  · rw [hout, hother]
    refine ⟨_, rfl, ?_⟩
    have hforeign := @foreignParty_eq_iff env sender tx c h recipient hother hown
      transfer.recipient k hk
    simp only [reduceCtorEq, if_false, if_true, ownParty_eq_iff hk, hforeign, hother, hinj,
      List.mem_cons, List.not_mem_nil, or_false, Option.some.injEq, true_and, false_implies,
      and_true, forall_const]
    exact party_agree_iff
  · rw [hin, hother]
    refine ⟨_, rfl, ?_⟩
    have hforeign := @foreignParty_eq_iff env recipient tx c h sender hother hown
      transfer.sender.publicKey k hk
    simp only [reduceCtorEq, if_false, if_true, ownParty_eq_iff hk, hforeign, hother, hinj,
      List.mem_cons, List.not_mem_nil, or_false, Option.some.injEq, true_and, false_implies,
      forall_const]
    rw [or_comm, or_comm (b := transfer.recipient = k)]
    exact party_agree_iff

/-- The keys of a registration or a root. -/
theorem numbers_agree_iff {sender recipient : ℕ}
    (hcases : Parties own tx.body sender recipient) (keys : List ℕ) (k : ℕ) :
    (k ∈ keys ↔ env.dict.index own k ∈ keys.map (env.dict.index sender)) ↔
      SameNumbers env own tx keys k := by
  have hsame : k ∈ keys ↔ env.dict.index own k ∈ keys.map (env.dict.index own) := by
    simp
  unfold SameNumbers
  rcases hcases with ⟨hlocal, rfl, rfl⟩ | ⟨other, hother, ⟨hout, rfl, rfl⟩ | ⟨hin, rfl, rfl⟩⟩
  · exact iff_of_true hsame (by simp [hlocal])
  · exact iff_of_true hsame (by simp [hout])
  · simp [hin, hother]

/-- **The keys of the bodies**: what a body names in its rich form, and when the compact form names
the same. -/
theorem body_agree_iff (h : CompactOf env own tx c)
    (hcommunity : tx.gradidoTransaction.communityIdIndex = own) (hown : own ≠ 0) {k : ℕ}
    (hk : k ≠ 0) :
    ∃ l, tx.gradidoTransaction.getBodyAddressIndices env = .ok l ∧
      ((env.dict.toPublicKeyIndex k own ∈ l ↔ env.dict.toPublicKeyIndex k own ∈ c.bodyAddresses) ↔
        SameBodyKeys env own tx c k) := by
  obtain ⟨-, -, hc, htype, -⟩ := h.fields
  obtain ⟨getTx, sender, recipient, hfill, hcases⟩ := h.communities_cases
  have hbody : tx.gradidoTransaction.body = tx.body := rfl
  unfold GradidoTransaction.getBodyAddressIndices SameBodyKeys
  rw [hbody, hcommunity]
  unfold ConfirmedGradidoTx.fillSpecific at hfill
  cases hspecific : tx.body.specific with
  | none => simp [hspecific] at hfill
  | communityFriendsUpdate _ => simp [hspecific] at hfill
  | transfer t =>
    simp only [hspecific, Except.ok.injEq, Prod.mk.injEq] at hfill
    exact h.transfer_agree_iff hcommunity hown hcases hfill.1.symm hk
  | redeemDeferredTransfer r =>
    simp only [hspecific, Except.ok.injEq, Prod.mk.injEq] at hfill
    exact h.transfer_agree_iff hcommunity hown hcases hfill.1.symm hk
  | registerAddress r =>
    simp only [hspecific, Except.ok.injEq, Prod.mk.injEq] at hfill
    refine ⟨_, rfl, ?_⟩
    dsimp only
    rw [← numbers_agree_iff hcases]
    unfold ConfirmedGradidoTx.bodyAddresses
    rw [← hfill.1, hc]
    simp only [PublicKeyDictionary.toPublicKeyIndex, List.mem_cons, List.not_mem_nil, or_false,
      PublicKeyIndex.mk.injEq, true_and, PublicKeyDictionary.index_inj, List.map_cons,
      List.map_nil]
    rw [or_comm]
  | communityRoot r =>
    simp only [hspecific, Except.ok.injEq, Prod.mk.injEq] at hfill
    refine ⟨_, rfl, ?_⟩
    dsimp only
    rw [← numbers_agree_iff hcases]
    unfold ConfirmedGradidoTx.bodyAddresses
    rw [← hfill.1, hc]
    simp only [PublicKeyDictionary.toPublicKeyIndex, List.mem_cons, List.not_mem_nil, or_false,
      PublicKeyIndex.mk.injEq, true_and, PublicKeyDictionary.index_inj, List.map_cons,
      List.map_nil]
    rw [or_comm (a := k = r.gmwPublicKey)]
  | creation r =>
    simp only [hspecific, Except.ok.injEq, Prod.mk.injEq] at hfill
    refine ⟨_, rfl, ?_⟩
    have haddresses : env.dict.toPublicKeyIndex k own ∈ c.bodyAddresses ↔
        c.getRecipient = env.dict.toPublicKeyIndex k own := by
      simp [ConfirmedGradidoTx.bodyAddresses, ← hfill.1, eq_comm]
    have hrich : env.dict.toPublicKeyIndex k own ∈
        [env.dict.toPublicKeyIndex r.recipient.publicKey own] ↔ r.recipient.publicKey = k := by
      simp [PublicKeyDictionary.toPublicKeyIndex, eq_comm]
    rw [haddresses, hrich]
    unfold ConfirmedGradidoTx.getRecipient
    rw [← hfill.1, hc, htype]
    rcases hcases with ⟨hlocal, rfl, rfl⟩ | ⟨other, hother, ⟨hout, rfl, rfl⟩ | ⟨hin, rfl, rfl⟩⟩
    · simp only [hlocal, reduceCtorEq, if_false, ownParty_eq_iff hk, false_implies]
    · simp only [hout, if_true, h.foreignParty_eq_iff hother hown hk, forall_const]
      exact ⟨fun hiff hr => (hiff.1 hr).2, fun hr => ⟨fun hk => ⟨hk, hr hk⟩, fun hand => hand.1⟩⟩
    · simp only [hin, reduceCtorEq, if_false, ownParty_eq_iff hk, false_implies]
  | deferredTransfer d =>
    simp only [hspecific, bind_eq_ok, exists_unit, throwIf_eq_ok, decide_eq_false_iff_not, not_not,
      pure_eq_ok, Prod.mk.injEq] at hfill
    obtain ⟨hlocal, -, hfill, -⟩ := hfill
    have haddresses : env.dict.toPublicKeyIndex k own ∈ c.bodyAddresses ↔
        c.getSender = env.dict.toPublicKeyIndex k own ∨
          c.getRecipient = env.dict.toPublicKeyIndex k own := by
      simp [ConfirmedGradidoTx.bodyAddresses, ← hfill, eq_comm]
    unfold GradidoTransaction.fillFromGradidoTransfer
    rw [hbody, hlocal, hcommunity, haddresses]
    unfold ConfirmedGradidoTx.getSender ConfirmedGradidoTx.getRecipient
    rw [← hfill, hc, htype, hlocal]
    refine ⟨_, rfl, iff_of_true ?_ trivial⟩
    simp only [reduceCtorEq, if_false, ownParty_eq_iff hk]
    simp [PublicKeyDictionary.toPublicKeyIndex, eq_comm]
  | timeoutDeferredTransfer nr =>
    refine ⟨[], rfl, ?_⟩
    simp

theorem isInvolved_rich_iff (hcommunity : tx.gradidoTransaction.communityIdIndex = own)
    {l : List PublicKeyIndex} (hl : tx.gradidoTransaction.getBodyAddressIndices env = .ok l)
    (k : ℕ) :
    tx.isInvolved env k = true ↔
      env.dict.toPublicKeyIndex k own ∈ l ∨ tx.SignedBy k ∨ tx.HasBalance k := by
  unfold ConfirmedTransaction.isInvolved ConfirmedTransaction.getInvolvedAddressIndices
  rw [hl, ok_bind, hcommunity]
  simp [pure, Except.pure, PublicKeyDictionary.toPublicKeyIndex, ConfirmedTransaction.SignedBy,
    ConfirmedTransaction.HasBalance]

/-- A key of the chain's community signed both forms or none. -/
theorem isSignaturePublicKey_iff (h : CompactOf env own tx c) (k : ℕ) :
    c.isSignaturePublicKey env (env.dict.toPublicKeyIndex k own) = true ↔ tx.SignedBy k := by
  obtain ⟨-, -, hc, -, -, -, hsigners⟩ := h.fields
  simp [ConfirmedGradidoTx.isSignaturePublicKey, hc, hsigners,
    PublicKeyDictionary.toPublicKeyIndex, ConfirmedTransaction.SignedBy]

theorem isInvolved_compact_iff (h : CompactOf env own tx c) {k : ℕ} (hk : k ≠ 0) :
    c.isInvolved env (env.dict.toPublicKeyIndex k own) = true ↔
      env.dict.toPublicKeyIndex k own ∈ c.bodyAddresses ∨ tx.SignedBy k ∨ tx.HasBalance k := by
  have hempty : (env.dict.toPublicKeyIndex k own).empty = false := by
    simp [PublicKeyDictionary.toPublicKeyIndex, PublicKeyIndex.empty, hk]
  have hbalance : c.isBalanceUpdated (env.dict.toPublicKeyIndex k own) = true ↔
      tx.HasBalance k := h.isBalanceUpdated_iff k
  rw [ConfirmedGradidoTx.isInvolved, hempty, Bool.not_false, Bool.true_and, Bool.or_eq_true,
    Bool.or_eq_true, decide_eq_true_eq, h.isSignaturePublicKey_iff, hbalance, or_assoc,
    or_left_comm, or_comm (a := tx.HasBalance k)]

/-- **The involved keys** agree when the bodies do, or the key has another role. -/
theorem involved_agree_iff (h : CompactOf env own tx c)
    (hcommunity : tx.gradidoTransaction.communityIdIndex = own) (hown : own ≠ 0) {k : ℕ}
    (hk : k ≠ 0) :
    (tx.isInvolved env k = true ↔ c.isInvolved env (env.dict.toPublicKeyIndex k own) = true) ↔
      SameBodyKeys env own tx c k ∨ tx.SignedBy k ∨ tx.HasBalance k := by
  obtain ⟨l, hl, hbody⟩ := h.body_agree_iff hcommunity hown hk
  rw [isInvolved_rich_iff hcommunity hl, h.isInvolved_compact_iff hk, ← hbody]
  by_cases hrole : tx.SignedBy k ∨ tx.HasBalance k
  · simp [hrole]
  · simp [hrole]

/-- A transaction has a balance in a coin in both forms or in none. -/
theorem hasCoinsFromCommunity_iff (h : CompactOf env own tx c) (coin : ℕ) :
    c.hasCoinsFromCommunity coin = true ↔
      ∃ b ∈ tx.accountBalances, b.coinCommunityIdIndex = coin := by
  obtain ⟨-, -, -, -, -, hbalances, -⟩ := h.fields
  simp [ConfirmedGradidoTx.hasCoinsFromCommunity, hbalances, ConfirmedGradidoTx.compactBalances]

end CompactOf

/-! ### Intervals -/

namespace TimepointInterval

/-- A day between two days is in a month between their months. -/
theorem isInsideIntervalMonth_of_inside {i : TimepointInterval} {t : ℤ}
    (h : i.isInsideInterval t = true) :
    i.isInsideIntervalMonth (Calendar.civilFromDays (floorDays t)).month
      (Calendar.civilFromDays (floorDays t)).year = true := by
  simp only [isInsideInterval, Bool.and_eq_true, decide_eq_true_eq] at h
  have hmono : ∀ {p q : ℤ}, p ≤ q →
      ¬ Calendar.civilFromDays (floorDays q) < Calendar.civilFromDays (floorDays p) := by
    intro p q hpq
    rcases lt_or_eq_of_le (floorDays_mono hpq) with hlt | heq
    · have hlex := Calendar.civilFromDays_strictMono hlt
      rw [YearMonthDay.lt_def] at hlex ⊢
      omega
    · rw [heq, YearMonthDay.lt_def]
      omega
  have hstart := hmono h.1
  have hend := hmono h.2
  simp only [isInsideIntervalMonth, Bool.not_eq_true', Bool.or_eq_false_iff,
    decide_eq_false_iff_not]
  rw [YearMonthDay.lt_def] at hstart hend
  omega

/-- The interval of a filter gives the same answer by month and by day: the date that was never
set is in no month, unless the interval starts before all years. -/
def MonthAgrees (i : TimepointInterval) (t : ℤ) : Prop :=
  i.isEmpty = true ∨ t ≠ 0 ∨ i.isInsideInterval 0 = false ∨
    (Calendar.civilFromDays (floorDays i.startDate)).year < 0

instance {i : TimepointInterval} {t : ℤ} : Decidable (i.MonthAgrees t) :=
  inferInstanceAs (Decidable (_ ∨ _))

theorem year_nonneg_of_nonneg {p : ℤ} (h : 0 ≤ p) :
    0 ≤ (Calendar.civilFromDays (floorDays p)).year := by
  have hepoch : Calendar.civilFromDays 0 = ⟨1970, 1, 1⟩ := by decide
  have hdays : 0 ≤ floorDays p := floorDays_mono (p := 0) h
  rcases lt_or_eq_of_le hdays with hlt | heq
  · have hlex := Calendar.civilFromDays_strictMono hlt
    rw [hepoch, YearMonthDay.lt_def] at hlex
    dsimp only at hlex
    omega
  · rw [← heq, hepoch]
    decide

end TimepointInterval

/-- The month and the day of the rich filter against the day of the compact one. -/
theorem interval_agree_iff {f : Filter} {tx : ConfirmedTransaction} :
    (f.matchesTimepointInterval tx = true ↔ f.timepointInterval.isEmpty = true ∨
      f.timepointInterval.isInsideInterval tx.confirmedAt.getAsTimepoint = true) ↔
      f.timepointInterval.MonthAgrees tx.confirmedAt.getAsTimepoint := by
  unfold Filter.matchesTimepointInterval TimepointInterval.MonthAgrees
  generalize f.timepointInterval = i
  generalize tx.confirmedAt.getAsTimepoint = t
  cases hempty : i.isEmpty with
  | true => simp
  | false =>
    simp only [Bool.false_or, Bool.and_eq_true, Bool.false_eq_true, false_or]
    by_cases ht : t = 0
    · subst ht
      cases hinside : i.isInsideInterval 0 with
      | false => simp
      | true =>
        have hzero : timepointAsYearMonthDay 0 = ⟨0, 0, 0⟩ := rfl
        have hbounds := Calendar.civilFromDays_bounds (floorDays i.startDate)
        have hend : 0 ≤ i.endDate := by
          simp only [TimepointInterval.isInsideInterval, Bool.and_eq_true,
            decide_eq_true_eq] at hinside
          exact hinside.2
        have hyear := TimepointInterval.year_nonneg_of_nonneg hend
        simp only [hzero, and_true, iff_true, ne_eq, not_true_eq_false, Bool.true_eq_false,
          false_or, TimepointInterval.isInsideIntervalMonth, Bool.not_eq_true',
          Bool.or_eq_false_iff, decide_eq_false_iff_not]
        omega
    · have hdate : timepointAsYearMonthDay t = Calendar.civilFromDays (floorDays t) := if_neg ht
      rw [hdate]
      refine iff_of_true ⟨fun hand => hand.2, fun hinside => ⟨?_, hinside⟩⟩ (.inl ht)
      exact TimepointInterval.isInsideIntervalMonth_of_inside hinside

/-! ### Main results -/

section Agree

variable {env : Env} {own : ℕ} {getIndexForData : ℕ → ℕ} {f : Filter} {tx : ConfirmedTransaction}
  {c : ConfirmedGradidoTx}

/-- A key is searched for in the compact form: it is not empty, and it and its community have
numbers. -/
def Known (own : ℕ) (getIndexForData : ℕ → ℕ) (k : ℕ) : Prop :=
  k ≠ 0 ∧ getIndexForData k ≠ 0 ∧ own ≠ 0

instance {k : ℕ} : Decidable (Known own getIndexForData k) :=
  inferInstanceAs (Decidable (_ ∧ _))

/-- No balance is searched for in the compact form. -/
def NoBalanceKey (f : Filter) : Prop := f.updatedBalancePublicKey.filter (· ≠ 0) = none

instance : Decidable (NoBalanceKey f) :=
  inferInstanceAs (Decidable (_ = _))

/-- What a filter and a transaction have to respect for the two forms to agree.

* The rich form takes every transaction for one in the own coin, the compact form asks the
  balances.
* The rich form looks at the month first.
* The compact form searches for one key only, and not for a key without number; the bodies have
  to name the key in both forms, unless it has another role. -/
structure Comparable (env : Env) (own : ℕ) (getIndexForData : ℕ → ℕ) (f : Filter)
    (tx : ConfirmedTransaction) (c : ConfirmedGradidoTx) : Prop where
  coin : ∀ coin, f.coinCommunityIdIndex = some coin →
    coin = own ∧ (coin = 0 ∨ ∃ b ∈ tx.accountBalances, b.coinCommunityIdIndex = coin) ∨
      coin ≠ own ∧ coin ≠ 0 ∧ ∀ b ∈ tx.accountBalances, b.coinCommunityIdIndex ≠ coin
  interval : f.timepointInterval.MonthAgrees tx.confirmedAt.getAsTimepoint
  involved : ∀ k, f.involvedPublicKey = some k →
    if NoBalanceKey f ∧ Known own getIndexForData k then
      SameBodyKeys env own tx c k ∨ tx.SignedBy k ∨ tx.HasBalance k
    else tx.isInvolved env k = true
  balance : ∀ k, f.updatedBalancePublicKey = some k →
    Known own getIndexForData k ∨ tx.HasBalance k

/-- The rich and the compact filter use the same transactions, whichever criteria are asked. -/
def FiltersAgree (env : Env) (own : ℕ) (getIndexForData : ℕ → ℕ) (f : Filter)
    (tx : ConfirmedTransaction) (c : ConfirmedGradidoTx) : Prop :=
  ∀ type : FilterCriteria → Bool, f.matchesEntry env own tx type = .USE ↔
    (CompactFilter.ofFilter getIndexForData f own).matchesTx env c type = .USE

/-- The key that the compact form searches for, and how. -/
theorem ofFilter_search (own : ℕ) (getIndexForData : ℕ → ℕ) (f : Filter) :
    (∃ k, f.updatedBalancePublicKey = some k ∧ Known own getIndexForData k ∧
      (CompactFilter.ofFilter getIndexForData f own).publicKeySearchType =
        .balanceChangingPublicKey ∧
      (CompactFilter.ofFilter getIndexForData f own).publicKeyIndex = ⟨own, getIndexForData k⟩) ∨
    (∃ k, NoBalanceKey f ∧ f.involvedPublicKey = some k ∧ Known own getIndexForData k ∧
      (CompactFilter.ofFilter getIndexForData f own).publicKeySearchType = .involvedPublicKey ∧
      (CompactFilter.ofFilter getIndexForData f own).publicKeyIndex = ⟨own, getIndexForData k⟩) ∨
    (∀ k, f.updatedBalancePublicKey = some k → ¬ Known own getIndexForData k) ∧
      (∀ k, NoBalanceKey f → f.involvedPublicKey = some k → ¬ Known own getIndexForData k) ∧
      (CompactFilter.ofFilter getIndexForData f own).publicKeySearchType ≠
        .balanceChangingPublicKey ∧
      (CompactFilter.ofFilter getIndexForData f own).publicKeySearchType ≠ .involvedPublicKey := by
  unfold CompactFilter.ofFilter CompactFilter.searchFor NoBalanceKey Known
  dsimp only
  split
  · next k hk =>
    obtain ⟨hupdated, hne⟩ := Option.filter_eq_some_iff.1 hk
    have hk0 : k ≠ 0 := by simpa using hne
    split_ifs with hindex hcommunity
    · refine .inr (.inr ⟨?_, ?_, by simp, by simp⟩)
      · rintro k' hk' ⟨-, hknown, -⟩
        rw [hupdated, Option.some.injEq] at hk'
        exact hknown (hk' ▸ hindex)
      · intro k' hnone
        rw [hk] at hnone
        simp at hnone
    · refine .inr (.inr ⟨fun k' _ hknown => hknown.2.2 hcommunity, ?_, by simp, by simp⟩)
      exact fun k' _ _ hknown => hknown.2.2 hcommunity
    · exact .inl ⟨k, hupdated, ⟨hk0, hindex, hcommunity⟩, rfl, rfl⟩
  · next k hnone hk =>
    obtain ⟨hinvolved, hne⟩ := Option.filter_eq_some_iff.1 hk
    have hk0 : k ≠ 0 := by simpa using hne
    have hupdated : ∀ k', f.updatedBalancePublicKey = some k' → ¬ k' ≠ 0 := by
      intro k' hk' hne'
      rw [hk'] at hnone
      simp [Option.filter, hne'] at hnone
    split_ifs with hindex hcommunity
    · refine .inr (.inr ⟨fun k' hk' hknown => hupdated k' hk' hknown.1, ?_, by simp, by simp⟩)
      rintro k' - hk' ⟨-, hknown, -⟩
      rw [hinvolved, Option.some.injEq] at hk'
      exact hknown (hk' ▸ hindex)
    · refine .inr (.inr ⟨fun k' _ hknown => hknown.2.2 hcommunity, ?_, by simp, by simp⟩)
      exact fun k' _ _ hknown => hknown.2.2 hcommunity
    · exact .inr (.inl ⟨k, hnone, hinvolved, ⟨hk0, hindex, hcommunity⟩, rfl, rfl⟩)
  · next hnone hnone' =>
    refine .inr (.inr ⟨?_, ?_, by simp, by simp⟩)
    · rintro k' hk' ⟨hne', -⟩
      rw [hk'] at hnone
      simp [Option.filter, hne'] at hnone
    · rintro k' - hk' ⟨hne', -⟩
      rw [hk'] at hnone'
      simp [Option.filter, hne'] at hnone'

theorem coin_agree_iff (h : CompactOf env own tx c) :
    (f.matchesCoinCommunity own tx = true ↔
      (CompactFilter.ofFilter getIndexForData f own).matchesCoinCommunity c = true) ↔
    ∀ coin, f.coinCommunityIdIndex = some coin →
      coin = own ∧ (coin = 0 ∨ ∃ b ∈ tx.accountBalances, b.coinCommunityIdIndex = coin) ∨
        coin ≠ own ∧ coin ≠ 0 ∧ ∀ b ∈ tx.accountBalances, b.coinCommunityIdIndex ≠ coin := by
  obtain ⟨searchType, key, heq⟩ := CompactFilter.ofFilter_eq getIndexForData f own
  unfold Filter.matchesCoinCommunity CompactFilter.matchesCoinCommunity
  rw [heq]
  dsimp only
  cases f.coinCommunityIdIndex with
  | none => simp
  | some coin =>
    simp only [Option.all_some, Filter.getCoinCommunityIdIndex, Option.getD_none,
      decide_eq_true_eq, Option.getD_some, Bool.or_eq_true, h.hasCoinsFromCommunity_iff,
      Option.some.injEq, forall_eq']
    by_cases hown : coin = own
    · simp [hown]
    · simp [hown]

/-- The number that the dictionary has for a known key. -/
theorem Known.toPublicKeyIndex {k : ℕ} (hk : Known own getIndexForData k)
    (hdict : ∀ k, getIndexForData k = env.dict.index own k ∨ getIndexForData k = 0) :
    (⟨own, getIndexForData k⟩ : PublicKeyIndex) = env.dict.toPublicKeyIndex k own := by
  rcases hdict k with hindex | hzero
  · rw [hindex, PublicKeyDictionary.toPublicKeyIndex]
  · exact absurd hzero hk.2.1

theorem involvedKey_agree_iff (h : CompactOf env own tx c)
    (hcommunity : tx.gradidoTransaction.communityIdIndex = own)
    (hdict : ∀ k, getIndexForData k = env.dict.index own k ∨ getIndexForData k = 0) :
    (f.matchesInvolvedPublicKey env tx = true ↔
      (CompactFilter.ofFilter getIndexForData f own).matchesInvolvedPublicKey env c = true) ↔
    ∀ k, f.involvedPublicKey = some k →
      if NoBalanceKey f ∧ Known own getIndexForData k then
        SameBodyKeys env own tx c k ∨ tx.SignedBy k ∨ tx.HasBalance k
      else tx.isInvolved env k = true := by
  have hrich : f.matchesInvolvedPublicKey env tx = true ↔
      ∀ k, f.involvedPublicKey = some k → tx.isInvolved env k = true := by
    simp [Filter.matchesInvolvedPublicKey, Option.all_eq_true]
  -- without a search for the key the compact criterion is met
  have hunsearched : (∀ k, f.involvedPublicKey = some k →
        ¬ (NoBalanceKey f ∧ Known own getIndexForData k)) →
      (CompactFilter.ofFilter getIndexForData f own).publicKeySearchType ≠ .involvedPublicKey →
      ((f.matchesInvolvedPublicKey env tx = true ↔
        (CompactFilter.ofFilter getIndexForData f own).matchesInvolvedPublicKey env c = true) ↔
      ∀ k, f.involvedPublicKey = some k →
        if NoBalanceKey f ∧ Known own getIndexForData k then
          SameBodyKeys env own tx c k ∨ tx.SignedBy k ∨ tx.HasBalance k
        else tx.isInvolved env k = true) := by
    intro hnot hsearch
    have hcompact : (CompactFilter.ofFilter getIndexForData f own).matchesInvolvedPublicKey env c =
        true := by
      simp [CompactFilter.matchesInvolvedPublicKey, hsearch]
    rw [hcompact, iff_true_right rfl, hrich]
    refine forall_congr' fun k => forall_congr' fun hk => ?_
    rw [if_neg (hnot k hk)]
  rcases ofFilter_search own getIndexForData f with
    ⟨k, hupdated, hknown, hsearch, -⟩ | ⟨k, hnone, hinvolved, hknown, hsearch, hkey⟩ |
      ⟨-, hnot, -, hsearch⟩
  · refine hunsearched ?_ (by simp [hsearch])
    rintro k' - ⟨hnone, -⟩
    rw [NoBalanceKey, hupdated] at hnone
    simp [Option.filter, hknown.1] at hnone
  · have hcompact : (CompactFilter.ofFilter getIndexForData f own).matchesInvolvedPublicKey env c =
        c.isInvolved env (env.dict.toPublicKeyIndex k own) := by
      simp [CompactFilter.matchesInvolvedPublicKey, hsearch, hkey, hknown.toPublicKeyIndex hdict]
    rw [hcompact, hrich, hinvolved]
    simp only [Option.some.injEq, forall_eq', hnone, hknown, and_self, if_true]
    exact h.involved_agree_iff hcommunity hknown.2.2 hknown.1
  · exact hunsearched (fun k hk hand => hnot k hand.1 hk hand.2) hsearch

theorem balanceKey_agree_iff (h : CompactOf env own tx c)
    (hdict : ∀ k, getIndexForData k = env.dict.index own k ∨ getIndexForData k = 0) :
    (f.matchesUpdatedBalancePublicKey tx = true ↔
      (CompactFilter.ofFilter getIndexForData f own).matchesUpdatedBalancePublicKey c = true) ↔
    ∀ k, f.updatedBalancePublicKey = some k → Known own getIndexForData k ∨ tx.HasBalance k := by
  have hrich : f.matchesUpdatedBalancePublicKey tx = true ↔
      ∀ k, f.updatedBalancePublicKey = some k → tx.HasBalance k := by
    simp [Filter.matchesUpdatedBalancePublicKey, Option.all_eq_true,
      ConfirmedTransaction.isBalanceUpdated_eq_true]
  have hunsearched : (∀ k, f.updatedBalancePublicKey = some k → ¬ Known own getIndexForData k) →
      (CompactFilter.ofFilter getIndexForData f own).publicKeySearchType ≠
        .balanceChangingPublicKey →
      ((f.matchesUpdatedBalancePublicKey tx = true ↔
        (CompactFilter.ofFilter getIndexForData f own).matchesUpdatedBalancePublicKey c = true) ↔
      ∀ k, f.updatedBalancePublicKey = some k →
        Known own getIndexForData k ∨ tx.HasBalance k) := by
    intro hnot hsearch
    have hcompact : (CompactFilter.ofFilter getIndexForData f own).matchesUpdatedBalancePublicKey
        c = true := by
      simp [CompactFilter.matchesUpdatedBalancePublicKey, hsearch]
    rw [hcompact, iff_true_right rfl, hrich]
    refine forall_congr' fun k => forall_congr' fun hk => ?_
    rw [or_iff_right (hnot k hk)]
  rcases ofFilter_search own getIndexForData f with
    ⟨k, hupdated, hknown, hsearch, hkey⟩ | ⟨k, hnone, hinvolved, hknown, hsearch, -⟩ |
      ⟨hnot, -, hsearch, -⟩
  · have hcompact : (CompactFilter.ofFilter getIndexForData f own).matchesUpdatedBalancePublicKey
        c = c.isBalanceUpdated (env.dict.toPublicKeyIndex k own) := by
      simp [CompactFilter.matchesUpdatedBalancePublicKey, hsearch, hkey,
        hknown.toPublicKeyIndex hdict]
    have hbalance : c.isBalanceUpdated (env.dict.toPublicKeyIndex k own) = true ↔
        tx.HasBalance k := h.isBalanceUpdated_iff k
    rw [hcompact, hrich, hupdated, hbalance]
    simp [hknown]
  · refine hunsearched ?_ (by simp [hsearch])
    rintro k' hk' ⟨hne, -⟩
    rw [NoBalanceKey, hk'] at hnone
    simp [Option.filter, hne] at hnone
  · exact hunsearched hnot hsearch

/-- **Rich and compact filters agree** on a transaction exactly when the two are comparable.  The
dictionary says the number of a key, or zero for a key that it does not know. -/
theorem filtersAgree_iff (h : CompactOf env own tx c)
    (hcommunity : tx.gradidoTransaction.communityIdIndex = own)
    (hdict : ∀ k, getIndexForData k = env.dict.index own k ∨ getIndexForData k = 0)
    (hfunction : f.filterFunction = none) :
    FiltersAgree env own getIndexForData f tx c ↔ Comparable env own getIndexForData f tx c := by
  obtain ⟨searchType, key, heq⟩ := CompactFilter.ofFilter_eq getIndexForData f own
  obtain ⟨hnr, hat, -, -, htype, -⟩ := h.fields
  have hnrs : f.matchesTransactionNr tx =
      (CompactFilter.ofFilter getIndexForData f own).matchesTransactionNr c := by
    rw [heq, Filter.matchesTransactionNr, CompactFilter.matchesTransactionNr, hnr]
  have htypes : f.matchesTransactionType tx =
      (CompactFilter.ofFilter getIndexForData f own).matchesTransactionType c := by
    rw [heq, Filter.matchesTransactionType, CompactFilter.matchesTransactionType, htype]
  have hinterval : (CompactFilter.ofFilter getIndexForData f own).matchesTimepointInterval c =
      true ↔ f.timepointInterval.isEmpty = true ∨
        f.timepointInterval.isInsideInterval tx.confirmedAt.getAsTimepoint = true := by
    rw [heq, CompactFilter.matchesTimepointInterval, hat, Bool.or_eq_true]
  have hcoin := @coin_agree_iff env own getIndexForData f tx c h
  have hinvolved := @involvedKey_agree_iff env own getIndexForData f tx c h hcommunity hdict
  have hbalance := @balanceKey_agree_iff env own getIndexForData f tx c h hdict
  have hmonth := @interval_agree_iff f tx
  rw [← hinterval] at hmonth
  unfold FiltersAgree
  simp only [Filter.matchesEntry_eq_USE hfunction, CompactFilter.matchesTx_eq_USE]
  constructor
  · -- one criterion at a time
    intro hagree
    refine ⟨hcoin.1 ?_, hmonth.1 ?_, hinvolved.1 ?_, hbalance.1 ?_⟩
    · simpa using hagree (fun x => decide (x = .coinCommunity))
    · simpa using hagree (fun x => decide (x = .timepointInterval))
    · simpa using hagree (fun x => decide (x = .involvedPublicKey))
    · simpa using hagree (fun x => decide (x = .updatedBalancedPublicKey))
  · intro hcomparable type
    rw [hnrs, htypes, hcoin.2 hcomparable.coin, hmonth.2 hcomparable.interval,
      hinvolved.2 hcomparable.involved, hbalance.2 hcomparable.balance]

end Agree

namespace Sample

/-- Account `11` sends account `21` a hundred cents of coins of a community. -/
def coinTransfer (coin : ℕ) : ConfirmedTransaction where
  id := 4
  gradidoTransaction := transaction 0 (signedByKey 11) [memo]
    (.transfer ⟨⟨11, 100, coin⟩, 21⟩)
  confirmedAt := ⟨midnight + 43200, 0⟩
  runningHash := []
  ledgerAnchor := .legacyGradidoDb .transaction 4
  accountBalances := [⟨11, 0, coin⟩, ⟨21, 100, coin⟩]
  balanceDerivationType := .nodeComputed

/-- A search for coins of community two finds the transfer in its compact form only. -/
theorem coinTransfer_not_filtersAgree :
    ∃ c, CompactOf env 1 (coinTransfer 2) c ∧
      ¬ FiltersAgree env 1 (fun k => k) { coinCommunityIdIndex := some 2 } (coinTransfer 2) c := by
  refine ⟨_, ⟨fun _ => none, rfl⟩, ?_⟩
  intro h
  exact absurd ((h (fun _ => true)).2 (by decide)) (by decide)

/-- A search for the own coins and the recipient finds a transfer of own coins in both forms. -/
theorem coinTransfer_filtersAgree :
    ∃ c, CompactOf env 1 (coinTransfer 1) c ∧
      FiltersAgree env 1 (fun k => k) { coinCommunityIdIndex := some 1
                                        involvedPublicKey := some 21 } (coinTransfer 1) c := by
  refine ⟨_, ⟨fun _ => none, rfl⟩, ?_⟩
  refine (filtersAgree_iff ⟨fun _ => none, rfl⟩ rfl (fun k => .inl rfl) rfl).2 ⟨?_, ?_, ?_, ?_⟩
  · intro coin hcoin
    obtain rfl : coin = 1 := by simpa using hcoin.symm
    exact .inl (by decide)
  · decide
  · intro k hk
    obtain rfl : k = 21 := by simpa using hk.symm
    rw [if_pos (by decide)]
    exact .inr (.inr (by decide))
  · intro k hk
    simp at hk

end Sample

end Gradido
