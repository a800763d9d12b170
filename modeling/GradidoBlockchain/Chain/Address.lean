import GradidoBlockchain.Chain.Balance

/-!
# Addresses

The types of addresses, as the log gives them: a community root types its two
accounts, a registration its keys, and a deferred transfer its recipient.  For
an indexed chain `getAddressType` returns exactly these types, so the account
checks of the validation say which keys a transaction can name.
-/

namespace Gradido

open Checked ConfirmTransaction TransactionsIndex

/-- A transaction was made for the community of its chain, and comes from another one only as a
transfer. -/
structure Regular (own : ℕ) (tx : ConfirmedTransaction) : Prop where
  community : tx.gradidoTransaction.communityIdIndex = own
  inbound : tx.body.type = .inbound → tx.body.transactionType = .transfer

instance {own : ℕ} {tx : ConfirmedTransaction} : Decidable (Regular own tx) :=
  decidable_of_iff (tx.gradidoTransaction.communityIdIndex = own ∧
    (tx.body.type = .inbound → tx.body.transactionType = .transfer))
    ⟨fun h => ⟨h.1, h.2⟩, fun h => ⟨h.1, h.2⟩⟩

/-- A regular transaction that is not a transfer is not inbound. -/
theorem Regular.type_ne_inbound {own : ℕ} {tx : ConfirmedTransaction} (h : Regular own tx)
    (htype : tx.body.transactionType ≠ .transfer) : tx.body.type ≠ .inbound := by
  intro hinbound
  exact htype (h.inbound hinbound)

/-- The log gives a key a type. -/
def HasType (env : Env) (own : ℕ) (h : List ConfirmedTransaction) (publicKey : ℕ)
    (t : AddressType) : Prop :=
  ∃ tx ∈ h, (env.dict.index own publicKey, t) ∈ tx.typedAddresses env own

theorem HasType.mono {env : Env} {own : ℕ} {h h' : List ConfirmedTransaction} {publicKey : ℕ}
    {t : AddressType} (ht : HasType env own h publicKey t) (hsub : h ⊆ h') :
    HasType env own h' publicKey t := by
  obtain ⟨tx, htx, hin⟩ := ht
  exact ⟨tx, hsub htx, hin⟩

/-! ### Typed keys are involved -/

/-- The keys that a transaction gives a type. -/
def ConfirmedTransaction.typed (tx : ConfirmedTransaction) : List (ℕ × AddressType) :=
  match tx.body.specific with
  | .communityRoot r => [(r.aufPublicKey, .communityAuf), (r.gmwPublicKey, .communityGmw)]
  | .registerAddress r => [(r.userPublicKey, r.addressType), (r.accountPublicKey, r.addressType)]
  | .deferredTransfer d => [(d.transfer.recipient, .deferredTransfer)]
  | _ => []

namespace Regular

variable {env : Env} {own : ℕ} {tx : ConfirmedTransaction}

/-- The numbers that a regular transaction types are those of its keys in its own community. -/
theorem typedAddresses_eq (h : Regular own tx) {communities : ℕ × ℕ}
    (hcommunities : ConfirmedGradidoTx.communities own tx.body = .ok communities) :
    tx.typedAddresses env own = tx.typed.map (fun x => (env.dict.index own x.1, x.2)) := by
  obtain ⟨sender, recipient⟩ := communities
  have hsender : tx.body.transactionType ≠ .transfer → sender = own := by
    intro htype
    have hinbound := mt h.inbound htype
    unfold ConfirmedGradidoTx.communities at hcommunities
    split at hcommunities <;> simp_all
  unfold ConfirmedTransaction.typedAddresses ConfirmedTransaction.typed
  rw [hcommunities]
  unfold TransactionBody.transactionType at hsender
  cases hbody : tx.body.specific with
  | communityRoot r => simp [hsender (by simp [hbody])]
  | registerAddress r => simp [hsender (by simp [hbody])]
  | deferredTransfer d => simp
  | none => rfl
  | creation _ => rfl
  | transfer _ => rfl
  | redeemDeferredTransfer _ => rfl
  | timeoutDeferredTransfer _ => rfl
  | communityFriendsUpdate _ => rfl

theorem mem_typed (h : Regular own tx) {publicKey : ℕ} {t : AddressType}
    (ht : (env.dict.index own publicKey, t) ∈ tx.typedAddresses env own) :
    (publicKey, t) ∈ tx.typed := by
  cases hcommunities : ConfirmedGradidoTx.communities own tx.body with
  | error e => simp [ConfirmedTransaction.typedAddresses, hcommunities] at ht
  | ok communities =>
    rw [h.typedAddresses_eq hcommunities, List.mem_map] at ht
    obtain ⟨⟨k, t'⟩, hin, heq⟩ := ht
    simp only [Prod.mk.injEq, PublicKeyDictionary.index_inj] at heq
    rwa [heq.1, heq.2] at hin

/-- A regular transaction names the keys that it types. -/
theorem isInvolved (h : Regular own tx) {pre : List ConfirmedTransaction}
    (hindexable : Indexable env own pre tx) {publicKey : ℕ} {t : AddressType}
    (ht : (env.dict.index own publicKey, t) ∈ tx.typedAddresses env own) :
    tx.isInvolved env publicKey = true := by
  have hcommunity := h.community
  have htyped := h.mem_typed ht
  have hinvolved : ∀ addresses,
      tx.gradidoTransaction.getBodyAddressIndices env = .ok addresses →
      env.dict.toPublicKeyIndex publicKey own ∈ addresses →
      tx.isInvolved env publicKey = true := by
    intro addresses haddresses hin
    unfold ConfirmedTransaction.isInvolved ConfirmedTransaction.getInvolvedAddressIndices
    rw [haddresses, ok_bind, hcommunity]
    simp [pure, Except.pure, hin]
  unfold ConfirmedTransaction.typed at htyped
  split at htyped
  · next r hbody =>
    have hbody' : tx.gradidoTransaction.body.specific = .communityRoot r := hbody
    simp only [List.mem_cons, Prod.mk.injEq, List.not_mem_nil, or_false] at htyped
    refine hinvolved _ (by rw [GradidoTransaction.getBodyAddressIndices, hbody']) ?_
    rcases htyped with ⟨rfl, -⟩ | ⟨rfl, -⟩ <;> simp [hcommunity]
  · next r hbody =>
    have hbody' : tx.gradidoTransaction.body.specific = .registerAddress r := hbody
    simp only [List.mem_cons, Prod.mk.injEq, List.not_mem_nil, or_false] at htyped
    refine hinvolved _ (by rw [GradidoTransaction.getBodyAddressIndices, hbody']) ?_
    rcases htyped with ⟨rfl, -⟩ | ⟨rfl, -⟩ <;> simp [hcommunity]
  · next d hbody =>
    have hbody' : tx.gradidoTransaction.body.specific = .deferredTransfer d := hbody
    have hlocal : tx.gradidoTransaction.body.type = .localGroup := (hindexable.deferred d hbody).1
    have haddresses : tx.gradidoTransaction.getBodyAddressIndices env =
        .ok [env.dict.toPublicKeyIndex d.transfer.sender.publicKey own,
          env.dict.toPublicKeyIndex d.transfer.recipient own] := by
      rw [GradidoTransaction.getBodyAddressIndices, hbody']
      simp only [GradidoTransaction.fillFromGradidoTransfer, hlocal, hcommunity]
    simp only [List.mem_singleton, Prod.mk.injEq] at htyped
    refine hinvolved _ haddresses ?_
    simp [htyped.1]
  · simp at htyped

end Regular

/-! ### Looking a type up -/

theorem mem_of_foldl_max {l : List ℕ} (hne : l ≠ []) : l.foldl max 0 ∈ l := by
  induction l using List.reverseRecOn with
  | nil => exact absurd rfl hne
  | append_singleton l a ih =>
    rw [List.foldl_append, List.foldl_cons, List.foldl_nil]
    rcases Nat.le_total (l.foldl max 0) a with hle | hle
    · rw [Nat.max_eq_right hle]
      simp
    · rw [Nat.max_eq_left hle]
      by_cases hl : l = []
      · subst hl
        rw [List.foldl_nil] at hle ⊢
        have ha : a = 0 := Nat.le_zero.1 hle
        simp [ha]
      · exact List.mem_append_left _ (ih hl)

theorem le_foldl_max {l : List ℕ} {a : ℕ} (h : a ∈ l) : a ≤ l.foldl max 0 := by
  induction l using List.reverseRecOn with
  | nil => simp at h
  | append_singleton l b ih =>
    rw [List.foldl_append, List.foldl_cons, List.foldl_nil]
    rcases List.mem_append.1 h with hl | hb
    · exact (ih hl).trans (Nat.le_max_left _ _)
    · rw [List.mem_singleton.1 hb]
      exact Nat.le_max_right _ _

namespace IndexedBy

variable {env : Env} {own : ℕ} {s : InMemory} {cs : List ConfirmedGradidoTx}

/-- The address index knows the types that the log gives. -/
theorem hasType_iff (h : IndexedBy env own s cs) {publicKey : ℕ} {t : AddressType} :
    HasType env own s.history publicKey t ↔
      ∃ data, s.mTransactionsIndex.mAddressIndex.mIndexTransactionNrs
        (env.dict.index own publicKey) = some data ∧ data.addressType = t := by
  rw [h.index.types.type]
  constructor
  · rintro ⟨tx, htx, hin⟩
    obtain ⟨c, hc, hcompact⟩ := h.exists_compact htx
    exact ⟨c, hc, by rw [hcompact.typedAddresses_eq]; exact hin⟩
  · rintro ⟨c, hc, hin⟩
    obtain ⟨tx, htx, hcompact⟩ := h.exists_rich hc
    exact ⟨tx, htx, by rw [← hcompact.typedAddresses_eq]; exact hin⟩

/-- In an indexed chain the types of the log are those that its transactions give. -/
theorem hasType_iff_typed (h : IndexedBy env own s cs)
    (hregular : ∀ tx ∈ s.history, Regular own tx) {tx : ConfirmedTransaction}
    (htx : tx ∈ s.history) {publicKey : ℕ} {t : AddressType} :
    (env.dict.index own publicKey, t) ∈ tx.typedAddresses env own ↔ (publicKey, t) ∈ tx.typed := by
  refine ⟨(hregular tx htx).mem_typed, ?_⟩
  intro htyped
  obtain ⟨c, -, hcompact⟩ := h.exists_compact htx
  obtain ⟨-, sender, recipient, hcommunities, -⟩ := hcompact.content
  rw [(hregular tx htx).typedAddresses_eq hcommunities]
  exact List.mem_map.2 ⟨_, htyped, rfl⟩

/-- The latest transaction that types a key. -/
theorem getAddressType_of_hasType (h : IndexedBy env own s cs) {publicKey : ℕ} {t : AddressType}
    (ht : HasType env own s.history publicKey t) (hnone : t ≠ .none) :
    ∃ tx ∈ s.history, (env.dict.index own publicKey, t) ∈ tx.typedAddresses env own ∧
      s.mTransactionsIndex.getAddressType (env.dict.index own publicKey) = (tx.id, t) ∧
      ∀ tx' ∈ s.history, ∀ t', (env.dict.index own publicKey, t') ∈ tx'.typedAddresses env own →
        tx'.id ≤ tx.id := by
  obtain ⟨data, hdata, rfl⟩ := h.hasType_iff.1 ht
  have hnrs := h.index.types.nrs _ data hdata
  have hne : data.transactionNrs ≠ [] := by
    obtain ⟨tx, htx, hin⟩ := ht
    obtain ⟨c, hc, hcompact⟩ := h.exists_compact htx
    have hmem := (hnrs c.txNr).2 ⟨c, hc, rfl, _, by rw [hcompact.typedAddresses_eq]; exact hin⟩
    exact List.ne_nil_of_mem hmem
  obtain ⟨c, hc, hnr, t', ht'⟩ := (hnrs _).1 (mem_of_foldl_max hne)
  obtain ⟨tx, htx, hcompact⟩ := h.exists_rich hc
  rw [hcompact.typedAddresses_eq] at ht'
  -- all transactions give the key the same type
  have hsame : data.addressType = t' := by
    obtain ⟨data', hdata', rfl⟩ := h.hasType_iff.1 ⟨tx, htx, ht'⟩
    rw [hdata, Option.some.injEq] at hdata'
    rw [hdata']
  have hid : tx.id = data.transactionNrs.foldl max 0 := by
    rw [← hnr, hcompact.fields.1]
  refine ⟨tx, htx, hsame ▸ ht', ?_, ?_⟩
  · rw [TransactionsIndex.getAddressType, hdata]
    simp only [if_neg hnone, hid]
  · intro tx' htx' t'' hin
    obtain ⟨c', hc', hcompact'⟩ := h.exists_compact htx'
    rw [hid, ← hcompact'.fields.1]
    exact le_foldl_max ((hnrs _).2
      ⟨c', hc', rfl, t'', by rw [hcompact'.typedAddresses_eq]; exact hin⟩)

/-- A key without type. -/
theorem getAddressType_of_untyped (h : IndexedBy env own s cs) {publicKey : ℕ}
    (hnone : ¬ ∃ t, t ≠ .none ∧ HasType env own s.history publicKey t) :
    s.mTransactionsIndex.getAddressType (env.dict.index own publicKey) = (0, .none) := by
  unfold TransactionsIndex.getAddressType
  split
  · rfl
  · next data hdata =>
    rw [if_pos]
    by_contra hdataType
    exact hnone ⟨_, hdataType, h.hasType_iff.2 ⟨data, hdata, rfl⟩⟩

end IndexedBy

section Lookup

variable {env : Env} {own : ℕ} {s : InMemory}

/-- A key has one type. -/
theorem Indexed.hasType_unique (h : Indexed env own s) {publicKey : ℕ} {t t' : AddressType}
    (ht : HasType env own s.history publicKey t) (ht' : HasType env own s.history publicKey t') :
    t = t' := by
  obtain ⟨cs, hcs⟩ := h
  obtain ⟨data, hdata, rfl⟩ := hcs.hasType_iff.1 ht
  obtain ⟨data', hdata', rfl⟩ := hcs.hasType_iff.1 ht'
  rw [hdata, Option.some.injEq] at hdata'
  rw [hdata']

/-- The filters of the account checks: no bound excludes a transaction of the chain. -/
structure AccountFilter (s : InMemory) (f : Filter) : Prop where
  minNr : f.minTransactionNr = 0
  maxNr : f.maxTransactionNr = 0 ∨ s.history.length ≤ f.maxTransactionNr
  type : f.transactionType = .none
  interval : f.timepointInterval = .unset
  balance : f.updatedBalancePublicKey = none
  function : f.filterFunction = none

/-- **The type of a key** is the one that the log gives it. -/
theorem getAddressType_eq (h : Indexed env own s) (hs : s.Represents own s.history)
    (hlog : IndexableLog env own s.history) (hregular : ∀ tx ∈ s.history, Regular own tx)
    {f : Filter} (hf : AccountFilter s f) {publicKey : ℕ} (hkey : publicKey ≠ 0)
    {t : AddressType} (ht : HasType env own s.history publicKey t) (hnone : t ≠ .none) :
    s.getAddressType env { f with involvedPublicKey := some publicKey } = .ok t := by
  obtain ⟨cs, hcs⟩ := h
  obtain ⟨tx, htx, htyped, hfound, -⟩ := hcs.getAddressType_of_hasType ht hnone
  have hid := hs.id_le_length htx
  obtain ⟨k, hk⟩ := List.getElem?_of_mem htx
  have hinvolved := (hregular tx htx).isInvolved (hlog.getElem? hk) htyped
  have hmatch : ({ f with involvedPublicKey := some publicKey } : Filter).matchesAll env tx =
      .USE := by
    have hmax : ¬ (f.maxTransactionNr ≠ 0 ∧ f.maxTransactionNr < tx.id) := by
      have hmaxNr := hf.maxNr
      omega
    simp [Filter.matchesAll, Filter.matchesTransactionNr, Filter.matchesTimepointInterval,
      Filter.applyFilterFunction, hf.minNr, hmax, hf.type, hf.interval, hf.balance, hf.function,
      hinvolved, TimepointInterval.isEmpty, TimepointInterval.unset]
  unfold InMemory.getAddressType
  simp only [Option.getD_some, hkey, decide_false, throwIf_false, ok_bind, hs.community, hfound,
    if_neg (show ¬ tx.id = 0 by omega), hs.byNr_id htx, orThrow]
  rw [if_pos (by rw [hmatch]; rfl)]
  rfl

/-- **What `getAddressType` returns**, the log has given. -/
theorem hasType_of_getAddressType (h : Indexed env own s) (hs : s.Represents own s.history)
    (hlog : IndexableLog env own s.history) (hregular : ∀ tx ∈ s.history, Regular own tx)
    {f : Filter} (hf : AccountFilter s f) {publicKey : ℕ} {t : AddressType}
    (ht : s.getAddressType env { f with involvedPublicKey := some publicKey } = .ok t)
    (hnone : t ≠ .none) : publicKey ≠ 0 ∧ HasType env own s.history publicKey t := by
  have hkey : publicKey ≠ 0 := by
    rintro rfl
    simp [InMemory.getAddressType] at ht
  refine ⟨hkey, ?_⟩
  by_cases hknown : ∃ t', t' ≠ .none ∧ HasType env own s.history publicKey t'
  · obtain ⟨t', hnone', ht'⟩ := hknown
    rw [getAddressType_eq h hs hlog hregular hf hkey ht' hnone', Except.ok.injEq] at ht
    rwa [ht] at ht'
  · -- the index knows no type and says so
    obtain ⟨cs, hcs⟩ := h
    have hfound := hcs.getAddressType_of_untyped hknown
    unfold InMemory.getAddressType at ht
    simp only [Option.getD_some, hkey, decide_false, throwIf_false, ok_bind, hs.community, hfound,
      if_true, pure_eq_ok] at ht
    exact absurd ht.symm hnone

end Lookup

end Gradido
