import GradidoBlockchain.Chain.Address
import GradidoBlockchain.Chain.Find

/-!
# Address types, looked up and searched for

`InMemory::getAddressType` takes the type of a key from the address index, and
asks the filter about the last transaction that gave it.  `getAddressTypeSlow`,
its uncached version, searches the last registration and the last deferred
transfer that involve the key.  But a key is also involved by signing, so a key
that signed the registration of another one gets the type of the other one.
-/

namespace Gradido

open Checked ConfirmTransaction TransactionsIndex

namespace Filter

/-- The bounds and the days of a filter take a transaction in. -/
def Covers (f : Filter) (tx : ConfirmedTransaction) : Prop :=
  f.matchesTransactionNr tx = true ∧ OnDays f.timepointInterval tx.date

instance {f : Filter} {tx : ConfirmedTransaction} : Decidable (f.Covers tx) :=
  inferInstanceAs (Decidable (_ ∧ _))

/-- The search for the last registration in `getAddressTypeSlow`. -/
def lastRegistration (f : Filter) : Filter :=
  { f with
    transactionType := .registerAddress
    pagination := ⟨1, f.pagination.page⟩
    searchDirection := .desc }

/-- The search for the last deferred transfer to a key in `getAddressTypeSlow`. -/
def lastDeferredTransferTo (f : Filter) (publicKey : ℕ) : Filter :=
  { f.lastRegistration with
    transactionType := .deferredTransfer
    filterFunction := some (fun entry =>
      if entry.body.getDeferredTransfer.any (fun d => decide (d.transfer.recipient = publicKey))
      then .USE else .DISMISS) }

end Filter

/-- A transaction gives a key a type. -/
def ConfirmedTransaction.Types (tx : ConfirmedTransaction) (publicKey : ℕ) : Prop :=
  ∃ x ∈ tx.typed, x.1 = publicKey

instance {tx : ConfirmedTransaction} {publicKey : ℕ} : Decidable (tx.Types publicKey) :=
  inferInstanceAs (Decidable (∃ x ∈ _, _))

/-- What a filter and a log have to respect for both types of a key to be the same.

* The filter asks for the first page, and for nothing but numbers, dates, types and the key.
* The index records the key for the registrations and deferred transfers that involve it.
* Such a registration registers the key: it did not only sign it.
* After a deferred transfer to the key, such a deferred transfer pays into it. -/
structure TypeSearchable (env : Env) (h : List ConfirmedTransaction) (f : Filter)
    (publicKey : ℕ) : Prop where
  page : f.pagination.page ≤ 1
  coin : f.coinCommunityIdIndex = none
  balanceKey : f.updatedBalancePublicKey = none
  function : f.filterFunction = none
  reaches : Reaches (firstDay h) f.timepointInterval
  recorded : ∀ tx ∈ h, f.Covers tx → tx.isInvolved env publicKey = true →
    tx.body.transactionType = .registerAddress ∨ tx.body.transactionType = .deferredTransfer →
    tx.SignedBy publicKey ∨ tx.HasBalance publicKey
  registered : ∀ tx ∈ h, f.Covers tx → tx.isInvolved env publicKey = true →
    tx.body.transactionType = .registerAddress → tx.Types publicKey
  paid : ∀ tx ∈ h, f.Covers tx → tx.isInvolved env publicKey = true →
    tx.body.transactionType = .deferredTransfer → ∀ tx' ∈ h, tx'.id < tx.id →
    tx'.body.transactionType = .deferredTransfer → tx'.Types publicKey → tx.Types publicKey

/-- The part of it that the searches themselves need: the key is recorded for the transactions that
they look for. -/
structure KeySearchable (env : Env) (h : List ConfirmedTransaction) (f : Filter)
    (publicKey : ℕ) : Prop where
  page : f.pagination.page ≤ 1
  coin : f.coinCommunityIdIndex = none
  balanceKey : f.updatedBalancePublicKey = none
  reaches : Reaches (firstDay h) f.timepointInterval
  recorded : ∀ tx ∈ h, f.Covers tx → tx.isInvolved env publicKey = true →
    tx.body.transactionType = .registerAddress ∨ tx.body.transactionType = .deferredTransfer →
    tx.SignedBy publicKey ∨ tx.HasBalance publicKey

theorem TypeSearchable.keySearchable {env : Env} {h : List ConfirmedTransaction} {f : Filter}
    {publicKey : ℕ} (hf : TypeSearchable env h f publicKey) : KeySearchable env h f publicKey :=
  ⟨hf.page, hf.coin, hf.balanceKey, hf.reaches, hf.recorded⟩

/-! ### Searching for one transaction -/

section FindOne

variable {env : Env} {own : ℕ} {s : InMemory} {cs : List ConfirmedGradidoTx} {f : Filter}

/-- A search for one transaction asks the filter function about the first candidate only. -/
theorem IndexedBy.findOne_eq (h : IndexedBy env own s cs) (hs : s.Represents own s.history)
    (horder : InOrder cs) (hf : Searchable env own (env.dict.index own) s.history f)
    (hsize : f.pagination.size = 1) (hpage : f.pagination.page ≤ 1) :
    s.findOne env f = .ok (((searched f.searchDirection s.history).filter
      (f.candidate env)).head?.filter (fun tx => (f.matchesFound tx).use)) := by
  obtain ⟨searchType, key, heq⟩ := CompactFilter.ofFilter_eq (env.dict.index own) f own
  have hfound : s.mTransactionsIndex.findTransactions (.ofFilter (env.dict.index own) f own) =
      s.mTransactionsIndex.findPage (.ofFilter (env.dict.index own) f own) 1
        f.pagination.page := by
    have hpagination : (CompactFilter.ofFilter (env.dict.index own) f own).pagination =
        ⟨1, f.pagination.page⟩ := by
      rw [heq, ← hsize]
    rw [findPage, ← hpagination]
  have hzero : f.pagination.page - 1 = 0 := by omega
  have hcut : ∀ n, CutRight n 1 f.pagination.page := by
    intro n
    simp [CutRight, hzero]
  have hstored : ∀ tx ∈ (searched f.searchDirection s.history).filter (f.candidate env),
      s.mTransactionsByNr tx.id = some tx := by
    intro tx htx
    rw [List.mem_filter, mem_searched] at htx
    exact hs.byNr_id htx.1
  unfold InMemory.findOne InMemory.findAll InMemory.findAllWith
  rw [hs.community, hfound, findPage_eq_block _ _ le_rfl (hcut _),
    h.findTransactions_eq hs horder (fun k => .inl rfl) hf]
  generalize (searched f.searchDirection s.history).filter (f.candidate env) = candidates at *
  cases candidates with
  | nil => simp [block, InMemory.collect, InMemory.exactlyOne]
  | cons tx txs =>
    have hblock : block ((tx :: txs).map ConfirmedTransaction.id) 1 f.pagination.page =
        [tx].map ConfirmedTransaction.id := by
      simp [block, hzero]
    rw [hblock, InMemory.collect_eq (fun t ht => hstored t (List.mem_cons.2 (.inl
      (List.mem_singleton.1 ht)))) (.inr (by simp [hsize])), List.head?_cons]
    cases huse : (f.matchesFound tx).use <;> simp [takeAccepted, huse, InMemory.exactlyOne,
      Option.filter]

/-- The first transaction of the chain. -/
theorem IndexedBy.findOne_first (h : IndexedBy env own s cs) (hs : s.Represents own s.history)
    (horder : InOrder cs) :
    s.findOne env .FIRST_TRANSACTION = .ok s.history.head? := by
  have hf : Searchable env own (env.dict.index own) s.history .FIRST_TRANSACTION := by
    refine ⟨.inl rfl, .inl rfl, ?_, ?_, .inl rfl⟩
    · rintro k (hk | hk) <;> simp [Filter.FIRST_TRANSACTION] at hk
    · intro k hk
      simp [Filter.FIRST_TRANSACTION] at hk
  have hall : ∀ tx, Filter.FIRST_TRANSACTION.candidate env tx = true := by
    intro tx
    simp [Filter.candidate, Filter.meetsOthers, Filter.matchesTransactionNr,
      Filter.matchesTransactionType, Filter.matchesInvolvedPublicKey,
      Filter.matchesUpdatedBalancePublicKey, Filter.FIRST_TRANSACTION, OnDays,
      TimepointInterval.isEmpty, TimepointInterval.unset]
  rw [h.findOne_eq hs horder hf rfl (Nat.zero_le 1), List.filter_eq_self.2 (fun tx _ => hall tx)]
  have huse : ∀ tx, (Filter.FIRST_TRANSACTION.matchesFound tx).use = true := fun tx => rfl
  change Except.ok (s.history.head?.filter _) = _
  cases s.history.head? with
  | none => rfl
  | some tx => simp [Option.filter, huse]

/-- The last transaction of a kind is the one with the largest number. -/
theorem InMemory.Represents.head?_filter_reverse (hs : s.Represents own s.history)
    {p : ConfirmedTransaction → Bool} {tx : ConfirmedTransaction} (htx : tx ∈ s.history)
    (hp : p tx = true) (hmax : ∀ tx' ∈ s.history, p tx' = true → tx'.id ≤ tx.id) :
    ((searched .desc s.history).filter p).head? = some tx := by
  have hpairwise : ((searched .desc s.history).filter p).Pairwise (fun a b => b.id < a.id) :=
    (List.pairwise_reverse.2 hs.numbered).filter p
  have hmem : ∀ t, t ∈ (searched .desc s.history).filter p ↔ t ∈ s.history ∧ p t = true := by
    intro t
    rw [List.mem_filter, mem_searched]
  cases hlist : (searched .desc s.history).filter p with
  | nil =>
    rw [hlist] at hmem
    exact absurd ((hmem tx).2 ⟨htx, hp⟩) List.not_mem_nil
  | cons t ts =>
    rw [hlist] at hmem hpairwise
    obtain ⟨ht, hpt⟩ := (hmem t).1 List.mem_cons_self
    have hle := hmax t ht hpt
    rcases List.mem_cons.1 ((hmem tx).2 ⟨htx, hp⟩) with rfl | hin
    · rfl
    · have hlt := List.rel_of_pairwise_cons hpairwise hin
      omega

end FindOne

/-! ### The search -/

section Slow

variable {env : Env} {own : ℕ} {s : InMemory} {cs : List ConfirmedGradidoTx} {f : Filter}
  {publicKey : ℕ}

/-- Keys are found in a log that records them. -/
theorem KeySearchable.searchable {h : List ConfirmedTransaction}
    (hf : KeySearchable env h f publicKey) (hown : own ≠ 0) (hkey : publicKey ≠ 0)
    (hinvolved : f.involvedPublicKey = some publicKey) (hregular : ∀ tx ∈ h, Regular own tx)
    {f' : Filter}
    (hsame : f' = { f with
      transactionType := f'.transactionType
      pagination := f'.pagination
      searchDirection := f'.searchDirection
      filterFunction := f'.filterFunction })
    (htype : f'.transactionType = .registerAddress ∨ f'.transactionType = .deferredTransfer) :
    Searchable env own (env.dict.index own) h f' where
  coin := by
    rw [hsame]
    exact .inl hf.coin
  oneKey := by
    rw [hsame]
    exact .inr hf.balanceKey
  known := by
    rw [hsame]
    rintro k (hk | hk)
    · rw [hinvolved, Option.some.injEq] at hk
      rw [← hk]
      exact ⟨hkey, mt env.dict.index_eq_zero.1 hkey, hown⟩
    · rw [hf.balanceKey] at hk
      simp at hk
  recorded := by
    intro k hk tx htx hothers
    have hkeys : publicKey = k := by
      rw [hsame, hinvolved, Option.some.injEq] at hk
      exact hk
    subst hkeys
    simp only [Filter.meetsOthers, Bool.and_eq_true, decide_eq_true_eq] at hothers
    obtain ⟨⟨hnr, htypes⟩, hdays⟩ := hothers
    have htypeOf : tx.body.transactionType = f'.transactionType := by
      simp only [Filter.matchesTransactionType, Bool.or_eq_true, decide_eq_true_eq] at htypes
      rcases htypes with hnone | heq
      · rcases htype with hregister | hdeferred
        · simp [hnone] at hregister
        · simp [hnone] at hdeferred
      · exact heq
    have hcovers : f.Covers tx := by
      rw [hsame] at hnr hdays
      exact ⟨hnr, hdays⟩
    refine ⟨(hregular tx htx).community, ?_, ?_⟩
    · intro htimeout
      rw [← htypeOf, htimeout] at htype
      simp at htype
    · intro hnamed
      rcases hf.recorded tx htx hcovers hnamed (htypeOf ▸ htype) with hsigned | hbalance
      · exact .inl hsigned
      · exact .inr (.inl hbalance)
  reaches := by
    rw [hsame]
    exact hf.reaches

/-- What is found for a filter with page size one. -/
def found (env : Env) (f : Filter) (h : List ConfirmedTransaction) : Option ConfirmedTransaction :=
  ((searched .desc h).filter (f.candidate env)).head?.filter (fun tx => (f.matchesFound tx).use)

/-- `getAddressTypeSlow` in a chain that begins with a community root. -/
theorem IndexedBy.getAddressTypeSlow_eq (h : IndexedBy env own s cs)
    (hs : s.Represents own s.history) (horder : InOrder cs)
    (hregular : ∀ tx ∈ s.history, Regular own tx) (hown : own ≠ 0) (hkey : publicKey ≠ 0)
    (hinvolved : f.involvedPublicKey = some publicKey)
    (hf : KeySearchable env s.history f publicKey) {first : ConfirmedTransaction}
    (hfirst : s.history.head? = some first) {root : CommunityRoot}
    (hroot : first.body.specific = .communityRoot root) :
    s.getAddressTypeSlow env f publicKey =
      if root.aufPublicKey = publicKey then .ok .communityAuf
      else if root.gmwPublicKey = publicKey then .ok .communityGmw
      else
        match found env f.lastRegistration s.history with
        | some entry =>
          (orThrow entry.body.getRegisterAddress (.nullDereference "register address")).map
            RegisterAddress.addressType
        | none =>
          match found env (f.lastDeferredTransferTo publicKey) s.history with
          | some _ => .ok .deferredTransfer
          | none => .ok .none := by
  have hcommunity := (hregular first (List.mem_of_head? hfirst)).community
  have hregister : s.findOne env f.lastRegistration =
      .ok (found env f.lastRegistration s.history) :=
    h.findOne_eq hs horder (hf.searchable hown hkey hinvolved hregular rfl (.inl rfl)) rfl hf.page
  have hdeferred : s.findOne env (f.lastDeferredTransferTo publicKey) =
      .ok (found env (f.lastDeferredTransferTo publicKey) s.history) :=
    h.findOne_eq hs horder (hf.searchable hown hkey hinvolved hregular rfl (.inr rfl)) rfl hf.page
  unfold InMemory.getAddressTypeSlow
  rw [h.findOne_first hs horder, hfirst, ok_bind]
  dsimp only
  rw [TransactionBody.getCommunityRoot_eq_some.2 hroot, hs.community, hcommunity]
  simp only [orThrow, ok_bind, PublicKeyDictionary.index_inj]
  change (if _ then _ else if _ then _ else (s.findOne env f.lastRegistration >>= _)) = _
  rw [hregister, ok_bind]
  congr 2
  cases found env f.lastRegistration s.history with
  | some entry =>
    dsimp only
    cases entry.body.getRegisterAddress <;> rfl
  | none =>
    dsimp only
    change (s.findOne env (f.lastDeferredTransferTo publicKey) >>= _) = _
    rw [hdeferred, ok_bind]
    cases found env (f.lastDeferredTransferTo publicKey) s.history <;> rfl

theorem mem_of_found {h : List ConfirmedTransaction} {tx : ConfirmedTransaction}
    (hfound : found env f h = some tx) :
    tx ∈ h ∧ f.candidate env tx = true ∧ (f.matchesFound tx).use = true := by
  obtain ⟨hhead, huse⟩ := Option.filter_eq_some_iff.1 hfound
  have hmem := List.mem_of_head? hhead
  rw [List.mem_filter, mem_searched] at hmem
  exact ⟨hmem.1, hmem.2, huse⟩

/-- The candidates of the two searches. -/
theorem KeySearchable.candidate_iff {h : List ConfirmedTransaction}
    (hf : KeySearchable env h f publicKey) (hinvolved : f.involvedPublicKey = some publicKey)
    {f' : Filter}
    (hsame : f' = { f with
      transactionType := f'.transactionType
      pagination := f'.pagination
      searchDirection := f'.searchDirection
      filterFunction := f'.filterFunction })
    (htype : f'.transactionType ≠ .none) (tx : ConfirmedTransaction) :
    f'.candidate env tx = true ↔ f.Covers tx ∧ tx.body.transactionType = f'.transactionType ∧
      tx.isInvolved env publicKey = true := by
  have hkeys : f'.involvedPublicKey = some publicKey ∧ f'.updatedBalancePublicKey = none := by
    rw [hsame]
    exact ⟨hinvolved, hf.balanceKey⟩
  have hcovers : (f'.matchesTransactionNr tx = true ∧ OnDays f'.timepointInterval tx.date) ↔
      f.Covers tx := by
    rw [hsame]
    rfl
  rw [← hcovers]
  simp only [Filter.candidate, Filter.meetsOthers, Filter.matchesTransactionType,
    Filter.matchesInvolvedPublicKey, Filter.matchesUpdatedBalancePublicKey, hkeys, htype,
    decide_false, Bool.false_or, Bool.and_eq_true, decide_eq_true_eq, Option.all_some,
    Option.all_none, and_true]
  constructor
  · rintro ⟨⟨⟨hnr, heq⟩, hdays⟩, hin⟩
    exact ⟨⟨hnr, hdays⟩, heq, hin⟩
  · rintro ⟨⟨hnr, hdays⟩, heq, hin⟩
    exact ⟨⟨⟨hnr, heq⟩, hdays⟩, hin⟩

/-- A transaction that all criteria match is covered, involves the key and is inside the
interval. -/
theorem KeySearchable.of_matchesAll {h : List ConfirmedTransaction}
    (hf : KeySearchable env h f publicKey) (hinvolved : f.involvedPublicKey = some publicKey)
    {tx : ConfirmedTransaction} (hpos : 0 < tx.confirmedAt.getAsTimepoint)
    (hmatch : (f.matchesAll env tx).use = true) :
    f.Covers tx ∧ tx.isInvolved env publicKey = true ∧ f.matchesTimepointInterval tx = true := by
  unfold Filter.matchesAll at hmatch
  rw [hinvolved, hf.balanceKey] at hmatch
  split_ifs at hmatch with hnr htype hinterval hnot
  · simp [FilterResult.DISMISS] at hmatch
  · simp [FilterResult.DISMISS] at hmatch
  · simp [FilterResult.DISMISS] at hmatch
  · simp [FilterResult.DISMISS] at hmatch
  · simp [FilterResult.DISMISS] at hmatch
  · simp only [Bool.not_eq_true', Bool.not_eq_false] at hnr hinterval
    refine ⟨⟨hnr, onDays_of_matchesTimepointInterval hpos hinterval⟩, ?_, hinterval⟩
    simpa using hnot

/-- The last transaction that types a key is found by the search for its kind. -/
theorem KeySearchable.found_eq_some (hs : s.Represents own s.history)
    (hf : KeySearchable env s.history f publicKey)
    (hinvolved : f.involvedPublicKey = some publicKey) {f' : Filter}
    (hsame : f' = { f with
      transactionType := f'.transactionType
      pagination := f'.pagination
      searchDirection := f'.searchDirection
      filterFunction := f'.filterFunction })
    (htype : f'.transactionType ≠ .none) {tx : ConfirmedTransaction} (htx : tx ∈ s.history)
    (hcovers : f.Covers tx) (htypeOf : tx.body.transactionType = f'.transactionType)
    (hin : tx.isInvolved env publicKey = true)
    (hmax : ∀ tx' ∈ s.history, f.Covers tx' → tx'.isInvolved env publicKey = true →
      tx'.body.transactionType = f'.transactionType → tx'.id ≤ tx.id)
    (huse : (f'.matchesFound tx).use = true) : found env f' s.history = some tx := by
  have hcandidate := fun tx => hf.candidate_iff hinvolved hsame htype tx
  refine Option.filter_eq_some_iff.2 ⟨?_, huse⟩
  refine hs.head?_filter_reverse htx ((hcandidate tx).2 ⟨hcovers, htypeOf, hin⟩) ?_
  intro tx' htx' hcand
  obtain ⟨hcovers', htype', hin'⟩ := (hcandidate tx').1 hcand
  exact hmax tx' htx' hcovers' hin' htype'

end Slow

/-! ### Main results -/

section Types

variable {env : Env} {own : ℕ} {s : InMemory} {cs : List ConfirmedGradidoTx} {f : Filter}
  {publicKey : ℕ}

/-- A registration gives its type to the keys that it types. -/
theorem mem_typed_of_types {tx : ConfirmedTransaction} {r : RegisterAddress}
    (hspecific : tx.body.specific = .registerAddress r) (htypes : tx.Types publicKey) :
    (publicKey, r.addressType) ∈ tx.typed := by
  obtain ⟨⟨k, t⟩, hin, rfl⟩ := htypes
  have hin' := hin
  simp only [ConfirmedTransaction.typed, hspecific, List.mem_cons, Prod.mk.injEq,
    List.not_mem_nil, or_false] at hin'
  rcases hin' with ⟨-, ht⟩ | ⟨-, ht⟩ <;> rwa [← ht]

/-- The types that the community root gives. -/
theorem mem_typed_root {tx : ConfirmedTransaction} {root : CommunityRoot}
    (hspecific : tx.body.specific = .communityRoot root) {t : AddressType} :
    (publicKey, t) ∈ tx.typed ↔ root.aufPublicKey = publicKey ∧ t = .communityAuf ∨
      root.gmwPublicKey = publicKey ∧ t = .communityGmw := by
  simp [ConfirmedTransaction.typed, hspecific, eq_comm]

/-- A key is typed by the root, by a registration or by a deferred transfer. -/
theorem typed_cases {tx : ConfirmedTransaction} {t : AddressType}
    (ht : (publicKey, t) ∈ tx.typed) : tx.body.transactionType = .communityRoot ∨
      tx.body.transactionType = .registerAddress ∨
      ∃ d, tx.body.specific = .deferredTransfer d ∧ d.transfer.recipient = publicKey ∧
        t = .deferredTransfer := by
  unfold ConfirmedTransaction.typed at ht
  unfold TransactionBody.transactionType
  split at ht
  · next r hspecific => exact .inl (by rw [hspecific])
  · next r hspecific => exact .inr (.inl (by rw [hspecific]))
  · next d hspecific =>
    simp only [List.mem_singleton, Prod.mk.injEq] at ht
    exact .inr (.inr ⟨d, hspecific, ht.1.symm, ht.2⟩)
  · simp at ht

/-- A deferred transfer that is found pays into the key. -/
theorem mem_typed_of_found_deferred {h : List ConfirmedTransaction} {tx : ConfirmedTransaction}
    (hfound : found env (f.lastDeferredTransferTo publicKey) h = some tx) :
    (publicKey, AddressType.deferredTransfer) ∈ tx.typed := by
  obtain ⟨-, -, huse⟩ := mem_of_found hfound
  have hrecipient : tx.body.getDeferredTransfer.any
      (fun d => decide (d.transfer.recipient = publicKey)) = true := by
    rw [Filter.matchesFound] at huse
    by_contra hnot
    have hdismissed : (f.lastDeferredTransferTo publicKey).applyFilterFunction tx = .DISMISS :=
      if_neg hnot
    rw [hdismissed, ite_self] at huse
    simp [FilterResult.DISMISS] at huse
  obtain ⟨d, hd, heq⟩ := (Option.any_eq_true _ _).1 hrecipient
  rw [decide_eq_true_eq] at heq
  simp [ConfirmedTransaction.typed, TransactionBody.getDeferredTransfer_eq_some.1 hd, heq]

/-- The last transaction that types a key is found when the filter matches it. -/
theorem TypeSearchable.found_last (hs : s.Represents own s.history) (hdated : Dated s.history)
    (hinvolved : f.involvedPublicKey = some publicKey)
    (hf : TypeSearchable env s.history f publicKey) {last : ConfirmedTransaction}
    (hlast : last ∈ s.history) {t : AddressType} (htyped : (publicKey, t) ∈ last.typed)
    (hroot : last.body.transactionType ≠ .communityRoot)
    (hmax : ∀ tx ∈ s.history, tx.Types publicKey → tx.id ≤ last.id)
    (hmatch : (f.matchesAll env last).use = true) :
    found env f.lastRegistration s.history = some last ∨
      found env (f.lastDeferredTransferTo publicKey) s.history = some last ∧
        t = .deferredTransfer := by
  obtain ⟨hcovers, hin, hinterval⟩ :=
    hf.keySearchable.of_matchesAll hinvolved (hdated last hlast).2 hmatch
  rcases typed_cases htyped with hrootType | hregister | ⟨d, hd, hrecipient, rfl⟩
  · exact absurd hrootType hroot
  · refine .inl (hf.keySearchable.found_eq_some hs hinvolved rfl
      (by simp [Filter.lastRegistration]) hlast hcovers hregister hin ?_ ?_)
    · intro tx htx hcovers' hin' htype
      exact hmax tx htx (hf.registered tx htx hcovers' hin' htype)
    · have hinterval' : f.lastRegistration.matchesTimepointInterval last = true := hinterval
      rw [Filter.matchesFound, if_pos hinterval']
      simp [Filter.applyFilterFunction, Filter.lastRegistration, hf.function, FilterResult.USE]
  · have htype : last.body.transactionType = .deferredTransfer := by
      simp [TransactionBody.transactionType, hd]
    refine .inr ⟨hf.keySearchable.found_eq_some hs hinvolved rfl
      (by simp [Filter.lastDeferredTransferTo]) hlast hcovers htype hin ?_ ?_, rfl⟩
    · intro tx htx hcovers' hin' htype'
      by_contra hlater
      have hpaid := hf.paid tx htx hcovers' hin' htype' last hlast (by omega) htype
        ⟨_, htyped, rfl⟩
      exact hlater (hmax tx htx hpaid)
    · have hinterval' : (f.lastDeferredTransferTo publicKey).matchesTimepointInterval last =
          true := hinterval
      rw [Filter.matchesFound, if_pos hinterval']
      simp [Filter.applyFilterFunction, Filter.lastDeferredTransferTo,
        TransactionBody.getDeferredTransfer, hd, hrecipient, FilterResult.USE]

/-- **What the search returns**: the type that the log gives a key, when the filter matches the
last transaction that does, and none for a key without type. -/
theorem TypeSearchable.getAddressTypeSlow_eq_type (h : IndexedBy env own s cs)
    (hs : s.Represents own s.history) (horder : InOrder cs) (hchained : Chained env s.history)
    (hdated : Dated s.history) (hregular : ∀ tx ∈ s.history, Regular own tx) (hown : own ≠ 0)
    (hkey : publicKey ≠ 0) (hinvolved : f.involvedPublicKey = some publicKey)
    (hf : TypeSearchable env s.history f publicKey) {t : AddressType}
    (hunique : ∀ tx ∈ s.history, ∀ t', (publicKey, t') ∈ tx.typed → t' = t)
    (hlast : t = .none ∨ ∃ last ∈ s.history, (publicKey, t) ∈ last.typed ∧
      (∀ tx ∈ s.history, tx.Types publicKey → tx.id ≤ last.id) ∧
      (f.matchesAll env last).use = true) :
    s.getAddressTypeSlow env f publicKey = .ok t := by
  cases hfirst : s.history.head? with
  | none =>
    have hempty : s.history = [] := List.head?_eq_none_iff.1 hfirst
    have hnone : t = .none := by
      rcases hlast with hnone | ⟨last, hin, -⟩
      · exact hnone
      · simp [hempty] at hin
    unfold InMemory.getAddressTypeSlow
    rw [h.findOne_first hs horder, hfirst, ok_bind, hnone]
    rfl
  | some first =>
    have hmem := List.mem_of_head? hfirst
    obtain ⟨root, hroot⟩ := hchained.exists_root hfirst
    rw [h.getAddressTypeSlow_eq hs horder hregular hown hkey hinvolved hf.keySearchable hfirst
      hroot]
    by_cases hauf : root.aufPublicKey = publicKey
    · rw [if_pos hauf, ← hunique first hmem _ ((mem_typed_root hroot).2 (.inl ⟨hauf, rfl⟩))]
    rw [if_neg hauf]
    by_cases hgmw : root.gmwPublicKey = publicKey
    · rw [if_pos hgmw, ← hunique first hmem _ ((mem_typed_root hroot).2 (.inr ⟨hgmw, rfl⟩))]
    rw [if_neg hgmw]
    cases hregistration : found env f.lastRegistration s.history with
    | some entry =>
      -- a registration that is found registers the key
      obtain ⟨hentry, hcandidate, -⟩ := mem_of_found hregistration
      obtain ⟨hcovers, htype, hin⟩ := (hf.keySearchable.candidate_iff hinvolved rfl (by simp
        [Filter.lastRegistration]) entry).1 hcandidate
      obtain ⟨r, hr⟩ := TransactionBody.exists_registerAddress htype
      have htyped := mem_typed_of_types hr (hf.registered entry hentry hcovers hin htype)
      dsimp only
      rw [TransactionBody.getRegisterAddress, hr, ← hunique entry hentry _ htyped]
      rfl
    | none =>
      dsimp only
      rcases hlast with rfl | ⟨last, hlast, htyped, hmax, hmatch⟩
      · cases hdeferred : found env (f.lastDeferredTransferTo publicKey) s.history with
        | none => rfl
        | some entry =>
          have htyped := mem_typed_of_found_deferred hdeferred
          simpa using hunique entry (mem_of_found hdeferred).1 _ htyped
      · -- the first transaction is the only root, and does not type the key
        have hnot : last.body.transactionType ≠ .communityRoot := by
          intro htype
          rw [hchained.eq_first hfirst hlast htype, mem_typed_root hroot] at htyped
          simp [hauf, hgmw] at htyped
        rcases hf.found_last hs hdated hinvolved hlast htyped hnot hmax hmatch with
          hfound | ⟨hfound, rfl⟩
        · simp [hregistration] at hfound
        · rw [hfound]

/-- **Looked up and searched for**, the type of a key is the same. -/
theorem IndexedBy.getAddressType_eq_getAddressTypeSlow (h : IndexedBy env own s cs)
    (hs : s.Represents own s.history) (horder : InOrder cs) (hchained : Chained env s.history)
    (hdated : Dated s.history) (hregular : ∀ tx ∈ s.history, Regular own tx) (hown : own ≠ 0)
    (hkey : publicKey ≠ 0) (hinvolved : f.involvedPublicKey = some publicKey)
    (hf : TypeSearchable env s.history f publicKey) :
    s.getAddressType env f = s.getAddressTypeSlow env f publicKey := by
  have hslow := fun t => hf.getAddressTypeSlow_eq_type h hs horder hchained hdated hregular hown
    hkey hinvolved (t := t)
  have htypes : ∀ tx ∈ s.history, ∀ t, (publicKey, t) ∈ tx.typed →
      HasType env own s.history publicKey t :=
    fun tx htx t ht => ⟨tx, htx, (h.hasType_iff_typed hregular htx).2 ht⟩
  unfold InMemory.getAddressType
  simp only [hinvolved, Option.getD_some, hkey, decide_false, throwIf_false, ok_bind, hs.community]
  by_cases hknown : ∃ t, t ≠ .none ∧ HasType env own s.history publicKey t
  · obtain ⟨t, hnone, ht⟩ := hknown
    obtain ⟨last, hlast, htyped, hfound, hmax⟩ := h.getAddressType_of_hasType ht hnone
    have hid := hs.id_le_length hlast
    simp only [hfound, if_neg (show ¬ last.id = 0 by omega), hs.byNr_id hlast, orThrow, ok_bind]
    split_ifs with hmatch
    · refine (hslow t ?_ (.inr ⟨last, hlast, (hregular last hlast).mem_typed htyped, ?_,
        hmatch⟩)).symm
      · intro tx htx t' ht'
        exact Indexed.hasType_unique ⟨cs, h⟩ (htypes tx htx t' ht') ht
      · rintro tx htx ⟨⟨k, t'⟩, hin, rfl⟩
        exact hmax tx htx t' ((h.hasType_iff_typed hregular htx).2 hin)
    · rfl
  · have hfound := h.getAddressType_of_untyped hknown
    simp only [hfound, if_true]
    refine (hslow .none ?_ (.inl rfl)).symm
    intro tx htx t ht
    by_contra hnone
    exact hknown ⟨t, hnone, htypes tx htx t ht⟩

end Types

/-- **Address types.**  In every chain that a run leads to, whose transactions are within the limits
of the index, properly dated and made for its community, the type of a key is the same for the
address index and for the search, whenever the filter and the log allow the search. -/
theorem runAdd_getAddressType (env : Env) (calls : List AddCall) {community : ℕ}
    (hcommunity : community ≠ 0)
    (hlog : IndexableLog env community ((runAdd env calls).findBlockchain community).history)
    (hdated : Dated ((runAdd env calls).findBlockchain community).history)
    (hregular : ∀ tx ∈ ((runAdd env calls).findBlockchain community).history,
      Regular community tx)
    {f : Filter} {publicKey : ℕ} (hkey : publicKey ≠ 0)
    (hinvolved : f.involvedPublicKey = some publicKey)
    (hf : TypeSearchable env ((runAdd env calls).findBlockchain community).history f publicKey) :
    ((runAdd env calls).findBlockchain community).getAddressType env f =
      ((runAdd env calls).findBlockchain community).getAddressTypeSlow env f publicKey := by
  have hreach := reachable_runAdd env calls
  have hchained := hreach.logged.chained community
  obtain ⟨cs, hcs⟩ := hreach.indexed community hlog
  exact hcs.getAddressType_eq_getAddressTypeSlow (hreach.logged.represents community)
    (hcs.inOrder hchained hdated) hchained hdated hregular hcommunity hkey hinvolved hf

namespace Sample

/-- The key of the community root signs every registration, so the search takes it for the key of
the last one that was registered. -/
theorem rootKey_getAddressType_ne :
    ¬ ((runAdd env (setup.map .node)).findBlockchain 1).getAddressType env
        { involvedPublicKey := some 1 } =
      ((runAdd env (setup.map .node)).findBlockchain 1).getAddressTypeSlow env
        { involvedPublicKey := some 1 } 1 := by
  decide +kernel

/-- The deferred transfer of account `11` does not hide its registration. -/
theorem account_getAddressType :
    ((runAdd env mixedCalls).findBlockchain 1).getAddressType env
        { involvedPublicKey := some 11, maxTransactionNr := 4 } =
      ((runAdd env mixedCalls).findBlockchain 1).getAddressTypeSlow env
        { involvedPublicKey := some 11, maxTransactionNr := 4 } 11 ∧
    ((runAdd env mixedCalls).findBlockchain 1).getAddressType env
        { involvedPublicKey := some 11, maxTransactionNr := 4 } = .ok .communityHuman := by
  refine ⟨runAdd_getAddressType env mixedCalls (by decide) (by decide +kernel) (by decide +kernel)
    (by decide +kernel) (by decide) rfl ?_, by decide +kernel⟩
  exact ⟨by decide, rfl, rfl, rfl, .inl rfl, by decide +kernel, by decide +kernel,
    by decide +kernel⟩

end Sample

end Gradido
