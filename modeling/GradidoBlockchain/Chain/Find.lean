import GradidoBlockchain.Index.Found
import GradidoBlockchain.Chain.Balance
import GradidoBlockchain.Chain.Filters
import Mathlib.Data.List.Sort

/-!
# Searching a blockchain

`InMemory::findAll` asks the index for a page of candidates, and asks the exact
interval and the filter function about that page afterwards.  `requested` is
what the caller of a search can expect: the requested page of the transactions
that meet every criterion, in search direction, up to the first one at which the
filter function stops.  `runAdd_findAll` says when he gets it.
-/

namespace Gradido

open Checked ConfirmTransaction

/-! ### Accepted transactions -/

/-- The transactions that a predicate uses, up to the first one at which it stops. -/
def takeAccepted {α : Type} (m : α → FilterResult) : List α → List α
  | [] => []
  | a :: l => (if (m a).use then [a] else []) ++ (if (m a).stop then [] else takeAccepted m l)

/-- Dismissed elements do not matter. -/
theorem takeAccepted_filter {α : Type} {m : α → FilterResult} {p : α → Bool} {l : List α}
    (h : ∀ a ∈ l, p a = false → m a = .DISMISS) :
    takeAccepted m (l.filter p) = takeAccepted m l := by
  induction l with
  | nil => rfl
  | cons a l ih =>
    have ih' := ih (fun b hb => h b (List.mem_cons_of_mem a hb))
    cases hp : p a with
    | true => rw [List.filter_cons_of_pos hp, takeAccepted, takeAccepted, ih']
    | false =>
      rw [List.filter_cons_of_neg (by simp [hp]), ih', takeAccepted, h a List.mem_cons_self hp]
      simp [FilterResult.DISMISS]

theorem takeAccepted_congr {α : Type} {m m' : α → FilterResult} {l : List α}
    (h : ∀ a ∈ l, m a = m' a) : takeAccepted m l = takeAccepted m' l := by
  induction l with
  | nil => rfl
  | cons a l ih =>
    rw [takeAccepted, takeAccepted, h a List.mem_cons_self,
      ih (fun b hb => h b (List.mem_cons_of_mem a hb))]

/-- When everything is used and nothing stops, the whole list is accepted. -/
theorem takeAccepted_all {α : Type} {m : α → FilterResult} {l : List α}
    (h : ∀ a ∈ l, m a = .USE) : takeAccepted m l = l := by
  induction l with
  | nil => rfl
  | cons a l ih =>
    rw [takeAccepted, h a List.mem_cons_self, ih (fun b hb => h b (List.mem_cons_of_mem a hb))]
    simp [FilterResult.USE]

/-- A log in search direction. -/
def searched {α : Type} (direction : SearchDirection) (l : List α) : List α :=
  match direction with
  | .asc => l
  | .desc => l.reverse

@[simp] theorem mem_searched {α : Type} {direction : SearchDirection} {l : List α} {a : α} :
    a ∈ searched direction l ↔ a ∈ l := by
  cases direction <;> simp [searched]

namespace Filter

/-- What the caller of a search can expect of a log. -/
def requested (env : Env) (own : ℕ) (f : Filter) (h : List ConfirmedTransaction) :
    List ConfirmedTransaction :=
  let all := takeAccepted (fun tx => f.matchesEntry env own tx (fun _ => true))
    (searched f.searchDirection h)
  if f.pagination.size = 0 then all
  else TransactionsIndex.block all f.pagination.size f.pagination.page

/-- The number, the type and the days of the interval. -/
def meetsOthers (f : Filter) (tx : ConfirmedTransaction) : Bool :=
  f.matchesTransactionNr tx && f.matchesTransactionType tx &&
    decide (TransactionsIndex.OnDays f.timepointInterval tx.date)

/-- What the index decides: the keys, the number, the type and the days of the interval. -/
def candidate (env : Env) (f : Filter) (tx : ConfirmedTransaction) : Bool :=
  f.meetsOthers tx && f.matchesInvolvedPublicKey env tx && f.matchesUpdatedBalancePublicKey tx

end Filter

/-! ### The loop over the candidates -/

/-- The loop of `findAll` accepts candidates as long as there is room for them. -/
theorem InMemory.collect_eq {s : InMemory} {f : Filter} {txs acc : List ConfirmedTransaction}
    (hstored : ∀ tx ∈ txs, s.mTransactionsByNr tx.id = some tx)
    (hroom : f.pagination.size = 0 ∨ acc.length + txs.length ≤ f.pagination.size) :
    s.collect f (txs.map ConfirmedTransaction.id) acc =
      .ok (acc ++ takeAccepted f.matchesFound txs) := by
  induction txs generalizing acc with
  | nil => simp [collect, takeAccepted]
  | cons tx txs ih =>
    have hcapacity : f.pagination.hasCapacityLeft acc.length = true := by
      rw [List.length_cons] at hroom
      simp only [Pagination.hasCapacityLeft, Bool.or_eq_true, decide_eq_true_eq]
      omega
    have hrest : ∀ acc', acc'.length ≤ acc.length + 1 →
        s.collect f (txs.map ConfirmedTransaction.id) acc' =
          .ok (acc' ++ takeAccepted f.matchesFound txs) := by
      intro acc' hlength
      refine ih (fun t ht => hstored t (List.mem_cons_of_mem tx ht)) ?_
      rw [List.length_cons] at hroom
      omega
    rw [List.map_cons, collect, hcapacity, Bool.not_true, if_neg (by simp),
      hstored tx List.mem_cons_self, takeAccepted]
    dsimp only
    cases huse : (f.matchesFound tx).use <;> cases hstop : (f.matchesFound tx).stop
    · simpa using hrest acc (by omega)
    · simp
    · simpa using hrest (acc ++ [tx]) (by simp)
    · simp

/-! ### Keys that the index records -/

/-- A transaction is found by a key that it involves: the index keeps signers, balances and the key
of a root, but not a key that only the body names. -/
structure RecordsKey (env : Env) (own : ℕ) (k : ℕ) (tx : ConfirmedTransaction) : Prop where
  community : tx.gradidoTransaction.communityIdIndex = own
  timeout : tx.body.transactionType = .timeoutDeferredTransfer → tx.body.type = .localGroup
  named : tx.isInvolved env k = true → tx.SignedBy k ∨ tx.HasBalance k ∨
    tx.body.type = .localGroup ∧ tx.body.getCommunityRoot.any (fun r => r.publicKey = k) = true

instance {env : Env} {own k : ℕ} {tx : ConfirmedTransaction} :
    Decidable (RecordsKey env own k tx) :=
  decidable_of_iff (tx.gradidoTransaction.communityIdIndex = own ∧
    (tx.body.transactionType = .timeoutDeferredTransfer → tx.body.type = .localGroup) ∧
    (tx.isInvolved env k = true → tx.SignedBy k ∨ tx.HasBalance k ∨
      tx.body.type = .localGroup ∧ tx.body.getCommunityRoot.any (fun r => r.publicKey = k) = true))
    ⟨fun h => ⟨h.1, h.2.1, h.2.2⟩, fun h => ⟨h.1, h.2, h.3⟩⟩

namespace CompactOf

open TransactionsIndex

variable {env : Env} {own : ℕ} {tx : ConfirmedTransaction} {c : ConfirmedGradidoTx}

/-- The partner of a transfer is named by its rich form. -/
theorem mem_transfer_of_isOtherInvolved (h : CompactOf env own tx c)
    (hcommunity : tx.gradidoTransaction.communityIdIndex = own) (hown : own ≠ 0)
    {transfer : GradidoTransfer} {sender recipient : ℕ} {amount : ℤ}
    (hcases : Parties own tx.body sender recipient)
    (hspecific : c.specific = .transfer amount
      (env.dict.index sender transfer.sender.publicKey)
      (env.dict.index recipient transfer.recipient)) {k : ℕ} (hk : k ≠ 0)
    (hother : env.dict.toPublicKeyIndex k own ∈ c.getOtherInvolved) {l : List PublicKeyIndex}
    (hl : tx.gradidoTransaction.fillFromGradidoTransfer env transfer = .ok l) :
    env.dict.toPublicKeyIndex k own ∈ l := by
  obtain ⟨-, -, hc, htype, -⟩ := h.fields
  have hbody : tx.gradidoTransaction.body = tx.body := rfl
  unfold GradidoTransaction.fillFromGradidoTransfer at hl
  rw [hbody, hcommunity] at hl
  unfold ConfirmedGradidoTx.getOtherInvolved ConfirmedGradidoTx.getSender
    ConfirmedGradidoTx.getRecipient at hother
  rw [htype, hspecific] at hother
  rcases hcases with ⟨hlocal, rfl, rfl⟩ | ⟨other, hsome, ⟨hout, rfl, rfl⟩ | ⟨hin, rfl, rfl⟩⟩
  · simp [hlocal] at hother
  · simp only [hout, hsome, Except.ok.injEq] at hl
    simp only [hout, if_true, List.mem_singleton] at hother
    obtain ⟨rfl, hsame, -⟩ := (h.foreignParty_eq_iff hsome hown hk).1 hother.symm
    rw [hsome, Option.some.injEq] at hsame
    rw [← hl, hsame]
    simp
  · simp only [hin, hsome, Except.ok.injEq] at hl
    simp only [hin, if_true, List.mem_singleton] at hother
    obtain ⟨rfl, hsame, -⟩ := (h.foreignParty_eq_iff hsome hown hk).1 hother.symm
    rw [hsome, Option.some.injEq] at hsame
    rw [← hl, hsame]
    simp

/-- What has neither a sender nor a recipient only names the key of a local root. -/
theorem root_of_mem_getOtherInvolved (h : CompactOf env own tx c) (hown : own ≠ 0) {k : ℕ}
    (hsender : c.getSender = ⟨0, 0⟩) (hrecipient : c.getRecipient = ⟨0, 0⟩)
    (hother : env.dict.toPublicKeyIndex k own ∈ c.getOtherInvolved) :
    tx.body.type = .localGroup ∧ ∃ root gmw auf, c.specific = .communityRoot root gmw auf ∧
      env.dict.index own k = root := by
  obtain ⟨-, -, hc, htype, -⟩ := h.fields
  obtain ⟨_, _, _, -, hcases⟩ := h.communities_cases
  have hzero : env.dict.toPublicKeyIndex k own ≠ ⟨0, 0⟩ := by
    simp [PublicKeyDictionary.toPublicKeyIndex, hown]
  unfold ConfirmedGradidoTx.getOtherInvolved at hother
  rw [hsender, hrecipient, htype, hc] at hother
  rcases hcases with ⟨hlocal, -⟩ | ⟨-, -, ⟨hout, -⟩ | ⟨hin, -⟩⟩
  · rw [hlocal] at hother
    dsimp only at hother
    split at hother
    · next root gmw auf hspecific =>
      exact ⟨hlocal, root, gmw, auf, hspecific,
        (PublicKeyIndex.mk.inj (List.mem_singleton.1 hother)).2⟩
    · simp at hother
  · rw [hout] at hother
    exact absurd (List.mem_singleton.1 hother) hzero
  · rw [hin] at hother
    exact absurd (List.mem_singleton.1 hother) hzero

/-- The partner of a cross-community transaction and the key of a root are named by the rich
form. -/
theorem mem_body_of_isOtherInvolved (h : CompactOf env own tx c)
    (hcommunity : tx.gradidoTransaction.communityIdIndex = own) (hown : own ≠ 0) {k : ℕ}
    (hk : k ≠ 0)
    (htimeout : tx.body.transactionType = .timeoutDeferredTransfer → tx.body.type = .localGroup)
    (hother : c.isOtherInvolved (env.dict.toPublicKeyIndex k own) = true)
    {l : List PublicKeyIndex} (hl : tx.gradidoTransaction.getBodyAddressIndices env = .ok l) :
    env.dict.toPublicKeyIndex k own ∈ l := by
  obtain ⟨-, -, -, htype, -⟩ := h.fields
  obtain ⟨getTx, sender, recipient, hfill, hcases⟩ := h.communities_cases
  rw [ConfirmedGradidoTx.isOtherInvolved, decide_eq_true_eq] at hother
  have hbody : tx.gradidoTransaction.body = tx.body := rfl
  unfold GradidoTransaction.getBodyAddressIndices at hl
  rw [hbody, hcommunity] at hl
  unfold ConfirmedGradidoTx.fillSpecific at hfill
  cases hspecific : tx.body.specific with
  | none => simp [hspecific] at hfill
  | communityFriendsUpdate _ => simp [hspecific] at hfill
  | transfer t =>
    simp only [hspecific, Except.ok.injEq, Prod.mk.injEq] at hfill hl
    exact h.mem_transfer_of_isOtherInvolved hcommunity hown hcases hfill.1.symm hk hother hl
  | redeemDeferredTransfer r =>
    simp only [hspecific, Except.ok.injEq, Prod.mk.injEq] at hfill hl
    exact h.mem_transfer_of_isOtherInvolved hcommunity hown hcases hfill.1.symm hk hother hl
  | registerAddress r =>
    simp only [hspecific, Except.ok.injEq, Prod.mk.injEq] at hfill
    obtain ⟨-, _, _, _, hroot, -⟩ := h.root_of_mem_getOtherInvolved hown
      (by simp [ConfirmedGradidoTx.getSender, ← hfill.1])
      (by simp [ConfirmedGradidoTx.getRecipient, ← hfill.1]) hother
    simp [← hfill.1] at hroot
  | communityRoot r =>
    simp only [hspecific, Except.ok.injEq, Prod.mk.injEq] at hfill hl
    obtain ⟨hlocal, root, gmw, auf, hroot, hindex⟩ := h.root_of_mem_getOtherInvolved hown
      (by simp [ConfirmedGradidoTx.getSender, ← hfill.1])
      (by simp [ConfirmedGradidoTx.getRecipient, ← hfill.1]) hother
    have hsender : sender = own := by
      rcases hcases with ⟨-, hsender, -⟩ | ⟨-, -, ⟨hout, -⟩ | ⟨hin, -⟩⟩
      · exact hsender
      · simp [hout] at hlocal
      · simp [hin] at hlocal
    rw [← hfill.1, CompactSpecific.communityRoot.injEq] at hroot
    rw [← hroot.1, hsender, PublicKeyDictionary.index_inj] at hindex
    rw [← hl, hindex]
    simp
  | creation r =>
    simp only [hspecific, Except.ok.injEq, Prod.mk.injEq] at hfill hl
    unfold ConfirmedGradidoTx.getOtherInvolved ConfirmedGradidoTx.getSender
      ConfirmedGradidoTx.getRecipient at hother
    rw [htype, ← hfill.1] at hother
    rcases hcases with ⟨hlocal, rfl, rfl⟩ | ⟨other, hsome, ⟨hout, rfl, rfl⟩ | ⟨hin, rfl, rfl⟩⟩
    · simp [hlocal] at hother
    · simp only [hout, if_true, List.mem_singleton] at hother
      obtain ⟨rfl, -⟩ := (h.foreignParty_eq_iff hsome hown hk).1 hother.symm
      rw [← hl]
      simp
    · simp [hin, PublicKeyDictionary.toPublicKeyIndex, hown] at hother
  | deferredTransfer d =>
    simp only [hspecific, bind_eq_ok, exists_unit, throwIf_eq_ok, decide_eq_false_iff_not, not_not,
      pure_eq_ok, Prod.mk.injEq] at hfill
    obtain ⟨hlocal, -, hfill, -⟩ := hfill
    simp [ConfirmedGradidoTx.getOtherInvolved, htype, hlocal, ← hfill] at hother
  | timeoutDeferredTransfer nr =>
    have hlocal := htimeout (by simp [TransactionBody.transactionType, hspecific])
    simp only [hspecific, bind_eq_ok, pure_eq_ok, Prod.mk.injEq] at hfill
    obtain ⟨specific, hfilled, heq, -⟩ := hfill
    obtain ⟨amount, s, r, rfl⟩ := fillTimeout_eq_transfer hfilled
    simp [ConfirmedGradidoTx.getOtherInvolved, htype, hlocal, ← heq] at hother

/-- **A key is recorded** exactly when it is involved. -/
theorem recorded_iff (h : CompactOf env own tx c) (hown : own ≠ 0) {k : ℕ} (hk : k ≠ 0)
    (hrecords : RecordsKey env own k tx) :
    Recorded env c (env.dict.toPublicKeyIndex k own) ↔ tx.isInvolved env k = true := by
  obtain ⟨l, hl, -⟩ := h.body_agree_iff hrecords.community hown hk
  rw [isInvolved_rich_iff hrecords.community hl]
  unfold Recorded
  rw [h.isSignaturePublicKey_iff, h.isBalanceUpdated_iff]
  constructor
  · rintro (hother | hrole)
    · exact .inl (h.mem_body_of_isOtherInvolved hrecords.community hown hk hrecords.timeout hother
        hl)
    · exact .inr hrole
  · intro hinvolved
    have hnamed := hrecords.named ((isInvolved_rich_iff hrecords.community hl k).2 hinvolved)
    rcases hnamed with hsigned | hbalance | ⟨hlocal, hroot⟩
    · exact .inr (.inl hsigned)
    · exact .inr (.inr hbalance)
    · refine .inl ?_
      obtain ⟨-, -, hc, htype, -⟩ := h.fields
      obtain ⟨getTx, sender, recipient, hfill, hcases⟩ := h.communities_cases
      obtain ⟨r, hr, hkey⟩ := (Option.any_eq_true _ _).1 hroot
      have hspecific := TransactionBody.getCommunityRoot_eq_some.1 hr
      have hsender : sender = own := by
        rcases hcases with ⟨-, hsender, -⟩ | ⟨-, -, ⟨hout, -⟩ | ⟨hin, -⟩⟩
        · exact hsender
        · simp [hout] at hlocal
        · simp [hin] at hlocal
      simp only [ConfirmedGradidoTx.fillSpecific, hspecific, Except.ok.injEq,
        Prod.mk.injEq] at hfill
      simp only [decide_eq_true_eq] at hkey
      simp [ConfirmedGradidoTx.isOtherInvolved, ConfirmedGradidoTx.getOtherInvolved, htype, hlocal,
        ← hfill.1, hc, hsender, hkey, PublicKeyDictionary.toPublicKeyIndex]

end CompactOf

/-! ### Candidates -/

/-- The first day of a log. -/
def firstDay (h : List ConfirmedTransaction) : YearMonthDay :=
  (h.map ConfirmedTransaction.date).headD TransactionsIndex.zeroDate

/-- What a filter and a log have to respect for the candidates to be right.

* The coin is the own one, for which the rich filter takes everything.
* One key at most is searched for; it is known, and the index records it.
* The interval does not start between the epoch and the first day. -/
structure Searchable (env : Env) (own : ℕ) (getIndexForData : ℕ → ℕ)
    (h : List ConfirmedTransaction) (f : Filter) : Prop where
  coin : f.coinCommunityIdIndex = none ∨ f.coinCommunityIdIndex = some own
  oneKey : f.involvedPublicKey = none ∨ f.updatedBalancePublicKey = none
  known : ∀ k, f.involvedPublicKey = some k ∨ f.updatedBalancePublicKey = some k →
    Known own getIndexForData k
  recorded : ∀ k, f.involvedPublicKey = some k → ∀ tx ∈ h, f.meetsOthers tx = true →
    RecordsKey env own k tx
  reaches : TransactionsIndex.Reaches (firstDay h) f.timepointInterval

/-- What a filter and a log have to respect for the result to be right: with pages, every candidate
has to be used, as the page is cut before the exact interval and the filter function are asked, and
the page has to be cut at the right place. -/
structure Findable (env : Env) (own : ℕ) (getIndexForData : ℕ → ℕ) (h : List ConfirmedTransaction)
    (f : Filter) : Prop extends Searchable env own getIndexForData h f where
  pages : f.pagination.size = 0 ∨
    (∀ tx ∈ h, f.candidate env tx = true → f.matchesFound tx = .USE) ∧
      TransactionsIndex.CutRight (h.filter (f.candidate env)).length f.pagination.size
        f.pagination.page

namespace Searchable

open TransactionsIndex

variable {env : Env} {own : ℕ} {getIndexForData : ℕ → ℕ} {h : List ConfirmedTransaction}
  {f : Filter}

/-- The keys of a filter are searched for like its rich form does. -/
theorem wantedKey_iff (hf : Searchable env own getIndexForData h f)
    (hdict : ∀ k, getIndexForData k = env.dict.index own k ∨ getIndexForData k = 0)
    {tx : ConfirmedTransaction} (htx : tx ∈ h) (hothers : f.meetsOthers tx = true)
    {c : ConfirmedGradidoTx} (hc : CompactOf env own tx c) :
    WantedKey env (CompactFilter.ofFilter getIndexForData f own) c ↔
      f.matchesInvolvedPublicKey env tx = true ∧ f.matchesUpdatedBalancePublicKey tx = true := by
  unfold WantedKey
  rcases ofFilter_search own getIndexForData f with
    ⟨k, hupdated, hknown, hsearch, hkey⟩ | ⟨k, hnone, hinvolved, hknown, hsearch, hkey⟩ |
      ⟨hnot, hnot', hsearch, hsearch'⟩
  · have hinvolved : f.involvedPublicKey = none := by
      rcases hf.oneKey with hnone | hnone
      · exact hnone
      · simp [hnone] at hupdated
    have hbalance : c.isBalanceUpdated (env.dict.toPublicKeyIndex k own) = true ↔
        tx.HasBalance k := hc.isBalanceUpdated_iff k
    rw [hsearch, hkey, hknown.toPublicKeyIndex hdict, hbalance]
    simp [Filter.matchesInvolvedPublicKey, Filter.matchesUpdatedBalancePublicKey, hinvolved,
      hupdated, ConfirmedTransaction.isBalanceUpdated_eq_true]
  · have hupdated : f.updatedBalancePublicKey = none := by
      rcases hf.oneKey with hnone' | hnone'
      · simp [hnone'] at hinvolved
      · exact hnone'
    rw [hsearch, hkey, hknown.toPublicKeyIndex hdict,
      hc.recorded_iff hknown.2.2 hknown.1 (hf.recorded k hinvolved tx htx hothers)]
    simp [Filter.matchesInvolvedPublicKey, Filter.matchesUpdatedBalancePublicKey, hinvolved,
      hupdated]
  · have hupdated : f.updatedBalancePublicKey = none := by
      cases hkey : f.updatedBalancePublicKey with
      | none => rfl
      | some k => exact absurd (hf.known k (.inr hkey)) (hnot k hkey)
    have hinvolved : f.involvedPublicKey = none := by
      cases hkey : f.involvedPublicKey with
      | none => rfl
      | some k =>
        exact absurd (hf.known k (.inl hkey)) (hnot' k (by simp [NoBalanceKey, hupdated]) hkey)
    simp [hsearch, hsearch', Filter.matchesInvolvedPublicKey,
      Filter.matchesUpdatedBalancePublicKey, hinvolved, hupdated]

/-- The key that is searched for is not empty. -/
theorem plain (own : ℕ) (getIndexForData : ℕ → ℕ) (f : Filter) :
    Plain (CompactFilter.ofFilter getIndexForData f own) := by
  rcases ofFilter_search own getIndexForData f with
    ⟨k, -, hknown, -, hkey⟩ | ⟨k, -, -, hknown, -, hkey⟩ | ⟨-, -, hsearch, hsearch'⟩
  · intro _
    simp [hkey, PublicKeyIndex.empty, hknown.2.2]
  · intro _
    simp [hkey, PublicKeyIndex.empty, hknown.2.2]
  · rintro (heq | heq)
    · exact absurd heq hsearch
    · exact absurd heq hsearch'

/-- What the index asks of the compact form of a transaction, the filter asks of its rich form. -/
theorem candidate_iff (hf : Searchable env own getIndexForData h f)
    (hdict : ∀ k, getIndexForData k = env.dict.index own k ∨ getIndexForData k = 0)
    {tx : ConfirmedTransaction} (htx : tx ∈ h) {c : ConfirmedGradidoTx}
    (hc : CompactOf env own tx c) :
    (Admits (CompactFilter.ofFilter getIndexForData f own) c.txNr ∧
      OnDays f.timepointInterval c.date ∧
      Wanted env own (CompactFilter.ofFilter getIndexForData f own) c) ↔
    f.candidate env tx = true := by
  obtain ⟨searchType, key, heq⟩ := CompactFilter.ofFilter_eq getIndexForData f own
  obtain ⟨hnr, -, -, -, htype, -⟩ := hc.fields
  have hadmits : Admits (CompactFilter.ofFilter getIndexForData f own) c.txNr ↔
      f.matchesTransactionNr tx = true := by
    rw [← admits_iff, heq, Filter.matchesTransactionNr, CompactFilter.matchesTransactionNr, hnr]
  have hcoin : (CompactFilter.ofFilter getIndexForData f own).coinCommunityIdIndex = 0 ∨
      (CompactFilter.ofFilter getIndexForData f own).coinCommunityIdIndex = own := by
    rw [heq]
    rcases hf.coin with hnone | hown
    · exact .inl (by simp [hnone])
    · exact .inr (by simp [hown])
  have htypes : ((CompactFilter.ofFilter getIndexForData f own).transactionType = .none ∨
      c.transactionType = (CompactFilter.ofFilter getIndexForData f own).transactionType) ↔
      f.matchesTransactionType tx = true := by
    rw [heq, htype]
    simp [Filter.matchesTransactionType]
  have hothers : f.meetsOthers tx = true ↔ f.matchesTransactionNr tx = true ∧
      f.matchesTransactionType tx = true ∧ OnDays f.timepointInterval tx.date := by
    simp [Filter.meetsOthers, and_assoc]
  unfold Wanted Filter.candidate
  rw [hadmits, htypes, hc.date_eq, Bool.and_eq_true, Bool.and_eq_true, hothers]
  by_cases hmet : f.meetsOthers tx = true
  · rw [hf.wantedKey_iff hdict htx hmet hc]
    rw [hothers] at hmet
    simp only [hmet, true_and, and_true]
    exact ⟨fun hand => hand.2, fun hand => ⟨or_assoc.1 (.inl hcoin), hand⟩⟩
  · rw [hothers] at hmet
    refine iff_of_false ?_ (fun hand => hmet hand.1.1)
    rintro ⟨hnr, hdays, -, -, htype⟩
    exact hmet ⟨hnr, htype, hdays⟩

end Searchable

/-! ### Main results -/

section Find

open TransactionsIndex

variable {env : Env} {own : ℕ} {getIndexForData : ℕ → ℕ} {s : InMemory}
  {cs : List ConfirmedGradidoTx} {f : Filter}

/-- A number of a page is one of its bitmap, in search direction. -/
theorem TransactionsIndex.pairwise_inDirection (direction : SearchDirection) (b : Bitmap) :
    (inDirection direction b).Pairwise
      (match direction with
        | .asc => (· < ·)
        | .desc => (· > ·)) := by
  cases direction with
  | asc => exact b.sorted
  | desc => exact List.pairwise_reverse.2 b.sorted

/-- **The candidates** of a search without pages, in search direction. -/
theorem IndexedBy.findTransactions_eq (h : IndexedBy env own s cs)
    (hs : s.Represents own s.history) (horder : InOrder cs)
    (hdict : ∀ k, getIndexForData k = env.dict.index own k ∨ getIndexForData k = 0)
    (hf : Searchable env own getIndexForData s.history f) :
    s.mTransactionsIndex.findPage (.ofFilter getIndexForData f own) 0 0 =
      ((searched f.searchDirection s.history).filter (f.candidate env)).map
        ConfirmedTransaction.id := by
  obtain ⟨searchType, key, heq⟩ := CompactFilter.ofFilter_eq getIndexForData f own
  have hdirection : (CompactFilter.ofFilter getIndexForData f own).searchDirection =
      f.searchDirection := by
    rw [heq]
  have hinterval : (CompactFilter.ofFilter getIndexForData f own).timepointInterval =
      f.timepointInterval := by
    rw [heq]
  have hfirst : firstDate cs = firstDay s.history := by
    rw [firstDate, firstDay, h.map_eq (fun tx c hc => hc.date_eq)]
  have hmem : ∀ n, n ∈ s.mTransactionsIndex.findPage (.ofFilter getIndexForData f own) 0 0 ↔
      n ∈ ((searched f.searchDirection s.history).filter (f.candidate env)).map
        ConfirmedTransaction.id := by
    intro n
    have hreaches : Reaches (firstDate cs)
        (CompactFilter.ofFilter getIndexForData f own).timepointInterval := by
      rw [hfirst, hinterval]
      exact hf.reaches
    refine (h.index.mem_findTransactions_iff horder
      (f := { CompactFilter.ofFilter getIndexForData f own with pagination := ⟨0, 0⟩ })
      (Searchable.plain own getIndexForData f) rfl hreaches n).trans ?_
    change (∃ c ∈ cs, c.txNr = n ∧ Admits (CompactFilter.ofFilter getIndexForData f own) c.txNr ∧
      OnDays (CompactFilter.ofFilter getIndexForData f own).timepointInterval c.date ∧
      Wanted env own (CompactFilter.ofFilter getIndexForData f own) c) ↔ _
    rw [hinterval]
    simp only [List.mem_map, List.mem_filter, mem_searched]
    constructor
    · rintro ⟨c, hc, rfl, hadmits, hdays, hwanted⟩
      obtain ⟨tx, htx, hcompact⟩ := h.exists_rich hc
      exact ⟨tx, ⟨htx, (hf.candidate_iff hdict htx hcompact).1 ⟨hadmits, hdays, hwanted⟩⟩,
        hcompact.fields.1.symm⟩
    · rintro ⟨tx, ⟨htx, hcandidate⟩, rfl⟩
      obtain ⟨c, hc, hcompact⟩ := h.exists_compact htx
      obtain ⟨hadmits, hdays, hwanted⟩ := (hf.candidate_iff hdict htx hcompact).2 hcandidate
      exact ⟨c, hc, hcompact.fields.1, hadmits, hdays, hwanted⟩
  obtain ⟨b, hb⟩ := s.mTransactionsIndex.exists_findPage (.ofFilter getIndexForData f own)
  have hpairwise := pairwise_inDirection f.searchDirection b
  rw [← hdirection, ← pageOf_size_zero, ← hb, hdirection] at hpairwise
  have hnumbered := hs.numbered
  unfold searched at hmem ⊢
  cases hdir : f.searchDirection with
  | asc =>
    rw [hdir] at hmem hpairwise
    refine hpairwise.eq_of_mem_iff ?_ hmem
    exact List.pairwise_map.2 (hnumbered.filter _)
  | desc =>
    rw [hdir] at hmem hpairwise
    refine hpairwise.eq_of_mem_iff ?_ hmem
    exact List.pairwise_map.2 ((List.pairwise_reverse.2 hnumbered).filter _)

/-- Page zero is page one. -/
theorem TransactionsIndex.findPage_eq_block (idx : TransactionsIndex) (cf : CompactFilter)
    {size page : ℕ} (hsize : 1 ≤ size)
    (hcut : CutRight (idx.findPage cf 0 0).length size page) :
    idx.findPage cf size page = block (idx.findPage cf 0 0) size page := by
  obtain ⟨b, hb⟩ := idx.exists_findPage cf
  have hall : idx.findPage cf 0 0 = inDirection cf.searchDirection b := by
    rw [hb, pageOf_size_zero]
  rw [hall, length_inDirection] at hcut
  rw [hall, hb]
  rcases Nat.eq_zero_or_pos page with rfl | hpage
  · have hskip : pageOf { cf with pagination := ⟨size, 0⟩ } b =
        pageOf { cf with pagination := ⟨size, 1⟩ } b := by
      simp [pageOf, page, Pagination.skipEntriesCount]
    rw [hskip]
    exact (pageOf_eq_block_iff cf b hsize le_rfl).2 hcut
  · exact (pageOf_eq_block_iff cf b hsize hpage).2 hcut

/-- A date inside an interval is on one of its days. -/
theorem onDays_of_matchesTimepointInterval {tx : ConfirmedTransaction}
    (hpos : 0 < tx.confirmedAt.getAsTimepoint) (hinterval : f.matchesTimepointInterval tx = true) :
    OnDays f.timepointInterval tx.date := by
  unfold Filter.matchesTimepointInterval at hinterval
  rw [Bool.or_eq_true, Bool.and_eq_true] at hinterval
  rcases hinterval with hempty | ⟨-, hinside⟩
  · exact .inl hempty
  · simp only [TimepointInterval.isInsideInterval, Bool.and_eq_true, decide_eq_true_eq] at hinside
    obtain ⟨hstart, hend⟩ := hinside
    refine .inr ⟨?_, timepointAsYearMonthDay_mono hend (by omega) (by omega)⟩
    by_cases hzero : f.timepointInterval.startDate = 0
    · have hcivil := civilDate_timepoint hpos
      rw [hzero]
      unfold ConfirmedTransaction.date
      unfold CivilDate at hcivil
      rw [YearMonthDay.lt_def]
      simp only [timepointAsYearMonthDay] at hcivil ⊢
      simp only [if_true]
      omega
    · exact timepointAsYearMonthDay_mono hstart (by omega) hzero

/-- On a candidate, only the exact interval and the filter function are left to ask. -/
theorem matchesEntry_of_candidate {tx : ConfirmedTransaction}
    (hcoin : f.matchesCoinCommunity own tx = true) (h : f.candidate env tx = true) :
    f.matchesEntry env own tx (fun _ => true) = f.matchesFound tx := by
  simp only [Filter.candidate, Filter.meetsOthers, Bool.and_eq_true] at h
  obtain ⟨⟨⟨⟨hnr, htype⟩, -⟩, hinvolved⟩, hupdated⟩ := h
  unfold Filter.matchesEntry Filter.matchesFound
  cases hinterval : f.matchesTimepointInterval tx with
  | true => simp [hnr, hcoin, htype, hinvolved, hupdated]
  | false => simp [hnr, hcoin, htype]

/-- What is no candidate is dismissed. -/
theorem matchesEntry_of_not_candidate {tx : ConfirmedTransaction}
    (hpos : 0 < tx.confirmedAt.getAsTimepoint) (h : f.candidate env tx = false) :
    f.matchesEntry env own tx (fun _ => true) = .DISMISS := by
  simp only [Filter.candidate, Filter.meetsOthers, Bool.and_eq_false_iff,
    decide_eq_false_iff_not] at h
  unfold Filter.matchesEntry
  rcases h with (((hnr | htype) | hdays) | hinvolved) | hupdated
  · simp [hnr]
  · simp [htype]
  · have hinterval : f.matchesTimepointInterval tx = false := by
      rw [← Bool.not_eq_true]
      exact fun hinterval => hdays (onDays_of_matchesTimepointInterval hpos hinterval)
    simp [hinterval]
  · simp [hinvolved]
  · simp [hupdated]

/-- **`findAll`** returns what was requested. -/
theorem IndexedBy.findAllWith_eq (h : IndexedBy env own s cs) (hs : s.Represents own s.history)
    (horder : InOrder cs) (hdated : Dated s.history)
    (hdict : ∀ k, getIndexForData k = env.dict.index own k ∨ getIndexForData k = 0)
    (hf : Findable env own getIndexForData s.history f) :
    s.findAllWith getIndexForData f = .ok (f.requested env own s.history) := by
  obtain ⟨searchType, key, heq⟩ := CompactFilter.ofFilter_eq getIndexForData f own
  have hpagination : (CompactFilter.ofFilter getIndexForData f own).pagination = f.pagination := by
    rw [heq]
  set candidates := (searched f.searchDirection s.history).filter (f.candidate env)
    with hcandidates
  have hmem : ∀ tx ∈ candidates, tx ∈ s.history ∧ f.candidate env tx = true := by
    intro tx htx
    rw [hcandidates, List.mem_filter, mem_searched] at htx
    exact htx
  have hstored : ∀ tx ∈ candidates, s.mTransactionsByNr tx.id = some tx :=
    fun tx htx => hs.byNr_id (hmem tx htx).1
  have hall := h.findTransactions_eq hs horder hdict hf.toSearchable
  -- all criteria on the log are the remaining ones on the candidates
  have hcoin : ∀ tx, f.matchesCoinCommunity own tx = true := by
    intro tx
    rcases hf.coin with hnone | hown
    · simp [Filter.matchesCoinCommunity, hnone]
    · simp [Filter.matchesCoinCommunity, hown, Filter.getCoinCommunityIdIndex]
  have haccepted : takeAccepted (fun tx => f.matchesEntry env own tx (fun _ => true))
      (searched f.searchDirection s.history) = takeAccepted f.matchesFound candidates := by
    rw [← takeAccepted_filter (p := f.candidate env), ← hcandidates]
    · exact takeAccepted_congr (fun tx htx => matchesEntry_of_candidate (hcoin tx) (hmem tx htx).2)
    · intro tx htx hnot
      rw [mem_searched] at htx
      exact matchesEntry_of_not_candidate (hdated tx htx).2 hnot
  have hfound : s.mTransactionsIndex.findTransactions (.ofFilter getIndexForData f own) =
      s.mTransactionsIndex.findPage (.ofFilter getIndexForData f own) f.pagination.size
        f.pagination.page := by
    rw [findPage, ← hpagination]
  unfold InMemory.findAllWith Filter.requested
  rw [hs.community, hfound, haccepted]
  by_cases hsize : f.pagination.size = 0
  · -- without pages every candidate is asked
    have hpage : s.mTransactionsIndex.findPage (.ofFilter getIndexForData f own)
        f.pagination.size f.pagination.page =
        s.mTransactionsIndex.findPage (.ofFilter getIndexForData f own) 0 0 := by
      obtain ⟨b, hb⟩ := s.mTransactionsIndex.exists_findPage (.ofFilter getIndexForData f own)
      rw [hb, hb, hsize]
      simp [pageOf, Pagination.skipEntriesCount]
    rw [hpage, hall, if_pos hsize, InMemory.collect_eq hstored (.inl hsize), List.nil_append]
  · obtain ⟨huse, hcut⟩ := hf.pages.resolve_left hsize
    have hused : ∀ tx ∈ candidates, f.matchesFound tx = .USE :=
      fun tx htx => huse tx (hmem tx htx).1 (hmem tx htx).2
    have hlength : (s.mTransactionsIndex.findPage (.ofFilter getIndexForData f own) 0 0).length =
        (s.history.filter (f.candidate env)).length := by
      rw [hall, List.length_map]
      cases f.searchDirection <;> simp [searched]
    have hblock := findPage_eq_block s.mTransactionsIndex (.ofFilter getIndexForData f own)
      (Nat.one_le_iff_ne_zero.2 hsize) (hlength ▸ hcut)
    have hsub : ∀ tx ∈ block candidates f.pagination.size f.pagination.page, tx ∈ candidates :=
      fun tx htx => List.mem_of_mem_drop (List.mem_of_mem_take htx)
    have hmap : block (candidates.map ConfirmedTransaction.id) f.pagination.size
        f.pagination.page =
        (block candidates f.pagination.size f.pagination.page).map ConfirmedTransaction.id := by
      simp [block, List.map_take, List.map_drop]
    have hshort : (block candidates f.pagination.size f.pagination.page).length ≤
        f.pagination.size := by
      simp [block]
    rw [hblock, hall, if_neg hsize, hmap,
      InMemory.collect_eq (fun tx htx => hstored tx (hsub tx htx)) (.inr (by simpa using hshort)),
      List.nil_append, takeAccepted_all (fun tx htx => hused tx (hsub tx htx)),
      takeAccepted_all hused]

end Find

namespace Sample

/-- A search for the last transaction that is a community root. -/
def lastRoot : Filter :=
  { pagination := ⟨1, 1⟩
    filterFunction := some (fun tx =>
      if tx.body.transactionType = .communityRoot then .USE else .DISMISS) }

/-- The second page of the transactions of account `11`. -/
def pageOfAccount : Filter :=
  { involvedPublicKey := some 11
    searchDirection := .asc
    pagination := ⟨1, 2⟩ }

end Sample

end Gradido
