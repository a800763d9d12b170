import GradidoBlockchain.Index.Range
import GradidoBlockchain.Lib.AppendLog
import GradidoBlockchain.Lib.Buckets

/-!
# Searching the index

What `findTransactions` finds, for an index that knows a list of transactions:
`mem_aggregate` describes the result set, `findTransactions_eq_page` and the
lemmas on pages describe the part of it that is returned, and the lemmas on
ranges say which numbers an interval of dates stands for.
-/

namespace Gradido

open Checked

namespace TransactionsIndex

open ConfirmedGradidoTx

/-! ### The result set -/

theorem mem_intersect {maps : List Bitmap} (h : maps ≠ []) {n : ℕ} :
    n ∈ intersect maps ↔ ∀ b ∈ maps, n ∈ b := by
  have key : ∀ (bs : List Bitmap) (b : Bitmap),
      n ∈ bs.foldl Bitmap.inter b ↔ n ∈ b ∧ ∀ m ∈ bs, n ∈ m := by
    intro bs
    induction bs with
    | nil => simp
    | cons a bs ih =>
      intro b
      rw [List.foldl_cons, ih, Bitmap.mem_inter, List.forall_mem_cons, and_assoc]
  cases maps with
  | nil => exact absurd rfl h
  | cons b bs => rw [intersect, key, List.forall_mem_cons]

/-- A transaction has the key that a filter asks for, as the index sees it. -/
def WantedKey (env : Env) (f : CompactFilter) (c : ConfirmedGradidoTx) : Prop :=
  (f.publicKeySearchType = .balanceChangingPublicKey →
      c.isBalanceUpdated f.publicKeyIndex = true) ∧
    (f.publicKeySearchType = .involvedPublicKey → Recorded env c f.publicKeyIndex)

/-- A transaction has what a filter asks for, its number and date apart. -/
def Wanted (env : Env) (own : ℕ) (f : CompactFilter) (c : ConfirmedGradidoTx) : Prop :=
  (f.coinCommunityIdIndex = 0 ∨ f.coinCommunityIdIndex = own ∨
      ∃ b ∈ c.accountBalances, b.coinCommunityIdIndex = f.coinCommunityIdIndex) ∧
    WantedKey env f c ∧
    (f.transactionType = .none ∨ c.transactionType = f.transactionType)

instance {env : Env} {f : CompactFilter} {c : ConfirmedGradidoTx} :
    Decidable (WantedKey env f c) :=
  inferInstanceAs (Decidable (_ ∧ _))

instance {env : Env} {own : ℕ} {f : CompactFilter} {c : ConfirmedGradidoTx} :
    Decidable (Wanted env own f c) :=
  inferInstanceAs (Decidable (_ ∧ _))

/-- The bounds of a filter admit a number. -/
def Admits (f : CompactFilter) (n : ℕ) : Prop :=
  (f.minTransactionNr = 0 ∨ f.minTransactionNr ≤ n) ∧
    (f.maxTransactionNr = 0 ∨ n ≤ f.maxTransactionNr)

instance {f : CompactFilter} {n : ℕ} : Decidable (Admits f n) :=
  inferInstanceAs (Decidable (_ ∧ _))

theorem admits_iff {f : CompactFilter} {c : ConfirmedGradidoTx} :
    f.matchesTransactionNr c = true ↔ Admits f c.txNr := by
  simp only [CompactFilter.matchesTransactionNr, Admits, Bool.not_eq_true', Bool.or_eq_false_iff,
    decide_eq_false_iff_not]
  omega

/-- The filters that the lemmas are about: a key that is searched for is not empty. -/
def Plain (f : CompactFilter) : Prop :=
  f.publicKeySearchType = .balanceChangingPublicKey ∨
    f.publicKeySearchType = .involvedPublicKey → f.publicKeyIndex.empty = false

section Aggregate

variable {env : Env} {own : ℕ} {cs : List ConfirmedGradidoTx} {idx : TransactionsIndex}

/-- The index has stored the keys, types and coins of a list of transactions with increasing
numbers. -/
structure Collects (env : Env) (own : ℕ) (cs : List ConfirmedGradidoTx)
    (idx : TransactionsIndex) : Prop where
  community : idx.mCommunityIdIndex = own
  sets : Sets env own cs idx
  own : ∀ c ∈ cs, c.txCommunityIdIndex = own
  numbered : cs.Pairwise (fun a b => a.txNr < b.txNr)

/-- The numbers of the known transactions. -/
theorem Indexes.txNr_bounds (h : Indexes env own cs idx) {c : ConfirmedGradidoTx} (hc : c ∈ cs) :
    1 ≤ c.txNr ∧ c.txNr ≤ cs.length := by
  obtain ⟨k, hk⟩ := List.getElem?_of_mem hc
  have hnr := h.txNr k c hk
  have hlt := (List.getElem?_eq_some_iff.1 hk).1
  omega

/-- Every number up to the length of the list belongs to a transaction. -/
theorem Indexes.exists_txNr (h : Indexes env own cs idx) {n : ℕ} (h1 : 1 ≤ n) (h2 : n ≤ cs.length) :
    ∃ c ∈ cs, c.txNr = n := by
  have hlt : n - 1 < cs.length := by omega
  have hk := List.getElem?_eq_getElem hlt
  have hnr := h.txNr (n - 1) _ hk
  exact ⟨_, List.getElem_mem hlt, by omega⟩

/-- The known transactions are numbered upwards. -/
theorem Indexes.numbered (h : Indexes env own cs idx) :
    cs.Pairwise (fun a b => a.txNr < b.txNr) := by
  rw [List.pairwise_iff_getElem]
  intro i j hi hj hij
  have hnri := h.txNr i _ (List.getElem?_eq_getElem hi)
  have hnrj := h.txNr j _ (List.getElem?_eq_getElem hj)
  omega

theorem Indexes.collects (h : Indexes env own cs idx) : Collects env own cs idx :=
  ⟨h.community, h.sets, h.own, h.numbered⟩

/-- Transactions with the same number are the same. -/
theorem Collects.txNr_injective (h : Collects env own cs idx) :
    ∀ c ∈ cs, ∀ c' ∈ cs, c.txNr = c'.txNr → c = c' :=
  fun _ hc _ hc' => Buckets.eq_of_numbered h.numbered hc hc'

/-- A key of another community never has a balance here. -/
theorem Collects.community_of_isBalanceUpdated (h : Collects env own cs idx)
    {c : ConfirmedGradidoTx} (hc : c ∈ cs) {k : PublicKeyIndex}
    (hb : c.isBalanceUpdated k = true) : k.communityIdIndex = own := by
  simp only [isBalanceUpdated, List.any_eq_true, Bool.and_eq_true, decide_eq_true_eq] at hb
  obtain ⟨b, -, -, hcommunity⟩ := hb
  rw [hcommunity, h.own c hc]

/-- The maps of one criterion of a filter select the known transactions that meet a condition. -/
structure Selects (cs : List ConfirmedGradidoTx) (maps : Option (List Bitmap))
    (cond : ConfirmedGradidoTx → Prop) : Prop where
  none : maps = none → ∀ c ∈ cs, ¬ cond c
  mem : ∀ l, maps = some l → ∀ c ∈ cs, (∀ b ∈ l, c.txNr ∈ b) ↔ cond c
  known : ∀ l, maps = some l → ∀ b ∈ l, ∀ n ∈ b, ∃ c ∈ cs, c.txNr = n

/-- A criterion that is not set selects everything. -/
theorem selects_all {cond : ConfirmedGradidoTx → Prop} (hcond : ∀ c ∈ cs, cond c) :
    Selects cs (some []) cond where
  none := by
    intro h
    simp at h
  mem := by
    intro l hl c hc
    rw [Option.some.injEq] at hl
    subst hl
    simpa using hcond c hc
  known := by
    intro l hl b hb
    rw [Option.some.injEq] at hl
    subst hl
    simp at hb

/-- A criterion with one map; the map may be missing when it would be empty. -/
theorem selects_one {cond : ConfirmedGradidoTx → Prop} {maps : Option (List Bitmap)} {b : Bitmap}
    (hb : ∀ n, n ∈ b ↔ ∃ c ∈ cs, c.txNr = n ∧ cond c)
    (hinj : ∀ c ∈ cs, ∀ c' ∈ cs, c.txNr = c'.txNr → c = c')
    (hmaps : maps = some [b] ∨ maps = none ∧ b = .empty) : Selects cs maps cond := by
  rcases hmaps with rfl | ⟨rfl, rfl⟩
  · refine ⟨by simp, ?_, ?_⟩
    · intro l hl c hc
      rw [Option.some.injEq] at hl
      subst hl
      simp only [List.mem_singleton, forall_eq, hb]
      constructor
      · rintro ⟨c', hc', hnr, hcond⟩
        rwa [← hinj c' hc' c hc hnr]
      · intro hcond
        exact ⟨c, hc, rfl, hcond⟩
    · intro l hl b' hb' n hn
      rw [Option.some.injEq] at hl
      subst hl
      rw [List.mem_singleton.1 hb', hb] at hn
      obtain ⟨c, hc, hnr, -⟩ := hn
      exact ⟨c, hc, hnr⟩
  · refine ⟨?_, by simp, by simp⟩
    intro _ c hc hcond
    have hempty := (hb c.txNr).2 ⟨c, hc, rfl, hcond⟩
    simp at hempty

theorem Collects.selects_coin (h : Collects env own cs idx) (f : CompactFilter) :
    Selects cs (idx.coinMaps f) (fun c => f.coinCommunityIdIndex = 0 ∨
      f.coinCommunityIdIndex = own ∨
        ∃ b ∈ c.accountBalances, b.coinCommunityIdIndex = f.coinCommunityIdIndex) := by
  unfold TransactionsIndex.coinMaps
  rw [h.community]
  split_ifs with hcoin
  · refine selects_all ?_
    intro c _
    rcases hcoin with hcoin | hcoin
    · exact .inl hcoin
    · exact .inr (.inl hcoin)
  · rw [not_or] at hcoin
    refine selects_one (b := idx.coinNrs f.coinCommunityIdIndex) ?_
      h.txNr_injective ?_
    · intro n
      rw [h.sets.coin]
      simp only [hcoin.1, hcoin.2, false_or, ne_eq, not_false_eq_true, true_and]
    · unfold coinNrs
      cases idx.mOtherCoinCommunityTx f.coinCommunityIdIndex with
      | none => exact .inr ⟨rfl, rfl⟩
      | some b => exact .inl rfl

/-- The maps of the key; the balance of a foreign key is not searched for. -/
theorem Keyed.selects_publicKey (h : Keyed env cs idx)
    (hinj : ∀ c ∈ cs, ∀ c' ∈ cs, c.txNr = c'.txNr → c = c') {f : CompactFilter} (hf : Plain f)
    (hforeign : f.publicKeySearchType = .balanceChangingPublicKey →
      f.publicKeyIndex.communityIdIndex ≠ idx.mCommunityIdIndex →
        ∀ c ∈ cs, c.isBalanceUpdated f.publicKeyIndex = false) :
    Selects cs (idx.publicKeyMaps f) (WantedKey env f) := by
  unfold TransactionsIndex.publicKeyMaps WantedKey
  cases hsearch : f.publicKeySearchType with
  | none => exact selects_all (fun c _ => by simp)
  | missingCommunityId => exact selects_all (fun c _ => by simp)
  | missingIndex => exact selects_all (fun c _ => by simp)
  | involvedPublicKey =>
    refine selects_one (b := idx.involvedNrs f.publicKeyIndex) ?_ hinj ?_
    · intro n
      rw [h.involved _ (hf (.inr hsearch))]
      simp
    · unfold involvedNrs
      cases idx.mInvolvedPublicKeys f.publicKeyIndex with
      | none => exact .inr ⟨rfl, by ext n; simp [PublicKeyBitmaps.empty]⟩
      | some b =>
        dsimp only
        split_ifs with hempty
        · refine .inr ⟨rfl, ?_⟩
          ext n
          simpa using Bitmap.isEmpty_iff.1 hempty n
        · exact .inl rfl
  | balanceChangingPublicKey =>
    dsimp only
    split_ifs with hcommunity
    · refine ⟨?_, by simp, by simp⟩
      rintro - c hc ⟨hkey, -⟩
      have hnone := hforeign hsearch hcommunity c hc
      rw [hkey rfl] at hnone
      simp at hnone
    · refine selects_one (b := idx.balanceNrs f.publicKeyIndex) ?_ hinj ?_
      · intro n
        rw [h.balance _ (hf (.inl hsearch))]
        simp
      · unfold balanceNrs
        cases idx.mInvolvedPublicKeys f.publicKeyIndex with
        | none => exact .inr ⟨rfl, rfl⟩
        | some b => exact .inl rfl

theorem Keyed.selects_type (h : Keyed env cs idx)
    (hinj : ∀ c ∈ cs, ∀ c' ∈ cs, c.txNr = c'.txNr → c = c') (f : CompactFilter) :
    Selects cs (idx.typeMaps f) (fun c =>
      f.transactionType = .none ∨ c.transactionType = f.transactionType) := by
  unfold TransactionsIndex.typeMaps
  split_ifs with htype hempty
  · exact selects_all (fun c _ => .inl htype)
  · refine selects_one (b := idx.mTxPerType f.transactionType) ?_ hinj (.inr ⟨rfl, ?_⟩)
    · intro n
      rw [h.type]
      simp only [htype, false_or]
    · ext n
      simpa using Bitmap.isEmpty_iff.1 hempty n
  · refine selects_one (b := idx.mTxPerType f.transactionType) ?_ hinj (.inl rfl)
    intro n
    rw [h.type]
    simp only [htype, false_or]

theorem Collects.selects_publicKey (h : Collects env own cs idx) {f : CompactFilter}
    (hf : Plain f) : Selects cs (idx.publicKeyMaps f) (WantedKey env f) := by
  refine h.sets.keyed.selects_publicKey h.txNr_injective hf ?_
  intro _ hcommunity c hc
  rw [Bool.eq_false_iff]
  intro hbalance
  exact hcommunity ((h.community_of_isBalanceUpdated hc hbalance).trans h.community.symm)

/-- The own coin is never recorded, so nothing is subtracted. -/
theorem Collects.coinRevertMap (h : Collects env own cs idx) (f : CompactFilter) :
    idx.coinRevertMap f = none := by
  unfold TransactionsIndex.coinRevertMap
  split_ifs with hcoin
  · rw [hcoin.2, h.community, h.sets.ownCoin]
  · rfl

theorem mem_getD_unless_empty {b : Bitmap} {n : ℕ} :
    n ∈ (if b.isEmpty = true then none else some b).getD .empty ↔ n ∈ b := by
  split_ifs with hb
  · have hn := Bitmap.isEmpty_iff.1 hb n
    simp [hn]
  · simp

theorem ranged_ne_nil (maps : List Bitmap) (lo hi min max : ℕ) :
    (if lo ≠ min ∨ hi ≠ max ∨ maps = [] then maps ++ [Bitmap.rangeClosed lo hi] else maps) ≠
      [] := by
  split_ifs with hadd
  · simp
  · exact fun hnil => hadd (.inr (.inr hnil))

/-- The map for the range is left out when it would not exclude anything. -/
theorem forall_mem_ranged {maps : List Bitmap} {lo hi min max n : ℕ}
    (hall : lo = min → hi = max → ∀ b ∈ maps, ∀ m ∈ b, lo ≤ m ∧ m ≤ hi) :
    (∀ b ∈ (if lo ≠ min ∨ hi ≠ max ∨ maps = [] then maps ++ [Bitmap.rangeClosed lo hi]
      else maps), n ∈ b) ↔ lo ≤ n ∧ n ≤ hi ∧ ∀ b ∈ maps, n ∈ b := by
  split_ifs with hadd
  · simp only [List.forall_mem_append, List.mem_singleton, forall_eq, Bitmap.mem_rangeClosed]
    tauto
  · rw [not_or, not_or, not_not, not_not] at hadd
    obtain ⟨hlo, hhi, hne⟩ := hadd
    refine ⟨?_, fun h => h.2.2⟩
    intro hn
    obtain ⟨b, hb⟩ := List.exists_mem_of_ne_nil maps hne
    have hbounds := hall hlo hhi b hb n (hn b hb)
    exact ⟨hbounds.1, hbounds.2, hn⟩

/-- No criterion but number and date restricts a search. -/
def Unrestricted (own : ℕ) (f : CompactFilter) : Prop :=
  (f.coinCommunityIdIndex = 0 ∨ f.coinCommunityIdIndex = own) ∧
    f.publicKeySearchType ≠ .balanceChangingPublicKey ∧
    f.publicKeySearchType ≠ .involvedPublicKey ∧ f.transactionType = .none

instance {own : ℕ} {f : CompactFilter} : Decidable (Unrestricted own f) :=
  inferInstanceAs (Decidable (_ ∧ _))

theorem Unrestricted.wanted {f : CompactFilter} (hf : Unrestricted own f)
    (c : ConfirmedGradidoTx) : Wanted env own f c := by
  obtain ⟨hcoin, hbalance, hinvolved, htype⟩ := hf
  refine ⟨?_, ⟨fun h => absurd h hbalance, fun h => absurd h hinvolved⟩, .inl htype⟩
  rcases hcoin with hcoin | hcoin
  · exact .inl hcoin
  · exact .inr (.inl hcoin)

/-- There is a map for every criterion that restricts the search. -/
theorem unrestricted_iff (hown : idx.mCommunityIdIndex = own) {f : CompactFilter}
    {coinMaps keyMaps typeMaps : List Bitmap} (hcoin : idx.coinMaps f = some coinMaps)
    (hkey : idx.publicKeyMaps f = some keyMaps) (htype : idx.typeMaps f = some typeMaps) :
    coinMaps ++ keyMaps ++ typeMaps = [] ↔ Unrestricted own f := by
  have hcoin' : coinMaps = [] ↔ f.coinCommunityIdIndex = 0 ∨ f.coinCommunityIdIndex = own := by
    unfold TransactionsIndex.coinMaps at hcoin
    rw [hown] at hcoin
    split_ifs at hcoin with hnone
    · simp_all
    · obtain ⟨b, -, rfl⟩ := Option.map_eq_some_iff.1 hcoin
      simp [hnone]
  have hkey' : keyMaps = [] ↔ f.publicKeySearchType ≠ .balanceChangingPublicKey ∧
      f.publicKeySearchType ≠ .involvedPublicKey := by
    unfold TransactionsIndex.publicKeyMaps at hkey
    cases hsearch : f.publicKeySearchType with
    | none => simp_all
    | missingCommunityId => simp_all
    | missingIndex => simp_all
    | balanceChangingPublicKey =>
      simp only [hsearch] at hkey
      split_ifs at hkey
      obtain ⟨b, -, rfl⟩ := Option.map_eq_some_iff.1 hkey
      simp
    | involvedPublicKey =>
      simp only [hsearch] at hkey
      split at hkey
      · simp at hkey
      · split_ifs at hkey
        rw [Option.some.injEq] at hkey
        simp [← hkey]
  have htype' : typeMaps = [] ↔ f.transactionType = .none := by
    unfold TransactionsIndex.typeMaps at htype
    split_ifs at htype with hnone
    · simp_all
    · rw [Option.some.injEq] at htype
      simp [← htype, hnone]
  rw [List.append_eq_nil_iff, List.append_eq_nil_iff, hcoin', hkey', htype', Unrestricted,
    and_assoc, and_assoc]

/-- **The result set** of a filter whose range is known, from what its criteria select.  A search
that nothing restricts returns all numbers of the range, also those that belong to no
transaction. -/
theorem mem_aggregate_of_selects (hown : idx.mCommunityIdIndex = own)
    (hbounds : ∀ c ∈ cs, idx.mMinTransactionNr ≤ c.txNr ∧ c.txNr ≤ idx.mMaxTransactionNr)
    {f : CompactFilter} (hrevert : idx.coinRevertMap f = none)
    (hcoin : Selects cs (idx.coinMaps f) (fun c => f.coinCommunityIdIndex = 0 ∨
      f.coinCommunityIdIndex = own ∨
        ∃ b ∈ c.accountBalances, b.coinCommunityIdIndex = f.coinCommunityIdIndex))
    (hkey : Selects cs (idx.publicKeyMaps f) (WantedKey env f))
    (htype : Selects cs (idx.typeMaps f) (fun c =>
      f.transactionType = .none ∨ c.transactionType = f.transactionType)) {lo hi : ℕ}
    (hrange : idx.calculateTxRange f = some (lo, hi)) (n : ℕ) :
    n ∈ (idx.aggregateTransactions f).getD .empty ↔ lo ≤ n ∧ n ≤ hi ∧
      (Unrestricted own f ∨ ∃ c ∈ cs, c.txNr = n ∧ Wanted env own f c) := by
  unfold TransactionsIndex.aggregateTransactions
  rw [hrange]
  simp only [Option.bind_eq_bind, Option.bind_some]
  cases hc : idx.coinMaps f with
  | none =>
    refine iff_of_false (by simp) ?_
    rintro ⟨-, -, hall | ⟨c, hcs, -, hw, -⟩⟩
    · rcases hall.1 with hzero | hcoinOwn
      · simp [TransactionsIndex.coinMaps, hzero] at hc
      · simp [TransactionsIndex.coinMaps, hcoinOwn, hown] at hc
    · exact hcoin.none hc c hcs hw
  | some coinMaps =>
    cases hk : idx.publicKeyMaps f with
    | none =>
      refine iff_of_false (by simp) ?_
      rintro ⟨-, -, hall | ⟨c, hcs, -, -, hw, -⟩⟩
      · obtain ⟨-, hbalance, hinvolved, -⟩ := hall
        unfold TransactionsIndex.publicKeyMaps at hk
        cases hsearch : f.publicKeySearchType <;> simp_all
      · exact hkey.none hk c hcs hw
    | some keyMaps =>
      cases ht : idx.typeMaps f with
      | none =>
        refine iff_of_false (by simp) ?_
        rintro ⟨-, -, hall | ⟨c, hcs, -, -, -, hw⟩⟩
        · simp [TransactionsIndex.typeMaps, hall.2.2.2] at ht
        · exact htype.none ht c hcs hw
      | some typeMaps =>
        simp only [Option.bind_some, hrevert]
        rw [mem_getD_unless_empty, mem_intersect (ranged_ne_nil _ lo hi _ _)]
        have hknown : ∀ b ∈ coinMaps ++ keyMaps ++ typeMaps, ∀ m ∈ b, ∃ c ∈ cs, c.txNr = m := by
          intro b hb
          rcases List.mem_append.1 hb with hb | hb
          · rcases List.mem_append.1 hb with hb | hb
            · exact hcoin.known _ hc b hb
            · exact hkey.known _ hk b hb
          · exact htype.known _ ht b hb
        have hwanted : ∀ c ∈ cs, (∀ b ∈ coinMaps ++ keyMaps ++ typeMaps, c.txNr ∈ b) ↔
            Wanted env own f c := by
          intro c hcs
          rw [List.forall_mem_append, List.forall_mem_append, hcoin.mem _ hc c hcs,
            hkey.mem _ hk c hcs, htype.mem _ ht c hcs, and_assoc, Wanted]
        rw [forall_mem_ranged]
        · refine and_congr_right fun _ => and_congr_right fun _ => ?_
          rw [← unrestricted_iff hown hc hk ht]
          by_cases hnil : coinMaps ++ keyMaps ++ typeMaps = []
          · rw [hnil]
            exact iff_of_true (by simp) (.inl rfl)
          · -- some map decides, and every number in it belongs to a transaction
            constructor
            · intro hall
              obtain ⟨b, hb⟩ := List.exists_mem_of_ne_nil _ hnil
              obtain ⟨c, hcs, rfl⟩ := hknown b hb n (hall b hb)
              exact .inr ⟨c, hcs, rfl, (hwanted c hcs).1 hall⟩
            · rintro (hnil' | ⟨c, hcs, rfl, hw⟩)
              · exact absurd hnil' hnil
              · exact (hwanted c hcs).2 hw
        · -- without a map for the range, the other maps only have known numbers
          rintro rfl rfl b hb m hm
          obtain ⟨c, hcs, rfl⟩ := hknown b hb m hm
          exact hbounds c hcs

theorem Collects.mem_aggregate (h : Collects env own cs idx)
    (hbounds : ∀ c ∈ cs, idx.mMinTransactionNr ≤ c.txNr ∧ c.txNr ≤ idx.mMaxTransactionNr)
    {f : CompactFilter} (hf : Plain f) {lo hi : ℕ}
    (hrange : idx.calculateTxRange f = some (lo, hi)) (n : ℕ) :
    n ∈ (idx.aggregateTransactions f).getD .empty ↔ lo ≤ n ∧ n ≤ hi ∧
      (Unrestricted own f ∨ ∃ c ∈ cs, c.txNr = n ∧ Wanted env own f c) :=
  mem_aggregate_of_selects h.community hbounds (h.coinRevertMap f) (h.selects_coin f)
    (h.selects_publicKey hf)
    (h.sets.keyed.selects_type h.txNr_injective f) hrange n

/-- Without a coin in the filter, the communities of the transactions do not matter, unless a
foreign key is searched for whose balance changed. -/
theorem Keyed.mem_aggregate (h : Keyed env cs idx) (hown : idx.mCommunityIdIndex = own)
    (hinj : ∀ c ∈ cs, ∀ c' ∈ cs, c.txNr = c'.txNr → c = c')
    (hbounds : ∀ c ∈ cs, idx.mMinTransactionNr ≤ c.txNr ∧ c.txNr ≤ idx.mMaxTransactionNr)
    {f : CompactFilter} (hf : Plain f) (hcoin : f.coinCommunityIdIndex = 0)
    (hforeign : f.publicKeySearchType = .balanceChangingPublicKey →
      f.publicKeyIndex.communityIdIndex = own) {lo hi : ℕ}
    (hrange : idx.calculateTxRange f = some (lo, hi)) (n : ℕ) :
    n ∈ (idx.aggregateTransactions f).getD .empty ↔ lo ≤ n ∧ n ≤ hi ∧
      (Unrestricted own f ∨ ∃ c ∈ cs, c.txNr = n ∧ Wanted env own f c) := by
  have hrevert : idx.coinRevertMap f = none := if_neg (fun hset => hset.1 hcoin)
  have hmaps : idx.coinMaps f = some [] := if_pos (.inl hcoin)
  refine mem_aggregate_of_selects hown hbounds hrevert ?_
    (h.selects_publicKey hinj hf fun hsearch hne => absurd ?_ hne) (h.selects_type hinj f) hrange n
  · rw [hmaps]
    exact selects_all (fun c _ => .inl hcoin)
  · rw [hown, hforeign hsearch]

/-- The result set of an index without gaps. -/
theorem Indexes.mem_aggregate (h : Indexes env own cs idx) (hne : cs ≠ []) {f : CompactFilter}
    (hf : Plain f) {lo hi : ℕ} (hrange : idx.calculateTxRange f = some (lo, hi)) (hlo : 1 ≤ lo)
    (hhi : hi ≤ cs.length) (n : ℕ) :
    n ∈ (idx.aggregateTransactions f).getD .empty ↔
      lo ≤ n ∧ n ≤ hi ∧ ∃ c ∈ cs, c.txNr = n ∧ Wanted env own f c := by
  have hmin : idx.mMinTransactionNr = 1 := by rw [h.dates.minNr, if_neg hne]
  have hmax := h.dates.maxNr
  rw [h.collects.mem_aggregate (fun c hc => by rw [hmin, hmax]; exact h.txNr_bounds hc) hf hrange]
  refine and_congr_right fun h1 => and_congr_right fun h2 => ⟨?_, .inr⟩
  rintro (hall | hw)
  · obtain ⟨c, hcs, rfl⟩ := h.exists_txNr (le_trans hlo h1) (le_trans h2 hhi)
    exact ⟨c, hcs, rfl, hall.wanted c⟩
  · exact hw

end Aggregate

/-! ### Pages -/

/-- What `findTransactions` cuts out of a result set. -/
def pageOf (f : CompactFilter) (resultSet : Bitmap) : List ℕ :=
  if resultSet.cardinality = 0 ∨ resultSet.cardinality ≤ f.pagination.skipEntriesCount then []
  else if f.pagination.size ≠ 0 then page f resultSet
  else
    match f.searchDirection with
    | .desc => resultSet.toList.reverse
    | .asc => resultSet.toList

theorem findTransactions_eq_pageOf (idx : TransactionsIndex) (f : CompactFilter)
    (h : idx.mMaxTransactionNr ≠ 0) :
    idx.findTransactions f = pageOf f ((idx.aggregateTransactions f).getD .empty) := by
  unfold findTransactions pageOf
  rw [if_neg (fun hzero => h hzero.2)]
  cases idx.aggregateTransactions f with
  | none => rfl
  | some resultSet => rfl

/-- Without pagination the whole result set is returned. -/
theorem mem_pageOf_of_size_zero {f : CompactFilter} (hsize : f.pagination.size = 0) {b : Bitmap}
    {n : ℕ} : n ∈ pageOf f b ↔ n ∈ b := by
  unfold pageOf
  have hskip : f.pagination.skipEntriesCount = 0 := by
    simp [Pagination.skipEntriesCount, hsize]
  rw [hskip]
  split_ifs with hempty hnone
  · have hzero : b = .empty := Bitmap.cardinality_eq_zero.1 (by omega)
    subst hzero
    simp
  · exact absurd hsize hnone
  · cases f.searchDirection <;> simp [Bitmap.mem_def]

/-- A page of one, searched from the end, is the largest number. -/
theorem pageOf_last {f : CompactFilter} (hsize : f.pagination.size = 1)
    (hskip : f.pagination.skipEntriesCount = 0) (hdesc : f.searchDirection = .desc) (b : Bitmap) :
    pageOf f b = b.toList.getLast?.toList := by
  unfold pageOf
  rw [hskip, hsize]
  split_ifs with hempty hnone
  · have hzero : b = .empty := Bitmap.cardinality_eq_zero.1 (by omega)
    subst hzero
    rfl
  · have hcard : b.toList.length ≠ 0 := by
      rw [not_or] at hempty
      exact hempty.1
    unfold page
    rw [hdesc, hsize, hskip]
    simp only [true_or, if_true, Nat.sub_zero]
    rw [Bitmap.select, Bitmap.cardinality, ← List.getLast?_eq_getElem?]
    cases hlast : b.toList.getLast? with
    | none => simp [List.getLast?_eq_none_iff.1 hlast] at hcard
    | some n => rfl
  · exact absurd (by decide) hnone

/-- **A search for one transaction from the end** finds the latest one that a filter asks for. -/
theorem Indexes.findTransactions_last {env : Env} {own : ℕ} {cs : List ConfirmedGradidoTx}
    {idx : TransactionsIndex} (h : Indexes env own cs idx) (hne : cs ≠ []) {f : CompactFilter}
    (hf : Plain f) (hsize : f.pagination.size = 1) (hskip : f.pagination.skipEntriesCount = 0)
    (hdesc : f.searchDirection = .desc) {hi : ℕ} (hrange : idx.calculateTxRange f = some (1, hi))
    (hhi : hi ≤ cs.length) :
    idx.findTransactions f =
      ((latest (fun c => Wanted env own f c ∧ c.txNr ≤ hi) cs).map
        ConfirmedGradidoTx.txNr).toList := by
  have hmax : idx.mMaxTransactionNr ≠ 0 := by
    rw [h.dates.maxNr]
    exact fun hzero => hne (List.length_eq_zero_iff.1 hzero)
  rw [findTransactions_eq_pageOf idx f hmax, pageOf_last hsize hskip hdesc]
  have hmem := h.mem_aggregate hne hf hrange le_rfl hhi
  generalize (idx.aggregateTransactions f).getD .empty = b at hmem
  congr 1
  cases hlatest : latest (fun c => Wanted env own f c ∧ c.txNr ≤ hi) cs with
  | none =>
    rw [latest_eq_none_iff] at hlatest
    have hempty : b = .empty := by
      ext n
      rw [hmem]
      refine iff_of_false ?_ (Bitmap.not_mem_empty n)
      rintro ⟨-, hle, c, hc, rfl, hw⟩
      exact hlatest c hc ⟨hw, hle⟩
    rw [hempty]
    rfl
  | some c =>
    obtain ⟨hc, ⟨hw, hle⟩, hlast⟩ := (latest_eq_some_iff_of_numbered h.numbered).1 hlatest
    rw [Option.map_some, Bitmap.getLast?_eq_some_iff]
    refine ⟨(hmem _).2 ⟨(h.txNr_bounds hc).1, hle, c, hc, rfl, hw⟩, ?_⟩
    intro m hm
    obtain ⟨-, hle', c', hc', rfl, hw'⟩ := (hmem m).1 hm
    exact hlast c' hc' ⟨hw', hle'⟩

section Range

variable {env : Env} {own : ℕ} {cs : List ConfirmedGradidoTx} {idx : TransactionsIndex}

/-- The first date is not after the latest one. -/
theorem Indexes.not_maxDate_lt_minDate (h : Indexes env own cs idx) (hne : cs ≠ []) :
    ¬ idx.mMaxDate < idx.mMinDate := by
  rw [h.dates.maxDate, h.dates.minDate]
  cases cs with
  | nil => exact absurd rfl hne
  | cons c cs => exact latestDate_ge List.mem_cons_self

/-- The upper end of a range, with the largest number that a filter allows. -/
def cappedNr (f : CompactFilter) (hi : ℕ) : ℕ :=
  if f.maxTransactionNr ≠ 0 ∧ f.maxTransactionNr < hi then f.maxTransactionNr else hi

theorem le_cappedNr {f : CompactFilter} {hi n : ℕ} :
    n ≤ cappedNr f hi ↔ n ≤ hi ∧ (f.maxTransactionNr = 0 ∨ n ≤ f.maxTransactionNr) := by
  unfold cappedNr
  split_ifs <;> omega

/-- Without an interval the range is everything that the index has seen, within the bounds of the
filter. -/
theorem calculateTxRange_of_isEmpty {f : CompactFilter} (hdates : ¬ idx.mMaxDate < idx.mMinDate)
    (hempty : f.timepointInterval.isEmpty = true) :
    idx.calculateTxRange f =
      if (f.minTransactionNr ≠ 0 ∧ idx.mMaxTransactionNr < f.minTransactionNr) ∨
        (f.maxTransactionNr ≠ 0 ∧ f.maxTransactionNr < idx.mMinTransactionNr) then none
      else some (max f.minTransactionNr idx.mMinTransactionNr,
        cappedNr f idx.mMaxTransactionNr) := by
  unfold calculateTxRange
  simp only [hempty, if_true, ne_eq, not_true_eq_false, or_self, false_and, if_false, hdates]
  have hlower : (if ¬ f.minTransactionNr = 0 ∧ idx.mMinTransactionNr < f.minTransactionNr
      then f.minTransactionNr else idx.mMinTransactionNr) =
      max f.minTransactionNr idx.mMinTransactionNr := by
    split_ifs <;> omega
  rw [hlower, cappedNr]

/-- **Without an interval** the range is the whole chain. -/
theorem Indexes.calculateTxRange_unset (h : Indexes env own cs idx) (hne : cs ≠ [])
    {f : CompactFilter} (hmin : f.minTransactionNr = 0) (hinterval : f.timepointInterval = .unset) :
    idx.calculateTxRange f = some (1, cappedNr f cs.length) := by
  have hminNr : idx.mMinTransactionNr = 1 := by rw [h.dates.minNr, if_neg hne]
  have hempty : f.timepointInterval.isEmpty = true := by
    rw [hinterval]
    rfl
  rw [calculateTxRange_of_isEmpty (h.not_maxDate_lt_minDate hne) hempty, hmin, hminNr,
    h.dates.maxNr]
  rw [if_neg (by omega), max_eq_right (Nat.zero_le 1)]

/-- **A search without bounds** finds every transaction that a filter asks for. -/
theorem Indexes.mem_findTransactions (h : Indexes env own cs idx) {f : CompactFilter} (hf : Plain f)
    (hmin : f.minTransactionNr = 0) (hmax : f.maxTransactionNr = 0)
    (hinterval : f.timepointInterval = .unset) (hpage : f.pagination = ⟨0, 0⟩) (n : ℕ) :
    n ∈ idx.findTransactions f ↔ ∃ c ∈ cs, c.txNr = n ∧ Wanted env own f c := by
  by_cases hne : cs = []
  · subst hne
    simp [findTransactions, h.dates.minNr, h.dates.maxNr]
  · have hmaxNr : idx.mMaxTransactionNr ≠ 0 := by
      rw [h.dates.maxNr]
      exact fun hzero => hne (List.length_eq_zero_iff.1 hzero)
    have hcapped : cappedNr f cs.length = cs.length := by simp [cappedNr, hmax]
    have hrange := h.calculateTxRange_unset hne hmin hinterval
    rw [hcapped] at hrange
    rw [findTransactions_eq_pageOf idx f hmaxNr,
      mem_pageOf_of_size_zero (by rw [hpage]),
      h.mem_aggregate hne hf hrange le_rfl le_rfl]
    constructor
    · rintro ⟨-, -, hc⟩
      exact hc
    · rintro ⟨c, hc, rfl, hw⟩
      exact ⟨(h.txNr_bounds hc).1, (h.txNr_bounds hc).2, c, hc, rfl, hw⟩

/-- The bounds of a filter cut the range that its interval stands for. -/
theorem calculateTxRange_eq_bounded (idx : TransactionsIndex) (f : CompactFilter) :
    idx.calculateTxRange f =
      if (f.minTransactionNr ≠ 0 ∧ idx.mMaxTransactionNr < f.minTransactionNr) ∨
        (f.maxTransactionNr ≠ 0 ∧ f.maxTransactionNr < idx.mMinTransactionNr) then none
      else (idx.calculateTxRange { f with minTransactionNr := 0, maxTransactionNr := 0 }).map
        (fun range => (max f.minTransactionNr range.1, cappedNr f range.2)) := by
  have hlower : ∀ n, (if f.minTransactionNr ≠ 0 ∧ n < f.minTransactionNr
      then f.minTransactionNr else n) = max f.minTransactionNr n := by
    intro n
    split_ifs <;> omega
  unfold calculateTxRange
  dsimp only
  simp only [ne_eq, not_true_eq_false, false_and, or_self, if_false]
  by_cases hout : (f.minTransactionNr ≠ 0 ∧ idx.mMaxTransactionNr < f.minTransactionNr) ∨
      (f.maxTransactionNr ≠ 0 ∧ f.maxTransactionNr < idx.mMinTransactionNr)
  · rw [if_pos hout, if_pos hout]
  · rw [if_neg hout, if_neg hout]
    simp only [apply_ite (Option.map _), Option.map_none, Option.map_some]
    simp only [ne_eq] at hlower
    simp only [hlower, cappedNr, ne_eq]

/-- The day table of the index. -/
theorem Indexes.dayTable (h : Indexes env own cs idx) (horder : InOrder cs) :
    DayTable cs idx where
  minDate := h.dates.minDate
  maxDate := h.dates.maxDate
  cells := h.dates.cells
  minNr := by
    intro hne
    rw [h.dates.minNr, if_neg hne]
  bounds := by
    intro c hc
    rw [h.dates.minNr, if_neg (List.ne_nil_of_mem hc), h.dates.maxNr]
    exact h.txNr_bounds hc
  numbered := h.numbered
  dated := by
    refine List.pairwise_iff_getElem.2 ?_
    intro k l hk hl hkl
    exact horder.date_le (List.getElem?_eq_getElem hk) (List.getElem?_eq_getElem hl) hkl.le
  days := fun c hc => (horder.civilDate hc).calendarDate

/-- An interval that ends before the first day has no range. -/
theorem Indexes.calculateTxRange_before (h : Indexes env own cs idx) {f : CompactFilter}
    (hinterval : f.timepointInterval.isEmpty = false)
    (hfirst : timepointAsYearMonthDay f.timepointInterval.endDate < firstDate cs) :
    idx.calculateTxRange f = none := by
  unfold calculateTxRange
  rw [h.dates.minDate, hinterval]
  by_cases hnr : (f.minTransactionNr ≠ 0 ∧ idx.mMaxTransactionNr < f.minTransactionNr) ∨
      (f.maxTransactionNr ≠ 0 ∧ f.maxTransactionNr < idx.mMinTransactionNr)
  · rw [if_pos hnr]
  · rw [if_neg hnr]
    simp [hfirst]

/-- An interval that ends before the first day finds nothing. -/
theorem Indexes.findTransactions_before (h : Indexes env own cs idx) {f : CompactFilter}
    (hinterval : f.timepointInterval.isEmpty = false)
    (hfirst : timepointAsYearMonthDay f.timepointInterval.endDate < firstDate cs) :
    idx.findTransactions f = [] := by
  simp [findTransactions, aggregateTransactions, h.calculateTxRange_before hinterval hfirst]

/-- The range of an interval, with the largest number that a filter allows. -/
theorem Indexes.calculateTxRange_eq (h : Indexes env own cs idx) (hne : cs ≠ [])
    {f : CompactFilter} (hmin : f.minTransactionNr = 0)
    (hset : f.timepointInterval.isEmpty = false) :
    idx.calculateTxRange f = (idx.rangeOfDates
      (timepointAsYearMonthDay f.timepointInterval.startDate)
      (timepointAsYearMonthDay f.timepointInterval.endDate)).map
        (fun range => (range.1, cappedNr f range.2)) := by
  have hrange : idx.calculateTxRange { f with minTransactionNr := 0, maxTransactionNr := 0 } = _ :=
    calculateTxRange_eq_rangeOfDates rfl rfl hset
  rw [calculateTxRange_eq_bounded, hrange, hmin, h.dates.minNr, if_neg hne, if_neg (by omega)]
  simp only [Nat.zero_max]

/-- **A search over an interval** without pages finds the transactions that its range stands for
and that a filter asks for. -/
theorem Indexes.mem_findTransactions_covers (h : Indexes env own cs idx) (hne : cs ≠ [])
    {f : CompactFilter} (hf : Plain f) (hmin : f.minTransactionNr = 0)
    (hsize : f.pagination.size = 0) (hset : f.timepointInterval.isEmpty = false)
    {P : ConfirmedGradidoTx → Prop}
    (hcovers : Covers cs (idx.rangeOfDates
      (timepointAsYearMonthDay f.timepointInterval.startDate)
      (timepointAsYearMonthDay f.timepointInterval.endDate)) P)
    (hbounds : ∀ lo hi, idx.rangeOfDates
      (timepointAsYearMonthDay f.timepointInterval.startDate)
      (timepointAsYearMonthDay f.timepointInterval.endDate) = some (lo, hi) →
      1 ≤ lo ∧ hi ≤ idx.mMaxTransactionNr) (n : ℕ) :
    n ∈ idx.findTransactions f ↔ ∃ c ∈ cs, c.txNr = n ∧ Wanted env own f c ∧
      (f.maxTransactionNr = 0 ∨ c.txNr ≤ f.maxTransactionNr) ∧ P c := by
  have hmaxNr : idx.mMaxTransactionNr ≠ 0 := by
    rw [h.dates.maxNr]
    exact fun hzero => hne (List.length_eq_zero_iff.1 hzero)
  rw [findTransactions_eq_pageOf idx f hmaxNr, mem_pageOf_of_size_zero hsize]
  have hrange := h.calculateTxRange_eq hne hmin hset
  generalize idx.rangeOfDates _ _ = range at hcovers hbounds hrange
  obtain ⟨hnone, hmem⟩ := hcovers
  cases range with
  | none =>
    refine iff_of_false (by simp [aggregateTransactions, hrange]) ?_
    rintro ⟨c, hc, -, -, -, hP⟩
    exact hnone.1 rfl c hc hP
  | some range =>
    obtain ⟨lo, hi⟩ := range
    obtain ⟨hlo, hhi⟩ := hbounds lo hi rfl
    rw [h.dates.maxNr] at hhi
    have hcapped : cappedNr f hi ≤ cs.length := ((le_cappedNr.1 le_rfl).1).trans hhi
    rw [h.mem_aggregate hne hf hrange hlo hcapped]
    constructor
    · rintro ⟨h1, h2, c, hc, rfl, hw⟩
      obtain ⟨h2, h3⟩ := le_cappedNr.1 h2
      exact ⟨c, hc, rfl, hw, h3, (hmem lo hi rfl c hc).1 ⟨h1, h2⟩⟩
    · rintro ⟨c, hc, rfl, hw, h3, hP⟩
      obtain ⟨h1, h2⟩ := (hmem lo hi rfl c hc).2 hP
      exact ⟨h1, le_cappedNr.2 ⟨h2, h3⟩, c, hc, rfl, hw⟩

/-- **An interval from the epoch on** stands for the transactions up to its last day. -/
theorem Indexes.calculateTxRange_upTo (h : Indexes env own cs idx) (hne : cs ≠ [])
    (horder : InOrder cs) {f : CompactFilter} (hmin : f.minTransactionNr = 0) {e : ℤ} (he : 0 < e)
    (hinterval : f.timepointInterval = ⟨0, e⟩)
    (hfirst : ¬ timepointAsYearMonthDay e < firstDate cs) :
    ∃ hi, idx.calculateTxRange f = some (1, cappedNr f hi) ∧
      IsLast cs (fun c => ¬ timepointAsYearMonthDay e < c.date) hi := by
  have hset : f.timepointInterval.isEmpty = false := by
    rw [hinterval]
    simp [TimepointInterval.isEmpty, he.ne']
  obtain ⟨v, -, hlast, hrange⟩ := (h.dayTable horder).upTo_unset hne
    (civilDate_timepoint he).calendarDate hfirst
  have hminNr : idx.mMinTransactionNr = 1 := by rw [h.dates.minNr, if_neg hne]
  rw [hminNr] at hrange
  refine ⟨v, ?_, hlast⟩
  rw [h.calculateTxRange_eq hne hmin hset, hinterval]
  change (idx.rangeOfDates zeroDate (timepointAsYearMonthDay e)).map _ = _
  rw [hrange, Option.map_some]

/-- **An interval that does not start before the first day** stands for the transactions of its
days. -/
theorem Indexes.calculateTxRange_between (h : Indexes env own cs idx) (hne : cs ≠ [])
    (horder : InOrder cs) {f : CompactFilter} (hmin : f.minTransactionNr = 0) {s e : ℤ}
    (hs : 0 < s) (hse : s ≤ e) (hinterval : f.timepointInterval = ⟨s, e⟩)
    (hfirst : ¬ timepointAsYearMonthDay s < firstDate cs) :
    (idx.calculateTxRange f = none ∧ ∀ c ∈ cs,
      ¬ (¬ c.date < timepointAsYearMonthDay s ∧ ¬ timepointAsYearMonthDay e < c.date)) ∨
    ∃ lo hi, idx.calculateTxRange f = some (lo, cappedNr f hi) ∧ 1 ≤ lo ∧ hi ≤ cs.length ∧
      ∀ c ∈ cs, lo ≤ c.txNr ∧ c.txNr ≤ hi ↔
        ¬ c.date < timepointAsYearMonthDay s ∧ ¬ timepointAsYearMonthDay e < c.date := by
  have hdates : ¬ timepointAsYearMonthDay e < timepointAsYearMonthDay s :=
    timepointAsYearMonthDay_mono hse (by omega) (by omega)
  have hset : f.timepointInterval.isEmpty = false := by
    rw [hinterval]
    simp [TimepointInterval.isEmpty, hs.ne']
  obtain ⟨⟨hnone, hmem⟩, hbounds⟩ := (h.dayTable horder).covers_between hne
    (civilDate_timepoint hs).calendarDate
    (civilDate_timepoint (lt_of_lt_of_le hs hse)).calendarDate hdates hfirst
  rw [h.calculateTxRange_eq hne hmin hset, hinterval]
  dsimp only
  generalize idx.rangeOfDates _ _ = range at *
  cases range with
  | none => exact .inl ⟨rfl, hnone.1 rfl⟩
  | some range =>
    obtain ⟨lo, hi⟩ := range
    obtain ⟨hlo, hhi⟩ := hbounds lo hi rfl
    rw [h.dates.maxNr] at hhi
    exact .inr ⟨lo, hi, rfl, hlo, hhi, hmem lo hi rfl⟩

/-- **A search over days** without pages finds the transactions of these days that a filter asks
for. -/
theorem Indexes.mem_findTransactions_between (h : Indexes env own cs idx) (horder : InOrder cs)
    {f : CompactFilter} (hf : Plain f) (hmin : f.minTransactionNr = 0)
    (hpage : f.pagination = ⟨0, 0⟩) {s e : ℤ} (hs : 0 < s) (hse : s ≤ e)
    (hinterval : f.timepointInterval = ⟨s, e⟩)
    (hfirst : ¬ timepointAsYearMonthDay s < firstDate cs) (n : ℕ) :
    n ∈ idx.findTransactions f ↔ ∃ c ∈ cs, c.txNr = n ∧ Wanted env own f c ∧
      (f.maxTransactionNr = 0 ∨ c.txNr ≤ f.maxTransactionNr) ∧
      ¬ c.date < timepointAsYearMonthDay s ∧ ¬ timepointAsYearMonthDay e < c.date := by
  by_cases hne : cs = []
  · subst hne
    simp [findTransactions, h.dates.minNr, h.dates.maxNr]
  have hset : f.timepointInterval.isEmpty = false := by
    rw [hinterval]
    simp [TimepointInterval.isEmpty, hs.ne']
  obtain ⟨hcovers, hbounds⟩ := (h.dayTable horder).covers_between hne
    (civilDate_timepoint hs).calendarDate (civilDate_timepoint (hs.trans_le hse)).calendarDate
    (timepointAsYearMonthDay_mono hse (by omega) (by omega)) hfirst
  exact h.mem_findTransactions_covers hne hf hmin (by rw [hpage]) hset
    (by rw [hinterval]; exact hcovers) (by rw [hinterval]; exact hbounds) n

/-- A search from the end without pages returns the numbers downwards. -/
theorem findTransactions_sorted (idx : TransactionsIndex) {f : CompactFilter}
    (hsize : f.pagination.size = 0) (hdesc : f.searchDirection = .desc) :
    (idx.findTransactions f).Pairwise (· > ·) := by
  unfold findTransactions
  by_cases hempty : idx.mMinTransactionNr = 0 ∧ idx.mMaxTransactionNr = 0
  · rw [if_pos hempty]
    exact .nil
  rw [if_neg hempty]
  cases idx.aggregateTransactions f with
  | none => exact .nil
  | some resultSet =>
    simp only [hsize, hdesc, ne_eq, not_true_eq_false, if_false]
    split_ifs
    · exact .nil
    · exact List.pairwise_reverse.2 resultSet.sorted

end Range

end TransactionsIndex

end Gradido
