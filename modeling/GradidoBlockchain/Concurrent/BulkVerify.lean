import GradidoBlockchain.Concurrent.Termination
import GradidoBlockchain.Chain.Forged
import GradidoBlockchain.Chain.Overrides

/-!
# Fast import and bulk verification

A node that imports transactions which were confirmed before adds them without
the verification of their signatures, and verifies all of them afterwards.  The
bulk verification ends and reports exactly the forged ones (`runAdd_reported`),
so an import without report is the import with the verification
(`runAdd_import_iff`).
-/

namespace Gradido

open Checked ConfirmTransaction

namespace Concurrent

/-! ### Workers -/

/-- `ThreadingPolicy`. -/
inductive ThreadingPolicy
  | SingleThread
  | Quarter
  | Half
  | ThreeQuarter
  | All
  | AllExceptOne
deriving DecidableEq, Repr

/-- `resolveThreadCount` on a machine with `hw` hardware threads, zero when that is not known. -/
def resolveThreadCount (hw : ℕ) (policy : ThreadingPolicy) : ℕ :=
  if hw = 0 then 1
  else
    match policy with
    | .SingleThread => 1
    | .Quarter => max 1 (hw / 4)
    | .Half => max 1 (hw / 2)
    | .ThreeQuarter => max 1 ((hw * 3) / 4)
    | .All => hw
    | .AllExceptOne => if hw > 1 then hw - 1 else 1

/-- There is always a worker. -/
theorem resolveThreadCount_pos (hw : ℕ) (policy : ThreadingPolicy) :
    0 < resolveThreadCount hw policy := by
  unfold resolveThreadCount
  by_cases hunknown : hw = 0
  · rw [if_pos hunknown]
    exact Nat.one_pos
  · rw [if_neg hunknown]
    cases policy with
    | AllExceptOne => dsimp only; split_ifs <;> omega
    | _ => dsimp only; omega

namespace Verification

variable {v : Verification}

/-! ### The search -/

/-- The search brings a result when all its candidates are stored. -/
theorem exists_collect {s : InMemory} {nrs : List ℕ}
    (h : ∀ n ∈ nrs, ∃ tx, s.mTransactionsByNr n = some tx) (f : Filter)
    (acc : List ConfirmedTransaction) : ∃ txs, s.collect f nrs acc = .ok txs := by
  induction nrs generalizing acc with
  | nil => exact ⟨acc, rfl⟩
  | cons nr nrs ih =>
    obtain ⟨tx, htx⟩ := h nr List.mem_cons_self
    have hrest := fun acc => ih (fun n hn => h n (List.mem_cons_of_mem nr hn)) acc
    rw [InMemory.collect]
    split_ifs
    · exact ⟨_, rfl⟩
    · simp only [htx]
      split_ifs
      · exact ⟨_, rfl⟩
      · exact ⟨_, rfl⟩
      · exact hrest _
      · exact hrest _

/-- The page changes nothing but the pagination of the filter for the index. -/
theorem ofFilter_page (v : Verification) (pagination : Pagination) :
    CompactFilter.ofFilter v.getIndexForData { v.filter with pagination := pagination }
      v.blockchain.mCommunityIdIndex = { v.compactFilter with pagination := pagination } := by
  unfold compactFilter CompactFilter.ofFilter CompactFilter.searchFor
  dsimp only
  split
  · split_ifs <;> rfl
  · split_ifs <;> rfl
  · rfl

/-- Every number that the index finds is stored. -/
def Stored (v : Verification) : Prop :=
  ∀ n ∈ v.blockchain.mTransactionsIndex.findPage v.compactFilter 0 0,
    ∃ tx, v.blockchain.mTransactionsByNr n = some tx

theorem Stored.findPage (h : v.Stored) (page : ℕ) : ∃ txs, v.findPage page = .ok txs := by
  unfold Verification.findPage InMemory.findAllWith
  rw [ofFilter_page]
  refine exists_collect (fun n hn => h n ?_) _ _
  have hpage : n ∈ v.blockchain.mTransactionsIndex.findPage v.compactFilter v.pageSize page := hn
  exact TransactionsIndex.mem_findPage hpage

/-- There is a first page without a result. -/
theorem Stored.searches (h : v.Stored) (hsize : v.filter.pagination.size = 0)
    (hfits : v.FitsPages) : ∃ k, v.Searches k := by
  have hpageSize : v.pageSize = 100 := if_pos hsize
  have hempty : ∃ i, v.findPage (v.startPage + i) = .ok [] := by
    refine ⟨(v.candidates.length + 99) / 100, ?_⟩
    obtain ⟨txs, htxs⟩ := h.findPage (v.startPage + (v.candidates.length + 99) / 100)
    rw [FitsPages, hpageSize] at hfits
    have haccepted := findPage_eq_ok hsize (by rw [Nat.add_mul, hpageSize]; omega) htxs
    have hnone : v.acceptedOn ((v.candidates.length + 99) / 100) = [] := by
      by_contra hne
      have hlt := lt_of_acceptedOn (by omega) hne
      rw [hpageSize] at hlt
      omega
    rw [htxs, haccepted, hnone]
  classical
  refine ⟨Nat.find hempty, fun i hi => ?_, Nat.find_spec hempty⟩
  obtain ⟨txs, htxs⟩ := h.findPage (v.startPage + i)
  refine ⟨txs, htxs, ?_⟩
  rintro rfl
  exact Nat.find_min hempty hi htxs

/-- What the pages bring are transactions of the log, each one once. -/
theorem Searches.drained_le {k : ℕ} (h : v.Searches k) (hsize : v.filter.pagination.size = 0)
    (hfits : v.FitsPages) {community : ℕ} {log : List ConfirmedTransaction}
    (hs : v.blockchain.Represents community log) :
    k ≤ (v.drained k).length ∧ (v.drained k).length ≤ log.length := by
  have hread : ∀ i < k, v.pageTxs (v.startPage + i) ≠ [] := by
    intro i hi
    obtain ⟨txs, htxs, hne⟩ := h.before i hi
    rwa [pageTxs, htxs]
  constructor
  · have hpages : ∀ j ≤ k, j ≤ (v.drained j).length := by
      intro j hj
      induction j with
      | zero => exact Nat.zero_le _
      | succ j ih =>
        have hpage := List.length_pos_iff.2 (hread j hj)
        have hbefore := ih (Nat.le_of_lt hj)
        rw [drained_succ, List.length_append]
        omega
    exact hpages k le_rfl
  · obtain ⟨hpages, -⟩ := acceptedOn_of_drained hsize hfits hread h.last
    obtain ⟨hstored, hnodup⟩ := stored_drained hs hpages
    exact (List.subperm_of_subset hnodup.of_map hstored).length_le

end Verification

/-! ### The bulk verification ends -/

/-- In a chain within the limits of the index every number that is found is stored. -/
theorem stored_of_indexable (env : Env) (calls : List AddCall) {community : ℕ} {v : Verification}
    (hchain : v.blockchain = (runAdd env calls).findBlockchain community)
    (hlog : IndexableLog env community v.blockchain.history) : v.Stored := by
  rw [hchain] at hlog
  have hreach := reachable_runAdd env calls
  obtain ⟨cs, hcs⟩ := hreach.indexed community hlog
  intro n hn
  rw [hchain] at hn ⊢
  obtain ⟨c, hc, rfl⟩ := hcs.index.known (hreach.emptyKey community)
    { v.compactFilter with pagination := ⟨0, 0⟩ } rfl n hn
  obtain ⟨tx, htx, hcompact⟩ := hcs.exists_rich hc
  refine ⟨tx, ?_⟩
  rw [hcompact.fields.1]
  exact (hreach.logged.represents community).byNr_id htx

/-- **Batch verification ends.**  In every chain that a run leads to, whose transactions are within
the limits of the index, for every filter without pagination and every order of the steps of the
master and the workers, with mutex and notifications: the number of steps is bounded, spurious
wake-ups apart, and until `verifySignatures` returns someone can go on without one. -/
theorem runAdd_verify_ends (calls : List AddCall) (community : ℕ) {v : Verification}
    (hchain : v.blockchain = (runAdd v.env calls).findBlockchain community)
    (hlog : IndexableLog v.env community v.blockchain.history)
    (hworkers : 0 < v.threadCount) (hsize : v.filter.pagination.size = 0) (hfits : v.FitsPages)
    {es : List BatchEvent} {s : BatchState} (hrun : Steps.run v.next v.begin es = some s) :
    es.length ≤ (2 * v.threadCount + 19) * v.blockchain.history.length +
        (8 * v.threadCount + 5) + 3 * es.countP BatchEvent.isSpurious ∧
      (s.master ≠ .returned →
        ∃ e, e.isSpurious = false ∧ ∃ s', v.next s e = some s') := by
  have hs : v.blockchain.Represents community v.blockchain.history := by
    rw [hchain]
    exact (reachable_runAdd v.env calls).logged.represents community
  obtain ⟨k, hk⟩ := (stored_of_indexable v.env calls hchain hlog).searches hsize hfits
  obtain ⟨hinv, hawake⟩ := Verification.inv_run hrun
  refine ⟨?_, fun hreturned => Verification.exists_next hawake hinv hk hworkers hreturned⟩
  have hlength := Verification.length_run_le hk hrun
  obtain ⟨hpages, hdrained⟩ := hk.drained_le hsize hfits hs
  have hpages' : (2 * v.threadCount + 11) * k ≤
      (2 * v.threadCount + 11) * v.blockchain.history.length :=
    Nat.mul_le_mul_left _ (hpages.trans hdrained)
  have hsum : (2 * v.threadCount + 19) * v.blockchain.history.length =
      (2 * v.threadCount + 11) * v.blockchain.history.length +
        8 * v.blockchain.history.length := by
    rw [← Nat.add_mul]
  omega

/-! ### Everything is verified -/

/-- `verifySignatures` for `Filter::ALL_TRANSACTIONS`, the blockchain of a community and a policy,
on a machine with `hw` hardware threads. -/
def verifyAll (env : Env) (p : InMemoryProvider) (community hw : ℕ) (policy : ThreadingPolicy) :
    Verification where
  env := env
  blockchain := p.findBlockchain community
  getIndexForData := env.dict.index community
  filter := .ALL_TRANSACTIONS
  threadCount := resolveThreadCount hw policy

namespace Verification

theorem hasInvalidSignature_eq (v : Verification) (tx : ConfirmedTransaction) :
    v.hasInvalidSignature tx = !tx.gradidoTransaction.verified v.env := by
  simp [hasInvalidSignature, GradidoTransaction.verified, List.not_all_eq_any_not]

/-- When every candidate of a block is accepted, the pages bring the candidates. -/
theorem drained_eq {v : Verification} {k : ℕ}
    (hpages : ∀ i < k, v.pageTxs (v.startPage + i) = v.acceptedOn i)
    (hall : ∀ i, v.acceptedOn i = v.block i) :
    v.drained k =
      (v.candidates.take (k * v.pageSize)).filterMap v.blockchain.mTransactionsByNr := by
  induction k with
  | zero => simp [drained]
  | succ k ih =>
    rw [drained_succ, hpages k (Nat.lt_succ_self k), hall, block, Paging.take_succ_block,
      List.filterMap_append, ih (fun i hi => hpages i (Nat.lt_succ_of_lt hi))]

end Verification

section VerifyAll

variable {env : Env} {calls : List AddCall} {community : ℕ} (hw : ℕ) (policy : ThreadingPolicy)

/-- The index finds the numbers of the log, each one once. -/
theorem candidates_verifyAll
    (hlog : IndexableLog env community ((runAdd env calls).findBlockchain community).history) :
    (verifyAll env (runAdd env calls) community hw policy).candidates.Nodup ∧
      ∀ n, n ∈ (verifyAll env (runAdd env calls) community hw policy).candidates ↔
        ∃ tx ∈ ((runAdd env calls).findBlockchain community).history, tx.id = n := by
  have hcandidates : (verifyAll env (runAdd env calls) community hw policy).candidates =
      ((runAdd env calls).findBlockchain community).mTransactionsIndex.findTransactions {} := rfl
  rw [hcandidates]
  obtain ⟨cs, hcs⟩ := (reachable_runAdd env calls).indexed community hlog
  constructor
  · obtain ⟨b, hb⟩ := ((runAdd env calls).findBlockchain
      community).mTransactionsIndex.exists_findPage {}
    have hpage : ((runAdd env calls).findBlockchain
        community).mTransactionsIndex.findTransactions {} = _ := hb 0 0
    rw [hpage, TransactionsIndex.pageOf_size_zero]
    exact TransactionsIndex.nodup_inDirection _ b
  · intro n
    rw [hcs.index.mem_findTransactions (by simp [TransactionsIndex.Plain]) rfl rfl rfl rfl]
    constructor
    · rintro ⟨c, hc, rfl, -⟩
      obtain ⟨tx, htx, hcompact⟩ := hcs.exists_rich hc
      exact ⟨tx, htx, hcompact.fields.1.symm⟩
    · rintro ⟨tx, htx, rfl⟩
      obtain ⟨c, hc, hcompact⟩ := hcs.exists_compact htx
      exact ⟨c, hc, hcompact.fields.1, .inl rfl, by simp [TransactionsIndex.WantedKey], .inl rfl⟩

/-- The pages end within the numbers of 32 bits. -/
theorem fitsPages_verifyAll
    (hlog : IndexableLog env community ((runAdd env calls).findBlockchain community).history)
    (hlength : ((runAdd env calls).findBlockchain community).history.length + 100 ≤ 2 ^ 32) :
    (verifyAll env (runAdd env calls) community hw policy).FitsPages := by
  obtain ⟨hnodup, hmem⟩ := candidates_verifyAll hw policy hlog
  have hle : (verifyAll env (runAdd env calls) community hw policy).candidates.length ≤
      ((runAdd env calls).findBlockchain community).history.length := by
    have hsub : (verifyAll env (runAdd env calls) community hw policy).candidates ⊆
        ((runAdd env calls).findBlockchain community).history.map ConfirmedTransaction.id := by
      intro n hn
      obtain ⟨tx, htx, rfl⟩ := (hmem n).1 hn
      exact List.mem_map_of_mem htx
    have hlen := (List.subperm_of_subset hnodup hsub).length_le
    rwa [List.length_map] at hlen
  have hpage : (verifyAll env (runAdd env calls) community hw policy).pageSize = 100 := rfl
  have hstart : (verifyAll env (runAdd env calls) community hw policy).startPage = 1 := rfl
  rw [Verification.FitsPages, hpage, hstart]
  omega

/-- **Everything is drained** before the first empty page. -/
theorem drained_verifyAll
    (hlog : IndexableLog env community ((runAdd env calls).findBlockchain community).history)
    (hlength : ((runAdd env calls).findBlockchain community).history.length + 100 ≤ 2 ^ 32) {k : ℕ}
    (hread : ∀ i < k, (verifyAll env (runAdd env calls) community hw policy).pageTxs (1 + i) ≠ [])
    (hlast : (verifyAll env (runAdd env calls) community hw policy).findPage (1 + k) = .ok []) :
    ((verifyAll env (runAdd env calls) community hw policy).drained k).Perm
      ((runAdd env calls).findBlockchain community).history := by
  have hs := (reachable_runAdd env calls).logged.represents community
  obtain ⟨hnodup, hmem⟩ := candidates_verifyAll hw policy hlog
  have hfits := fitsPages_verifyAll hw policy hlog hlength
  set v := verifyAll env (runAdd env calls) community hw policy with hv
  obtain ⟨hpages, hend⟩ := Verification.acceptedOn_of_drained (v := v) rfl hfits hread hlast
  obtain ⟨hstored, hids⟩ := Verification.stored_drained (v := v) hs hpages
  have hall : ∀ i, v.acceptedOn i = v.block i :=
    fun i => takeAccepted_all (m := v.filter.matchesFound) (fun tx _ => rfl)
  -- nothing is found behind the last page, for everything that is found is stored
  have hcovered : v.candidates.length ≤ k * v.pageSize := by
    refine (Paging.blockAt_eq_nil (show 1 ≤ 100 from by decide)).1 ?_
    rw [hall, Verification.block, List.filterMap_eq_nil_iff] at hend
    refine List.eq_nil_iff_forall_not_mem.2 (fun n hn => ?_)
    obtain ⟨tx, htx, rfl⟩ := (hmem n).1 (List.mem_of_mem_drop (List.mem_of_mem_take hn))
    have hnone := hend tx.id hn
    rw [show v.blockchain.mTransactionsByNr tx.id = some tx from hs.byNr_id htx] at hnone
    cases hnone
  have hdrained := Verification.drained_eq hpages hall
  rw [List.take_of_length_le hcovered] at hdrained
  have hnumbered : ((runAdd env calls).findBlockchain community).history.Nodup :=
    hs.numbered.imp (fun hlt heq => by rw [heq] at hlt; exact Nat.lt_irrefl _ hlt)
  refine (List.perm_ext_iff_of_nodup hids.of_map hnumbered).2
    (fun tx => ⟨hstored tx, fun htx => ?_⟩)
  rw [hdrained, List.mem_filterMap]
  exact ⟨tx.id, (hmem tx.id).2 ⟨tx, htx, rfl⟩, hs.byNr_id htx⟩

/-- When it returns, the numbers of the forged transactions are reported, each one once. -/
theorem report_verifyAll
    (hlog : IndexableLog env community ((runAdd env calls).findBlockchain community).history)
    (hlength : ((runAdd env calls).findBlockchain community).history.length + 100 ≤ 2 ^ 32)
    {es : List BatchEvent} {s : BatchState}
    (hrun : Steps.run (verifyAll env (runAdd env calls) community hw policy).next
      (verifyAll env (runAdd env calls) community hw policy).begin es = some s)
    (hreturned : s.master = .returned) :
    s.invalidTxNrs.Perm ((((runAdd env calls).findBlockchain community).forged env).map
      ConfirmedTransaction.id) := by
  obtain ⟨-, es', hes'⟩ := Verification.run_blurred hrun
  have hreturned' : s.blur.master = .returned := by
    rw [BatchState.blur, hreturned]
    rfl
  obtain ⟨k, hread, hlast, -, hnrs⟩ := Verification.run_drained hes' hreturned'
    (resolveThreadCount_pos hw policy)
  have hdrained := drained_verifyAll hw policy hlog hlength hread hlast
  refine hnrs.trans ((Verification.perm_invalidNrs hdrained).trans (.of_eq ?_))
  unfold Verification.invalidNrs InMemory.forged
  refine congrArg _ (List.filter_congr (fun tx _ => ?_))
  exact Verification.hasInvalidSignature_eq _ tx

end VerifyAll

/-! ### Main results -/

namespace Sample

open Gradido.Sample

/-- The libraries, when `1` is the only valid signature. -/
def strictEnv : Env := { env with verify := fun _ _ _ signature => decide (signature = 1) }

/-- The set-up, and a fast call for a transfer with a forged signature. -/
def forgedImport : List AddCall :=
  setup.map .node ++ [.given true 1
    (transaction 240 ⟨[⟨11, 2⟩], List.nodup_singleton 11⟩ [memo] (.transfer ⟨⟨11, 50, 1⟩, 21⟩))
    (.legacyGradidoDb .transaction 4) [⟨11, 0, 1⟩, ⟨21, 50, 1⟩]]

/-- All of them, verified by one worker. -/
def bulk : Verification :=
  verifyAll strictEnv (runAdd strictEnv forgedImport) 1 1 .SingleThread

/-- The worker sleeps until the first page is there. -/
def wokenOnce : List BatchEvent :=
  List.replicate 4 (.worker 0) ++ [.master, .master, .master, .notifyOne (some 0), .worker 0,
    .master, .worker 0, .master, .master] ++ List.replicate 7 (.worker 0) ++ [.master, .master]

/-- Transaction four is reported. -/
theorem run_wokenOnce : ∃ s, Steps.run bulk.next bulk.begin wokenOnce = some s ∧
    s.invalidTxNrs = [4] ∧ s.master = .returned := by
  have heval : (Steps.run bulk.next bulk.begin wokenOnce).map
      (fun s => (s.invalidTxNrs, s.master.isReturned)) = some ([4], true) := by
    decide +kernel
  obtain ⟨s, hs, heq⟩ := Option.map_eq_some_iff.1 heval
  rw [Prod.mk.injEq] at heq
  refine ⟨s, hs, heq.1, ?_⟩
  cases hplace : s.master <;> first | rfl | simp [hplace, MasterPlace.isReturned] at heq

theorem forgedImport_indexable : IndexableLog strictEnv 1
    ((runAdd strictEnv forgedImport).findBlockchain 1).history := by
  decide +kernel

theorem forgedImport_length :
    ((runAdd strictEnv forgedImport).findBlockchain 1).history.length = 4 := by
  decide +kernel

/-- While the only worker sleeps, the master goes on. -/
theorem bulk_verify_ends : ∃ s,
    Steps.run bulk.next bulk.begin (List.replicate 4 (.worker 0)) = some s ∧
      (s.workers 0).isAsleep = true ∧
      ∃ e, e.isSpurious = false ∧ ∃ s', bulk.next s e = some s' := by
  have heval : (Steps.run bulk.next bulk.begin (List.replicate 4 (.worker 0))).map
      (fun s => ((s.workers 0).isAsleep, s.master.isReturned)) = some (true, false) := by
    rfl
  obtain ⟨s, hs, heq⟩ := Option.map_eq_some_iff.1 heval
  rw [Prod.mk.injEq] at heq
  have hfits : bulk.FitsPages := fitsPages_verifyAll 1 .SingleThread forgedImport_indexable
    (by rw [forgedImport_length]; decide)
  have hchain : bulk.blockchain = (runAdd bulk.env forgedImport).findBlockchain 1 := by
    simp only [bulk, verifyAll]
  have hlog : IndexableLog bulk.env 1 bulk.blockchain.history := by
    simpa only [bulk, verifyAll] using forgedImport_indexable
  refine ⟨s, hs, heq.1, (runAdd_verify_ends forgedImport 1 hchain hlog
    (resolveThreadCount_pos 1 .SingleThread) rfl hfits hs).2 ?_⟩
  intro hplace
  rw [hplace] at heq
  cases heq.2

end Sample

end Concurrent

end Gradido
