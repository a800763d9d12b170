import GradidoBlockchain.Index.MonthSearch
import GradidoBlockchain.Index.Pages

/-!
# The two indexes

The same transactions, entered into the index by months and into the one of
bitmaps.  `findTransactions_months` and `mem_findTransactions_bitmaps` say what
each of them finds without pages, coin and interval; both lists are in the order
of the search, so that they are the same when they have the same numbers.
`sameAnswer_iff` says exactly for which filters that is so: `Alike` lists what
sets the two indexes apart.
-/

namespace Gradido

open Checked Buckets

namespace ByMonth

open Gradido.TransactionsIndex (Admits Chronological Plain Recorded Seen Unrestricted Upwards
  WantedKey addCalls entered_addCalls firstNr firstNr_pos lastNr january5 january10)

section Agreement

variable {env : Env} {own : ℕ} {cs : List ConfirmedGradidoTx} {f : CompactFilter}
  {idx : TransactionsIndex}

/-- Both indexes return the same list. -/
def SameAnswer (env : Env) (own : ℕ) (cs : List ConfirmedGradidoTx) (idx : TransactionsIndex)
    (f : CompactFilter) : Prop :=
  idx.findTransactions f = .ok ((addCalls env own cs).index.findTransactions f)

/-- What a filter has to respect.

* The balance of a foreign key must not be asked for: the index by months throws.
* A search that nothing but the number restricts needs a transaction for every number between two
  others: the bitmaps are answered with the range.
* What both have must be reached in the buckets: the key must not be without a number, and
  backwards no month may start with a number below the lower bound.
* What the buckets have for the number of a key must stand in the bitmaps of the key itself: it must
  not be empty, nor be a key of another community or one that the body only names. -/
structure Alike (env : Env) (own : ℕ) (cs : List ConfirmedGradidoTx) (f : CompactFilter) :
    Prop where
  community : f.publicKeySearchType = .balanceChangingPublicKey →
    f.publicKeyIndex.communityIdIndex = own
  gapless : Unrestricted own f → ∀ a ∈ cs, ∀ b ∈ cs, ∀ n, a.txNr ≤ n → n ≤ b.txNr → Admits f n →
    ∃ c ∈ cs, c.txNr = n
  reached : ∀ c ∈ cs, Matches env f c → Plain f → WantedKey env f c →
    f.publicKeySearchType ≠ .missingIndex ∧
      (f.searchDirection = .desc → ¬ StartsEarlier cs f c)
  recorded : ∀ c ∈ cs, Matches env f c →
    (f.searchDirection = .desc → ¬ StartsEarlier cs f c) → Plain f ∧ WantedKey env f c

theorem upwards_of_chronological (hcs : Chronological cs) : Upwards cs :=
  ⟨hcs.positive, hcs.numbered⟩

theorem monthly_of_chronological (hcs : Chronological cs) : Monthly cs where
  positive := hcs.positive
  numbered := hcs.numbered
  months := hcs.dated.imp monthOf_mono
  clock := hcs.clock

/-! ### The index by months -/

/-- What the index by months finds. -/
theorem TransactionsIndex.Holds.findTransactions_months (h : idx.Holds env own cs)
    (hcs : Monthly cs) (hsize : f.pagination.size = 0)
    (hunset : f.timepointInterval.isEmpty = true)
    (hown : f.publicKeySearchType = .balanceChangingPublicKey →
      f.publicKeyIndex.communityIdIndex = own) :
    idx.findTransactions f = .ok ((inDirection f (cs.filter (fun c =>
      decide (f.publicKeySearchType ≠ .missingIndex) && found env cs f c))).map
        ConfirmedGradidoTx.txNr) := by
  by_cases hmissing : f.publicKeySearchType = .missingIndex
  · have hnone : cs.filter (fun c =>
        decide (f.publicKeySearchType ≠ .missingIndex) && found env cs f c) = [] :=
      List.filter_eq_nil_iff.2 (fun c _ => by simp [hmissing])
    rw [h.findTransactions_eq hcs hsize, if_pos hmissing, hnone, inDirection_nil, List.map_nil]
  · have hoverlap : f.timepointInterval.isOverlap (spanned cs) = false := by
      simp [TimepointInterval.isOverlap, hunset]
    have hfind := h.findTransactions_of_ordered hcs hsize hmissing hown
      (fun _ hset => by simp [hoverlap] at hset) f.searchDirection
    have hoverlaps : Overlaps cs f := .inl hunset
    have hmonths : ∀ c, InMonths f c := fun _ => .inl hunset
    simp only [hoverlaps, hmonths, and_self, decide_true, Bool.true_and] at hfind
    simp only [hmissing, ne_eq, not_false_eq_true, decide_true, Bool.true_and]
    exact hfind

/-- A transaction that was added has its addresses. -/
theorem getInvolvedAddresses_of_added {idx' : TransactionsIndex}
    (hrun : Steps.run (TransactionsIndex.add env) idx cs = some idx') :
    ∀ c ∈ cs, c.getInvolvedAddresses env = .ok (involved env c) := by
  induction cs generalizing idx with
  | nil => simp
  | cons c cs ih =>
    obtain ⟨idx₁, hadd, hrest⟩ := Steps.run_cons_eq_some.1 hrun
    rw [TransactionsIndex.add_eq_some, TransactionsIndex.addIndicesForTransaction,
      andThen_eq_ok] at hadd
    obtain ⟨-, hadd⟩ := hadd
    intro c' hc'
    rcases List.mem_cons.1 hc' with rfl | hc'
    · unfold involved
      cases haddresses : c'.getInvolvedAddresses env with
      | ok addresses => rfl
      | error e =>
        rw [haddresses] at hadd
        simp at hadd
    · exact ih hrest c' hc'

/-- What the bitmaps have for a key, the buckets have for its number. -/
theorem matches_of_seen {c : ConfirmedGradidoTx} {addresses : List PublicKeyIndex}
    (haddresses : c.getInvolvedAddresses env = .ok addresses) (hcoin : f.coinCommunityIdIndex = 0)
    (hadmits : Admits f c.txNr) (hseen : Seen env own f c) : Matches env f c := by
  obtain ⟨hplain, -, ⟨hbalance, hinvolved⟩, htype⟩ := hseen
  have hlist : involved env c = addresses := by
    rw [involved, haddresses]
    rfl
  have hmem : f.publicKeyIndex.empty = false → Recorded env c f.publicKeyIndex →
      f.publicKeyIndex ∈ involved env c := by
    intro hkey hrecorded
    rw [hlist]
    exact Gradido.TransactionsIndex.mem_getInvolvedAddresses haddresses hkey hrecorded
  refine ⟨htype.imp_right Eq.symm, .inl hcoin, hadmits, fun hsearch => ?_, fun hsearch => ?_⟩
  · have hupdated := hbalance hsearch
    exact ⟨f.publicKeyIndex, hmem (hplain (.inl hsearch)) (.inr (.inr hupdated)), rfl, hupdated⟩
  · exact ⟨f.publicKeyIndex, hmem (hplain (.inr hsearch)) (hinvolved hsearch), rfl⟩

theorem Matches.seen {c : ConfirmedGradidoTx} (h : Matches env f c)
    (hcoin : f.coinCommunityIdIndex = 0) (hplain : Plain f) (hkey : WantedKey env f c) :
    Seen env own f c :=
  ⟨hplain, .inl hcoin, hkey, h.type.imp_right Eq.symm⟩

theorem mem_months_iff (hfew : ∀ c ∈ cs, (involved env c).length ≤ 4) (n : ℕ) :
    n ∈ (inDirection f (cs.filter (fun c =>
        decide (f.publicKeySearchType ≠ .missingIndex) && found env cs f c))).map
          ConfirmedGradidoTx.txNr ↔
      ∃ c ∈ cs, c.txNr = n ∧ f.publicKeySearchType ≠ .missingIndex ∧ Matches env f c ∧
        (f.searchDirection = .desc → ¬ StartsEarlier cs f c) := by
  have hfound : ∀ c ∈ cs, (found env cs f c = true ↔
      Matches env f c ∧ (f.searchDirection = .desc → ¬ StartsEarlier cs f c)) :=
    fun c hc => found_iff (d := f.searchDirection) (hfew c hc)
  rw [List.mem_map]
  constructor
  · rintro ⟨c, hc, rfl⟩
    rw [mem_inDirection, List.mem_filter, Bool.and_eq_true, decide_eq_true_iff] at hc
    exact ⟨c, hc.1, rfl, hc.2.1, (hfound c hc.1).1 hc.2.2⟩
  · rintro ⟨c, hc, rfl, hmissing, hmatches⟩
    refine ⟨c, mem_inDirection.2 (List.mem_filter.2 ⟨hc, ?_⟩), rfl⟩
    rw [Bool.and_eq_true, decide_eq_true_iff]
    exact ⟨hmissing, (hfound c hc).2 hmatches⟩

/-! ### The index of bitmaps -/

theorem written_of_added (hcs : Upwards cs) (hadded : (addCalls env own cs).added = cs) :
    (addCalls env own cs).written = cs := by
  have h := @entered_addCalls env own cs hcs
  have hsublist := h.added
  rw [hadded] at hsublist
  exact h.written.antisymm hsublist

theorem exists_firstNr (hne : cs ≠ []) : ∃ a ∈ cs, a.txNr = firstNr cs := by
  cases cs with
  | nil => exact absurd rfl hne
  | cons a cs => exact ⟨a, List.mem_cons_self, rfl⟩

theorem exists_lastNr (hne : cs ≠ []) : ∃ b ∈ cs, b.txNr = lastNr cs := by
  rcases List.eq_nil_or_concat' cs with rfl | ⟨pre, b, rfl⟩
  · exact absurd rfl hne
  · exact ⟨b, by simp, by simp [lastNr]⟩

/-- A search of the bitmaps without pages returns a bitmap, in the order of the search. -/
theorem exists_findTransactions_bitmaps (hcs : Upwards cs) (hne : cs ≠ [])
    (hsize : f.pagination.size = 0) :
    (addCalls env own cs).index.findTransactions f = inDirection f
      (((addCalls env own cs).index.aggregateTransactions f).getD .empty).toList := by
  have h := @entered_addCalls env own cs hcs
  obtain ⟨b, hb, hlast⟩ := exists_lastNr hne
  have hmax : (addCalls env own cs).index.mMaxTransactionNr ≠ 0 := by
    rw [h.maxNr, ← hlast]
    exact (hcs.positive b hb).ne'
  rw [Gradido.TransactionsIndex.findTransactions_eq_pageOf _ _ hmax,
    Gradido.TransactionsIndex.pageOf_of_size_zero hsize]
  unfold inDirection Gradido.TransactionsIndex.inDirection
  cases f.searchDirection <;> rfl

/-- What the bitmaps find. -/
theorem mem_findTransactions_bitmaps (hcs : Upwards cs)
    (hadded : (addCalls env own cs).added = cs) (hne : cs ≠ [])
    (hunset : f.timepointInterval.isEmpty = true) (hcoin : f.coinCommunityIdIndex = 0)
    (hown : f.publicKeySearchType = .balanceChangingPublicKey →
      f.publicKeyIndex.communityIdIndex = own) (n : ℕ) :
    n ∈ ((addCalls env own cs).index.aggregateTransactions f).getD .empty ↔
      Admits f n ∧ ((∃ c ∈ cs, c.txNr = n ∧ Seen env own f c) ∨
        Unrestricted own f ∧ (∃ a ∈ cs, a.txNr ≤ n) ∧ ∃ b ∈ cs, n ≤ b.txNr) := by
  rw [Gradido.TransactionsIndex.mem_aggregate_addCalls_coinless hcs hunset hcoin hown,
    written_of_added hcs hadded]
  constructor
  · rintro ⟨hfirst, hlast, hadmits, hall | hseen⟩
    · obtain ⟨a, ha, hnr⟩ := exists_firstNr hne
      obtain ⟨b, hb, hnr'⟩ := exists_lastNr hne
      exact ⟨hadmits, .inr ⟨hall, ⟨a, ha, by omega⟩, b, hb, by omega⟩⟩
    · exact ⟨hadmits, .inl hseen⟩
  · rintro ⟨hadmits, ⟨c, hc, rfl, hseen⟩ | ⟨hall, ⟨a, ha, hle⟩, b, hb, hle'⟩⟩
    · obtain ⟨hfirst, hlast⟩ := Gradido.TransactionsIndex.txNr_between hcs hc
      exact ⟨hfirst, hlast, hadmits, .inr ⟨c, hc, rfl, hseen⟩⟩
    · have hfirst := (Gradido.TransactionsIndex.txNr_between hcs ha).1
      have hlast := (Gradido.TransactionsIndex.txNr_between hcs hb).2
      exact ⟨by omega, by omega, hadmits, .inl hall⟩

/-! ### Both of them -/

/-- The numbers decide: both lists are in the order of the search. -/
theorem sameAnswer_iff_mem (hcs : Chronological cs)
    (hrun : Steps.run (TransactionsIndex.add env) (.empty own) cs = some idx)
    (hadded : (addCalls env own cs).added = cs) (hsize : f.pagination.size = 0)
    (hunset : f.timepointInterval.isEmpty = true) (hcoin : f.coinCommunityIdIndex = 0)
    (hown : f.publicKeySearchType = .balanceChangingPublicKey →
      f.publicKeyIndex.communityIdIndex = own) :
    SameAnswer env own cs idx f ↔ ∀ n,
      (∃ c ∈ cs, c.txNr = n ∧ f.publicKeySearchType ≠ .missingIndex ∧ Matches env f c ∧
        (f.searchDirection = .desc → ¬ StartsEarlier cs f c)) ↔
      Admits f n ∧ ((∃ c ∈ cs, c.txNr = n ∧ Seen env own f c) ∨
        Unrestricted own f ∧ (∃ a ∈ cs, a.txNr ≤ n) ∧ ∃ b ∈ cs, n ≤ b.txNr) := by
  have hmonthly := monthly_of_chronological hcs
  have hupwards := upwards_of_chronological hcs
  have h := TransactionsIndex.holds_of_added hmonthly hrun
  have hmonths := h.findTransactions_months hmonthly hsize hunset hown
  unfold SameAnswer
  rw [hmonths, Except.ok.injEq]
  by_cases hne : cs = []
  · subst hne
    have hnone : (addCalls env own []).index.findTransactions f = [] := if_pos ⟨rfl, rfl⟩
    rw [hnone, List.filter_nil, inDirection_nil, List.map_nil]
    simp
  · have hmem := mem_months_iff (f := f) h.few
    have hbitmap := mem_findTransactions_bitmaps hupwards hadded hne hunset hcoin hown
    rw [exists_findTransactions_bitmaps hupwards hne hsize]
    rw [map_inDirection] at hmem ⊢
    rw [inDirection_inj]
    constructor
    · intro heq n
      rw [← hmem, ← hbitmap, mem_inDirection, heq, Bitmap.mem_def]
    · intro hsame
      have hsorted : ((cs.filter (fun c => decide (f.publicKeySearchType ≠ .missingIndex) &&
          found env cs f c)).map ConfirmedGradidoTx.txNr).Pairwise (· < ·) :=
        List.pairwise_map.2 (hcs.numbered.filter _)
      refine hsorted.eq_of_mem_iff (Bitmap.sorted _) (fun n => ?_)
      rw [← Bitmap.mem_def, hbitmap, ← hsame, ← hmem, mem_inDirection]

/-- **The two indexes agree** exactly for the filters that respect `Alike`. -/
theorem sameAnswer_iff (hcs : Chronological cs)
    (hrun : Steps.run (TransactionsIndex.add env) (.empty own) cs = some idx)
    (hadded : (addCalls env own cs).added = cs) (hsize : f.pagination.size = 0)
    (hunset : f.timepointInterval.isEmpty = true) (hcoin : f.coinCommunityIdIndex = 0) :
    SameAnswer env own cs idx f ↔ Alike env own cs f := by
  by_cases hown : f.publicKeySearchType = .balanceChangingPublicKey →
      f.publicKeyIndex.communityIdIndex = own
  · rw [sameAnswer_iff_mem hcs hrun hadded hsize hunset hcoin hown]
    have haddresses := getInvolvedAddresses_of_added hrun
    have hinj : ∀ {c c' : ConfirmedGradidoTx}, c ∈ cs → c' ∈ cs → c'.txNr = c.txNr → c' = c :=
      fun hc hc' heq => eq_of_numbered hcs.numbered hc' hc heq
    constructor
    · intro hsame
      refine ⟨hown, fun hall a ha b hb n hle hle' hadmits => ?_,
        fun c hc hmatches hplain hkey => ?_, fun c hc hmatches hearlier => ?_⟩
      · obtain ⟨c, hc, hnr, -⟩ := (hsame n).2 ⟨hadmits, .inr ⟨hall, ⟨a, ha, hle⟩, b, hb, hle'⟩⟩
        exact ⟨c, hc, hnr⟩
      · obtain ⟨c', hc', hnr, hmissing, -, hearlier⟩ := (hsame c.txNr).2
          ⟨hmatches.number, .inl ⟨c, hc, rfl, hmatches.seen hcoin hplain hkey⟩⟩
        obtain rfl := hinj hc hc' hnr
        exact ⟨hmissing, hearlier⟩
      · have hnokey : f.publicKeySearchType ≠ .balanceChangingPublicKey →
            f.publicKeySearchType ≠ .involvedPublicKey → Plain f ∧ WantedKey env f c :=
          fun hbalance hinvolved => ⟨fun hsearch => absurd hsearch (not_or.2 ⟨hbalance, hinvolved⟩),
            fun hsearch => absurd hsearch hbalance, fun hsearch => absurd hsearch hinvolved⟩
        by_cases hmissing : f.publicKeySearchType = .missingIndex
        · exact hnokey (by simp [hmissing]) (by simp [hmissing])
        obtain ⟨-, ⟨c', hc', hnr, hplain, -, hkey, -⟩ | ⟨hall, -⟩⟩ :=
          (hsame c.txNr).1 ⟨c, hc, rfl, hmissing, hmatches, hearlier⟩
        · obtain rfl := hinj hc hc' hnr
          exact ⟨hplain, hkey⟩
        · exact hnokey hall.2.1 hall.2.2.1
    · intro halike n
      constructor
      · rintro ⟨c, hc, rfl, -, hmatches, hearlier⟩
        obtain ⟨hplain, hkey⟩ := halike.recorded c hc hmatches hearlier
        exact ⟨hmatches.number, .inl ⟨c, hc, rfl, hmatches.seen hcoin hplain hkey⟩⟩
      · have hreached : ∀ c ∈ cs, Admits f c.txNr → Seen env own f c →
            f.publicKeySearchType ≠ .missingIndex ∧ Matches env f c ∧
              (f.searchDirection = .desc → ¬ StartsEarlier cs f c) := by
          intro c hc hadmits hseen
          have hmatches := matches_of_seen (haddresses c hc) hcoin hadmits hseen
          obtain ⟨hmissing, hearlier⟩ := halike.reached c hc hmatches hseen.1 hseen.2.2.1
          exact ⟨hmissing, hmatches, hearlier⟩
        rintro ⟨hadmits, ⟨c, hc, rfl, hseen⟩ | ⟨hall, ⟨a, ha, hle⟩, b, hb, hle'⟩⟩
        · exact ⟨c, hc, rfl, hreached c hc hadmits hseen⟩
        · -- the range is full, so that the number belongs to a transaction
          obtain ⟨c, hc, rfl⟩ := halike.gapless hall a ha b hb n hle hle' hadmits
          have hplain : Plain f := fun hsearch =>
            absurd hsearch (not_or.2 ⟨hall.2.1, hall.2.2.1⟩)
          exact ⟨c, hc, rfl, hreached c hc hadmits ⟨hplain, hall.wanted c⟩⟩
  · have hforeign := Classical.not_imp.1 hown
    refine iff_of_false (fun hsame => ?_) (fun halike => hown halike.community)
    have hmonthly := monthly_of_chronological hcs
    have hfind := (TransactionsIndex.holds_of_added hmonthly hrun).findTransactions_eq hmonthly
      (f := f) hsize
    have hmissing : f.publicKeySearchType ≠ .missingIndex := by simp [hforeign.1]
    unfold SameAnswer at hsame
    rw [if_neg hmissing, if_pos hforeign, hsame] at hfind
    simp at hfind

end Agreement

/-! ### Two transactions of one month -/

/-- From the second one on, only the bitmaps find it backwards. -/
theorem january_not_sameAnswer : ∃ idx,
    Steps.run (TransactionsIndex.add Sample.env) (.empty 1) [january5, january10] = some idx ∧
      Chronological [january5, january10] ∧
      (addCalls Sample.env 1 [january5, january10]).added = [january5, january10] ∧
      ¬ SameAnswer Sample.env 1 [january5, january10] idx { minTransactionNr := 2 } := by
  obtain ⟨idx, hrun⟩ := added_january
  refine ⟨idx, hrun, Gradido.TransactionsIndex.chronological_january, rfl, ?_⟩
  intro hsame
  have hfound : ((Steps.run (TransactionsIndex.add Sample.env) (.empty 1)
      [january5, january10]).map (fun idx =>
        (idx.findTransactions { minTransactionNr := 2 }).toOption)) = some (some []) := by
    decide +kernel
  have hbitmaps : (addCalls Sample.env 1 [january5, january10]).index.findTransactions
      { minTransactionNr := 2 } = [2] := by
    decide +kernel
  rw [hrun, Option.map_some, Option.some.injEq, hsame, hbitmaps] at hfound
  simp [Except.toOption] at hfound

/-- The key that signed the registration is found by both. -/
theorem january_sameAnswer : ∃ idx,
    Steps.run (TransactionsIndex.add Sample.env) (.empty 1) [january5, january10] = some idx ∧
      SameAnswer Sample.env 1 [january5, january10] idx
        { minTransactionNr := 1
          publicKeySearchType := .involvedPublicKey
          publicKeyIndex := ⟨1, 11⟩ } := by
  obtain ⟨idx, hrun⟩ := added_january
  refine ⟨idx, hrun, (sameAnswer_iff Gradido.TransactionsIndex.chronological_january hrun rfl
    rfl rfl rfl).2 ⟨?_, ?_, ?_, ?_⟩⟩
  · simp
  · intro hall
    exact absurd hall (by decide)
  · decide +kernel
  · decide +kernel

end ByMonth

end Gradido
