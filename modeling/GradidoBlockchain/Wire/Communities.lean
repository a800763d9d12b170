import GradidoBlockchain.Wire.RuntimeDictionary

/-!
# Communities and their contexts

The `AppContext` holds a context for every community, at the position that the
dictionary of the communities gives its uuid.  The dictionary is extended first;
the number is compared with the largest one that fits into 32 bits afterwards.

* `InStep`: there is a context for every uuid, at its position;
* `Fits`: a community is only added to fewer than `2 ^ 32` others;
* `throughout_inStep_iff`: the contexts stay in step as long as this is so;
* `Matches.getOrAddCommunityIdIndex`: the readers' `AppContext` does the same.
-/

namespace Gradido.Wire

/-! ### Uuids -/

/-- What is used of libsodium: `sodium_hex2bin`, which skips hyphens and reads at most so many
bytes, and `sodium_bin2hex`. -/
structure Sodium where
  hex2bin : String → ℕ → Option Block
  bin2hex : Block → String

/-- The exceptions here: the one of `uuidFromString` and those of the `AppContext`. -/
inductive CommunityException
  | uuidConvert (what uuidString : String)
  | context (e : Exception)
deriving DecidableEq, Repr

/-- `std::string::c_str`: what follows a zero is not seen. -/
def cString (s : String) : String :=
  String.ofList (s.toList.takeWhile (fun c => decide (c ≠ '\x00')))

/-- `uuidFromString`. -/
def uuidFromString (sodium : Sodium) (uuidString : String) : Except CommunityException Uuid :=
  match sodium.hex2bin uuidString 16 with
  | none => .error (.uuidConvert "Invalid UUID hex string" uuidString)
  | some result =>
    if h : result.length = 16 then .ok ⟨result, h⟩
    else .error (.uuidConvert "UUID hex string does not represent 16 bytes" uuidString)

/-- `uuidToString`. -/
def uuidToString (sodium : Sodium) (uuid : Uuid) : String :=
  let hex := (sodium.bin2hex uuid.1).toList
  String.ofList (hex.take 8 ++ '-' :: (hex.drop 8).take 4 ++ '-' :: (hex.drop 12).take 4 ++
    '-' :: (hex.drop 16).take 4 ++ '-' :: (hex.drop 20).take 12)

/-- `AppContext::isValidCommunityAlias`: from three to 120 of these characters. -/
def isValidCommunityAlias (communityId : String) : Bool :=
  decide (3 ≤ communityId.length ∧ communityId.length ≤ 120) &&
    communityId.toList.all (fun c =>
      decide ('a' ≤ c ∧ c ≤ 'z' ∨ '0' ≤ c ∧ c ≤ '9' ∨ c = '_' ∨ c = '-'))

/-! ### The code -/

/-- The part of the `AppContext` that knows the communities. -/
structure Communities where
  mCommunityIds : RuntimeDictionary Uuid
  mCommunityContexts : List CommunityContext

namespace Communities

/-- A new `AppContext`. -/
def empty (name : String) : Communities := ⟨.empty name, []⟩

/-- What both forms of `AppContext::getOrAddCommunityIdIndex` do with a uuid: add it, and append
its context.  The uuid of the context is the one that its constructor computes. -/
def addCommunity (s : Communities) (uuid : Uuid)
    (communityUuid : Except CommunityException Uuid) :
    Communities × Except CommunityException UInt32 :=
  let added := s.mCommunityIds.getOrAddIndexForData uuid
  let index := added.1
  let s := { s with mCommunityIds := added.2 }
  let arrayIndex := index - 1
  if arrayIndex % 4294967296 ≠ arrayIndex then
    (s, .error (.context (.gradidoNotImplemented
      "communities with more then uint32_t index can handle isn't implemented")))
  else if s.mCommunityContexts.length = arrayIndex then
    match communityUuid with
    | .error e => (s, .error e)
    | .ok communityUuid =>
      ({ s with mCommunityContexts :=
          s.mCommunityContexts ++ [⟨communityUuid, AppContext.toIndex index, none⟩] },
        .ok (AppContext.toIndex index))
  else if s.mCommunityContexts.length < arrayIndex then
    (s, .error (.context (.dictionaryHole "community contexts deque has a hole" "communityIds"
      s.mCommunityContexts.length index)))
  else (s, .ok (AppContext.toIndex index))

/-- `AppContext::getOrAddCommunityIdIndex` for a uuid. -/
def getOrAddCommunityIdIndex (s : Communities) (communityUuid : Uuid) :
    Communities × Except CommunityException UInt32 :=
  s.addCommunity communityUuid (.ok communityUuid)

/-- `AppContext::getOrAddCommunityIdIndex` for a string. -/
def getOrAddCommunityIdIndexOfString (sodium : Sodium) (s : Communities) (communityId : String) :
    Communities × Except CommunityException UInt32 :=
  match uuidFromString sodium (cString communityId) with
  | .error e => (s, .error e)
  | .ok uuid =>
    let index := s.mCommunityIds.getIndexForData uuid
    if index ≠ 0 then (s, .ok (AppContext.toIndex index))
    else if isValidCommunityAlias communityId = false then
      (s, .error (.context (.gradidoNodeInvalidData
        ("invalid character, only lowercase english latin letter, " ++
          "numbers and - are allowed for communityId: " ++ communityId))))
    else s.addCommunity uuid (uuidFromString sodium (cString communityId))

/-- An index that the dictionary knows is not larger than its size. -/
theorem index_le_of_getDataForIndex {d : RuntimeDictionary Uuid} {index : ℕ} {data : Uuid}
    (h : d.getDataForIndex index = some data) : index ≤ d.mIndexDataLookup.length := by
  unfold RuntimeDictionary.getDataForIndex at h
  split_ifs at h with hout
  omega

/-- The loop of `AppContext::syncCommunityContextsWithCommunityIds`. -/
def syncFrom (s : Communities) (index : ℕ) : Communities :=
  match h : s.mCommunityIds.getDataForIndex index with
  | none => s
  | some data =>
    syncFrom { s with mCommunityContexts :=
      s.mCommunityContexts ++ [⟨data, AppContext.toIndex index, none⟩] } (index + 1)
termination_by s.mCommunityIds.mIndexDataLookup.length + 1 - index
decreasing_by
  have hle := index_le_of_getDataForIndex h
  omega

/-- `AppContext::syncCommunityContextsWithCommunityIds`. -/
def syncCommunityContextsWithCommunityIds (s : Communities) : Communities :=
  s.syncFrom (s.mCommunityContexts.length + 1)

/-- `AppContext::addBlockchain`. -/
def addBlockchain (sodium : Sodium) (s : Communities) (communityIdIndex : UInt32)
    (blockchain : Option (Dictionary (NonEmpty 32))) :
    Communities × Except CommunityException Unit :=
  let arrayIndex := AppContext.arrayIndex communityIdIndex
  if s.mCommunityContexts.length ≤ arrayIndex then
    let entryName := match s.mCommunityIds.getDataForIndex communityIdIndex.toNat with
      | some communityId => uuidToString sodium communityId
      | none => toString communityIdIndex
    (s, .error (.context (.dictionaryMissingEntry "missing CommunityContext" entryName)))
  else
    ({ s with
        mCommunityContexts := s.mCommunityContexts.modify arrayIndex
          (fun c => { c with blockchain := blockchain }) }, .ok ())

/-- A call of one of these functions. -/
inductive Call
  | getOrAddCommunityIdIndex (communityUuid : Uuid)
  | getOrAddCommunityIdIndexOfString (communityId : String)
  | syncCommunityContextsWithCommunityIds
  | addBlockchain (communityIdIndex : UInt32) (blockchain : Option (Dictionary (NonEmpty 32)))

/-- The state after a call, which may have thrown. -/
def exec (sodium : Sodium) (s : Communities) : Call → Communities
  | .getOrAddCommunityIdIndex communityUuid => (s.getOrAddCommunityIdIndex communityUuid).1
  | .getOrAddCommunityIdIndexOfString communityId =>
    (s.getOrAddCommunityIdIndexOfString sodium communityId).1
  | .syncCommunityContextsWithCommunityIds => s.syncCommunityContextsWithCommunityIds
  | .addBlockchain communityIdIndex blockchain =>
    (s.addBlockchain sodium communityIdIndex blockchain).1

/-- A call, which is always possible. -/
def step (sodium : Sodium) (s : Communities) (call : Call) : Option Communities :=
  some (s.exec sodium call)

/-! ### What is wanted, and when -/

/-- There are as many contexts as uuids, and each belongs to the uuid with its index. -/
structure InStep (s : Communities) : Prop where
  size : s.mCommunityContexts.length = s.mCommunityIds.mIndexDataLookup.length
  uuid : ∀ index uuid, 0 < index → s.mCommunityIds.getIndexForData uuid = index →
    s.mCommunityContexts[index - 1]?.map CommunityContext.communityUuid = some uuid

/-- A call adds a community that is not known yet. -/
def Adds (sodium : Sodium) (s : Communities) : Call → Prop
  | .getOrAddCommunityIdIndex communityUuid => s.mCommunityIds.getIndexForData communityUuid = 0
  | .getOrAddCommunityIdIndexOfString communityId => ∃ uuid,
    uuidFromString sodium (cString communityId) = .ok uuid ∧
      s.mCommunityIds.getIndexForData uuid = 0 ∧ isValidCommunityAlias communityId = true
  | _ => False

/-- A community is only added to fewer than `2 ^ 32` others. -/
def Fits (sodium : Sodium) (s : Communities) (call : Call) : Prop :=
  Adds sodium s call → s.mCommunityIds.mIndexDataLookup.length < 4294967296

/-! ### One call -/

variable {sodium : Sodium} {s : Communities} {dictionary : Dictionary Uuid} {uuid : Uuid}

/-- The contexts are those of the dictionary, in its order. -/
theorem inStep_iff (h : s.mCommunityIds.Represents dictionary) :
    InStep s ↔ s.mCommunityContexts.map CommunityContext.communityUuid = dictionary.entries := by
  constructor
  · intro hs
    refine List.ext_getElem? (fun i => ?_)
    rw [List.getElem?_map]
    by_cases hi : i < dictionary.entries.length
    · have hdata : dictionary.data (i + 1) = some dictionary.entries[i] :=
        Dictionary.data_eq_some_iff.2 ⟨Nat.succ_pos i, List.getElem?_eq_getElem hi⟩
      rw [List.getElem?_eq_getElem hi]
      refine hs.uuid (i + 1) _ (Nat.succ_pos i) ?_
      rw [h.getIndexForData, Dictionary.index_of_data hdata]
    · have hsize := hs.size
      rw [h.deque] at hsize
      rw [List.getElem?_eq_none (by omega), List.getElem?_eq_none (by omega), Option.map_none]
  · intro hmap
    refine ⟨?_, fun index uuid hpos hindex => ?_⟩
    · rw [h.deque, ← hmap, List.length_map]
    · rw [h.getIndexForData] at hindex
      have hdata := Dictionary.data_eq_some_iff_index.2 ⟨hpos, hindex⟩
      rw [← List.getElem?_map, hmap]
      exact (Dictionary.data_eq_some_iff.1 hdata).2

/-- Contexts of the same uuids. -/
theorem InStep.of_map (hs : InStep s) (h : s.mCommunityIds.Represents dictionary)
    {contexts : List CommunityContext}
    (hmap : contexts.map CommunityContext.communityUuid =
      s.mCommunityContexts.map CommunityContext.communityUuid) :
    InStep { s with mCommunityContexts := contexts } :=
  (inStep_iff (s := { s with mCommunityContexts := contexts }) h).2
    (hmap.trans ((inStep_iff h).1 hs))

theorem mCommunityIds_addCommunity (s : Communities) (uuid : Uuid)
    (communityUuid : Except CommunityException Uuid) :
    (s.addCommunity uuid communityUuid).1.mCommunityIds =
      (s.mCommunityIds.getOrAddIndexForData uuid).2 := by
  unfold addCommunity
  dsimp only
  split_ifs
  · rfl
  · cases communityUuid <;> rfl
  · rfl
  · rfl

/-- A context is only appended when its position fits into 32 bits. -/
theorem length_addCommunity_le (hs : s.mCommunityContexts.length ≤ 4294967296)
    (communityUuid : Except CommunityException Uuid) :
    (s.addCommunity uuid communityUuid).1.mCommunityContexts.length ≤ 4294967296 := by
  unfold addCommunity
  dsimp only
  split_ifs with hlarge hnext
  · exact hs
  · cases communityUuid with
    | error e => exact hs
    | ok communityUuid =>
      dsimp only
      rw [List.length_append, List.length_singleton]
      omega
  · exact hs
  · exact hs

/-- A community that is known already changes nothing. -/
theorem inStep_addCommunity_of_known (h : s.mCommunityIds.Represents dictionary) (hs : InStep s)
    (hknown : uuid ∈ dictionary.entries) (communityUuid : Except CommunityException Uuid) :
    InStep (s.addCommunity uuid communityUuid).1 := by
  obtain ⟨hindex, hadded⟩ := h.getOrAddIndexForData uuid
  have hle := Dictionary.fst_add_le hknown
  have hpos := (Dictionary.data_eq_some_iff.1 (dictionary.data_add uuid)).1
  have hsize := hs.size
  rw [h.deque] at hsize
  have hcontexts : (s.addCommunity uuid communityUuid).1.mCommunityContexts =
      s.mCommunityContexts := by
    unfold addCommunity
    dsimp only
    rw [hindex]
    split_ifs with hlarge hnext
    · rfl
    · omega
    · rfl
    · rfl
  have hids := mCommunityIds_addCommunity s uuid communityUuid
  rw [← hids] at hadded
  rw [inStep_iff hadded, hcontexts, (inStep_iff h).1 hs, Dictionary.add_of_mem hknown]

/-- A new community gets its context when its position fits into 32 bits. -/
theorem inStep_addCommunity_of_new (h : s.mCommunityIds.Represents dictionary) (hs : InStep s)
    (hnew : uuid ∉ dictionary.entries) :
    InStep (s.addCommunity uuid (.ok uuid)).1 ↔
      s.mCommunityIds.mIndexDataLookup.length < 4294967296 := by
  obtain ⟨hindex, hadded⟩ := h.getOrAddIndexForData uuid
  have hsize := hs.size
  have hadd : dictionary.add uuid = (dictionary.entries.length + 1, (dictionary.add uuid).2) := by
    rw [Dictionary.add, dif_neg hnew]
  have hentries : (dictionary.add uuid).2.entries = dictionary.entries ++ [uuid] := by
    rw [Dictionary.add, dif_neg hnew]
  have hposition : (s.mCommunityIds.getOrAddIndexForData uuid).1 - 1 =
      s.mCommunityContexts.length := by
    rw [hindex, hadd, hsize, h.deque, Nat.add_sub_cancel]
  rw [← mCommunityIds_addCommunity s uuid (.ok uuid)] at hadded
  rw [inStep_iff hadded, hentries, ← (inStep_iff h).1 hs, ← hsize]
  unfold addCommunity
  dsimp only
  rw [hposition]
  split_ifs with hlarge hnext hhole
  · refine iff_of_false (fun hmap => ?_) (by omega)
    have hlength := congrArg List.length hmap
    simp at hlength
  · refine iff_of_true ?_ (by omega)
    rw [List.map_append]
    rfl
  · omega
  · exact absurd rfl hnext

theorem inStep_addCommunity_iff (h : s.mCommunityIds.Represents dictionary) (hs : InStep s)
    (uuid : Uuid) : InStep (s.addCommunity uuid (.ok uuid)).1 ↔
      (s.mCommunityIds.getIndexForData uuid = 0 →
        s.mCommunityIds.mIndexDataLookup.length < 4294967296) := by
  rw [h.getIndexForData, Dictionary.index_eq_zero]
  by_cases hknown : uuid ∈ dictionary.entries
  · exact iff_of_true (inStep_addCommunity_of_known h hs hknown _) (fun hnew => absurd hknown hnew)
  · rw [inStep_addCommunity_of_new h hs hknown, forall_prop_of_true hknown]

/-- When nothing is missing, nothing is appended. -/
theorem syncCommunityContextsWithCommunityIds_eq (hs : InStep s) :
    s.syncCommunityContextsWithCommunityIds = s := by
  have hnone : s.mCommunityIds.getDataForIndex (s.mCommunityContexts.length + 1) = none := by
    rw [RuntimeDictionary.getDataForIndex, if_pos]
    exact .inr (Nat.le_of_eq hs.size.symm)
  rw [syncCommunityContextsWithCommunityIds, syncFrom]
  split
  · rfl
  next data hdata =>
    rw [hnone] at hdata
    cases hdata

theorem mCommunityIds_syncFrom (s : Communities) (index : ℕ) :
    (s.syncFrom index).mCommunityIds = s.mCommunityIds := by
  fun_induction syncFrom s index with
  | case1 => rfl
  | case2 _ _ _ _ ih => exact ih

/-- A blockchain belongs to the community that had the context before. -/
theorem inStep_addBlockchain (h : s.mCommunityIds.Represents dictionary) (hs : InStep s)
    (communityIdIndex : UInt32) (blockchain : Option (Dictionary (NonEmpty 32))) :
    InStep (s.addBlockchain sodium communityIdIndex blockchain).1 := by
  unfold addBlockchain
  dsimp only
  split_ifs with hmissing
  · exact hs
  · refine hs.of_map h ?_
    refine List.ext_getElem? (fun i => ?_)
    rw [List.getElem?_map, List.getElem?_map, List.getElem?_modify]
    split_ifs
    all_goals cases s.mCommunityContexts[i]? <;> rfl

/-- **One call** keeps the contexts in step exactly when the community that it adds fits. -/
theorem inStep_exec_iff (h : s.mCommunityIds.Represents dictionary) (hs : InStep s) (call : Call) :
    InStep (s.exec sodium call) ↔ Fits sodium s call := by
  cases call with
  | getOrAddCommunityIdIndex communityUuid => exact inStep_addCommunity_iff h hs communityUuid
  | getOrAddCommunityIdIndexOfString communityId =>
    simp only [exec, getOrAddCommunityIdIndexOfString, Fits, Adds]
    cases huuid : uuidFromString sodium (cString communityId) with
    | error e => exact iff_of_true hs (fun ⟨uuid, hok, _⟩ => absurd hok (by simp))
    | ok uuid =>
      simp only [Except.ok.injEq, exists_eq_left', and_imp]
      split_ifs with hknown hinvalid
      · exact iff_of_true hs (fun hnew => absurd hnew hknown)
      · exact iff_of_true hs (fun _ hvalid => absurd (hinvalid.symm.trans hvalid) (by decide))
      · rw [inStep_addCommunity_iff h hs]
        have hvalid : isValidCommunityAlias communityId = true := by simpa using hinvalid
        rw [forall_prop_of_true hvalid]
  | syncCommunityContextsWithCommunityIds =>
    rw [exec, syncCommunityContextsWithCommunityIds_eq hs]
    exact iff_of_true hs (fun hadds => absurd hadds (by simp [Adds]))
  | addBlockchain communityIdIndex blockchain =>
    exact iff_of_true (inStep_addBlockchain h hs communityIdIndex blockchain)
      (fun hadds => absurd hadds (by simp [Adds]))

/-- The dictionary stays one. -/
theorem exists_represents_exec (h : s.mCommunityIds.Represents dictionary) (call : Call) :
    ∃ dictionary', (s.exec sodium call).mCommunityIds.Represents dictionary' := by
  have hadd : ∀ uuid communityUuid, ∃ dictionary',
      (s.addCommunity uuid communityUuid).1.mCommunityIds.Represents dictionary' := by
    intro uuid communityUuid
    rw [mCommunityIds_addCommunity]
    exact ⟨_, (h.getOrAddIndexForData uuid).2⟩
  cases call with
  | getOrAddCommunityIdIndex communityUuid => exact hadd _ _
  | getOrAddCommunityIdIndexOfString communityId =>
    rw [exec, getOrAddCommunityIdIndexOfString]
    cases uuidFromString sodium (cString communityId) with
    | error e => exact ⟨_, h⟩
    | ok uuid =>
      dsimp only
      split_ifs
      · exact ⟨_, h⟩
      · exact ⟨_, h⟩
      · exact hadd _ _
  | syncCommunityContextsWithCommunityIds =>
    refine ⟨dictionary, ?_⟩
    rw [exec, syncCommunityContextsWithCommunityIds, mCommunityIds_syncFrom]
    exact h
  | addBlockchain communityIdIndex blockchain =>
    rw [exec, addBlockchain]
    dsimp only
    split_ifs
    · exact ⟨_, h⟩
    · exact ⟨_, h⟩

/-! ### What the readers see -/

/-- The same dictionary and contexts as those of the readers. -/
structure Matches (s : Communities) (ctx : AppContext) : Prop where
  ids : s.mCommunityIds.Represents ctx.communityIds
  contexts : s.mCommunityContexts = ctx.communityContexts

/-- **Refinement**: the readers see what the code computes with its two containers. -/
theorem Matches.getOrAddCommunityIdIndex {ctx : AppContext} (h : s.Matches ctx) (uuid : Uuid) :
    (s.getOrAddCommunityIdIndex uuid).1.Matches (AppContext.getOrAddCommunityIdIndex uuid ctx).2 ∧
      (s.getOrAddCommunityIdIndex uuid).2 =
        (AppContext.getOrAddCommunityIdIndex uuid ctx).1.mapError .context := by
  obtain ⟨hindex, hadded⟩ := h.ids.getOrAddIndexForData uuid
  have hlarge : ((ctx.communityIds.add uuid).1 - 1) % 4294967296 ≠
      (ctx.communityIds.add uuid).1 - 1 ↔ (ctx.communityIds.add uuid).1 - 1 ≥ 2 ^ 32 := by
    omega
  unfold Communities.getOrAddCommunityIdIndex addCommunity AppContext.getOrAddCommunityIdIndex
  simp only [bind, Method.andThen, Method.read, Method.write]
  rw [hindex, h.contexts]
  by_cases hfits : (ctx.communityIds.add uuid).1 - 1 ≥ 2 ^ 32
  · rw [if_pos hfits, if_pos (hlarge.2 hfits)]
    exact ⟨⟨hadded, rfl⟩, rfl⟩
  rw [if_neg hfits, if_neg (mt hlarge.1 hfits)]
  by_cases hnext : ctx.communityContexts.length = (ctx.communityIds.add uuid).1 - 1
  · rw [if_pos hnext, if_pos hnext]
    exact ⟨⟨hadded, rfl⟩, rfl⟩
  rw [if_neg hnext, if_neg hnext]
  by_cases hhole : ctx.communityContexts.length < (ctx.communityIds.add uuid).1 - 1
  · rw [if_pos hhole, if_pos hhole]
    exact ⟨⟨hadded, rfl⟩, rfl⟩
  · rw [if_neg hhole, if_neg hhole]
    exact ⟨⟨hadded, rfl⟩, rfl⟩

/-! ### Every sequence of calls -/

theorem inStep_empty (name : String) : InStep (empty name) := by
  refine ⟨rfl, fun index uuid hpos hindex => ?_⟩
  exact absurd (hindex.symm.trans rfl) (Nat.ne_of_gt hpos)

/-- The calls are always possible. -/
theorem exists_run (sodium : Sodium) (s : Communities) (calls : List Call) :
    ∃ t, Steps.run (step sodium) s calls = some t := by
  induction calls generalizing s with
  | nil => exact ⟨s, rfl⟩
  | cons call calls ih => exact ih (s.exec sodium call)

/-- **The contexts stay in step** exactly when every community that is added fits. -/
theorem throughout_inStep_iff (sodium : Sodium) (name : String) (calls : List Call) :
    Steps.Throughout (step sodium) InStep (empty name) calls ↔
      Steps.Meets (step sodium) (Fits sodium) (empty name) calls := by
  obtain ⟨t, hrun⟩ := exists_run sodium (empty name) calls
  refine Steps.throughout_iff_meets
    (I := fun s => ∃ dictionary, s.mCommunityIds.Represents dictionary) ?_ ?_ ?_
    ⟨_, RuntimeDictionary.represents_empty name⟩ (inStep_empty name) hrun
  · rintro s call u ⟨dictionary, h⟩ hstep
    cases hstep
    exact exists_represents_exec h call
  · rintro s call u ⟨dictionary, h⟩ hs hfits hstep
    cases hstep
    exact (inStep_exec_iff h hs call).2 hfits
  · rintro s call u ⟨dictionary, h⟩ hs hfits hstep
    cases hstep
    exact mt (inStep_exec_iff h hs call).1 hfits

/-- **Indices and contexts**: of the dictionary alone for every sequence of calls, and with the
contexts exactly as long as every community that is added fits. -/
theorem numbered_and_inStep_iff {α : Type} [DecidableEq α] (sodium : Sodium) (name : String)
    (dictionaryCalls : List (DictionaryCall α)) (calls : List Call) :
    (((RuntimeDictionary.empty name).run dictionaryCalls).Numbered
        (RuntimeDictionary.added dictionaryCalls) ∧
      ∀ (data : α) (later : List (DictionaryCall α)), DictionaryCall.reset ∉ later →
        ((RuntimeDictionary.empty name).run
            (dictionaryCalls ++ .getOrAddIndexForData data :: later)).getIndexForData data =
          (((RuntimeDictionary.empty name).run dictionaryCalls).getOrAddIndexForData data).1) ∧
    (Steps.Throughout (step sodium) InStep (empty name) calls ↔
      Steps.Meets (step sodium) (Fits sodium) (empty name) calls) := by
  refine ⟨⟨?_, fun data later hreset => ?_⟩, throughout_inStep_iff sodium name calls⟩
  · exact RuntimeDictionary.numbered_run name dictionaryCalls
  · exact RuntimeDictionary.index_kept name dictionaryCalls data hreset

/-- New uuids are all added to the dictionary, and contexts as long as their positions fit. -/
theorem exists_run_new (sodium : Sodium) {uuids : List Uuid} (hnodup : uuids.Nodup)
    (h : s.mCommunityIds.Represents dictionary) (hs : s.mCommunityContexts.length ≤ 4294967296)
    (hnew : ∀ uuid ∈ uuids, uuid ∉ dictionary.entries) :
    ∃ t, Steps.run (step sodium) s (uuids.map Call.getOrAddCommunityIdIndex) = some t ∧
      t.mCommunityContexts.length ≤ 4294967296 ∧
      t.mCommunityIds.mIndexDataLookup.length = dictionary.entries.length + uuids.length := by
  induction uuids generalizing s dictionary with
  | nil => exact ⟨s, rfl, hs, by rw [h.deque]; rfl⟩
  | cons uuid uuids ih =>
    obtain ⟨hfirst, hnodup⟩ := List.nodup_cons.1 hnodup
    have hadded := (h.getOrAddIndexForData uuid).2
    rw [← mCommunityIds_addCommunity s uuid (.ok uuid)] at hadded
    have hentries : (dictionary.add uuid).2.entries = dictionary.entries ++ [uuid] := by
      rw [Dictionary.add, dif_neg (hnew uuid List.mem_cons_self)]
    have hothers : ∀ other ∈ uuids, other ∉ (dictionary.add uuid).2.entries := by
      intro other hother
      rw [Dictionary.mem_entries_add, not_or]
      exact ⟨hnew other (List.mem_cons_of_mem _ hother), fun heq => hfirst (heq ▸ hother)⟩
    obtain ⟨t, hrun, ht, hlength⟩ :=
      ih hnodup hadded (length_addCommunity_le hs _) hothers
    refine ⟨t, hrun, ht, ?_⟩
    rw [hlength, hentries, List.length_append, List.length_singleton, List.length_cons]
    omega

/-- More than `2 ^ 32` communities are more than there are contexts. -/
theorem not_throughout_inStep (sodium : Sodium) (name : String) {uuids : List Uuid}
    (hnodup : uuids.Nodup) (hlong : 4294967296 < uuids.length) :
    ¬ Steps.Throughout (step sodium) InStep (empty name)
      (uuids.map Call.getOrAddCommunityIdIndex) := by
  have hempty : (empty name).mCommunityIds.Represents .empty :=
    RuntimeDictionary.represents_empty name
  obtain ⟨t, ht, hcontexts, hlength⟩ := exists_run_new sodium hnodup hempty (Nat.zero_le _)
    (fun _ _ => List.not_mem_nil)
  intro hthroughout
  have hsize := (hthroughout _ (List.prefix_refl _) t ht).size
  rw [hlength] at hsize
  have hzero : (Dictionary.empty : Dictionary Uuid).entries.length = 0 := rfl
  omega

end Communities

/-! ### One community too many -/

namespace Sample

/-- The value of a hexadecimal digit. -/
def hexValue (c : Char) : Option ℕ :=
  if '0' ≤ c ∧ c ≤ '9' then some (c.toNat - 48)
  else if 'a' ≤ c ∧ c ≤ 'f' then some (c.toNat - 87)
  else if 'A' ≤ c ∧ c ≤ 'F' then some (c.toNat - 55)
  else none

/-- Two hexadecimal digits for each byte. -/
def hexBytes : List ℕ → Option Block
  | [] => some []
  | [_] => none
  | high :: low :: rest => (hexBytes rest).map (UInt8.ofNat (16 * high + low) :: ·)

/-- The two functions of libsodium. -/
def sodium : Sodium where
  hex2bin hex maxBytes :=
    (((hex.toList.filter (fun c => decide (c ≠ '-'))).mapM hexValue).bind hexBytes).filter
      (fun block => decide (block.length ≤ maxBytes))
  bin2hex := convertToHex

/-- A uuid for each number. -/
def uuidOf (n : ℕ) : Uuid := ⟨littleEndian n 16, length_littleEndian n 16⟩

theorem nodup_uuids {n : ℕ} (hn : n ≤ 256 ^ 16) : ((List.range n).map uuidOf).Nodup := by
  refine List.Nodup.map_on (fun i hi j hj heq => ?_) List.nodup_range
  have hi := List.mem_range.1 hi
  have hj := List.mem_range.1 hj
  exact littleEndian_inj (by omega) (by omega) (congrArg Subtype.val heq)

/-- The last one of `2 ^ 32 + 1` communities is added, but has no context. -/
theorem oneTooMany_not_inStep :
    ¬ Steps.Throughout (Communities.step sodium) Communities.InStep
      (Communities.empty "communityIds")
      (((List.range 4294967297).map uuidOf).map Communities.Call.getOrAddCommunityIdIndex) := by
  refine Communities.not_throughout_inStep sodium _ (nodup_uuids (by decide)) ?_
  rw [List.length_map, List.length_range]
  decide

end Sample

end Gradido.Wire
