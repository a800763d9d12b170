import GradidoBlockchain.Data.Transaction
import GradidoBlockchain.Lib.Checked
import GradidoBlockchain.Lib.Dictionary
import GradidoBlockchain.Lib.Method

/-!
# Bytes and dictionaries

At the border to the wire format keys, community ids and name hashes are byte
arrays, and the transaction bodies name some of them by their number in the
dictionaries of the `AppContext`.  An entry is never taken out again, so a
number that was given out keeps its meaning in every later context; `Later` is
this order, and the look-ups of the context are `Settled` in it.

Zero keys and zero hashes are refused before they reach a dictionary, so the
dictionaries are dictionaries of nonzero arrays.
-/

namespace Gradido.Wire

open Checked

/-! ### Bytes -/

/-- `memory::Block`. -/
abbrev Block := List UInt8

/-- `ByteArray<N>`. -/
abbrev Bytes (n : ℕ) := { block : Block // block.length = n }

/-- `PublicKey`. -/
abbrev PublicKey := Bytes 32

/-- `GenericHash`, also the type of a running hash. -/
abbrev GenericHash := Bytes 32

/-- `Uuid`, the id of a community. -/
abbrev Uuid := Bytes 16

/-- `Signature`. -/
abbrev Signature := Bytes 64

/-- `Block::isEmpty` and `ByteArray::isEmpty`: there are only zero bytes. -/
def isEmpty (block : Block) : Bool := block.all (fun b => decide (b = 0))

/-- An array that is not empty. -/
abbrev NonEmpty (n : ℕ) := { bytes : Bytes n // isEmpty bytes.1 = false }

/-- The exceptions of the adapters: those of the other modules and the ones that the dictionaries,
the keys and the signature map throw. -/
inductive Exception
  | gradidoNodeInvalidData (what : String)
  | gradidoNullPointer (what expectedType : String)
  | gradidoUnhandledEnum (what enumName : String)
  | gradidoInvalidEnum (what : String)
  | gradidoNotImplemented (what : String)
  | gradidoAlreadyExist (what : String)
  | dictionaryMissingEntry (what missingEntryValue : String)
  | dictionaryHole (what name : String) (currentSize newIndex : ℕ)
deriving DecidableEq, Repr

/-! ### The context -/

/-- `CommunityContext`: the blockchain, of which only its public key dictionary is used here, is
missing until `setBlockchain`. -/
structure CommunityContext where
  communityUuid : Uuid
  communityIdIndex : UInt32
  blockchain : Option (Dictionary (NonEmpty 32))

/-- `AppContext`; the names are those the two dictionaries were built with. -/
structure AppContext where
  communityIdsName : String
  userNameHashsName : String
  communityIds : Dictionary Uuid
  userNameHashs : Dictionary (NonEmpty 32)
  communityContexts : List CommunityContext

/-- A method that uses the global `g_appContext`. -/
abbrev AppM := Method Exception AppContext

namespace AppContext

variable (ctx : AppContext)

/-- The position of a community, `communityIdIndex - 1` in 32 bits. -/
def arrayIndex (communityIdIndex : UInt32) : ℕ := (communityIdIndex - 1).toNat

/-- `AppContext::getPublicKey`. -/
def getPublicKey (communityIdIndex publicKeyIndex : UInt32) : Option PublicKey := do
  let community ← ctx.communityContexts[arrayIndex communityIdIndex]?
  let dictionary ← community.blockchain
  let key ← dictionary.data publicKeyIndex.toNat
  return key.1

/-- `PublicKeyIndex::getRawKey`; the text of the exception names the entry by its numbers here. -/
def getRawKey (communityIdIndex publicKeyIndex : UInt32) : Except Exception PublicKey :=
  orThrow (ctx.getPublicKey communityIdIndex publicKeyIndex)
    (.dictionaryMissingEntry "cannot find public key by PublicKeyIndex"
      (toString communityIdIndex ++ "." ++ toString publicKeyIndex))

/-- `getUserNameHashs().getDataForIndexOrThrow`. -/
def getUserNameHash (nameHashIndex : UInt32) : Except Exception GenericHash :=
  match ctx.userNameHashs.data nameHashIndex.toNat with
  | some hash => .ok hash.1
  | none => .error (.dictionaryMissingEntry ctx.userNameHashsName (toString nameHashIndex))

/-- `getCommunityIds().getDataForIndex` of a number that must be known. -/
def getCommunityId (communityIdIndex : UInt32) (e : Exception) : Except Exception Uuid :=
  orThrow (ctx.communityIds.data communityIdIndex.toNat) e

/-- The number of a value as `uint32_t`. -/
def toIndex (index : ℕ) : UInt32 := UInt32.ofNat index

/-- `AppContext::getOrAddCommunityIdIndex(uuid)`. -/
def getOrAddCommunityIdIndex (communityUuid : Uuid) : AppM UInt32 := do
  let ctx ← Method.read (fun ctx => .ok ctx)
  let added := ctx.communityIds.add communityUuid
  let arrayIndex := added.1 - 1
  Method.write { ctx with communityIds := added.2 }
  if arrayIndex ≥ 2 ^ 32 then
    Method.raise (.gradidoNotImplemented
      "communities with more then uint32_t index can handle isn't implemented")
  else if ctx.communityContexts.length = arrayIndex then do
    Method.write { ctx with
      communityIds := added.2
      communityContexts := ctx.communityContexts ++ [⟨communityUuid, toIndex added.1, none⟩] }
    return toIndex added.1
  else if ctx.communityContexts.length < arrayIndex then
    Method.raise (.dictionaryHole "community contexts deque has a hole" "communityIds"
      ctx.communityContexts.length added.1)
  else
    return toIndex added.1

/-- `AppContext::getOrAddUserNameHashIndex`. -/
def getOrAddUserNameHashIndex (hash : GenericHash) : AppM UInt32 :=
  if h : isEmpty hash.1 = false then do
    let ctx ← Method.read (fun ctx => .ok ctx)
    let added := ctx.userNameHashs.add ⟨hash, h⟩
    Method.write { ctx with userNameHashs := added.2 }
    if added.1 ≥ 2 ^ 32 then
      Method.raise (.gradidoNotImplemented
        "more user name hashes with more then uint32_t index can handle isn't implemented")
    else
      return toIndex added.1
  else
    Method.raise (.gradidoNodeInvalidData "try to add empty user name hash")

/-- `CommunityContext::getOrAddPublicKey` on the community at a position. -/
def getOrAddPublicKey (position : ℕ) (community : CommunityContext) (publicKey : PublicKey) :
    AppM UInt32 :=
  match community.blockchain with
  | none => Method.raise (.gradidoNodeInvalidData "blockchain ptr is empty")
  | some dictionary =>
    if h : isEmpty publicKey.1 = false then do
      let ctx ← Method.read (fun ctx => .ok ctx)
      let added := dictionary.add ⟨publicKey, h⟩
      Method.write { ctx with
        communityContexts := ctx.communityContexts.set position
          { community with blockchain := some added.2 } }
      return toIndex added.1
    else
      Method.raise (.gradidoNodeInvalidData "empty public key")

/-- `AppContext::getOrAddPublicKeyIndex`. -/
def getOrAddPublicKeyIndex (communityIdIndex : UInt32) (publicKey : PublicKey) : AppM UInt32 := do
  let ctx ← Method.read (fun ctx => .ok ctx)
  match ctx.communityContexts[arrayIndex communityIdIndex]? with
  | none =>
    Method.raise (.dictionaryMissingEntry "missing community entry" (toString communityIdIndex))
  | some community => getOrAddPublicKey (arrayIndex communityIdIndex) community publicKey

/-! ### Look-ups of known entries -/

variable {ctx} {i : UInt32}

theorem toIndex_toNat (i : UInt32) : toIndex i.toNat = i := UInt32.ofNat_toNat

/-- The community is in the dictionary of communities and has its context. -/
def KnowsCommunity (ctx : AppContext) (i : UInt32) : Prop :=
  ∃ uuid, ctx.communityIds.data i.toNat = some uuid ∧ i.toNat ≤ ctx.communityContexts.length

theorem returns_getOrAddCommunityIdIndex {uuid : Uuid} {n : ℕ}
    (hdata : ctx.communityIds.data n = some uuid) (hsmall : n - 1 < 2 ^ 32)
    (hcontext : n ≤ ctx.communityContexts.length) :
    Method.Returns (getOrAddCommunityIdIndex uuid) ctx (toIndex n) ctx := by
  have hpos := (Dictionary.data_eq_some_iff.1 hdata).1
  unfold getOrAddCommunityIdIndex
  refine Method.Returns.readBind rfl ?_
  simp only [Dictionary.add_of_data hdata]
  refine Method.Returns.writeBind ?_
  rw [if_neg (by omega), if_neg (by omega), if_neg (by omega)]
  exact .pure _ _

theorem returns_getOrAddUserNameHashIndex {hash : NonEmpty 32} {n : ℕ}
    (hdata : ctx.userNameHashs.data n = some hash) (hsmall : n < 2 ^ 32) :
    Method.Returns (getOrAddUserNameHashIndex hash.1) ctx (toIndex n) ctx := by
  unfold getOrAddUserNameHashIndex
  rw [dif_pos hash.2]
  refine Method.Returns.readBind rfl ?_
  simp only [Dictionary.add_of_data hdata]
  refine Method.Returns.writeBind ?_
  rw [if_neg (by omega)]
  exact .pure _ _

theorem returns_getOrAddPublicKeyIndex {c : UInt32} {community : CommunityContext}
    {dictionary : Dictionary (NonEmpty 32)} {key : NonEmpty 32} {n : ℕ}
    (hcommunity : ctx.communityContexts[arrayIndex c]? = some community)
    (hdictionary : community.blockchain = some dictionary)
    (hdata : dictionary.data n = some key) :
    Method.Returns (getOrAddPublicKeyIndex c key.1) ctx (toIndex n) ctx := by
  obtain ⟨hlt, hget⟩ := List.getElem?_eq_some_iff.1 hcommunity
  -- writing the dictionary back changes nothing
  have hset : ctx.communityContexts.set (arrayIndex c)
      { community with blockchain := some dictionary } = ctx.communityContexts := by
    rw [← hdictionary, ← hget, List.set_getElem_self]
  unfold getOrAddPublicKeyIndex
  refine Method.Returns.readBind rfl ?_
  simp only [hcommunity]
  unfold getOrAddPublicKey
  simp only [hdictionary]
  rw [dif_pos key.2]
  refine Method.Returns.readBind rfl ?_
  simp only [Dictionary.add_of_data hdata, hset]
  refine Method.Returns.writeBind ?_
  exact .pure _ _

theorem getPublicKey_eq_some {c : UInt32} {key : PublicKey} :
    ctx.getPublicKey c i = some key ↔
      ∃ community dictionary nonEmpty, ctx.communityContexts[arrayIndex c]? = some community ∧
        community.blockchain = some dictionary ∧ dictionary.data i.toNat = some nonEmpty ∧
        nonEmpty.1 = key := by
  unfold getPublicKey
  simp only [Option.bind_eq_bind, Option.bind_eq_some_iff, Option.pure_def, Option.some.injEq]
  constructor
  · rintro ⟨community, hcommunity, dictionary, hdictionary, nonEmpty, hdata, rfl⟩
    exact ⟨community, dictionary, nonEmpty, hcommunity, hdictionary, hdata, rfl⟩
  · rintro ⟨community, dictionary, nonEmpty, hcommunity, hdictionary, hdata, rfl⟩
    exact ⟨community, hcommunity, dictionary, hdictionary, nonEmpty, hdata, rfl⟩

theorem KnowsCommunity.returns {uuid : Uuid} (hi : ctx.KnowsCommunity i)
    (hdata : ctx.communityIds.data i.toNat = some uuid) :
    Method.Returns (getOrAddCommunityIdIndex uuid) ctx i ctx := by
  obtain ⟨_, _, hcontext⟩ := hi
  have hlt := i.toNat_lt
  have hreturns := returns_getOrAddCommunityIdIndex hdata (by omega) hcontext
  rwa [toIndex_toNat] at hreturns

theorem returns_of_userNameHash {hash : NonEmpty 32}
    (hdata : ctx.userNameHashs.data i.toNat = some hash) :
    Method.Returns (getOrAddUserNameHashIndex hash.1) ctx i ctx := by
  have hreturns := returns_getOrAddUserNameHashIndex hdata i.toNat_lt
  rwa [toIndex_toNat] at hreturns

theorem returns_of_getPublicKey {c : UInt32} {key : PublicKey}
    (hkey : ctx.getPublicKey c i = some key) :
    Method.Returns (getOrAddPublicKeyIndex c key) ctx i ctx := by
  obtain ⟨community, dictionary, nonEmpty, hcommunity, hdictionary, hdata, rfl⟩ :=
    getPublicKey_eq_some.1 hkey
  have hreturns := returns_getOrAddPublicKeyIndex hcommunity hdictionary hdata
  rwa [toIndex_toNat] at hreturns

/-! ### Later contexts -/

/-- Everything that was known is known under the same number, and every community that had a
blockchain still has it. -/
structure Later (s t : AppContext) : Prop where
  communityIds : s.communityIds.Extends t.communityIds
  userNameHashs : s.userNameHashs.Extends t.userNameHashs
  contexts : s.communityContexts.length ≤ t.communityContexts.length
  keys : ∀ {n : ℕ} {community : CommunityContext} {dictionary : Dictionary (NonEmpty 32)},
    s.communityContexts[n]? = some community → community.blockchain = some dictionary →
    ∃ (community' : CommunityContext) (dictionary' : Dictionary (NonEmpty 32)),
      t.communityContexts[n]? = some community' ∧ community'.blockchain = some dictionary' ∧
        dictionary.Extends dictionary'

namespace Later

variable {s t u : AppContext}

theorem refl (s : AppContext) : Later s s where
  communityIds := .refl _
  userNameHashs := .refl _
  contexts := Nat.le_refl _
  keys h h' := ⟨_, _, h, h', .refl _⟩

theorem trans (h : Later s t) (h' : Later t u) : Later s u where
  communityIds := h.communityIds.trans h'.communityIds
  userNameHashs := h.userNameHashs.trans h'.userNameHashs
  contexts := Nat.le_trans h.contexts h'.contexts
  keys hs hd := by
    obtain ⟨_, _, ht, hd', hext⟩ := h.keys hs hd
    obtain ⟨community, dictionary, hu, hd'', hext'⟩ := h'.keys ht hd'
    exact ⟨community, dictionary, hu, hd'', hext.trans hext'⟩

theorem knowsCommunity (h : Later s t) (hs : s.KnowsCommunity i) : t.KnowsCommunity i := by
  obtain ⟨uuid, hdata, hle⟩ := hs
  exact ⟨uuid, h.communityIds.data hdata, Nat.le_trans hle h.contexts⟩

theorem getPublicKey (h : Later s t) {c : UInt32} {key : PublicKey}
    (hs : s.getPublicKey c i = some key) : t.getPublicKey c i = some key := by
  obtain ⟨community, dictionary, nonEmpty, hcommunity, hdictionary, hdata, hkey⟩ :=
    getPublicKey_eq_some.1 hs
  obtain ⟨community', dictionary', hcommunity', hdictionary', hext⟩ := h.keys hcommunity hdictionary
  exact getPublicKey_eq_some.2
    ⟨community', dictionary', nonEmpty, hcommunity', hdictionary', hext.data hdata, hkey⟩

end Later

/-! ### The look-ups settle -/

theorem settled_getOrAddCommunityIdIndex (uuid : Uuid) :
    Method.Settled Later (getOrAddCommunityIdIndex uuid) := by
  intro s i s' h
  have hdata := s.communityIds.data_add uuid
  have hext := s.communityIds.extends_add uuid
  unfold getOrAddCommunityIdIndex at h
  obtain ⟨_, _, hread, h⟩ := Method.returns_bind.1 h
  obtain ⟨heq, rfl⟩ := Method.returns_read.1 hread
  cases heq
  obtain ⟨_, _, hwrite, h⟩ := Method.returns_bind.1 h
  obtain rfl := Method.returns_write.1 hwrite
  by_cases hsmall : (s.communityIds.add uuid).1 - 1 ≥ 2 ^ 32
  · rw [if_pos hsmall] at h
    exact absurd h Method.not_returns_raise
  rw [if_neg hsmall] at h
  by_cases hnext : s.communityContexts.length = (s.communityIds.add uuid).1 - 1
  · -- the context of a new community is appended
    rw [if_pos hnext] at h
    obtain ⟨_, _, hwrite, h⟩ := Method.returns_bind.1 h
    obtain rfl := Method.returns_write.1 hwrite
    obtain ⟨rfl, rfl⟩ := Method.returns_pure.1 h
    refine ⟨⟨hext, .refl _, by simp, ?_⟩, ?_⟩
    · intro n community dictionary hn hdictionary
      refine ⟨community, dictionary, ?_, hdictionary, .refl _⟩
      exact (List.getElem?_append_left (List.getElem?_eq_some_iff.1 hn).1).trans hn
    · intro u hu
      have hcontexts := hu.contexts
      simp only [List.length_append, List.length_singleton] at hcontexts
      exact returns_getOrAddCommunityIdIndex (hu.communityIds.data hdata) (by omega) (by omega)
  · rw [if_neg hnext] at h
    by_cases hhole : s.communityContexts.length < (s.communityIds.add uuid).1 - 1
    · rw [if_pos hhole] at h
      exact absurd h Method.not_returns_raise
    rw [if_neg hhole] at h
    obtain ⟨rfl, rfl⟩ := Method.returns_pure.1 h
    refine ⟨⟨hext, .refl _, Nat.le_refl _, fun hn hd => ⟨_, _, hn, hd, .refl _⟩⟩, ?_⟩
    intro u hu
    have hcontexts := hu.contexts
    exact returns_getOrAddCommunityIdIndex (hu.communityIds.data hdata) (by omega)
      (by simp only at hcontexts; omega)

theorem settled_getOrAddUserNameHashIndex (hash : GenericHash) :
    Method.Settled Later (getOrAddUserNameHashIndex hash) := by
  intro s i s' h
  unfold getOrAddUserNameHashIndex at h
  by_cases hne : isEmpty hash.1 = false
  · rw [dif_pos hne] at h
    have hdata := s.userNameHashs.data_add ⟨hash, hne⟩
    have hext := s.userNameHashs.extends_add ⟨hash, hne⟩
    obtain ⟨_, _, hread, h⟩ := Method.returns_bind.1 h
    obtain ⟨heq, rfl⟩ := Method.returns_read.1 hread
    cases heq
    obtain ⟨_, _, hwrite, h⟩ := Method.returns_bind.1 h
    obtain rfl := Method.returns_write.1 hwrite
    by_cases hsmall : (s.userNameHashs.add ⟨hash, hne⟩).1 ≥ 2 ^ 32
    · rw [if_pos hsmall] at h
      exact absurd h Method.not_returns_raise
    rw [if_neg hsmall] at h
    obtain ⟨rfl, rfl⟩ := Method.returns_pure.1 h
    refine ⟨⟨.refl _, hext, Nat.le_refl _, fun hn hd => ⟨_, _, hn, hd, .refl _⟩⟩, ?_⟩
    intro u hu
    exact returns_getOrAddUserNameHashIndex (hu.userNameHashs.data hdata) (by omega)
  · rw [dif_neg hne] at h
    exact absurd h Method.not_returns_raise

theorem settled_getOrAddPublicKeyIndex (c : UInt32) (key : PublicKey) :
    Method.Settled Later (getOrAddPublicKeyIndex c key) := by
  intro s i s' h
  unfold getOrAddPublicKeyIndex at h
  obtain ⟨_, _, hread, h⟩ := Method.returns_bind.1 h
  obtain ⟨heq, rfl⟩ := Method.returns_read.1 hread
  cases heq
  cases hcommunity : s.communityContexts[arrayIndex c]? with
  | none =>
    simp only [hcommunity] at h
    exact absurd h Method.not_returns_raise
  | some community =>
    simp only [hcommunity] at h
    unfold getOrAddPublicKey at h
    cases hdictionary : community.blockchain with
    | none =>
      simp only [hdictionary] at h
      exact absurd h Method.not_returns_raise
    | some dictionary =>
      simp only [hdictionary] at h
      by_cases hne : isEmpty key.1 = false
      · rw [dif_pos hne] at h
        have hdata := dictionary.data_add ⟨key, hne⟩
        have hext := dictionary.extends_add ⟨key, hne⟩
        obtain ⟨_, _, hread, h⟩ := Method.returns_bind.1 h
        obtain ⟨heq, rfl⟩ := Method.returns_read.1 hread
        cases heq
        obtain ⟨_, _, hwrite, h⟩ := Method.returns_bind.1 h
        obtain rfl := Method.returns_write.1 hwrite
        obtain ⟨rfl, rfl⟩ := Method.returns_pure.1 h
        have hlt := (List.getElem?_eq_some_iff.1 hcommunity).1
        refine ⟨⟨.refl _, .refl _, by simp, ?_⟩, ?_⟩
        · intro n community' dictionary' hn hdictionary'
          by_cases heq : arrayIndex c = n
          · subst heq
            rw [hcommunity] at hn
            cases hn
            rw [hdictionary] at hdictionary'
            cases hdictionary'
            exact ⟨_, _, List.getElem?_set_self hlt, rfl, hext⟩
          · exact ⟨community', dictionary', (List.getElem?_set_ne heq).trans hn, hdictionary',
              .refl _⟩
        · intro u hu
          obtain ⟨community', dictionary', hcommunity', hdictionary', hext'⟩ :=
            hu.keys (List.getElem?_set_self hlt) rfl
          exact returns_getOrAddPublicKeyIndex hcommunity' hdictionary' (hext'.data hdata)
      · rw [dif_neg hne] at h
        exact absurd h Method.not_returns_raise

end AppContext

end Gradido.Wire
