import GradidoBlockchain.Lib.Steps
import Mathlib.Algebra.Group.Nat.Defs
import Mathlib.Logic.Function.Basic

/-!
# The provider of blockchains

`InMemoryProvider` keeps one blockchain for each community; the context of the
application keeps the blockchain of each community as well, and the public keys
of a community are looked up there.  Any number of threads call
`findBlockchain` and `clear`.  A step is what a thread does under the lock of the
provider, or between two locks.
-/

namespace Gradido

namespace Concurrent

/-- The conversions of community ids, and the check of their characters. -/
structure CommunityIds (Uuid : Type) where
  uuidFromString : String → Uuid
  uuidToString : Uuid → String
  isValidCommunityAlias : String → Bool

/-- The exceptions of the provider and the application context. -/
inductive ProviderException
  | gradidoNodeInvalidData (what : String)
  | gradidoNotImplemented (what : String)
  | dictionaryHole (what dictionary : String) (size index : ℕ)
  | dictionaryMissingEntry (what entry : String)
  | badOptionalAccess
deriving DecidableEq, Repr

/-- An object of the class `InMemory`: where it lies, and what its constructor was given. -/
structure Blockchain where
  address : ℕ
  communityId : String
  communityIdIndex : UInt32
deriving DecidableEq, Repr

/-- `CommunityContext`. -/
structure CommunityContext (Uuid : Type) where
  mCommunityUuid : Uuid
  mCommunityIdIndex : UInt32
  mBlockchain : Option Blockchain

/-- `AppContext`, without the user name hashes.  The dictionary of the community ids is the list of
its entries: the first one has index one. -/
structure AppContext (Uuid : Type) where
  mCommunityIds : List Uuid
  mCommunityContexts : List (CommunityContext Uuid)

namespace AppContext

variable {Uuid : Type} [DecidableEq Uuid]

/-- `RuntimeDictionary::getIndexForData`. -/
def getIndexForData (ctx : AppContext Uuid) (uuid : Uuid) : ℕ :=
  if uuid ∈ ctx.mCommunityIds then ctx.mCommunityIds.idxOf uuid + 1 else 0

/-- `RuntimeDictionary::getDataForIndex`. -/
def getDataForIndex (ctx : AppContext Uuid) (index : ℕ) : Option Uuid :=
  if index = 0 then none else ctx.mCommunityIds[index - 1]?

/-- `RuntimeDictionary::getOrAddIndexForData`. -/
def getOrAddIndexForData (ctx : AppContext Uuid) (uuid : Uuid) : AppContext Uuid × ℕ :=
  if uuid ∈ ctx.mCommunityIds then (ctx, ctx.mCommunityIds.idxOf uuid + 1)
  else ({ ctx with mCommunityIds := ctx.mCommunityIds ++ [uuid] }, ctx.mCommunityIds.length + 1)

/-- `AppContext::getOrAddCommunityIdIndex`.  What was added before an exception stays. -/
def getOrAddCommunityIdIndex (ids : CommunityIds Uuid) (ctx : AppContext Uuid)
    (communityId : String) : AppContext Uuid × Except ProviderException UInt32 :=
  let uuid := ids.uuidFromString communityId
  if ctx.getIndexForData uuid ≠ 0 then (ctx, .ok (.ofNat (ctx.getIndexForData uuid)))
  else if ids.isValidCommunityAlias communityId = false then
    (ctx, .error (.gradidoNodeInvalidData ("invalid character, only lowercase english latin letter, numbers and - are allowed for communityId: " ++ communityId)))
  else
    let (ctx, index) := ctx.getOrAddIndexForData uuid
    let arrayIndex := index - 1
    if 2 ^ 32 ≤ arrayIndex then
      (ctx, .error (.gradidoNotImplemented
        "communities with more then uint32_t index can handle isn't implemented"))
    else if ctx.mCommunityContexts.length = arrayIndex then
      ({ ctx with mCommunityContexts :=
          ctx.mCommunityContexts ++ [⟨uuid, .ofNat index, none⟩] }, .ok (.ofNat index))
    else if ctx.mCommunityContexts.length < arrayIndex then
      (ctx, .error (.dictionaryHole "community contexts deque has a hole" "communityIds"
        ctx.mCommunityContexts.length index))
    else (ctx, .ok (.ofNat index))

/-- The place of a community in the deque: zero wraps around. -/
def arrayIndex (communityIdIndex : UInt32) : ℕ := (communityIdIndex - 1).toNat

/-- `AppContext::addBlockchain`. -/
def addBlockchain (ids : CommunityIds Uuid) (ctx : AppContext Uuid) (communityIdIndex : UInt32)
    (blockchain : Blockchain) : Except ProviderException (AppContext Uuid) :=
  if ctx.mCommunityContexts.length ≤ arrayIndex communityIdIndex then
    .error (.dictionaryMissingEntry "missing CommunityContext"
      ((ctx.getDataForIndex communityIdIndex.toNat).elim (Nat.repr communityIdIndex.toNat)
        ids.uuidToString))
  else
    .ok { ctx with
      mCommunityContexts := ctx.mCommunityContexts.modify (arrayIndex communityIdIndex)
        (fun c => { c with mBlockchain := some blockchain }) }

/-- `AppContext::getCommunityContext` and `CommunityContext::getBlockchain`. -/
def getBlockchain (ctx : AppContext Uuid) (communityIdIndex : UInt32) : Option Blockchain :=
  ctx.mCommunityContexts[arrayIndex communityIdIndex]?.bind CommunityContext.mBlockchain

end AppContext

/-- Where a thread is in `findBlockchain`. -/
inductive Phase
  | idle
  | lookup (communityId : String) (communityIdIndex : UInt32)
  | missed (communityId : String) (communityIdIndex : UInt32)
  | resolved (communityIdValue : String) (communityIdIndexValue : UInt32)
  | returned (communityIdIndex : UInt32) (blockchain : Blockchain)
  | threw (e : ProviderException)
deriving DecidableEq, Repr

/-- The thread has no call open. -/
def Phase.ready : Phase → Bool
  | .idle => true
  | .returned _ _ => true
  | .threw _ => true
  | _ => false

/-- The application: the context, `InMemoryProvider::mBlockchainsPerGroup`, the address of the next
object, and the threads. -/
structure Application (Uuid : Type) where
  appContext : AppContext Uuid
  mBlockchainsPerGroup : UInt32 → Option Blockchain
  nextAddress : ℕ
  phase : ℕ → Phase

/-- The steps of a thread. -/
inductive Event
  | findBlockchainByIndex (thread : ℕ) (communityIdIndex : UInt32)
  | findBlockchainById (thread : ℕ) (communityId : String)
  | lookup (thread : ℕ)
  | addBlockchain (thread : ℕ)
  | insert (thread : ℕ)
  | clear (thread : ℕ)
deriving DecidableEq, Repr

namespace Application

variable {Uuid : Type} [DecidableEq Uuid]

/-- A thread goes on. -/
def goTo (s : Application Uuid) (thread : ℕ) (phase : Phase) : Application Uuid :=
  { s with phase := Function.update s.phase thread phase }

/-- `InMemoryProvider::addBlockchain` up to the lock: both values of the community. -/
def resolve (ids : CommunityIds Uuid) (ctx : AppContext Uuid) (communityId : String)
    (communityIdIndex : Option UInt32) : Except ProviderException (String × UInt32) :=
  match communityIdIndex with
  | some index =>
    if communityId ≠ "" then .ok (communityId, index)
    else
      match ctx.getDataForIndex index.toNat with
      | none => .error (.dictionaryMissingEntry "cannot find community id for addBlockchain"
          (Nat.repr index.toNat))
      | some uuid => .ok (ids.uuidToString uuid, index)
  | none =>
    if communityId ≠ "" then .error .badOptionalAccess
    else .error (.gradidoNodeInvalidData
      "please call addBlockchain either with a value for communityId or for communityIdIndex")

/-- `unordered_map::insert`: an entry that is there stays.  The blockchain that is in the map
afterwards is returned. -/
def emplace (blockchains : UInt32 → Option Blockchain) (index : UInt32) (blockchain : Blockchain) :
    (UInt32 → Option Blockchain) × Blockchain :=
  match blockchains index with
  | some present => (blockchains, present)
  | none => (Function.update blockchains index (some blockchain), blockchain)

/-- The step of a thread, when it can take this one. -/
def step (ids : CommunityIds Uuid) (s : Application Uuid) : Event → Option (Application Uuid)
  | .findBlockchainByIndex thread index =>
    if (s.phase thread).ready = true then some (s.goTo thread (.lookup "" index)) else none
  | .findBlockchainById thread communityId =>
    if (s.phase thread).ready = true then
      let (ctx, index) := s.appContext.getOrAddCommunityIdIndex ids communityId
      match index with
      | .error e => some ({ s with appContext := ctx }.goTo thread (.threw e))
      | .ok index => some ({ s with appContext := ctx }.goTo thread (.lookup communityId index))
    else none
  | .lookup thread =>
    match s.phase thread with
    | .lookup communityId index =>
      match s.mBlockchainsPerGroup index with
      | some blockchain => some (s.goTo thread (.returned index blockchain))
      | none => some (s.goTo thread (.missed communityId index))
    | _ => none
  | .addBlockchain thread =>
    match s.phase thread with
    | .missed communityId index =>
      match resolve ids s.appContext communityId (some index) with
      | .error e => some (s.goTo thread (.threw e))
      | .ok (communityIdValue, indexValue) =>
        some (s.goTo thread (.resolved communityIdValue indexValue))
    | _ => none
  | .insert thread =>
    match s.phase thread with
    | .resolved communityIdValue indexValue =>
      let blockchain : Blockchain := ⟨s.nextAddress, communityIdValue, indexValue⟩
      let s := { s with nextAddress := s.nextAddress + 1 }
      -- the context gets the new object before the map is asked
      match s.appContext.addBlockchain ids indexValue blockchain with
      | .error e => some (s.goTo thread (.threw e))
      | .ok ctx =>
        let (blockchains, result) := emplace s.mBlockchainsPerGroup indexValue blockchain
        some ({ s with appContext := ctx, mBlockchainsPerGroup := blockchains }.goTo thread
          (.returned indexValue result))
    | _ => none
  | .clear thread =>
    if (s.phase thread).ready = true then some { s with mBlockchainsPerGroup := fun _ => none }
    else none

/-- The application before any call: an empty provider. -/
def start (ctx : AppContext Uuid) : Application Uuid where
  appContext := ctx
  mBlockchainsPerGroup := fun _ => none
  nextAddress := 0
  phase := fun _ => .idle

end Application

end Concurrent

end Gradido
