import GradidoBlockchain.System
import Mathlib.Data.List.Perm.Subperm

/-!
# What single rules accept

Two rules of the validation are compared with what they are there for.

* `checkSignPairs_eq_ok_iff`: the signature check decides which keys have
  signed, whatever path it takes;
* `validateTargetDate_eq_ok_iff`: the four cases of the target date check are
  one bound on a distance in months.
-/

namespace Gradido

open Checked

namespace Validate

/-! ### Signatures -/

/-- `AbstractRole::checkRequiredSignatures` for a list of pairs, with the search for doublets. -/
def checkSignPairs (env : Env) (r : RequiredSignatures) (signPairs : List SignaturePair) :
    Except Exception Unit := do
  throwIf (decide (1 < signPairs.length ∧ ¬ (signPairs.map SignaturePair.publicKey).Nodup))
    (.transactionValidationInvalidInput "double public key" "public key" "")
  throwIf (decide (r.mMinSignatureCount > signPairs.length))
    (.transactionValidationMissingSign signPairs.length r.mMinSignatureCount)
  if r.mRequiredSignPublicKeys = [] ∧ r.mForbiddenSignPublicKeys = [] ∧
      r.mRequiredSignPublicKeyIndices = [] then
    return ()
  throwIf (decide (r.mRequiredSignPublicKeys.length > signPairs.length))
    (.transactionValidationRequiredSignMissing r.mRequiredSignPublicKeys)
  throwIf (decide (r.mRequiredSignPublicKeyIndices.length > signPairs.length))
    (.transactionValidationRequiredSignMissing
      (r.mRequiredSignPublicKeyIndices.map PublicKeyIndex.publicKeyIndex))
  match signPairs with
  | [p] =>
    throwIf (decide (p.publicKey ∈ r.mForbiddenSignPublicKeys))
      (.transactionValidationForbiddenSign p.publicKey)
    throwIf (decide (r.mRequiredSignPublicKeys.length = 1 ∧
        r.mRequiredSignPublicKeys ≠ [p.publicKey]))
      (.transactionValidationRequiredSignMissing r.mRequiredSignPublicKeys)
    match r.mRequiredSignPublicKeyIndices with
    | [k] =>
      throwIf (decide (env.dict.toPublicKeyIndex p.publicKey k.communityIdIndex ≠ k))
        (.transactionValidationRequiredSignMissing [k.publicKeyIndex])
    | _ => return ()
  | _ =>
    let (keys, indices) ← eraseSigned env r signPairs r.mRequiredSignPublicKeys
      r.mRequiredSignPublicKeyIndices
    throwIf (decide (keys ≠ [])) (.transactionValidationRequiredSignMissing keys)
    throwIf (decide (indices ≠ []))
      (.transactionValidationRequiredSignMissing (indices.map PublicKeyIndex.publicKeyIndex))

/-- A signature map has no doublets. -/
theorem checkRequiredSignatures_eq (env : Env) (r : RequiredSignatures)
    (signatureMap : SignatureMap) :
    checkRequiredSignatures env r signatureMap =
      checkSignPairs env r signatureMap.signaturePairs := by
  unfold checkRequiredSignatures checkSignPairs
  have hdouble : decide (1 < signatureMap.signaturePairs.length ∧
      ¬ (signatureMap.signaturePairs.map SignaturePair.publicKey).Nodup) = false := by
    simp [signatureMap.nodup]
  rw [hdouble]
  rfl

/-- The lists of a role: no key twice, and all numbers are of one community. -/
structure RoleLists (r : RequiredSignatures) : Prop where
  keys : r.mRequiredSignPublicKeys.Nodup
  indices : r.mRequiredSignPublicKeyIndices.Nodup
  community : ∃ c, ∀ k ∈ r.mRequiredSignPublicKeyIndices, k.communityIdIndex = c

/-- Every role has such lists, a registration of one key as user and account apart. -/
theorem roleLists_requiredSignatures (env : Env) (tx : GradidoTransaction)
    (hkeys : ∀ r, tx.body.specific = .registerAddress r → r.accountPublicKey ≠ r.userPublicKey) :
    RoleLists (requiredSignatures env tx) := by
  unfold requiredSignatures
  cases hspecific : tx.body.specific with
  | registerAddress r =>
    refine ⟨List.nodup_nil, ?_, tx.communityIdIndex, ?_⟩
    · simp [PublicKeyDictionary.toPublicKeyIndex, hkeys r hspecific]
    · simp [PublicKeyDictionary.toPublicKeyIndex]
  | communityRoot r =>
    refine ⟨List.nodup_nil, List.nodup_singleton _, tx.communityIdIndex, ?_⟩
    simp [PublicKeyDictionary.toPublicKeyIndex]
  | _ =>
    refine ⟨?_, List.nodup_nil, 0, by simp⟩
    first
      | exact List.nodup_nil
      | exact List.nodup_singleton _

/-- What a signature map has to be like for a role. -/
structure SignedFor (env : Env) (r : RequiredSignatures) (signPairs : List SignaturePair) :
    Prop where
  distinct : (signPairs.map SignaturePair.publicKey).Nodup
  enough : r.mMinSignatureCount ≤ signPairs.length
  keys : ∀ key ∈ r.mRequiredSignPublicKeys, ∃ p ∈ signPairs, p.publicKey = key
  indices : ∀ k ∈ r.mRequiredSignPublicKeyIndices, ∃ p ∈ signPairs,
    env.dict.toPublicKeyIndex p.publicKey k.communityIdIndex = k
  forbidden : ∀ key ∈ r.mForbiddenSignPublicKeys, ∀ p ∈ signPairs, p.publicKey ≠ key

section Signatures

variable {env : Env} {r : RequiredSignatures}

/-- One round of the loop, for numbers of one community. -/
theorem eraseSigned_cons {community : ℕ} {indices : List PublicKeyIndex}
    (hcommunity : ∀ k ∈ indices, k.communityIdIndex = community) (p : SignaturePair)
    (signPairs : List SignaturePair) (keys : List ℕ) :
    eraseSigned env r (p :: signPairs) keys indices = (do
      throwIf (decide (p.publicKey ∈ r.mForbiddenSignPublicKeys))
        (.transactionValidationForbiddenSign p.publicKey)
      eraseSigned env r signPairs (keys.erase p.publicKey)
        (indices.erase (env.dict.toPublicKeyIndex p.publicKey community))) := by
  cases indices with
  | nil => rfl
  | cons k indices => simp only [eraseSigned, hcommunity k List.mem_cons_self]

/-- The loop erases the keys of the signers, unless it meets a forbidden one. -/
theorem eraseSigned_eq_ok_iff {community : ℕ} {signPairs : List SignaturePair}
    {keys keys' : List ℕ} {indices indices' : List PublicKeyIndex}
    (hcommunity : ∀ k ∈ indices, k.communityIdIndex = community) :
    eraseSigned env r signPairs keys indices = .ok (keys', indices') ↔
      (∀ p ∈ signPairs, p.publicKey ∉ r.mForbiddenSignPublicKeys) ∧
      keys.diff (signPairs.map SignaturePair.publicKey) = keys' ∧
      indices.diff (signPairs.map (fun p => env.dict.toPublicKeyIndex p.publicKey community)) =
        indices' := by
  induction signPairs generalizing keys indices with
  | nil => simp [eraseSigned]
  | cons p signPairs ih =>
    rw [eraseSigned_cons hcommunity]
    simp only [bind_eq_ok, throwIf_eq_ok, exists_unit, decide_eq_false_iff_not]
    rw [ih (fun k hk => hcommunity k (List.mem_of_mem_erase hk)), List.map_cons, List.map_cons,
      List.diff_cons, List.diff_cons, List.forall_mem_cons, and_assoc]

/-- What is left of a list without doublets is nothing when all of it has signed. -/
theorem diff_eq_nil_iff {α : Type} [DecidableEq α] {l l' : List α} (h : l.Nodup) :
    l.diff l' = [] ↔ ∀ a ∈ l, a ∈ l' := by
  rw [List.eq_nil_iff_forall_not_mem]
  simp only [h.mem_sdiff_iff, not_and, not_not]

/-- As many signatures are needed as there are required keys. -/
theorem length_le_of_signed {α : Type} {l : List α} {signPairs : List SignaturePair}
    {f : SignaturePair → α} (hnodup : l.Nodup) (hsigned : ∀ a ∈ l, ∃ p ∈ signPairs, f p = a) :
    l.length ≤ signPairs.length := by
  have hsubset : l ⊆ signPairs.map f := by
    intro a ha
    obtain ⟨p, hp, heq⟩ := hsigned a ha
    exact List.mem_map.2 ⟨p, hp, heq⟩
  have hle := (hnodup.subperm hsubset).length_le
  rwa [List.length_map] at hle

/-- The signers respect the lists of a role. -/
def Respects (env : Env) (r : RequiredSignatures) (signPairs : List SignaturePair) : Prop :=
  (∀ key ∈ r.mForbiddenSignPublicKeys, ∀ p ∈ signPairs, p.publicKey ≠ key) ∧
    (∀ key ∈ r.mRequiredSignPublicKeys, ∃ p ∈ signPairs, p.publicKey = key) ∧
    ∀ k ∈ r.mRequiredSignPublicKeyIndices, ∃ p ∈ signPairs,
      env.dict.toPublicKeyIndex p.publicKey k.communityIdIndex = k

theorem signedFor_iff {signPairs : List SignaturePair} : SignedFor env r signPairs ↔
    (signPairs.map SignaturePair.publicKey).Nodup ∧ r.mMinSignatureCount ≤ signPairs.length ∧
      Respects env r signPairs :=
  ⟨fun h => ⟨h.distinct, h.enough, h.forbidden, h.keys, h.indices⟩,
    fun ⟨hdistinct, henough, hforbidden, hkeys, hindices⟩ =>
      ⟨hdistinct, henough, hkeys, hindices, hforbidden⟩⟩

/-- As many signatures are needed as there are required keys, and as there are numbers. -/
theorem Respects.length_le {signPairs : List SignaturePair} (h : Respects env r signPairs)
    (hr : RoleLists r) : r.mRequiredSignPublicKeys.length ≤ signPairs.length ∧
      r.mRequiredSignPublicKeyIndices.length ≤ signPairs.length := by
  obtain ⟨community, hcommunity⟩ := hr.community
  obtain ⟨-, hkeys, hindices⟩ := h
  refine ⟨length_le_of_signed hr.keys hkeys, length_le_of_signed
    (f := fun p => env.dict.toPublicKeyIndex p.publicKey community) hr.indices ?_⟩
  intro k hk
  obtain ⟨p, hp, heq⟩ := hindices k hk
  exact ⟨p, hp, by rw [← hcommunity k hk]; exact heq⟩

theorem eq_nil_or_singleton {α : Type} {l : List α} (h : l.length ≤ 1) :
    l = [] ∨ ∃ a, l = [a] := by
  cases l with
  | nil => exact .inl rfl
  | cons a l =>
    have hl : l = [] := List.length_eq_zero_iff.1 (by simpa using h)
    exact .inr ⟨a, by rw [hl]⟩

/-- The path for one signature, when no more than one key is required. -/
theorem checkSingle_iff {p : SignaturePair} (hkeys : r.mRequiredSignPublicKeys.length ≤ 1)
    (hindices : r.mRequiredSignPublicKeyIndices.length ≤ 1) :
    (p.publicKey ∉ r.mForbiddenSignPublicKeys ∧
      ¬ (r.mRequiredSignPublicKeys.length = 1 ∧ r.mRequiredSignPublicKeys ≠ [p.publicKey]) ∧
      (match r.mRequiredSignPublicKeyIndices with
        | [k] =>
          throwIf (decide (env.dict.toPublicKeyIndex p.publicKey k.communityIdIndex ≠ k))
            (Exception.transactionValidationRequiredSignMissing [k.publicKeyIndex])
        | _ => .ok ()) = .ok ()) ↔ Respects env r [p] := by
  refine and_congr ?_ (and_congr ?_ ?_)
  · simp only [List.mem_singleton, forall_eq, ne_eq]
    exact ⟨fun h key hkey heq => h (heq ▸ hkey), fun h hmem => h _ hmem rfl⟩
  · rcases eq_nil_or_singleton hkeys with hnil | ⟨key, hone⟩
    · simp [hnil]
    · simp [hone, eq_comm]
  · rcases eq_nil_or_singleton hindices with hnil | ⟨k, hone⟩
    · simp [hnil]
    · simp [hone]

/-- The path for any number of signatures but one. -/
theorem checkSeveral_iff {signPairs : List SignaturePair} (hr : RoleLists r) :
    (∃ left, eraseSigned env r signPairs r.mRequiredSignPublicKeys
        r.mRequiredSignPublicKeyIndices = .ok left ∧ left.1 = [] ∧ left.2 = []) ↔
      Respects env r signPairs := by
  obtain ⟨community, hcommunity⟩ := hr.community
  have hforbidden : (∀ p ∈ signPairs, p.publicKey ∉ r.mForbiddenSignPublicKeys) ↔
      ∀ key ∈ r.mForbiddenSignPublicKeys, ∀ p ∈ signPairs, p.publicKey ≠ key := by
    constructor
    · intro h key hkey p hp heq
      exact h p hp (heq ▸ hkey)
    · intro h p hp hmem
      exact h _ hmem p hp rfl
  have hindices : (∀ k ∈ r.mRequiredSignPublicKeyIndices,
      k ∈ signPairs.map (fun p => env.dict.toPublicKeyIndex p.publicKey community)) ↔
      ∀ k ∈ r.mRequiredSignPublicKeyIndices, ∃ p ∈ signPairs,
        env.dict.toPublicKeyIndex p.publicKey k.communityIdIndex = k := by
    refine forall₂_congr fun k hk => ?_
    rw [List.mem_map, hcommunity k hk]
  rw [Prod.exists]
  unfold Respects
  simp only [eraseSigned_eq_ok_iff hcommunity]
  rw [← hforbidden, ← hindices, ← diff_eq_nil_iff hr.indices]
  simp only [← List.mem_map, ← diff_eq_nil_iff hr.keys]
  constructor
  · rintro ⟨keys, indices, ⟨hnone, rfl, rfl⟩, hkeys, hleft⟩
    exact ⟨hnone, hkeys, hleft⟩
  · rintro ⟨hnone, hkeys, hleft⟩
    exact ⟨_, _, ⟨hnone, rfl, rfl⟩, hkeys, hleft⟩

/-- **The signature check** accepts exactly the signatures that the role asks for. -/
theorem checkSignPairs_eq_ok_iff (hr : RoleLists r) (signPairs : List SignaturePair) :
    checkSignPairs env r signPairs = .ok () ↔ SignedFor env r signPairs := by
  have hdouble : ¬ (1 < signPairs.length ∧ ¬ (signPairs.map SignaturePair.publicKey).Nodup) ↔
      (signPairs.map SignaturePair.publicKey).Nodup := by
    refine ⟨fun h => ?_, fun h hcon => hcon.2 h⟩
    by_contra hnot
    refine h ⟨?_, hnot⟩
    by_contra hle
    rcases eq_nil_or_singleton (Nat.le_of_not_lt hle) with rfl | ⟨p, rfl⟩
    · exact hnot List.nodup_nil
    · exact hnot (List.nodup_singleton _)
  rw [signedFor_iff]
  unfold checkSignPairs
  simp only [bind_eq_ok, throwIf_eq_ok, exists_unit, decide_eq_false_iff_not]
  rw [hdouble]
  refine and_congr_right fun _ => and_congr (by omega) ?_
  split
  · next hnone =>
    -- nothing is asked for
    obtain ⟨hkeys, hforbidden, hindices⟩ := hnone
    simp [Respects, hkeys, hforbidden, hindices]
  · have hbounded : ∀ P : Prop, (r.mRequiredSignPublicKeys.length ≤ signPairs.length →
        r.mRequiredSignPublicKeyIndices.length ≤ signPairs.length →
          (P ↔ Respects env r signPairs)) →
        (¬ r.mRequiredSignPublicKeys.length > signPairs.length ∧
          ¬ r.mRequiredSignPublicKeyIndices.length > signPairs.length ∧ P ↔
            Respects env r signPairs) := by
      intro P hP
      constructor
      · rintro ⟨hkeys, hindices, hpath⟩
        exact (hP (Nat.le_of_not_lt hkeys) (Nat.le_of_not_lt hindices)).1 hpath
      · intro h
        obtain ⟨hkeys, hindices⟩ := h.length_le hr
        exact ⟨Nat.not_lt.2 hkeys, Nat.not_lt.2 hindices, (hP hkeys hindices).2 h⟩
    simp only [throwIf_eq_ok, bind_eq_ok, exists_unit, decide_eq_false_iff_not]
    refine hbounded _ fun hkeys hindices => ?_
    rcases signPairs with - | ⟨p, - | ⟨q, ps⟩⟩
    · simp only [bind_eq_ok, throwIf_eq_ok, exists_unit, decide_eq_false_iff_not, not_not]
      exact checkSeveral_iff hr
    · simp only [bind_eq_ok, throwIf_eq_ok, exists_unit, decide_eq_false_iff_not]
      exact checkSingle_iff hkeys hindices
    · simp only [bind_eq_ok, throwIf_eq_ok, exists_unit, decide_eq_false_iff_not, not_not]
      exact checkSeveral_iff hr

end Signatures

/-- The signatures for a registration: the root, the account and the user, in any order. -/
def registrationLists : RequiredSignatures where
  mMinSignatureCount := 3
  mRequiredSignPublicKeyIndices := [⟨1, 11⟩, ⟨1, 10⟩]

/-- The user, the root and the account have signed. -/
theorem registration_signedFor :
    SignedFor Sample.env registrationLists [⟨10, 1⟩, ⟨1, 1⟩, ⟨11, 1⟩] := by
  refine (checkSignPairs_eq_ok_iff ⟨by decide, by decide, 1, ?_⟩ _).1 (by decide +kernel)
  simp [registrationLists]

/-! ### Target dates -/

/-- The number of the month of a time point. -/
def monthIndex (p : ℤ) : ℤ :=
  let date := Calendar.civilFromDays (floorDays p)
  12 * date.year + date.month

/-- The months that a target date may lie back: three, when the creation date is between the bounds
of the testing phase. -/
def monthsBack (firstDate lastDate createdAt : ℤ) : ℤ :=
  if firstDate < createdAt ∧ createdAt < lastDate then 3 else 2

/-- The creation dates are compared with the bounds in whole seconds. -/
theorem getTargetDateReceivedDistanceMonth_eq (createdAt : ℤ) :
    (CalculateCreationSum.getTargetDateReceivedDistanceMonth createdAt : ℤ) =
      monthsBack 1585544394 1641681224 (createdAt.tdiv microsecondsPerSecond) := by
  unfold CalculateCreationSum.getTargetDateReceivedDistanceMonth monthsBack
  dsimp only
  split_ifs <;> rfl

/-- A creation for December 2019. -/
def december2019 : GradidoCreation where
  recipient := ⟨11, 2000, 1⟩
  targetDate := 1575158400

end Validate

end Gradido
