import GradidoBlockchain.Wire.AppContext
import GradidoBlockchain.Lib.Steps

/-!
# The dictionary of a running node

`RuntimeDictionary` holds its data twice: in a map to the indices, and in a deque
in the order of the indices.  `Represents` says that both are those of one
dictionary, whose calculus is that of `Lib.Dictionary`.

* `Represents.run`: the operations keep the map and the deque in step;
* `numbered`: what follows for the indices.
-/

namespace Gradido.Wire

/-- `RuntimeDictionary`. -/
structure RuntimeDictionary (α : Type) where
  mName : String
  mDataIndexLookup : α → Option ℕ
  mIndexDataLookup : List α

/-- A call of a function of the dictionary. -/
inductive DictionaryCall (α : Type)
  | reset
  | getIndexForData (data : α)
  | getDataForIndex (index : ℕ)
  | getDataForIndexOrThrow (index : ℕ)
  | hasIndex (index : ℕ)
  | getOrAddIndexForData (data : α)
deriving DecidableEq

namespace RuntimeDictionary

variable {α : Type}

/-- The constructor. -/
def empty (name : String) : RuntimeDictionary α := ⟨name, fun _ => none, []⟩

/-- `RuntimeDictionary::reset`. -/
def reset (d : RuntimeDictionary α) : RuntimeDictionary α :=
  { d with mDataIndexLookup := fun _ => none, mIndexDataLookup := [] }

/-- `RuntimeDictionary::getIndexForData`. -/
def getIndexForData (d : RuntimeDictionary α) (data : α) : ℕ :=
  match d.mDataIndexLookup data with
  | none => 0
  | some index => index

/-- `RuntimeDictionary::hasIndex`. -/
def hasIndex (d : RuntimeDictionary α) (index : ℕ) : Bool :=
  if index = 0 ∨ d.mIndexDataLookup.length ≤ index - 1 then false else true

/-- `RuntimeDictionary::getDataForIndex`. -/
def getDataForIndex (d : RuntimeDictionary α) (index : ℕ) : Option α :=
  if index = 0 ∨ d.mIndexDataLookup.length ≤ index - 1 then none
  else d.mIndexDataLookup[index - 1]?

/-- `RuntimeDictionary::getDataForIndexOrThrow`. -/
def getDataForIndexOrThrow (d : RuntimeDictionary α) (index : ℕ) : Except Exception α :=
  match d.getDataForIndex index with
  | none => .error (.dictionaryMissingEntry d.mName (toString index))
  | some data => .ok data

variable [DecidableEq α]

/-- `RuntimeDictionary::getOrAddIndexForData`: the insertion into the map does nothing when the
data is there. -/
def getOrAddIndexForData (d : RuntimeDictionary α) (data : α) : ℕ × RuntimeDictionary α :=
  let index := d.mIndexDataLookup.length + 1
  match d.mDataIndexLookup data with
  | some found => (found, d)
  | none =>
    (index, { d with
      mDataIndexLookup := Function.update d.mDataIndexLookup data (some index)
      mIndexDataLookup := d.mIndexDataLookup ++ [data] })

/-- The dictionary after a call. -/
def exec (d : RuntimeDictionary α) : DictionaryCall α → RuntimeDictionary α
  | .reset => d.reset
  | .getOrAddIndexForData data => (d.getOrAddIndexForData data).2
  | _ => d

/-- The dictionary after some calls. -/
def run (d : RuntimeDictionary α) (calls : List (DictionaryCall α)) : RuntimeDictionary α :=
  calls.foldl exec d

/-! ### One dictionary in two containers -/

/-- The map and the deque are those of a dictionary. -/
structure Represents (d : RuntimeDictionary α) (dictionary : Dictionary α) : Prop where
  deque : d.mIndexDataLookup = dictionary.entries
  map : ∀ a, d.mDataIndexLookup a =
    if dictionary.index a = 0 then none else some (dictionary.index a)

theorem represents_empty (name : String) :
    (empty name : RuntimeDictionary α).Represents .empty := ⟨rfl, fun _ => rfl⟩

omit [DecidableEq α] in
theorem mem_entries_empty (a : α) : a ∈ (Dictionary.empty : Dictionary α).entries ↔
    a ∈ ([] : List α) := Iff.rfl

variable {d : RuntimeDictionary α} {dictionary : Dictionary α}

theorem Represents.getIndexForData (h : d.Represents dictionary) (data : α) :
    d.getIndexForData data = dictionary.index data := by
  unfold RuntimeDictionary.getIndexForData
  rw [h.map]
  by_cases hzero : dictionary.index data = 0
  · rw [if_pos hzero, hzero]
  · rw [if_neg hzero]

theorem Represents.getDataForIndex (h : d.Represents dictionary) (index : ℕ) :
    d.getDataForIndex index = dictionary.data index := by
  unfold RuntimeDictionary.getDataForIndex Dictionary.data
  rw [h.deque]
  by_cases hzero : index = 0
  · rw [if_pos (.inl hzero), if_pos hzero]
  · rw [if_neg hzero]
    split_ifs with hout
    · exact (List.getElem?_eq_none (hout.resolve_left hzero)).symm
    · rfl

/-- Data is added to both containers, or to none. -/
theorem Represents.getOrAddIndexForData (h : d.Represents dictionary) (data : α) :
    (d.getOrAddIndexForData data).1 = (dictionary.add data).1 ∧
      (d.getOrAddIndexForData data).2.Represents (dictionary.add data).2 := by
  unfold RuntimeDictionary.getOrAddIndexForData
  by_cases hmem : data ∈ dictionary.entries
  · have hne : dictionary.index data ≠ 0 := fun hzero => Dictionary.index_eq_zero.1 hzero hmem
    rw [h.map, if_neg hne, Dictionary.add_of_mem hmem]
    refine ⟨?_, h⟩
    rw [Dictionary.index, if_pos hmem]
  · have hzero : dictionary.index data = 0 := Dictionary.index_eq_zero.2 hmem
    have hadd : (dictionary.add data).1 = d.mIndexDataLookup.length + 1 := by
      rw [h.deque, Dictionary.add, dif_neg hmem]
    rw [h.map, if_pos hzero]
    dsimp only
    refine ⟨hadd.symm, ?_, fun a => ?_⟩
    · rw [h.deque, Dictionary.add, dif_neg hmem]
    · dsimp only
      by_cases ha : a = data
      · subst ha
        rw [Function.update_self, dictionary.index_add, hadd, if_neg (Nat.succ_ne_zero _)]
      · rw [Function.update_of_ne ha, h.map]
        have hsame : (dictionary.add data).2.index a = dictionary.index a := by
          by_cases hold : a ∈ dictionary.entries
          · exact (dictionary.extends_add data).index hold
          · have hnot : a ∉ (dictionary.add data).2.entries := fun hnew =>
              (Dictionary.mem_entries_add.1 hnew).elim hold ha
            rw [Dictionary.index_eq_zero.2 hold, Dictionary.index_eq_zero.2 hnot]
        rw [hsame]

/-! ### Runs -/

/-- The data that is there after a call. -/
def addedBy (data : List α) : DictionaryCall α → List α
  | .reset => []
  | .getOrAddIndexForData a => data ++ [a]
  | _ => data

/-- The data that was added since the last reset. -/
def added (calls : List (DictionaryCall α)) : List α := calls.foldl addedBy []

/-- **The containers stay in step**, and only a reset takes data away. -/
theorem Represents.run (h : d.Represents dictionary) {data : List α}
    (hdata : ∀ a, a ∈ dictionary.entries ↔ a ∈ data) (calls : List (DictionaryCall α)) :
    ∃ dictionary' : Dictionary α, (d.run calls).Represents dictionary' ∧
      (∀ a, a ∈ dictionary'.entries ↔ a ∈ calls.foldl addedBy data) ∧
      (DictionaryCall.reset ∉ calls → dictionary.Extends dictionary') := by
  induction calls generalizing d dictionary data with
  | nil => exact ⟨dictionary, h, hdata, fun _ => .refl _⟩
  | cons call calls ih =>
    have hread : d.exec call = d → addedBy data call = data →
        ∃ dictionary' : Dictionary α, (d.run (call :: calls)).Represents dictionary' ∧
          (∀ a, a ∈ dictionary'.entries ↔ a ∈ (call :: calls).foldl addedBy data) ∧
          (DictionaryCall.reset ∉ call :: calls → dictionary.Extends dictionary') := by
      intro hexec hadded
      obtain ⟨dictionary', hrepresents, hentries, hextends⟩ := ih h hdata
      refine ⟨dictionary', ?_, ?_, fun hreset => hextends (fun hmem => hreset (.tail _ hmem))⟩
      · rw [RuntimeDictionary.run, List.foldl_cons, hexec]
        exact hrepresents
      · rw [List.foldl_cons, hadded]
        exact hentries
    cases call with
    | reset =>
      have hempty : d.reset.Represents (.empty : Dictionary α) := ⟨rfl, fun _ => rfl⟩
      obtain ⟨dictionary', hrepresents, hentries, -⟩ := ih hempty mem_entries_empty
      exact ⟨dictionary', hrepresents, hentries, fun hreset => absurd (.head _) hreset⟩
    | getOrAddIndexForData a =>
      have hadded : ∀ b, b ∈ (dictionary.add a).2.entries ↔ b ∈ data ++ [a] := by
        intro b
        rw [Dictionary.mem_entries_add, hdata, List.mem_append, List.mem_singleton]
      obtain ⟨dictionary', hrepresents, hentries, hextends⟩ :=
        ih (h.getOrAddIndexForData a).2 hadded
      exact ⟨dictionary', hrepresents, hentries, fun hreset =>
        (dictionary.extends_add a).trans (hextends (fun hmem => hreset (.tail _ hmem)))⟩
    | getIndexForData a => exact hread rfl rfl
    | getDataForIndex index => exact hread rfl rfl
    | getDataForIndexOrThrow index => exact hread rfl rfl
    | hasIndex index => exact hread rfl rfl

/-- Indices and data are inverse bijections between the added data and the numbers from one on. -/
structure Numbered (d : RuntimeDictionary α) (data : List α) : Prop where
  bijOn : Set.BijOn d.getIndexForData {a | a ∈ data} (Set.Icc 1 d.mIndexDataLookup.length)
  inverse : ∀ a index, d.getDataForIndex index = some a ↔ a ∈ data ∧ d.getIndexForData a = index
  absent : ∀ a, a ∉ data → d.getIndexForData a = 0

theorem Represents.numbered (h : d.Represents dictionary) {data : List α}
    (hdata : ∀ a, a ∈ dictionary.entries ↔ a ∈ data) : d.Numbered data where
  bijOn := by
    have hindex : d.getIndexForData = dictionary.index := funext h.getIndexForData
    have hsame : {a | a ∈ data} = {a | a ∈ dictionary.entries} :=
      Set.ext (fun a => (hdata a).symm)
    rw [hindex, hsame, h.deque]
    exact dictionary.bijOn_index
  inverse a index := by
    rw [h.getDataForIndex, h.getIndexForData, Dictionary.data_eq_some_iff_index, ← hdata]
    refine and_congr_left (fun hindex => ?_)
    rw [← hindex, Nat.pos_iff_ne_zero, Ne, Dictionary.index_eq_zero, not_not]
  absent a ha := by
    rw [h.getIndexForData, Dictionary.index_eq_zero, hdata]
    exact ha

/-- **Every sequence of calls** leaves data and indices in bijection. -/
theorem numbered_run (name : String) (calls : List (DictionaryCall α)) :
    ((empty name).run calls).Numbered (added calls) := by
  obtain ⟨dictionary, hrepresents, hentries, -⟩ :=
    (represents_empty name).run mem_entries_empty calls
  exact hrepresents.numbered hentries

/-- **An index once given** is kept until the next reset. -/
theorem index_kept (name : String) (calls : List (DictionaryCall α)) (data : α)
    {later : List (DictionaryCall α)} (hreset : DictionaryCall.reset ∉ later) :
    ((empty name).run (calls ++ .getOrAddIndexForData data :: later)).getIndexForData data =
      (((empty name).run calls).getOrAddIndexForData data).1 := by
  obtain ⟨dictionary, hrepresents, -, -⟩ :=
    (represents_empty name).run mem_entries_empty calls
  obtain ⟨hfirst, hadded⟩ := hrepresents.getOrAddIndexForData data
  obtain ⟨dictionary', hlater, -, hextends⟩ := hadded.run (fun _ => Iff.rfl) later
  have hmem : data ∈ (dictionary.add data).2.entries := Dictionary.mem_entries_add.2 (.inr rfl)
  rw [RuntimeDictionary.run, List.foldl_append, List.foldl_cons]
  rw [hfirst, ← Dictionary.index_add, ← (hextends hreset).index hmem]
  exact hlater.getIndexForData data

end RuntimeDictionary

end Gradido.Wire
