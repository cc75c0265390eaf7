namespace Mustache

-- A finite map: entries in ascending order of their keys, each key once. Keys are ordered by code
-- points, which is the order of their UTF-8 bytes.
abbrev Entries (α : Type u) := List (String × α)

namespace Entries

def Sorted (entries : Entries α) : Prop := entries.Pairwise (fun a b => a.1 < b.1)

instance (entries : Entries α) : Decidable (Sorted entries) :=
  inferInstanceAs (Decidable (entries.Pairwise fun a b => a.1 < b.1))

def get? (key : String) : Entries α → Option α
  | [] => none
  | (k, value) :: rest => if k = key then some value else get? key rest

def insert (key : String) (value : α) : Entries α → Entries α
  | [] => [(key, value)]
  | (k, old) :: rest =>
    if key < k then (key, value) :: (k, old) :: rest
    else if key = k then (key, value) :: rest
    else (k, old) :: insert key value rest

def ofPairs (pairs : List (String × α)) : Entries α :=
  pairs.foldl (fun entries pair => insert pair.1 pair.2 entries) []

theorem get_insert_self (key : String) (value : α) (entries : Entries α) :
    get? key (insert key value entries) = some value := by
  induction entries with
  | nil => simp [insert, get?]
  | cons entry rest ih =>
    obtain ⟨k, old⟩ := entry
    unfold insert
    split
    · simp [get?]
    · split
      · simp [get?]
      · rename_i other
        simp [get?, Ne.symm other, ih]

theorem get_insert_of_ne (other : key ≠ found) (value : α) (entries : Entries α) :
    get? found (insert key value entries) = get? found entries := by
  induction entries with
  | nil => simp [insert, get?, other]
  | cons entry rest ih =>
    obtain ⟨k, old⟩ := entry
    unfold insert
    split
    · simp [get?, other]
    · split
      · rename_i same
        simp [get?, ← same, other]
      · simp [get?, ih]

theorem mem_insert (entry : String × α) (entries : Entries α)
    (member : entry ∈ insert key value entries) : entry = (key, value) ∨ entry ∈ entries := by
  induction entries with
  | nil => simp only [insert, List.mem_singleton] at member; exact .inl member
  | cons head rest ih =>
    obtain ⟨k, old⟩ := head
    unfold insert at member
    split at member
    · simpa using member
    · split at member
      · rcases List.mem_cons.mp member with same | later
        · exact .inl same
        · exact .inr (List.mem_cons_of_mem _ later)
      · rcases List.mem_cons.mp member with same | later
        · exact .inr (same ▸ List.mem_cons_self)
        · rcases ih later with same | old
          · exact .inl same
          · exact .inr (List.mem_cons_of_mem _ old)

theorem key_lt_of_not (above : ¬ a < b) (other : a ≠ b) : (b : String) < a :=
  String.not_le.mp fun below => other (String.le_antisymm below (String.not_lt.mp above))

theorem sorted_insert (sorted : Sorted entries) : Sorted (insert key value entries) := by
  induction entries with
  | nil => simp [insert, Sorted]
  | cons entry rest ih =>
    obtain ⟨k, old⟩ := entry
    obtain ⟨first, later⟩ := List.pairwise_cons.mp sorted
    unfold insert
    split
    · rename_i below
      refine List.pairwise_cons.mpr ⟨?_, sorted⟩
      intro other member
      rcases List.mem_cons.mp member with rfl | member
      · exact below
      · exact String.lt_trans below (first other member)
    · rename_i above
      split
      · rename_i same
        subst same
        exact List.pairwise_cons.mpr ⟨first, later⟩
      · rename_i other
        refine List.pairwise_cons.mpr ⟨?_, ih later⟩
        intro entry member
        rcases mem_insert entry rest member with rfl | member
        · exact key_lt_of_not above other
        · exact first entry member

def insertAll (entries : Entries α) (pairs : List (String × α)) : Entries α :=
  pairs.foldl (fun entries pair => insert pair.1 pair.2 entries) entries

section
variable {α : Type u} {pairs : List (String × α)} {entries : Entries α} {value : α}

theorem sorted_insertAll (sorted : Sorted entries) (pairs : List (String × α)) :
    Sorted (insertAll entries pairs) := by
  induction pairs generalizing entries with
  | nil => exact sorted
  | cons pair pairs ih => exact ih (sorted_insert sorted)

theorem sorted_ofPairs (pairs : List (String × α)) : Sorted (ofPairs pairs) :=
  sorted_insertAll List.Pairwise.nil pairs

theorem get_insertAll_of_notMem (absent : key ∉ pairs.map Prod.fst) (entries : Entries α) :
    get? key (insertAll entries pairs) = get? key entries := by
  induction pairs generalizing entries with
  | nil => rfl
  | cons pair pairs ih =>
    simp only [List.map_cons, List.mem_cons, not_or] at absent
    have rest := ih absent.2 (insert pair.1 pair.2 entries)
    rw [get_insert_of_ne (Ne.symm absent.1)] at rest
    exact rest

theorem get_insertAll_of_mem (distinct : (pairs.map Prod.fst).Nodup)
    (member : (key, value) ∈ pairs) (entries : Entries α) :
    get? key (insertAll entries pairs) = some value := by
  induction pairs generalizing entries with
  | nil => cases member
  | cons pair pairs ih =>
    obtain ⟨apart, distinct⟩ := List.nodup_cons.mp distinct
    rcases List.mem_cons.mp member with rfl | member
    · have rest := get_insertAll_of_notMem apart (insert key value entries)
      rw [get_insert_self] at rest
      exact rest
    · exact ih distinct member (insert pair.1 pair.2 entries)

theorem get_ofPairs_iff (distinct : (pairs.map Prod.fst).Nodup) :
    get? key (ofPairs pairs) = some value ↔ (key, value) ∈ pairs := by
  constructor
  · intro found
    have known : key ∈ pairs.map Prod.fst := by
      refine Classical.byContradiction fun absent => ?_
      rw [show ofPairs pairs = insertAll [] pairs from rfl, get_insertAll_of_notMem absent] at found
      cases found
    obtain ⟨⟨same, other⟩, member, rfl⟩ := List.mem_map.mp known
    rw [show ofPairs pairs = insertAll [] pairs from rfl, get_insertAll_of_mem distinct member] at found
    cases found
    exact member
  · intro member
    exact get_insertAll_of_mem distinct member []

theorem notMem_of_get_ofPairs (distinct : (pairs.map Prod.fst).Nodup)
    (missed : get? key (ofPairs pairs) = none) : key ∉ pairs.map Prod.fst := by
  intro known
  obtain ⟨⟨same, value⟩, member, rfl⟩ := List.mem_map.mp known
  rw [(get_ofPairs_iff distinct).mpr member] at missed
  cases missed

theorem distinct_concat (distinct : (pairs.map Prod.fst).Nodup) (absent : key ∉ pairs.map Prod.fst)
    (value : α) : ((pairs ++ [(key, value)]).map Prod.fst).Nodup := by
  rw [List.map_append, List.map_singleton]
  apply List.nodup_append.mpr
  refine ⟨distinct, by simp, ?_⟩
  intro other member last single same
  have equal : last = key := List.mem_singleton.mp single
  rw [same, equal] at member
  exact absent member

theorem insert_perm (fresh : get? key entries = none) (value : α) :
    (insert key value entries).Perm ((key, value) :: entries) := by
  induction entries with
  | nil => exact .refl _
  | cons entry rest ih =>
    obtain ⟨k, old⟩ := entry
    unfold get? at fresh
    split at fresh
    · cases fresh
    · rename_i other
      unfold insert
      split
      · exact .refl _
      · rw [if_neg (Ne.symm other)]
        exact ((ih fresh).cons _).trans (.swap _ _ _)

theorem insertAll_perm (distinct : (pairs.map Prod.fst).Nodup)
    (fresh : ∀ key ∈ pairs.map Prod.fst, get? key entries = none) :
    (insertAll entries pairs).Perm (pairs ++ entries) := by
  induction pairs generalizing entries with
  | nil => exact .refl _
  | cons pair pairs ih =>
    obtain ⟨apart, distinct⟩ := List.nodup_cons.mp distinct
    have later : ∀ key ∈ pairs.map Prod.fst, get? key (insert pair.1 pair.2 entries) = none := by
      intro key member
      rw [get_insert_of_ne]
      · exact fresh key (List.mem_cons_of_mem _ member)
      · rintro rfl
        exact apart member
    have first := insert_perm (fresh pair.1 List.mem_cons_self) pair.2
    exact ((ih distinct later).trans (first.append_left pairs)).trans List.perm_middle

theorem ofPairs_perm (distinct : (pairs.map Prod.fst).Nodup) : (ofPairs pairs).Perm pairs := by
  have all := insertAll_perm distinct (fun key _ => (rfl : get? key ([] : Entries α) = none))
  rw [List.append_nil] at all
  exact all

theorem ofPairs_concat (pairs : List (String × α)) (key : String) (value : α) :
    ofPairs (pairs ++ [(key, value)]) = insert key value (ofPairs pairs) := by
  rw [ofPairs, List.foldl_append]
  rfl

end

theorem get_eq_some_iff (sorted : Sorted entries) :
    get? key entries = some value ↔ (key, value) ∈ entries := by
  induction entries with
  | nil => simp [get?]
  | cons entry rest ih =>
    obtain ⟨k, old⟩ := entry
    obtain ⟨first, later⟩ := List.pairwise_cons.mp sorted
    unfold get?
    split
    · rename_i same
      subst same
      have absent : (k, value) ∉ rest := fun member => String.lt_irrefl k (first _ member)
      simp [absent, eq_comm]
    · rename_i other
      simp [Ne.symm other, ih later]

theorem mem_tail (sorted : Sorted (head :: rest)) :
    entry ∈ rest ↔ entry ∈ head :: rest ∧ entry ≠ head := by
  have first := (List.pairwise_cons.mp sorted).1
  constructor
  · intro member
    refine ⟨List.mem_cons_of_mem _ member, ?_⟩
    rintro rfl
    exact String.lt_irrefl _ (first _ member)
  · rintro ⟨member, other⟩
    exact (List.mem_cons.mp member).resolve_left other

theorem eq_of_mem (one : Sorted a) (two : Sorted b) (same : ∀ entry, entry ∈ a ↔ entry ∈ b) :
    a = b := by
  induction a generalizing b with
  | nil =>
    cases b with
    | nil => rfl
    | cons entry rest => exact absurd ((same entry).mpr List.mem_cons_self) (by simp)
  | cons entry rest ih =>
    cases b with
    | nil => exact absurd ((same entry).mp List.mem_cons_self) (by simp)
    | cons other more =>
      have heads : entry = other := by
        rcases List.mem_cons.mp ((same entry).mp List.mem_cons_self) with equal | behind
        · exact equal
        · rcases List.mem_cons.mp ((same other).mpr List.mem_cons_self) with equal | behind'
          · exact equal.symm
          · have above := (List.pairwise_cons.mp one).1 _ behind'
            have below := (List.pairwise_cons.mp two).1 _ behind
            exact absurd (String.lt_trans above below) (String.lt_irrefl _)
      subst heads
      refine congrArg _ (ih (List.pairwise_cons.mp one).2 (List.pairwise_cons.mp two).2 ?_)
      intro found
      rw [mem_tail one, mem_tail two, same]

section
variable {α : Type u} {pairs : List (String × α)} {entries : Entries α}

theorem distinct_of_sorted (sorted : Sorted entries) : (entries.map Prod.fst).Nodup := by
  apply List.pairwise_map.mpr
  refine sorted.imp fun {one other} below same => ?_
  rw [same] at below
  exact String.lt_irrefl _ below

theorem ofPairs_of_sorted (sorted : Sorted entries) : ofPairs entries = entries := by
  apply eq_of_mem (sorted_ofPairs entries) sorted
  intro entry
  exact (ofPairs_perm (distinct_of_sorted sorted)).mem_iff

theorem mem_insertAll (member : entry ∈ insertAll entries pairs) : entry ∈ pairs ∨ entry ∈ entries := by
  induction pairs generalizing entries with
  | nil => exact Or.inr member
  | cons pair pairs ih =>
    rcases ih member with later | held
    · exact Or.inl (List.mem_cons_of_mem _ later)
    · rcases mem_insert entry entries held with here | old
      · rw [here]
        exact Or.inl List.mem_cons_self
      · exact Or.inr old

theorem mem_ofPairs (member : entry ∈ ofPairs pairs) : entry ∈ pairs :=
  (mem_insertAll member).resolve_right List.not_mem_nil

def mapValues {β : Type v} (f : α → β) (entries : Entries α) : Entries β :=
  entries.map fun entry => (entry.1, f entry.2)

theorem sorted_mapValues {β : Type v} (f : α → β) : Sorted (mapValues f entries) ↔ Sorted entries :=
  List.pairwise_map

theorem mapValues_mapValues {β : Type v} {γ : Type w} (f : α → β) (g : β → γ) (entries : Entries α) :
    mapValues g (mapValues f entries) = mapValues (fun value => g (f value)) entries := List.map_map

theorem mapValues_congr {β : Type v} {f g : α → β} (same : ∀ entry ∈ entries, f entry.2 = g entry.2) :
    mapValues f entries = mapValues g entries :=
  List.map_congr_left fun entry member => congrArg (Prod.mk entry.1) (same entry member)

theorem mapValues_self {f : α → α} (same : ∀ entry ∈ entries, f entry.2 = entry.2) :
    mapValues f entries = entries := by
  have plain : mapValues f entries = mapValues id entries := mapValues_congr same
  exact plain.trans (List.map_id entries)

theorem forall_mem_mapValues {β : Type v} {f : α → β} {p : β → Prop}
    (each : ∀ entry ∈ entries, p (f entry.2)) : ∀ entry ∈ mapValues f entries, p entry.2 :=
  List.forall_mem_map.mpr each

theorem insert_mapValues {β : Type v} (f : α → β) (key : String) (value : α) (entries : Entries α) :
    insert key (f value) (mapValues f entries) = mapValues f (insert key value entries) := by
  induction entries with
  | nil => rfl
  | cons entry rest ih =>
    obtain ⟨k, old⟩ := entry
    simp only [mapValues, List.map_cons, insert] at ih ⊢
    split
    · rfl
    · split
      · rfl
      · rw [List.map_cons, ih]

theorem insertAll_mapValues {β : Type v} (f : α → β) (entries : Entries α) (pairs : List (String × α)) :
    insertAll (mapValues f entries) (mapValues f pairs) = mapValues f (insertAll entries pairs) := by
  induction pairs generalizing entries with
  | nil => rfl
  | cons pair pairs ih =>
    have put := insert_mapValues f pair.1 pair.2 entries
    exact (congrArg (insertAll · (mapValues f pairs)) put).trans (ih _)

theorem ofPairs_mapValues {β : Type v} (f : α → β) (pairs : List (String × α)) :
    ofPairs (mapValues f pairs) = mapValues f (ofPairs pairs) := insertAll_mapValues f [] pairs

end

end Entries
end Mustache
