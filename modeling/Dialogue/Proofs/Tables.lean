import Dialogue.Table
import Mathlib.Algebra.GroupWithZero.Nat
import Mathlib.Data.List.Basic

/-!
# The entries of a table

Inserting replaces the value of the first key that is equal to the new one, or adds an entry at the
end. So no two keys of a table that was built by insertions are equal (`distinct_insertInto`).
-/

namespace Dialogue.Table

theorem eraseDups_snoc {α : Type} [BEq α] [LawfulBEq α] [DecidableEq α] (list : List α) (a : α) :
    (list ++ [a]).eraseDups = if a ∈ list then list.eraseDups else list.eraseDups ++ [a] := by
  rw [List.eraseDups_append]
  split_ifs with h <;> simp [List.removeAll, h, List.eraseDups_cons]

variable {κ ν : Type} [BEq κ]

/-- No key is equal to a later one. -/
def Distinct (entries : List (κ × ν)) : Prop := entries.Pairwise fun a b => (a.1 == b.1) = false

theorem forall_mem_insertInto {p : ν → Prop} (key : κ) {value : ν} (hvalue : p value) :
    ∀ {entries : List (κ × ν)}, (∀ entry ∈ entries, p entry.2) →
      ∀ entry ∈ insertInto key value entries, p entry.2
  | [], _ => by simpa [insertInto] using hvalue
  | (other, old) :: entries, h => by
    obtain ⟨hold, hentries⟩ := List.forall_mem_cons.1 h
    simp only [insertInto]
    split
    · exact List.forall_mem_cons.2 ⟨hvalue, hentries⟩
    · exact List.forall_mem_cons.2 ⟨hold, forall_mem_insertInto key hvalue hentries⟩

/-- A key that is equal to no other is added at the end. -/
theorem insertInto_of_new {key : κ} (value : ν) : ∀ {entries : List (κ × ν)},
    (∀ entry ∈ entries, (entry.1 == key) = false) →
      insertInto key value entries = entries ++ [(key, value)]
  | [], _ => rfl
  | (other, old) :: entries, h => by
    obtain ⟨hother, hentries⟩ := List.forall_mem_cons.1 h
    rw [insertInto, if_neg (by simp [hother]), insertInto_of_new value hentries]
    rfl

/-- The keys after an insertion are the ones before it, or one more that is equal to none. -/
theorem keys_insertInto (key : κ) (value : ν) : ∀ entries : List (κ × ν),
    (insertInto key value entries).map (·.1) = entries.map (·.1)
      ∨ (∀ entry ∈ entries, (entry.1 == key) = false)
  | [] => .inr (by simp)
  | (other, old) :: entries => by
    by_cases h : (other == key) = true
    · exact .inl (by rw [insertInto, if_pos h]; rfl)
    · rw [insertInto, if_neg h]
      rcases keys_insertInto key value entries with heq | hnew
      · exact .inl (by rw [List.map_cons, heq]; rfl)
      · exact .inr (List.forall_mem_cons.2 ⟨by simpa using h, hnew⟩)

theorem distinct_insertInto {entries : List (κ × ν)} (h : Distinct entries) (key : κ) (value : ν) :
    Distinct (insertInto key value entries) := by
  rcases keys_insertInto key value entries with heq | hnew
  · have hkeys : (entries.map (·.1)).Pairwise fun a b => (a == b) = false :=
      List.pairwise_map.2 h
    exact List.pairwise_map.1 (heq ▸ hkeys)
  · rw [insertInto_of_new value hnew]
    refine List.pairwise_append.2 ⟨h, List.pairwise_singleton _ _, fun a ha b hb => ?_⟩
    rw [List.mem_singleton.1 hb]
    exact hnew a ha

theorem distinct_insertAll (table : Table κ ν) (h : Distinct table.entries) :
    ∀ pairs : List (κ × ν), Distinct (table.insertAll pairs).entries
  | [] => h
  | pair :: pairs =>
    distinct_insertAll (table.insert pair.1 pair.2) (distinct_insertInto h _ _) pairs

theorem forall_mem_insertAll {p : ν → Prop} (table : Table κ ν)
    (h : ∀ entry ∈ table.entries, p entry.2) : ∀ {pairs : List (κ × ν)},
      (∀ pair ∈ pairs, p pair.2) → ∀ entry ∈ (table.insertAll pairs).entries, p entry.2
  | [], _ => h
  | pair :: pairs, hp => by
    obtain ⟨hpair, hpairs⟩ := List.forall_mem_cons.1 hp
    exact forall_mem_insertAll (table.insert pair.1 pair.2)
      (forall_mem_insertInto _ hpair h) hpairs

theorem Distinct.nodup [LawfulBEq κ] {entries : List (κ × ν)} (h : Distinct entries) :
    (entries.map (·.1)).Nodup :=
  List.pairwise_map.2 (h.imp fun hne heq => by simp [heq] at hne)

theorem get?_insert [LawfulBEq κ] [DecidableEq κ] (table : Table κ ν) (key other : κ) (value : ν) :
    (table.insert key value).get? other = if other = key then some value else table.get? other := by
  obtain ⟨entries⟩ := table
  change ((insertInto key value entries).find? fun entry => entry.1 == other).map (·.2)
    = if other = key then some value else (entries.find? fun entry => entry.1 == other).map (·.2)
  induction entries with
  | nil =>
    by_cases h : other = key
    · simp [insertInto, h]
    · simp [insertInto, h, Ne.symm h]
  | cons entry entries ih =>
    obtain ⟨k, v⟩ := entry
    rw [insertInto]
    by_cases hkey : k = key
    · by_cases h : other = key
      · simp [hkey, h]
      · simp [hkey, h, Ne.symm h]
    · rw [if_neg (by simpa using hkey)]
      by_cases hother : k = other
      · have hne : other ≠ key := fun h => hkey (hother.trans h)
        simp [hother, hne]
      · simp only [List.find?_cons, beq_false_of_ne hother, ih]

theorem get?_insertAll_of_ne [LawfulBEq κ] [DecidableEq κ] {key : κ} :
    ∀ {pairs : List (κ × ν)}, (∀ pair ∈ pairs, pair.1 ≠ key) → ∀ table : Table κ ν,
      (table.insertAll pairs).get? key = table.get? key
  | [], _, _ => rfl
  | pair :: pairs, h, table => by
    obtain ⟨hpair, hpairs⟩ := List.forall_mem_cons.1 h
    change ((table.insert pair.1 pair.2).insertAll pairs).get? key = _
    rw [get?_insertAll_of_ne hpairs, get?_insert, if_neg hpair.symm]

/-- The last pair of a key gives its value. -/
theorem get?_ofList_append [LawfulBEq κ] [DecidableEq κ] (front : List (κ × ν)) (key : κ)
    (value : ν) {back : List (κ × ν)} (h : ∀ pair ∈ back, pair.1 ≠ key) :
    (ofList (front ++ (key, value) :: back)).get? key = some value := by
  have hsplit : ofList (front ++ (key, value) :: back)
      = ((ofList front).insert key value).insertAll back := by
    rw [ofList, insertAll, List.foldl_append]
    rfl
  rw [hsplit, get?_insertAll_of_ne h, get?_insert, if_pos rfl]

theorem mem_of_get? [LawfulBEq κ] {table : Table κ ν} {key : κ} {value : ν}
    (h : table.get? key = some value) : (key, value) ∈ table.entries := by
  obtain ⟨⟨other, _⟩, hfind, rfl⟩ := Option.map_eq_some_iff.1 h
  obtain rfl : other = key := by simpa using List.find?_some hfind
  exact List.mem_of_find?_eq_some hfind

theorem isSome_get?_iff [LawfulBEq κ] (table : Table κ ν) (key : κ) :
    (table.get? key).isSome ↔ key ∈ table.keys := by
  simp [get?, keys]

theorem contains_iff_mem_keys [LawfulBEq κ] (table : Table κ ν) (key : κ) :
    table.contains key = true ↔ key ∈ table.keys := by
  simp [contains, keys]

/-- A new key comes behind the others. -/
theorem keys_insert [LawfulBEq κ] [DecidableEq κ] (table : Table κ ν) (key : κ) (value : ν) :
    (table.insert key value).keys
      = if key ∈ table.keys then table.keys else table.keys ++ [key] := by
  by_cases h : key ∈ table.keys
  · rw [if_pos h]
    rcases keys_insertInto key value table.entries with heq | hnew
    · exact heq
    · obtain ⟨entry, hentry, rfl⟩ := List.mem_map.1 h
      simpa using hnew entry hentry
  · rw [if_neg h]
    have hnew : ∀ entry ∈ table.entries, (entry.1 == key) = false := fun entry hentry =>
      beq_false_of_ne fun heq => h (heq ▸ List.mem_map_of_mem hentry)
    simp [insert, keys, insertInto_of_new value hnew]

theorem get?_push {α : Type} [LawfulBEq κ] [DecidableEq κ] (table : Table κ (List α))
    (key other : κ) (value : α) :
    (table.push key value).get? other
      = if other = key then some ((table.get? key).getD [] ++ [value]) else table.get? other :=
  get?_insert table key other _

/-- One more value is kept under some key. -/
theorem length_values_push {α : Type} [LawfulBEq κ] (table : Table κ (List α)) (key : κ)
    (value : α) :
    ((table.push key value).values.map List.length).sum
      = (table.values.map List.length).sum + 1 := by
  obtain ⟨entries⟩ := table
  have hinsert : ∀ entries : List (κ × List α),
      (((insertInto key
          (((entries.find? fun entry => entry.1 == key).map (·.2)).getD [] ++ [value])
          entries).map (·.2)).map List.length).sum
        = ((entries.map (·.2)).map List.length).sum + 1 := by
    intro entries
    induction entries with
    | nil => simp [insertInto]
    | cons entry entries ih =>
      obtain ⟨k, v⟩ := entry
      by_cases hk : k = key
      · simp [insertInto, hk]
        omega
      · have hne : (k == key) = false := beq_false_of_ne hk
        simp only [insertInto, List.find?_cons, hne, Bool.false_eq_true, if_false, List.map_cons,
          List.sum_cons, ih]
        omega
  exact hinsert entries

/-- Entries without equal keys are put into a table as they are. -/
theorem insertAll_of_distinct : ∀ {pairs : List (κ × ν)} {table : Table κ ν},
    Distinct (table.entries ++ pairs) → (table.insertAll pairs).entries = table.entries ++ pairs
  | [], table, _ => by simp [insertAll]
  | pair :: pairs, table, h => by
    have hnew : ∀ entry ∈ table.entries, (entry.1 == pair.1) = false := fun entry hentry =>
      (List.pairwise_append.1 h).2.2 entry hentry pair (by simp)
    have hinsert : (table.insert pair.1 pair.2).entries = table.entries ++ [pair] :=
      insertInto_of_new pair.2 hnew
    have hrest : Distinct ((table.insert pair.1 pair.2).entries ++ pairs) := by
      rw [hinsert, List.append_assoc]
      exact h
    change ((table.insert pair.1 pair.2).insertAll pairs).entries = _
    rw [insertAll_of_distinct hrest, hinsert, List.append_assoc]
    rfl

end Dialogue.Table
