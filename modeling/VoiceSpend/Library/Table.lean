import Mathlib.Algebra.BigOperators.Group.List.Basic
import Mathlib.Algebra.GroupWithZero.Nat
import Mathlib.Data.List.AList
import Mathlib.Data.List.Perm.Subperm
import Mathlib.Data.List.Sort

/-!
# Keyed tables

A table with a primary key is an association list without repeated keys, so two rows
under one key cannot be built. Mathlib's `AList` supplies lookup, insertion and the
left-biased union; this file adds what queries over a table need: the rows as pairs,
sums and counts over all rows, and their exact change under a union.
-/

namespace VoiceSpend

/-- A table of rows `ρ` with primary key `κ`. -/
abbrev Table (κ ρ : Type*) := AList (fun _ : κ ↦ ρ)

namespace Table

variable {κ ρ : Type*}

/-- All rows with their keys, in stored order. -/
def rows (table : Table κ ρ) : List (κ × ρ) :=
  table.entries.map fun entry ↦ (entry.1, entry.2)

/-- The sum of a natural number read off every row. -/
def total (weight : κ → ρ → ℕ) (table : Table κ ρ) : ℕ :=
  (table.entries.map fun entry ↦ weight entry.1 entry.2).sum

theorem rows_keys_nodup (table : Table κ ρ) : ((rows table).map Prod.fst).Nodup := by
  have hkeys : (rows table).map Prod.fst = table.keys := by
    simp [rows, AList.keys, List.keys, Function.comp_def]
  rw [hkeys]
  exact table.keys_nodup

theorem rows_nodup (table : Table κ ρ) : (rows table).Nodup :=
  (rows_keys_nodup table).of_map _

/-- How many rows satisfy a condition. -/
def countRows (p : κ → ρ → Bool) (table : Table κ ρ) : ℕ :=
  ((rows table).filter fun row ↦ p row.1 row.2).length

theorem keys_filter_nodup (p : κ → ρ → Bool) (table : Table κ ρ) :
    (((rows table).filter fun row ↦ p row.1 row.2).map Prod.fst).Nodup :=
  (rows_keys_nodup table).sublist (List.filter_sublist.map _)

theorem total_zero (table : Table κ ρ) : total (fun _ _ ↦ 0) table = 0 := by
  simp [total]

/-- A table with the keys of another one and new ones. -/
theorem length_keys_of_inserted {first second : Table κ ρ} {keys : List κ} (hnodup : keys.Nodup)
    (h : ∀ key, key ∈ second ↔ key ∈ keys ∨ key ∈ first) (hnew : ∀ key ∈ keys, key ∉ first) :
    second.keys.length = first.keys.length + keys.length := by
  have hperm : second.keys.Perm (keys ++ first.keys) := by
    rw [List.perm_ext_iff_of_nodup second.keys_nodup
      (List.nodup_append.mpr ⟨hnodup, first.keys_nodup, fun key hkey other hother heq ↦
        hnew key hkey (AList.mem_keys.mpr (heq ▸ hother))⟩)]
    intro key
    rw [List.mem_append, ← AList.mem_keys, ← AList.mem_keys, h]
  rw [hperm.length_eq, List.length_append, Nat.add_comm]

variable [DecidableEq κ]

theorem mem_rows {table : Table κ ρ} {key : κ} {row : ρ} :
    (key, row) ∈ rows table ↔ table.lookup key = some row := by
  rw [← Option.mem_def, AList.mem_lookup_iff]
  constructor
  · intro h
    obtain ⟨entry, hentry, heq⟩ := List.mem_map.mp h
    cases entry
    cases heq
    exact hentry
  · intro h
    exact List.mem_map.mpr ⟨⟨key, row⟩, h, rfl⟩

section

variable {p q : κ → ρ → Bool} {first second : Table κ ρ}

theorem mem_keys_filter (p : κ → ρ → Bool) (table : Table κ ρ) (key : κ) :
    key ∈ ((rows table).filter fun row ↦ p row.1 row.2).map Prod.fst ↔
      ∃ row, table.lookup key = some row ∧ p key row = true := by
  rw [List.mem_map]
  constructor
  · rintro ⟨⟨other, row⟩, hmem, rfl⟩
    obtain ⟨hrow, hp⟩ := List.mem_filter.mp hmem
    exact ⟨row, mem_rows.mp hrow, hp⟩
  · rintro ⟨row, hrow, hp⟩
    exact ⟨(key, row), List.mem_filter.mpr ⟨mem_rows.mpr hrow, hp⟩, rfl⟩

/-- Counting is monotone in the keys that are counted. -/
theorem countRows_le (h : ∀ key row, first.lookup key = some row → p key row = true →
    ∃ row', second.lookup key = some row' ∧ q key row' = true) : countRows p first ≤ countRows q second := by
  have hsubset : ((rows first).filter fun row ↦ p row.1 row.2).map Prod.fst ⊆
      ((rows second).filter fun row ↦ q row.1 row.2).map Prod.fst := by
    intro key hkey
    obtain ⟨row, hrow, hp⟩ := (mem_keys_filter p first key).mp hkey
    exact (mem_keys_filter q second key).mpr (h key row hrow hp)
  have hlength := ((keys_filter_nodup p first).subperm hsubset).length_le
  rw [List.length_map, List.length_map] at hlength
  exact hlength

/-- A key has one row at most. -/
theorem countRows_key_le_one (table : Table κ ρ) (key : κ) :
    countRows (fun other _ ↦ decide (other = key)) table ≤ 1 := by
  have hnodup := keys_filter_nodup (fun other _ ↦ decide (other = key)) table
  have hsame : ((rows table).filter fun row ↦ decide (row.1 = key)).map Prod.fst =
      List.replicate (countRows (fun other _ ↦ decide (other = key)) table) key := by
    refine List.eq_replicate_iff.mpr ⟨List.length_map .., fun other hother ↦ ?_⟩
    obtain ⟨row, hrow, rfl⟩ := List.mem_map.mp hother
    exact of_decide_eq_true (List.mem_filter.mp hrow).2
  rw [hsame, List.nodup_replicate] at hnodup
  exact hnodup

/-- One key that is no longer counted makes the count smaller. -/
theorem countRows_lt (h : ∀ key row, first.lookup key = some row → p key row = true →
    ∃ row', second.lookup key = some row' ∧ q key row' = true) {key : κ} {row : ρ}
    (hrow : second.lookup key = some row) (hq : q key row = true)
    (hnot : ∀ row', first.lookup key = some row' → p key row' = false) :
    countRows p first < countRows q second := by
  have hless : countRows p first ≤ countRows (fun key' row' ↦ q key' row' && key' ≠ key) second := by
    refine countRows_le fun key' row' hrow' hp ↦ ?_
    obtain ⟨row'', hrow'', hq'⟩ := h key' row' hrow' hp
    have hne : key' ≠ key := fun heq ↦ by
      subst heq
      rw [hnot row' hrow'] at hp
      cases hp
    exact ⟨row'', hrow'', by simp [hq', hne]⟩
  have hstrict : countRows (fun key' row' ↦ q key' row' && key' ≠ key) second < countRows q second := by
    have hcomp : ((rows second).filter fun row' ↦ q row'.1 row'.2 && decide (row'.1 ≠ key)) =
        ((rows second).filter fun row' ↦ q row'.1 row'.2).filter fun row' ↦ decide (row'.1 ≠ key) := by
      rw [List.filter_filter]
      apply List.filter_congr
      intro row' _
      exact Bool.and_comm _ _
    unfold countRows
    rw [hcomp]
    apply List.length_filter_lt_length_iff_exists.mpr
    exact ⟨(key, row), List.mem_filter.mpr ⟨mem_rows.mpr hrow, hq⟩, by simp⟩
  exact lt_of_le_of_lt hless hstrict

theorem countRows_congr (p : κ → ρ → Bool) (h : ∀ key, second.lookup key = first.lookup key) :
    countRows p second = countRows p first := by
  apply Nat.le_antisymm
  · exact countRows_le fun key row hrow hp ↦ ⟨row, (h key).symm.trans hrow, hp⟩
  · exact countRows_le fun key row hrow hp ↦ ⟨row, (h key).trans hrow, hp⟩

/-- One more row. -/
theorem countRows_of_insert (p : κ → ρ → Bool) {key : κ} {row : ρ} (hnone : first.lookup key = none)
    (h : ∀ other, second.lookup other = if other = key then some row else first.lookup other) :
    countRows p second = countRows p first + if p key row = true then 1 else 0 := by
  have hnew : (key, row) ∉ rows first := by
    rw [mem_rows, hnone]
    exact nofun
  have hperm : (rows second).Perm ((key, row) :: rows first) := by
    rw [List.perm_ext_iff_of_nodup (rows_nodup second) (List.nodup_cons.mpr ⟨hnew, rows_nodup first⟩)]
    rintro ⟨other, row'⟩
    rw [mem_rows, h, List.mem_cons, mem_rows, Prod.mk.injEq]
    by_cases hother : other = key
    · subst hother
      simp [hnone, eq_comm]
    · simp [hother]
  unfold countRows
  rw [(hperm.filter _).length_eq, List.filter_cons]
  split
  · rw [List.length_cons]
  · rfl

end

theorem lookup_union (first second : Table κ ρ) (key : κ) :
    (first ∪ second).lookup key = (first.lookup key).or (second.lookup key) := by
  by_cases hmem : key ∈ first
  · rw [AList.lookup_union_left hmem]
    obtain ⟨row, hrow⟩ := Option.isSome_iff_exists.mp (AList.lookup_isSome.mpr hmem)
    rw [hrow, Option.some_or]
  · rw [AList.lookup_union_right hmem, AList.lookup_eq_none.mpr hmem, Option.none_or]

theorem lookup_insert_eq (table : Table κ ρ) (key other : κ) (row : ρ) :
    (table.insert key row).lookup other = if other = key then some row else table.lookup other := by
  split
  · rename_i h
    subst h
    exact AList.lookup_insert table
  · rename_i h
    exact AList.lookup_insert_ne h

/-- A view of every row, under the same keys. -/
def mapRows {σ : Type*} (f : ρ → σ) (table : Table κ ρ) : Table κ σ where
  entries := table.entries.map (.map id fun _ ↦ f)
  nodupKeys := .map₂ _ _ table.nodupKeys

/-- Copying rows of one table into another. -/
theorem lookup_foldl_insert (source : Table κ ρ) (records : List (κ × ρ)) (table : Table κ ρ)
    (h : ∀ record ∈ records, source.lookup record.1 = some record.2) (key : κ) :
    (records.foldl (fun table record ↦ table.insert record.1 record.2) table).lookup key =
      if key ∈ records.map Prod.fst then source.lookup key else table.lookup key := by
  induction records generalizing table with
  | nil => rfl
  | cons record rest ih =>
    rw [List.forall_mem_cons] at h
    rw [List.foldl_cons, ih _ h.2, List.map_cons, lookup_insert_eq]
    by_cases hkey : key = record.1
    · subst hkey
      rw [if_pos rfl, if_pos List.mem_cons_self, ← h.1, ite_self]
    · rw [if_neg hkey]
      simp only [List.mem_cons, hkey, false_or]

section

variable {α : Type*} {row? : κ × α → Option (Option ρ)} {entries : List (κ × α)} {start table : Table κ ρ}

/-- Insert the row of an entry, if it has one; the outer `none` is an entry that fails. -/
def insertEntry (row? : κ × α → Option (Option ρ)) (table : Table κ ρ) (entry : κ × α) :
    Option (Table κ ρ) :=
  (row? entry).map fun row ↦ row.elim table (table.insert entry.1)

theorem foldlM_insertEntry_isSome (start : Table κ ρ) :
    (entries.foldlM (insertEntry row?) start).isSome ↔ ∀ entry ∈ entries, (row? entry).isSome := by
  induction entries generalizing start with
  | nil => simp
  | cons entry rest ih =>
    rw [List.foldlM_cons, List.forall_mem_cons]
    cases hrow : row? entry with
    | none => simp [insertEntry, hrow]
    | some row =>
      have hstep : insertEntry row? start entry = some (row.elim start (start.insert entry.1)) := by
        rw [insertEntry, hrow, Option.map_some]
      rw [hstep, Option.bind_eq_bind, Option.bind_some, ih]
      simp

/-- Of the entries under one key the last that has a row decides. -/
theorem lookup_foldlM_insertEntry_last {row : κ × α → Option ρ}
    (h : entries.foldlM (insertEntry row?) start = some table)
    (hrow : ∀ entry ∈ entries, row? entry = some (row entry)) (key : κ) :
    table.lookup key = (entries.reverse.findSome? fun entry ↦
      if entry.1 = key then row entry else none).or (start.lookup key) := by
  induction entries generalizing start with
  | nil =>
    cases h
    rfl
  | cons first rest ih =>
    rw [List.foldlM_cons] at h
    obtain ⟨middle, hmiddle, hrest⟩ := Option.bind_eq_some_iff.mp h
    obtain ⟨inserted, hinserted, rfl⟩ := Option.map_eq_some_iff.mp hmiddle
    rw [List.forall_mem_cons] at hrow
    cases hinserted.symm.trans hrow.1
    rw [ih hrest hrow.2, List.reverse_cons, List.findSome?_append, Option.or_assoc,
      List.findSome?_singleton]
    cases row first with
    | none => rw [ite_self, Option.none_or, Option.elim_none]
    | some value =>
      rw [Option.elim_some, lookup_insert_eq]
      by_cases hkey : key = first.1
      · rw [if_pos hkey, if_pos hkey.symm, Option.some_or]
      · rw [if_neg hkey, if_neg (Ne.symm hkey), Option.none_or]

/-- The value under a key of a list with distinct keys. -/
theorem lookup_of_mem_nodup {key : κ} {value : α} (hnodup : (entries.map Prod.fst).Nodup)
    (hmem : (key, value) ∈ entries) : entries.lookup key = some value := by
  obtain ⟨front, back, rfl⟩ := List.append_of_mem hmem
  refine List.lookup_eq_some_iff.mpr ⟨front, back, rfl, fun other hother ↦ ?_⟩
  rw [List.map_append, List.nodup_append] at hnodup
  have hne := hnodup.2.2 other.1 (List.mem_map_of_mem hother) key List.mem_cons_self
  simpa using hne.symm

end

/-- What the row under `key`, if there is one, contributes to a total. -/
def weightAt (weight : κ → ρ → ℕ) (table : Table κ ρ) (key : κ) : ℕ :=
  (table.lookup key).elim 0 (weight key)

private theorem sum_kerase (weight : κ → ρ → ℕ) (key : κ) (entries : List (Σ _ : κ, ρ))
    (hnodup : entries.NodupKeys) :
    ((entries.kerase key).map fun entry ↦ weight entry.1 entry.2).sum +
        (entries.dlookup key).elim 0 (weight key) =
      (entries.map fun entry ↦ weight entry.1 entry.2).sum := by
  induction entries with
  | nil => simp
  | cons head tail ih =>
    rw [List.nodupKeys_cons] at hnodup
    by_cases hkey : key = head.1
    · subst hkey
      rw [List.kerase_cons_eq rfl, List.map_cons, List.sum_cons, add_comm]
      congr 1
      rw [show head = ⟨head.1, head.2⟩ from rfl, List.dlookup_cons_eq]
      rfl
    · rw [List.kerase_cons_ne hkey, List.dlookup_cons_ne _ _ hkey, List.map_cons, List.map_cons,
        List.sum_cons, List.sum_cons, add_assoc, ih hnodup.2]

private theorem sum_kunion (weight : κ → ρ → ℕ) (first : List (Σ _ : κ, ρ)) :
    ∀ second : List (Σ _ : κ, ρ), first.NodupKeys → second.NodupKeys →
      ((first.kunion second).map fun entry ↦ weight entry.1 entry.2).sum +
          (first.map fun entry ↦ (second.dlookup entry.1).elim 0 (weight entry.1)).sum =
        (second.map fun entry ↦ weight entry.1 entry.2).sum +
          (first.map fun entry ↦ weight entry.1 entry.2).sum := by
  induction first with
  | nil => intro second _ _; simp
  | cons head tail ih =>
    intro second hfirst hsecond
    rw [List.nodupKeys_cons] at hfirst
    have herase := sum_kerase weight head.1 second hsecond
    have htail := ih (second.kerase head.1) hfirst.2 (hsecond.kerase head.1)
    have hsame : (tail.map fun entry ↦ ((second.kerase head.1).dlookup entry.1).elim 0 (weight entry.1)) =
        tail.map fun entry ↦ (second.dlookup entry.1).elim 0 (weight entry.1) := by
      apply List.map_congr_left
      intro entry hentry
      have hne : entry.1 ≠ head.1 := fun heq ↦ hfirst.1 (heq ▸ List.mem_keys_of_mem hentry)
      rw [List.dlookup_kerase_ne hne]
    rw [hsame] at htail
    simp only [List.kunion_cons, List.map_cons, List.sum_cons]
    omega

/-- A left-biased union replaces the contribution of every key of the first table. -/
theorem total_union (weight : κ → ρ → ℕ) (first second : Table κ ρ) :
    total weight (first ∪ second) + ((rows first).map fun entry ↦ weightAt weight second entry.1).sum =
      total weight second + total weight first := by
  have h := sum_kunion weight first.entries second.entries first.nodupKeys second.nodupKeys
  simpa only [total, rows, weightAt, AList.lookup, AList.union_entries, List.map_map,
    Function.comp_def] using h

/-- Writing one row replaces that key's contribution. -/
theorem total_insert (weight : κ → ρ → ℕ) (table : Table κ ρ) (key : κ) (row : ρ) :
    total weight (table.insert key row) + weightAt weight table key =
      total weight table + weight key row := by
  have h := sum_kerase weight key table.entries table.nodupKeys
  simp only [total, weightAt, AList.lookup, AList.entries_insert, List.map_cons, List.sum_cons]
  omega

/-- A union over rows that each add `extra` to what was there before adds all of `extra`. -/
theorem total_union_of_extra (weight extra : κ → ρ → ℕ) (first second : Table κ ρ)
    (h : ∀ key row, first.lookup key = some row →
      weight key row = weightAt weight second key + extra key row) :
    total weight (first ∪ second) = total weight second + total extra first := by
  have hunion := total_union weight first second
  have hsum : total weight first =
      ((rows first).map fun entry ↦ weightAt weight second entry.1).sum + total extra first := by
    have hrows (f : κ → ρ → ℕ) : total f first = ((rows first).map fun entry ↦ f entry.1 entry.2).sum := by
      simp only [total, rows, List.map_map, Function.comp_def]
    have hadds : (rows first).map (fun entry ↦ weight entry.1 entry.2) =
        (rows first).map fun entry ↦ weightAt weight second entry.1 + extra entry.1 entry.2 := by
      apply List.map_congr_left
      intro entry hentry
      exact h entry.1 entry.2 (mem_rows.mp hentry)
    calc total weight first
        = ((rows first).map fun entry ↦ weightAt weight second entry.1 + extra entry.1 entry.2).sum := by
          rw [hrows weight, hadds]
      _ = ((rows first).map fun entry ↦ weightAt weight second entry.1).sum + total extra first := by
          rw [List.sum_map_add, ← hrows extra]
  omega

/-- Counting the rows under some of the keys of a table. -/
theorem total_indicator (table : Table κ ρ) {keys : List κ} (hnodup : keys.Nodup)
    (hmem : ∀ key ∈ keys, key ∈ table) :
    total (fun key _ ↦ if key ∈ keys then 1 else 0) table = keys.length := by
  have hcount : total (fun key _ ↦ if key ∈ keys then 1 else 0) table =
      (table.keys.filter (· ∈ keys)).length := by
    rw [← List.countP_eq_length_filter, AList.keys, List.keys, List.countP_map, total]
    generalize table.entries = entries
    induction entries with
    | nil => rfl
    | cons head tail ih =>
      rw [List.map_cons, List.sum_cons, ih, List.countP_cons, add_comm]
      simp
  have hperm : (table.keys.filter (· ∈ keys)).Perm keys := by
    rw [List.perm_ext_iff_of_nodup (table.keys_nodup.filter _) hnodup]
    intro key
    rw [List.mem_filter, decide_eq_true_eq]
    exact ⟨And.right, fun hkey ↦ ⟨hmem key hkey, hkey⟩⟩
  calc total (fun key _ ↦ if key ∈ keys then 1 else 0) table
      = (table.keys.filter (· ∈ keys)).length := hcount
    _ = keys.length := hperm.length_eq

end Table

end VoiceSpend
