import MarketEngine.Table
import Mathlib.Data.List.Induction
import Mathlib.Data.List.Perm.Basic
/-!
# The keys of a table

Under distinct keys a table is found to hold just its entries (`Table.get?_eq_some_iff`), whatever
their order (`Table.get?_perm`). Writes keep the keys distinct (`Table.nodup_keys_put`), entries
under distinct keys make up a table as they stand (`Table.ofList_eq`), and the same writes made once
more change nothing (`Table.putAll_putAll`).
-/

namespace MarketEngine.Table

variable {κ ν : Type} [BEq κ] [LawfulBEq κ]

/-- A key is in a table if something is found under it. -/
theorem mem_keys_iff {t : Table κ ν} {k : κ} : k ∈ t.keys ↔ (t.get? k).isSome = true := by
  rw [keys, List.mem_map, get?, List.lookup_isSome_iff]
  simp only [beq_iff_eq, eq_comm (b := k)]

/-- A table has each key once, also after something is put in. -/
theorem nodup_keys_put {t : Table κ ν} (h : t.keys.Nodup) (k : κ) (v : ν) :
    (t.put k v).keys.Nodup := by
  induction t with
  | nil => simp [put, keys]
  | cons e t ih =>
    obtain ⟨k', v'⟩ := e
    obtain ⟨hhead, hrest⟩ := List.nodup_cons.1 h
    rw [put]
    split
    · exact List.nodup_cons.2 ⟨hhead, hrest⟩
    · next hne =>
      refine List.nodup_cons.2 ⟨fun hmem => hhead ?_, ih hrest⟩
      rw [← keys, mem_keys_iff, get?_put] at hmem
      rw [if_neg (by simpa using hne)] at hmem
      exact mem_keys_iff.2 hmem

/-- In a table with distinct keys, what is found under a key is what stands there. -/
theorem get?_eq_some_iff {t : Table κ ν} (h : t.keys.Nodup) {k : κ} {v : ν} :
    t.get? k = some v ↔ (k, v) ∈ t := by
  induction t with
  | nil => simp [get?]
  | cons e t ih =>
    obtain ⟨k', v'⟩ := e
    obtain ⟨hhead, hrest⟩ := List.nodup_cons.1 h
    rw [List.mem_cons, Prod.mk.injEq]
    by_cases hk : k = k'
    · subst hk
      have hother : (k, v) ∉ t := fun hmem => hhead (List.mem_map.2 ⟨(k, v), hmem, rfl⟩)
      simp [get?, hother, eq_comm]
    · rw [← ih hrest]
      simp [get?, List.lookup_cons, beq_false_of_ne hk, hk]

/-- The order of the entries does not matter where each key stands once. -/
theorem get?_perm {t t' : Table κ ν} (ht : t.Perm t') (h : t.keys.Nodup) (k : κ) :
    t.get? k = t'.get? k := by
  have h' : t'.keys.Nodup := (ht.map _).nodup_iff.1 h
  exact Option.ext fun v => by rw [get?_eq_some_iff h, get?_eq_some_iff h', ht.mem_iff]

/-- Of the entries under some of the keys. -/
theorem get?_filter (t : Table κ ν) (p : κ → Bool) (k : κ) :
    get? (t.filter (p ·.1)) k = if p k then t.get? k else none := by
  induction t with
  | nil => simp [get?]
  | cons e t ih =>
    obtain ⟨k', v'⟩ := e
    rw [get?, get?] at ih ⊢
    by_cases hk : k = k'
    · subst hk
      by_cases hp : p k <;> simp [hp, ih]
    · by_cases hp : p k' <;> simp [List.lookup_cons, beq_false_of_ne hk, hp, ih]

omit [LawfulBEq κ] in
/-- After every value was changed, the changed one is found. -/
theorem get?_map {μ : Type} (t : Table κ ν) (f : ν → μ) (k : κ) :
    get? (t.map fun entry => (entry.1, f entry.2)) k = (t.get? k).map f := by
  induction t with
  | nil => rfl
  | cons entry rest ih =>
    obtain ⟨k', v⟩ := entry
    simp only [get?, List.map_cons, List.lookup_cons] at ih ⊢
    cases k == k' with
    | true => rfl
    | false => exact ih

/-- Under a new key an entry comes last. -/
theorem put_of_not_mem {t : Table κ ν} {k : κ} (h : k ∉ t.keys) (v : ν) :
    t.put k v = t ++ [(k, v)] := by
  induction t with
  | nil => rfl
  | cons e t ih =>
    rw [keys, List.map_cons, List.mem_cons, not_or] at h
    rw [put, if_neg (by simpa using Ne.symm h.1), ih h.2, List.cons_append]

/-- An entry is changed in its place. -/
theorem put_append_cons {t : Table κ ν} {k : κ} (h : k ∉ t.keys) (v v' : ν) (t' : Table κ ν) :
    put (t ++ (k, v) :: t') k v' = t ++ (k, v') :: t' := by
  induction t with
  | nil => simp [put]
  | cons e t ih =>
    rw [keys, List.map_cons, List.mem_cons, not_or] at h
    rw [List.cons_append, put, if_neg (by simpa using Ne.symm h.1), ih h.2, List.cons_append]

/-- Entries with distinct keys make the table that lists them. -/
theorem ofList_eq {t : Table κ ν} (h : t.keys.Nodup) : ofList t = t := by
  induction t using List.reverseRecOn with
  | nil => rfl
  | append_singleton t e ih =>
    rw [keys, List.map_append, List.nodup_append] at h
    obtain ⟨ht, -, hdisjoint⟩ := h
    have hnot : e.1 ∉ keys t := fun hmem => hdisjoint _ hmem _ (by simp) rfl
    have hfront : t.foldl (fun t e => put t e.1 e.2) [] = t := ih ht
    rw [ofList, List.foldl_append, hfront]
    exact put_of_not_mem hnot e.2

/-! ## The same writes once more -/

omit [LawfulBEq κ] in
/-- Writes entries one after the other. -/
def putAll (t : Table κ ν) (entries : List (κ × ν)) : Table κ ν :=
  entries.foldl (fun t e => t.put e.1 e.2) t

/-- What is put in stands under its key, and no key is lost. -/
theorem mem_keys_put {t : Table κ ν} {k k' : κ} {v : ν} :
    k' ∈ (t.put k v).keys ↔ k' = k ∨ k' ∈ t.keys := by
  rw [mem_keys_iff, get?_put, mem_keys_iff]
  by_cases hk : k' = k <;> simp [hk]

/-- What is put in, one entry after the other, stands under its keys. -/
theorem mem_keys_putAll {t : Table κ ν} {entries : List (κ × ν)} {k : κ}
    (h : k ∈ entries.map (·.1) ∨ k ∈ t.keys) : k ∈ (t.putAll entries).keys := by
  induction entries generalizing t with
  | nil => exact h.resolve_left List.not_mem_nil
  | cons e entries ih =>
    refine ih ?_
    rw [mem_keys_put]
    simpa [or_assoc, or_left_comm] using h

omit [LawfulBEq κ] in
/-- Writing under other keys leaves the keys of some kind as they are. -/
theorem filter_keys_put {t : Table κ ν} {k : κ} {p : κ → Bool} (hk : p k = false) (v : ν) :
    (t.put k v).keys.filter p = t.keys.filter p := by
  induction t with
  | nil => simp [put, keys, hk]
  | cons e t ih =>
    rw [put]
    split
    · rfl
    · simp only [keys, List.map_cons, List.filter_cons] at ih ⊢
      rw [ih]

/-- Only the last of two writes under one key counts. -/
theorem put_put (t : Table κ ν) (k : κ) (v v' : ν) : (t.put k v).put k v' = t.put k v' := by
  induction t with
  | nil => simp [put]
  | cons e t ih =>
    by_cases he : e.1 == k
    · simp [put, he]
    · simp [put, he, ih]

/-- A key that is there already keeps its place, whatever else is written. -/
theorem put_comm {t : Table κ ν} {k k' : κ} (hne : k ≠ k') (hk' : k' ∈ t.keys) (v v' : ν) :
    (t.put k v).put k' v' = (t.put k' v').put k v := by
  induction t with
  | nil => cases hk'
  | cons e t ih =>
    obtain ⟨k₀, v₀⟩ := e
    by_cases hfirst : k₀ = k'
    · subst hfirst
      simp [put, Ne.symm hne]
    · have hrest : k' ∈ keys t := by simpa [keys, Ne.symm hfirst] using hk'
      by_cases hk : k₀ = k
      · simp [put, hk, hne]
      · simp [put, hk, hfirst, ih hrest]

/-- Writes under keys that are there already leave no trace of an entry that is written before them
and after them. -/
theorem put_putAll_put {t : Table κ ν} {entries : List (κ × ν)}
    (h : ∀ e ∈ entries, e.1 ∈ t.keys) (k : κ) (v v' : ν) :
    ((t.put k v).putAll entries).put k v' = (t.putAll entries).put k v' := by
  induction entries generalizing t with
  | nil => exact put_put t k v v'
  | cons e entries ih =>
    obtain ⟨he, hentries⟩ := List.forall_mem_cons.1 h
    have hkeys : ∀ e' ∈ entries, e'.1 ∈ (t.put e.1 e.2).keys := fun e' he' =>
      mem_keys_put.2 (.inr (hentries e' he'))
    rw [putAll, putAll, List.foldl_cons, List.foldl_cons, ← putAll, ← putAll]
    by_cases hk : k = e.1
    · subst hk
      rw [put_put]
    · rw [put_comm hk he, ih hkeys]

/-- The same writes a second time change nothing: every key is there, and the last write under it is
the same. -/
theorem putAll_putAll (t : Table κ ν) (entries : List (κ × ν)) :
    (t.putAll entries).putAll entries = t.putAll entries := by
  induction entries using List.reverseRecOn with
  | nil => rfl
  | append_singleton entries e ih =>
    have hconcat : ∀ t : Table κ ν, t.putAll (entries ++ [e]) = (t.putAll entries).put e.1 e.2 :=
      fun t => by rw [putAll, List.foldl_append]; rfl
    have hkeys : ∀ e' ∈ entries, e'.1 ∈ (t.putAll entries).keys := fun e' he' =>
      mem_keys_putAll (.inl (List.mem_map_of_mem he'))
    rw [hconcat, hconcat, put_putAll_put hkeys, ih]

end MarketEngine.Table
