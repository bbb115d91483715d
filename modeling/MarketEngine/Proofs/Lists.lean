import MarketEngine.Table
import Mathlib.Algebra.BigOperators.Group.List.Basic
import Mathlib.Algebra.GroupWithZero.Nat
import Mathlib.Data.List.Basic
import Mathlib.Data.List.Induction
import Mathlib.Data.List.Perm.Basic
/-!
# One entry of a list

What changing one entry of a list keeps, where the first entry with a property stands, and what the
change of an entry does to a sum.
-/

namespace MarketEngine

variable {β γ : Type}

/-- What becomes of the entry that stands there is all that counts of a change. -/
theorem modify_congr {f g : β → β} {l : List β} {i : Nat} (h : ∀ b, l[i]? = some b → f b = g b) :
    l.modify i f = l.modify i g := by
  induction l generalizing i with
  | nil => cases i <;> rfl
  | cons b rest ih =>
    cases i with
    | zero => simp [h b rfl]
    | succ i => simpa using ih fun b hb => h b hb

/-- Changing an entry in a way that `g` does not see there keeps what `g` makes of the list. -/
theorem map_modify_of_getElem? {g : β → γ} {f : β → β} {l : List β} {i : Nat}
    (hf : ∀ b, l[i]? = some b → g (f b) = g b) : (l.modify i f).map g = l.map g := by
  induction l generalizing i with
  | nil => cases i <;> rfl
  | cons b rest ih =>
    cases i with
    | zero => simp [hf b rfl]
    | succ i => simpa using ih fun b hb => hf b hb

/-- Changing an entry in a way that `g` does not see keeps what `g` makes of the list. -/
theorem map_modify {g : β → γ} {f : β → β} (hf : ∀ b, g (f b) = g b) (l : List β) (i : Nat) :
    (l.modify i f).map g = l.map g :=
  map_modify_of_getElem? fun b _ => hf b

/-- An entry in another's place that `g` does not tell from it keeps what `g` makes of the list. -/
theorem map_set_of_eq {g : β → γ} {l : List β} {i : Nat} (hi : i < l.length) {b : β}
    (hb : g b = g l[i]) : (l.set i b).map g = l.map g := by
  rw [List.map_set, hb, ← List.map_set, List.set_getElem_self]

/-- Changing an entry in a way that `p` does not see keeps the first entry with `p`. -/
theorem findIdx?_modify {p : β → Bool} {f : β → β} (hf : ∀ b, p (f b) = p b) (l : List β)
    (i : Nat) : (l.modify i f).findIdx? p = l.findIdx? p := by
  have hmap := congrArg (List.findIdx? id) (map_modify hf l i)
  simpa only [List.findIdx?_map, Function.id_comp] using hmap

/-- Changing an entry in a way that `p` does not see keeps how many entries have `p`. -/
theorem countP_modify {p : β → Bool} {f : β → β} (hf : ∀ b, p (f b) = p b) (l : List β)
    (i : Nat) : (l.modify i f).countP p = l.countP p := by
  have hmap := congrArg (List.countP id) (map_modify hf l i)
  simpa only [List.countP_map, Function.id_comp] using hmap

/-- Changing the first entry with a property: no entry before it has the property. -/
theorem modify_findIdx? {p : β → Bool} {l : List β} {i : Nat} (h : l.findIdx? p = some i)
    (f : β → β) :
    ∃ before b after, l = before ++ b :: after ∧ l.modify i f = before ++ f b :: after ∧
      (∀ a ∈ before, p a = false) ∧ p b = true := by
  induction l generalizing i with
  | nil => simp at h
  | cons a rest ih =>
    rw [List.findIdx?_cons] at h
    split at h
    · next hp =>
      obtain rfl : 0 = i := by simpa using h
      exact ⟨[], a, rest, rfl, rfl, by simp, hp⟩
    · next hp =>
      obtain ⟨j, hj, rfl⟩ := Option.map_eq_some_iff.1 h
      obtain ⟨before, b, after, rfl, hmodify, hbefore, hb⟩ := ih hj
      refine ⟨a :: before, b, after, rfl, by simp [hmodify], ?_, hb⟩
      intro c hc
      rcases List.mem_cons.1 hc with rfl | hc
      · simpa using hp
      · exact hbefore c hc

/-- What is kept of a list with one more entry. -/
theorem filterMap_concat (f : β → Option γ) (l : List β) (b : β) :
    (l ++ [b]).filterMap f = l.filterMap f ++ (f b).toList := by
  rw [List.filterMap_append]
  cases hb : f b <;> simp [hb]

/-- Reading every place of a list in turn is going through the list with its places. -/
theorem filterMap_range_getElem? (f : Nat → β → γ) (l : List β) :
    (List.range l.length).filterMap (fun i => (l[i]?).map (f i)) = l.mapIdx f := by
  induction l using List.reverseRecOn with
  | nil => rfl
  | append_singleton l b ih =>
    have hbefore : ∀ i ∈ List.range l.length,
        ((l ++ [b])[i]?).map (f i) = (l[i]?).map (f i) := by
      intro i hi
      rw [List.getElem?_append_left (List.mem_range.1 hi)]
    rw [List.length_append, List.length_singleton, List.range_succ, List.filterMap_append,
      List.filterMap_congr hbefore, ih, List.mapIdx_concat]
    simp

/-- The places of the entries with a property, and then these entries. -/
theorem filterMap_filter_range (q : β → Bool) (f : β → γ) (l : List β) :
    ((List.range l.length).filter fun i => l[i]?.any q).filterMap (fun i => l[i]?.map f)
      = (l.filter q).map f := by
  induction l using List.reverseRecOn with
  | nil => rfl
  | append_singleton l b ih =>
    have hbefore : ∀ i ∈ List.range l.length, (l ++ [b])[i]? = l[i]? := fun i hi =>
      List.getElem?_append_left (List.mem_range.1 hi)
    have hfilter : (List.range l.length).filter (fun i => (l ++ [b])[i]?.any q)
        = (List.range l.length).filter fun i => l[i]?.any q :=
      List.filter_congr fun i hi => by rw [hbefore i hi]
    have hmap : ((List.range l.length).filter fun i => l[i]?.any q).filterMap
          (fun i => (l ++ [b])[i]?.map f)
        = ((List.range l.length).filter fun i => l[i]?.any q).filterMap fun i => l[i]?.map f :=
      List.filterMap_congr fun i hi => by rw [hbefore i (List.mem_filter.1 hi).1]
    rw [List.length_append, List.length_singleton, List.range_succ, List.filter_append,
      List.filterMap_append, hfilter, hmap, ih, List.filter_append, List.map_append]
    by_cases hb : q b = true <;> simp [hb]

/-- Of a list with one entry replaced, `f` picks what it picks of that entry and of the others. -/
theorem filterMap_set_perm (f : β → Option γ) {l : List β} {i : Nat} (hi : i < l.length) (b : β) :
    ((l.set i b).filterMap f).Perm ((f b).toList ++ (l.eraseIdx i).filterMap f) := by
  refine ((List.set_perm_cons_eraseIdx hi b).filterMap f).trans (.of_eq ?_)
  cases hb : f b <;> simp [hb]

/-- If `f` picks more of the entry that is put in another's place, it picks so much more of all. -/
theorem perm_filterMap_set {f : β → Option γ} {l : List β} {all added : List γ}
    (h : (l.filterMap f).Perm all) {i : Nat} {b b' : β} (hb : l[i]? = some b)
    (hadded : (f b').toList = (f b).toList ++ added) :
    ((l.set i b').filterMap f).Perm (all ++ added) := by
  obtain ⟨hi, rfl⟩ := List.getElem?_eq_some_iff.1 hb
  have hold := filterMap_set_perm f hi l[i]
  rw [List.set_getElem_self] at hold
  have hnew := filterMap_set_perm f hi b'
  rw [hadded, List.append_assoc] at hnew
  have hlast : (added ++ (l.eraseIdx i).filterMap f).Perm ((l.eraseIdx i).filterMap f ++ added) :=
    List.perm_append_comm
  refine hnew.trans ((hlast.append_left _).trans ?_)
  rw [← List.append_assoc]
  exact (hold.symm.trans h).append_right added

/-! ## Sums -/

variable {M : Type} [AddCommMonoid M]

/-- What stands under `p` counts towards the sum, and the rest does not. -/
theorem sum_map_filter (p : β → Bool) (f : β → M) (l : List β) :
    ((l.filter p).map f).sum = (l.map fun b => if p b then f b else 0).sum := by
  rw [List.sum_map_ite]
  simp

/-- A sum changes by as much as the entry that is changed. -/
theorem sum_map_modify {f : β → M} {g : β → β} {l : List β} {i : Nat} {b : β}
    (hb : l[i]? = some b) : ((l.modify i g).map f).sum + f b = (l.map f).sum + f (g b) := by
  induction l generalizing i with
  | nil => simp at hb
  | cons a rest ih =>
    cases i with
    | zero =>
      obtain rfl : a = b := by simpa using hb
      rw [List.modify_zero_cons, List.map_cons, List.map_cons, List.sum_cons, List.sum_cons,
        add_right_comm, add_comm (f (g a)), add_right_comm]
    | succ i =>
      have hrest := ih (by simpa using hb)
      rw [List.modify_succ_cons, List.map_cons, List.map_cons, List.sum_cons, List.sum_cons,
        add_assoc, hrest, add_assoc]

/-- A sum over a table changes by as much as the entry that is put in another's place. -/
theorem sum_map_put {κ ν : Type} [BEq κ] [LawfulBEq κ] {f : κ → ν → M} {t : Table κ ν} {k : κ}
    {v : ν} (hv : t.get? k = some v) (v' : ν) :
    ((t.put k v').map fun e => f e.1 e.2).sum + f k v
      = (t.map fun e => f e.1 e.2).sum + f k v' := by
  induction t with
  | nil => simp [Table.get?] at hv
  | cons e rest ih =>
    obtain ⟨k', old⟩ := e
    rw [Table.get?, List.lookup_cons] at hv
    rw [Table.put]
    by_cases hk : k = k'
    · subst hk
      obtain rfl : old = v := by simpa using hv
      rw [if_pos (beq_self_eq_true k), List.map_cons, List.map_cons, List.sum_cons, List.sum_cons,
        add_right_comm, add_comm (f k v'), add_right_comm]
    · rw [beq_eq_false_iff_ne.2 hk] at hv
      have hrest := ih hv
      rw [if_neg (by simpa using Ne.symm hk), List.map_cons, List.map_cons, List.sum_cons,
        List.sum_cons, add_assoc, hrest, add_assoc]

end MarketEngine
