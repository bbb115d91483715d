import MarketEngine.Codec.Order
import MarketEngine.Codec.Quote
import MarketEngine.Proofs.Tables
/-!
# Records read back

Values read back from the JSON that they are written as, and what a reader finds in an object that
holds some of the fields of a record, in any order and among fields of other names
(`Json.record?_of_perm`).
-/

namespace MarketEngine

namespace Json

/-! ## Plain values -/

/-- A text is read back. -/
theorem string?_ofString (s : String) : string? (ofString s) = some s := rfl

/-- A truth value is read back. -/
theorem bool?_bool (b : Bool) : bool? (bool b) = some b := rfl

/-- A whole number within the bounds is read back. -/
theorem intBetween?_ofInt {low high i : Int} (hlow : low ≤ i) (hhigh : i ≤ high) :
    intBetween? low high (ofInt i) = some i := by
  have hinteger : Decimal.Numeral.integer? ⟨i < 0, i.natAbs, [], none⟩ = some i := by
    cases i with
    | ofNat n =>
      have hsign : ¬ Int.ofNat n < 0 := by simp
      rw [decide_eq_false hsign]
      rfl
    | negSucc n =>
      rw [decide_eq_true (Int.negSucc_lt_zero n)]
      rfl
  simp [intBetween?, ofInt, hinteger, hlow, hhigh]

/-- A number of 64 bits is read back. -/
theorem nat64?_ofNat {n : Nat} (h : n < Nat.pow 2 64) : nat64? (ofNat n) = some n := by
  have hmost : (n : Int) ≤ Int.pow 2 64 - 1 := Int.le_sub_one_of_lt (Int.ofNat_lt.2 h)
  have hbetween := intBetween?_ofInt (Int.natCast_nonneg n) hmost
  rw [nat64?, ofNat, hbetween, Option.map_some, Int.toNat_natCast]

/-- A number of 32 bits is read back. -/
theorem nat32?_ofNat {n : Nat} (h : n < Nat.pow 2 32) : nat32? (ofNat n) = some n := by
  have hmost : (n : Int) ≤ Int.pow 2 32 - 1 := Int.le_sub_one_of_lt (Int.ofNat_lt.2 h)
  have hbetween := intBetween?_ofInt (Int.natCast_nonneg n) hmost
  rw [nat32?, ofNat, hbetween, Option.map_some, Int.toNat_natCast]

/-- A finite amount whose numeral is read back as the amount. -/
def ReadsBack {α : Type} [JsonAmount α] (x : α) : Prop :=
  (JsonAmount.numeral? x).bind JsonAmount.ofNumeral? = some x

instance {α : Type} [JsonAmount α] [DecidableEq α] (x : α) : Decidable (ReadsBack x) :=
  inferInstanceAs (Decidable (_ = _))

/-- An amount is read back if its numeral is. -/
theorem amount?_ofAmount {α : Type} [JsonAmount α] {x : α} (h : ReadsBack x) :
    amount? (ofAmount x) = some x := by
  obtain ⟨n, hwrite, hread⟩ := Option.bind_eq_some_iff.1 h
  rw [ofAmount, hwrite, amount?, hread]

/-- A list is read back if each of its entries is. -/
theorem mapM_map {β γ : Type} {read : γ → Option β} {write : β → γ} {l : List β}
    (h : ∀ b ∈ l, read (write b) = some b) : (l.map write).mapM read = some l := by
  induction l with
  | nil => rfl
  | cons b l ih =>
    have hrest := ih fun b' hb' => h b' (List.mem_cons_of_mem b hb')
    rw [List.map_cons, List.mapM_cons, h b List.mem_cons_self, hrest]
    rfl

/-- What a list is read as, entry by entry. -/
theorem mapM_eq_some {β γ : Type} {read : γ → Option β} {l : List γ} {bs : List β} :
    l.mapM read = some bs ↔ List.Forall₂ (fun c b => read c = some b) l bs := by
  induction l generalizing bs with
  | nil => exact Option.some_inj.trans (eq_comm.trans List.forall₂_nil_left_iff.symm)
  | cons c l ih =>
    simp only [List.mapM_cons, Option.bind_eq_bind, Option.bind_eq_some_iff, ih, Option.pure_def,
      Option.some.injEq, List.forall₂_cons_left_iff]
    constructor
    · rintro ⟨b, hb, bs, hbs, rfl⟩
      exact ⟨b, bs, hb, hbs, rfl⟩
    · rintro ⟨b, bs, hb, hbs, rfl⟩
      exact ⟨b, hb, bs, hbs, rfl⟩

/-- A list is read back if each of its entries is. -/
theorem listOf?_map {β : Type} {read : Json → Option β} {write : β → Json} {l : List β}
    (h : ∀ b ∈ l, read (write b) = some b) : listOf? read (array (l.map write)) = some l :=
  mapM_map h

/-- One of several values is read back by its name, if no other has that. -/
theorem choice?_ofString {β : Type} {name : β → String} {all : List β} {b : β} (hmem : b ∈ all)
    (h : ∀ b' ∈ all, name b' = name b → b' = b) :
    choice? name all (ofString (name b)) = some b := by
  have hsome : (all.find? (name · == name b)).isSome = true :=
    List.find?_isSome.2 ⟨b, hmem, beq_self_eq_true _⟩
  obtain ⟨b', hb'⟩ := Option.isSome_iff_exists.1 hsome
  have hname := List.find?_some hb'
  rw [h b' (List.mem_of_find?_eq_some hb') (by simpa using hname)] at hb'
  exact hb'

/-! ## Records -/

/-- The fields of an object, by those of their names that are texts. -/
def entries : Json → List (String × Json)
  | object fields => fields.filterMap fun f => f.1.map (·, f.2)
  | _ => []

/-- The fields of a record are those it was made of. -/
theorem entries_record (fields : List (String × Json)) : (record fields).entries = fields := by
  simp [record, entries]

/-- The known fields of an object, when no known name repeats. -/
theorem knownFields?_eq {names : List String} {fields : List (String × Json)}
    (h : ((fields.filter (·.1 ∈ names)).map (·.1)).Nodup) :
    knownFields? names (fields.map fun f => (some f.1, f.2))
      = some (fields.filter (·.1 ∈ names)) := by
  induction fields with
  | nil => rfl
  | cons f fields ih =>
    obtain ⟨name, value⟩ := f
    by_cases hname : name ∈ names
    · have hkept : ((name, value) :: fields).filter (·.1 ∈ names)
          = (name, value) :: fields.filter (·.1 ∈ names) :=
        List.filter_cons_of_pos (decide_eq_true hname)
      rw [hkept, List.map_cons, List.nodup_cons] at h
      have hfresh : (fields.filter (·.1 ∈ names)).lookup name = none := by
        rw [← Option.not_isSome_iff_eq_none, ← Table.get?, ← Table.mem_keys_iff]
        exact h.1
      rw [hkept]
      simp [knownFields?, ih h.2, hname, hfresh]
    · have hdropped : ((name, value) :: fields).filter (·.1 ∈ names)
          = fields.filter (·.1 ∈ names) := List.filter_cons_of_neg (by simpa using hname)
      rw [hdropped] at h ⊢
      simp [knownFields?, ih h, hname]

namespace Record

/-- Of the fields of a record these are the kept ones. -/
def Keeps (r : Record) (own : List (String × Json)) (kept : String → Bool) : Prop :=
  ∀ name, r.fields.lookup name = if kept name then own.lookup name else none

variable {β : Type}

/-- A field that may be left out, and that reads as `b` when it is given. -/
theorem withDefault_eq {r : Record} {own : List (String × Json)} {kept : String → Bool}
    (hr : r.Keeps own kept) {name : String} {j : Json} {read : Json → Option β} {b : β}
    (initial : β) (hown : own.lookup name = some j) (hread : read j = some b) :
    r.withDefault name initial read = some (if kept name then b else initial) := by
  rw [withDefault, hr, hown]
  cases kept name with
  | false => rfl
  | true => exact hread

end Record

/-- An object that holds some fields of a record, in any order and among unknown ones. -/
theorem record?_of_perm {own fields unknown : List (String × Json)} (kept : String → Bool)
    (hown : (own.map (·.1)).Nodup) (hunknown : ∀ f ∈ unknown, f.1 ∉ own.map (·.1))
    (hfields : fields.Perm (own.filter (kept ·.1) ++ unknown)) :
    ∃ r, record? (own.map (·.1)) (record fields) = some r ∧ r.Keeps own kept := by
  have hgiven : (fields.filter (·.1 ∈ own.map (·.1))).Perm (own.filter (kept ·.1)) := by
    have hknown : (own.filter (kept ·.1)).filter (·.1 ∈ own.map (·.1)) = own.filter (kept ·.1) :=
      List.filter_eq_self.2 fun f hf =>
        decide_eq_true (List.mem_map.2 ⟨f, List.mem_of_mem_filter hf, rfl⟩)
    have hothers : unknown.filter (·.1 ∈ own.map (·.1)) = [] :=
      List.filter_eq_nil_iff.2 fun f hf => by simpa using hunknown f hf
    have hfilter := hfields.filter (·.1 ∈ own.map (·.1))
    rwa [List.filter_append, hknown, hothers, List.append_nil] at hfilter
  have hnodup : ((own.filter (kept ·.1)).map (·.1)).Nodup :=
    hown.sublist (List.filter_sublist.map _)
  have hnodup' := (hgiven.map (·.1)).nodup_iff.2 hnodup
  refine ⟨⟨fields.filter (·.1 ∈ own.map (·.1)), false⟩, ?_, fun name => ?_⟩
  · simp only [record?, record, knownFields?_eq hnodup', Option.map_some]
  · exact (Table.get?_perm hgiven hnodup' name).trans (Table.get?_filter own kept name)

end Json

/-! ## Enumerations -/

/-- A time frame is read back by its name. -/
theorem TimeFrame.ofJson?_toJson (t : TimeFrame) : ofJson? t.toJson = some t :=
  Json.choice?_ofString (by cases t <;> decide) fun t' _ h => by
    revert h
    cases t <;> cases t' <;> decide

/-- A side is read back by its name. -/
theorem Side.ofJson?_toJson (s : Side) : ofJson? s.toJson = some s :=
  Json.choice?_ofString (by cases s <;> decide) fun s' _ h => by
    revert h
    cases s <;> cases s' <;> decide

/-- The kind of an order is read back by its name. -/
theorem OrderKind.ofJson?_toJson (k : OrderKind) : ofJson? k.toJson = some k :=
  Json.choice?_ofString (by cases k <;> decide) fun k' _ h => by
    revert h
    cases k <;> cases k' <;> decide

/-- The status of an order is read back by its name. -/
theorem OrderStatus.ofJson?_toJson (s : OrderStatus) : ofJson? s.toJson = some s :=
  Json.choice?_ofString (by cases s <;> decide) fun s' _ h => by
    revert h
    cases s <;> cases s' <;> decide

end MarketEngine
