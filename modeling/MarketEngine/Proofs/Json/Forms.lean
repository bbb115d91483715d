import MarketEngine.Proofs.Decimal.FiniteNumbers
/-!
# Forms of a record

A record stands in JSON as an object, with its fields in any order and unknown ones among them, or
as the array of its fields in their declared order (`Json.RecordForm`). A reader finds the same
fields in every form (`RecordForm.exists_record`). Conversely what a reader takes for a whole number
or an amount is one that can be held.
-/

namespace MarketEngine.Json

/-! ## Whole numbers of 64 bits -/

/-- A whole number that 64 bits with a sign can hold. -/
def IsInt64 (n : Int) : Prop := -Int.pow 2 63 ≤ n ∧ n ≤ Int.pow 2 63 - 1

instance (n : Int) : Decidable (IsInt64 n) := inferInstanceAs (Decidable (_ ∧ _))

/-- A whole number of 64 bits is read back. -/
theorem int64?_ofInt {n : Int} (h : IsInt64 n) : int64? (ofInt n) = some n :=
  intBetween?_ofInt h.1 h.2

/-- What was read as a whole number has 64 bits. -/
theorem isInt64_of_int64? {j : Json} {n : Int} (h : int64? j = some n) : IsInt64 n := by
  cases j with
  | number numeral =>
    obtain ⟨-, hrange⟩ := Option.filter_eq_some_iff.1 h
    exact of_decide_eq_true hrange
  | null | bool | text | array | object => cases h

/-! ## Lists and pairs -/

/-- What holds of all that an item can be read as holds of the entries of a list. -/
theorem forall_of_listOf? {β : Type} {read : Json → Option β} {p : β → Prop} {bs : List β}
    {j : Json} (hread : ∀ j b, read j = some b → p b) (h : listOf? read j = some bs) :
    ∀ b ∈ bs, p b := by
  cases j with
  | array items =>
    have hitems := mapM_eq_some.1 h
    clear h
    induction hitems with
    | nil => exact List.forall_mem_nil _
    | cons hitem _ ih => exact List.forall_mem_cons.2 ⟨hread _ _ hitem, ih⟩
  | null | bool | number | text | object => cases h

/-- A pair that was read has two parts that were. -/
theorem exists_of_pair? {β γ : Type} {first : Json → Option β} {second : Json → Option γ}
    {j : Json} {e : β × γ} (h : pair? first second j = some e) :
    (∃ j, first j = some e.1) ∧ ∃ j, second j = some e.2 := by
  unfold pair? at h
  split at h
  · simp only [Option.bind_eq_bind, Option.bind_eq_some_iff, Option.pure_def,
      Option.some.injEq] at h
    obtain ⟨b, hb, c, hc, rfl⟩ := h
    exact ⟨⟨_, hb⟩, _, hc⟩
  · cases h

/-! ## Records -/

/-- What stands for the record with these fields: an object with them in some order and unknown
fields among them, or the array of their values. -/
inductive RecordForm (own : List (String × Json)) : Json → Prop
  | object {fields unknown : List (String × Json)} (hunknown : ∀ f ∈ unknown, f.1 ∉ own.map (·.1))
      (hfields : fields.Perm (own ++ unknown)) : RecordForm own (Json.record fields)
  | array : RecordForm own (Json.array (own.map (·.2)))

/-- A record is one of its own forms. -/
theorem RecordForm.self (own : List (String × Json)) : RecordForm own (Json.record own) :=
  .object (List.forall_mem_nil _) (by rw [List.append_nil])

/-- What stands for a value that may be missing. -/
def OptionForm {β : Type} (form : β → Json → Prop) : Option β → Json → Prop
  | none, j => j = null
  | some b, j => form b j

/-- A reader finds the same fields in every form of a record. -/
theorem RecordForm.exists_record {own : List (String × Json)} {j : Json} (h : RecordForm own j)
    (names : List String) (hnames : own.map (·.1) = names) (hnodup : names.Nodup) :
    ∃ r, record? names j = some r ∧ r.Keeps own fun _ => true := by
  subst hnames
  cases h with
  | object hunknown hfields =>
    exact record?_of_perm _ hnodup hunknown (by rwa [List.filter_true])
  | array =>
    refine ⟨⟨own, true⟩, ?_, fun name => rfl⟩
    have hzip := List.zip_unzip own
    rw [List.unzip_fst, List.unzip_snd] at hzip
    rw [record?, if_pos (by simp), hzip]

namespace Record

variable {β : Type} {r : Record} {own : List (String × Json)} {name : String} {j : Json}
  {read : Json → Option β} {b : β}

/-- A field that is there is read. -/
theorem required_eq (hr : r.Keeps own fun _ => true) (hown : own.lookup name = some j)
    (hread : read j = some b) : r.required name read = some b := by
  rw [required, hr, if_pos rfl, hown, Option.bind_some, hread]

/-- A field that may be `null`, which is no value to its reader. -/
theorem optional_of_form (hr : r.Keeps own fun _ => true) {o : Option β}
    (hown : own.lookup name = some j) (hj : OptionForm (fun b j => read j = some b) o j)
    (hnull : read null = none) : r.optional name read = some o := by
  rw [optional, hr, if_pos rfl, hown]
  cases o with
  | none =>
    cases hj
    rfl
  | some b =>
    have hb : read j = some b := hj
    split
    · cases ‹some _ = none›
    · next hj =>
      rw [Option.some.inj hj, hnull] at hb
      cases hb
    · next hj =>
      rw [← Option.some.inj hj, hb, Option.map_some]

/-- A field that may be missing is read, or is null where it is missing. -/
theorem optional_eq (hr : r.Keeps own fun _ => true) {write : β → Json} {o : Option β}
    (hown : own.lookup name = some (ofOption write o)) (hread : ∀ b ∈ o, read (write b) = some b)
    (hnull : read null = none) : r.optional name read = some o := by
  refine optional_of_form hr hown ?_ hnull
  cases o with
  | none => rfl
  | some b => exact hread b rfl

/-- What a field gave was read from something. -/
theorem exists_of_required (h : r.required name read = some b) : ∃ j, read j = some b := by
  obtain ⟨j, -, hj⟩ := Option.bind_eq_some_iff.1 h
  exact ⟨j, hj⟩

/-- What a field with a default gave was read from something, or is the default. -/
theorem eq_or_exists_of_withDefault {initial : β} (h : r.withDefault name initial read = some b) :
    b = initial ∨ ∃ j, read j = some b := by
  rw [withDefault] at h
  split at h
  · exact .inl (Option.some.inj h).symm
  · exact .inr ⟨_, h⟩

/-- What a field gave, if it gave something, was read from something. -/
theorem exists_of_optional {o : Option β} (h : r.optional name read = some o) :
    ∀ b ∈ o, ∃ j, read j = some b := by
  rintro b rfl
  rw [optional] at h
  split at h
  · split at h <;> cases h
  · cases h
  · obtain ⟨b', hb', hsome⟩ := Option.map_eq_some_iff.1 h
    cases hsome
    exact ⟨_, hb'⟩

/-- A whole number in a field has 64 bits. -/
theorem isInt64_of_required {n : Int} (h : r.required name int64? = some n) : IsInt64 n := by
  obtain ⟨j, hj⟩ := exists_of_required h
  exact isInt64_of_int64? hj

variable {α : Type} [Amount α] [JsonAmount α] [LawfulJsonAmount α] {x : α}

/-- An amount in a field is finite. -/
theorem isFinite_of_required (h : r.required name amount? = some x) :
    Amount.isFinite x = true := by
  obtain ⟨j, hj⟩ := exists_of_required h
  exact isFinite_of_amount? hj

/-- An amount in a field is finite, if its default is. -/
theorem isFinite_of_withDefault {initial : α} (hinitial : Amount.isFinite initial = true)
    (h : r.withDefault name initial amount? = some x) : Amount.isFinite x = true := by
  obtain rfl | ⟨j, hj⟩ := eq_or_exists_of_withDefault h
  · exact hinitial
  · exact isFinite_of_amount? hj

/-- An amount in a field that may be missing is finite. -/
theorem isFinite_of_optional {o : Option α} (h : r.optional name amount? = some o) :
    ∀ x ∈ o, Amount.isFinite x = true := by
  intro x hx
  obtain ⟨j, hj⟩ := exists_of_optional h x hx
  exact isFinite_of_amount? hj

end Record

end MarketEngine.Json
