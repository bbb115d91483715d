import MarketEngine.Proofs.Evaluation.MatrixWrites
import MarketEngine.Proofs.Exact
import Mathlib.Data.List.Forall2
import Mathlib.Data.List.DropRight
/-!
# The keys of entries

The key of an entry joins its kind, its name and its time frame, if it has one, with slashes. Kinds
and time frames hold no slash, but a name may, and so it may end like a time frame: `TA/rsi/1h` is
the key of `rsi` in the time frame of an hour, and also that of `rsi/1h` without a time frame. This
is the one way in which entries share a key (`MatrixEntry.key_eq_key_iff`), and the one way in which
snapshots of different columns have the same keys (`Matrix.keys_identify`).
-/

namespace MarketEngine

variable {α : Type}

/-! ## Texts with separators -/

/-- A separator that is in neither front stands where it stands first. -/
theorem append_cons_inj_of_not_mem_front {β : Type} {sep : β} {xs xs' ys ys' : List β}
    (h : sep ∉ xs) (h' : sep ∉ xs') :
    xs ++ sep :: ys = xs' ++ sep :: ys' ↔ xs = xs' ∧ ys = ys' := by
  constructor
  · intro heq
    rcases List.append_eq_append_iff.1 heq with ⟨rest, rfl, hrest⟩ | ⟨rest, rfl, hrest⟩
    · cases rest with
      | nil => simpa using hrest
      | cons c rest =>
        obtain ⟨rfl, -⟩ := List.cons.inj hrest
        simp at h'
    · cases rest with
      | nil => simpa [eq_comm] using hrest
      | cons c rest =>
        obtain ⟨rfl, -⟩ := List.cons.inj hrest
        simp at h
  · rintro ⟨rfl, rfl⟩
    rfl

/-- A separator that is in neither end stands where it stands last. -/
theorem append_cons_inj_of_not_mem_end {β : Type} {sep : β} {xs xs' ys ys' : List β}
    (h : sep ∉ ys) (h' : sep ∉ ys') :
    xs ++ sep :: ys = xs' ++ sep :: ys' ↔ xs = xs' ∧ ys = ys' := by
  have hfront : ys.reverse ++ sep :: xs.reverse = ys'.reverse ++ sep :: xs'.reverse ↔
      ys.reverse = ys'.reverse ∧ xs.reverse = xs'.reverse :=
    append_cons_inj_of_not_mem_front (mt List.mem_reverse.1 h) (mt List.mem_reverse.1 h')
  rw [← List.reverse_inj]
  simpa [and_comm] using hfront

/-- The kind is read off the text up to the first slash. -/
theorem EvaluatorKind.label_append_inj {kind kind' : EvaluatorKind} {s s' : String} :
    kind.label ++ "/" ++ s = kind'.label ++ "/" ++ s' ↔ kind = kind' ∧ s = s' := by
  have hslash : ∀ kind : EvaluatorKind, '/' ∉ kind.label.toList := by
    intro kind
    cases kind <;> decide
  have hlabel : kind.label = kind'.label ↔ kind = kind' := by
    cases kind <;> cases kind' <;> decide
  have hsplit : kind.label.toList ++ '/' :: s.toList = kind'.label.toList ++ '/' :: s'.toList ↔
      kind.label.toList = kind'.label.toList ∧ s.toList = s'.toList :=
    append_cons_inj_of_not_mem_front (hslash kind) (hslash kind')
  rw [String.toList_inj, String.toList_inj, hlabel] at hsplit
  rw [← hsplit, ← String.toList_inj]
  simp

/-- The time frame is read off the text after the last slash, where it is known that there is
one. -/
theorem TimeFrame.append_name_inj {t t' : TimeFrame} {s s' : String} :
    s ++ "/" ++ t.name = s' ++ "/" ++ t'.name ↔ s = s' ∧ t = t' := by
  have hslash : ∀ t : TimeFrame, '/' ∉ t.name.toList := by
    intro t
    cases t <;> decide
  have hname : t.name = t'.name ↔ t = t' := by
    refine ⟨fun h => ?_, fun h => h ▸ rfl⟩
    have hread := ofName?_name t
    rw [h, ofName?_name] at hread
    exact (Option.some.inj hread).symm
  have hsplit : s.toList ++ '/' :: t.name.toList = s'.toList ++ '/' :: t'.name.toList ↔
      s.toList = s'.toList ∧ t.name.toList = t'.name.toList :=
    append_cons_inj_of_not_mem_end (hslash t) (hslash t')
  rw [String.toList_inj, String.toList_inj, hname] at hsplit
  rw [← hsplit, ← String.toList_inj]
  simp

/-! ## Entries that share a key -/

namespace MatrixEntry

/-- What the entry is a note of: an evaluator, in a time frame or in none. -/
def place (e : MatrixEntry α) : EvaluatorKind × String × Option TimeFrame :=
  (e.kind, e.name, e.timeFrame)

/-- `b` has no time frame, and its name is that of `a` with the time frame of `a` after a slash. -/
def IsSpelledBy (a b : MatrixEntry α) : Prop :=
  a.kind = b.kind ∧ b.timeFrame = none ∧ ∃ t ∈ a.timeFrame, b.name = a.name ++ "/" ++ t.name

/-- One of the two is spelled by the other. -/
def Confusable (a b : MatrixEntry α) : Prop := a.IsSpelledBy b ∨ b.IsSpelledBy a

/-- Two entries are of one place if kind, name and time frame are the same. -/
theorem place_eq_place_iff {a b : MatrixEntry α} :
    a.place = b.place ↔ a.kind = b.kind ∧ a.name = b.name ∧ a.timeFrame = b.timeFrame := by
  simp [place]

/-- The key after the kind. -/
def column (e : MatrixEntry α) : String := e.timeFrame.elim e.name fun t => e.name ++ "/" ++ t.name

/-- A key is the label of the kind, a slash, and the rest. -/
theorem key_eq (e : MatrixEntry α) : e.key = e.kind.label ++ "/" ++ e.column := by
  unfold key column
  cases e.timeFrame with
  | none => rfl
  | some t => simp [String.append_assoc]

/-- Entries of one key are those of one place and those of which one is spelled by the other. -/
theorem key_eq_key_iff {a b : MatrixEntry α} :
    a.key = b.key ↔ a.place = b.place ∨ a.Confusable b := by
  rw [key_eq, key_eq, EvaluatorKind.label_append_inj, place_eq_place_iff, Confusable, IsSpelledBy,
    IsSpelledBy, column, column]
  cases ha : a.timeFrame with
  | none =>
    cases hb : b.timeFrame with
    | none => simp
    | some t => simp [eq_comm]
  | some t =>
    cases hb : b.timeFrame with
    | none => simp [eq_comm]
    | some t' => simp [TimeFrame.append_name_inj]

/-- An entry that stands before another one is of another place. -/
theorem Precedes.place_ne {a b : MatrixEntry α} (h : a.Precedes b) : a.place ≠ b.place := by
  intro hplace
  obtain ⟨hkind, hname, htimeFrame⟩ := place_eq_place_iff.1 hplace
  rcases h with hlt | ⟨-, hlt | ⟨-, t, ht, t', ht', hlt⟩⟩
  · exact absurd hlt (by simp [hkind])
  · exact absurd hlt (by simp [hname])
  · rw [htimeFrame] at ht
    obtain rfl := Option.some.inj (ht.symm.trans ht')
    exact absurd hlt (lt_irrefl _)

end MatrixEntry

/-- The text ends in a slash and a time frame. -/
def EndsInTimeFrame (name : String) : Prop :=
  ∃ (stem : String) (t : TimeFrame), name = stem ++ "/" ++ t.name

/-- Whether a name ends in a time frame can be told from its last characters. -/
theorem endsInTimeFrame_iff {name : String} : EndsInTimeFrame name ↔
    ∃ t ∈ TimeFrame.all, '/' :: t.name.toList <:+ name.toList := by
  have hall : ∀ t, t ∈ TimeFrame.all := fun t => by cases t <;> decide
  constructor
  · rintro ⟨stem, t, rfl⟩
    exact ⟨t, hall t, stem.toList, by simp⟩
  · rintro ⟨t, -, stem, hstem⟩
    refine ⟨String.ofList stem, t, String.toList_inj.1 ?_⟩
    rw [← hstem]
    simp

instance (name : String) : Decidable (EndsInTimeFrame name) :=
  decidable_of_iff _ endsInTimeFrame_iff.symm

/-- Entries whose names do not end like time frames where they have none are not confusable. -/
theorem MatrixEntry.not_confusable {a b : MatrixEntry α}
    (ha : a.timeFrame = none → ¬EndsInTimeFrame a.name)
    (hb : b.timeFrame = none → ¬EndsInTimeFrame b.name) : ¬a.Confusable b := by
  rintro (⟨-, hnone, t, -, hname⟩ | ⟨-, hnone, t, -, hname⟩)
  · exact hb hnone ⟨a.name, t, hname⟩
  · exact ha hnone ⟨b.name, t, hname⟩

/-! ## Snapshots that share their keys -/

/-- Two views that tell the same entries apart tell the same lists apart. -/
theorem map_eq_map_iff_of_forall_mem {β γ δ : Type} {f : β → γ} {g : β → δ} {l l' : List β}
    (h : ∀ a ∈ l, ∀ b ∈ l', f a = f b ↔ g a = g b) : l.map f = l'.map f ↔ l.map g = l'.map g := by
  induction l generalizing l' with
  | nil => cases l' <;> simp
  | cons a l ih =>
    cases l' with
    | nil => simp
    | cons b l' =>
      have hrest := ih fun a ha b hb =>
        h a (List.mem_cons_of_mem _ ha) b (List.mem_cons_of_mem _ hb)
      have hhead := h a List.mem_cons_self b List.mem_cons_self
      simp only [List.map_cons, List.cons.injEq, hhead, hrest]

/-- Snapshots of the same keys have, entry by entry, the same place or confusable ones. -/
theorem MatrixSnapshot.keys_eq_keys_iff {s s' : MatrixSnapshot α} :
    s.keys = s'.keys ↔ List.Forall₂ (fun a b => a.place = b.place ∨ a.Confusable b) s s' := by
  rw [keys, keys, ← List.forall₂_eq_eq_eq, List.forall₂_map_left_iff, List.forall₂_map_right_iff]
  simp only [MatrixEntry.key_eq_key_iff]

namespace Matrix

variable [Amount α]

/-- Every entry stands where something was written. -/
theorem exists_write_of_mem {ws : List (NoteWrite α)} {e : MatrixEntry α}
    (h : e ∈ (({} : Matrix α).writeAll ws).snapshot) :
    ∃ w ∈ ws, w.name = e.name ∧ w.timeFrame = e.timeFrame := by
  have hnote := mem_snapshot.1 h
  rw [noteAt?_writeAll] at hnote
  have hof : ∀ w ∈ ws.filter (·.isOf e.kind e.name), w ∈ ws ∧ w.name = e.name := by
    intro w hw
    obtain ⟨hmem, hname⟩ := List.mem_filter.1 hw
    simp only [NoteWrite.isOf, Bool.and_eq_true, beq_iff_eq] at hname
    exact ⟨hmem, hname.2⟩
  cases htimeFrame : e.timeFrame with
  | none =>
    rw [htimeFrame] at hnote
    obtain ⟨w, hw, -⟩ := Option.map_eq_some_iff.1 hnote
    obtain ⟨hlast, hframe⟩ := Option.filter_eq_some_iff.1 hw
    obtain ⟨hmem, hname⟩ := hof w (List.mem_of_getLast? hlast)
    exact ⟨w, hmem, hname, by simpa using hframe⟩
  | some t =>
    rw [htimeFrame] at hnote
    obtain ⟨w, hw, -⟩ := Option.map_eq_some_iff.1 hnote
    obtain ⟨hframed, hframe⟩ := List.mem_filter.1 (List.mem_of_getLast? hw)
    obtain ⟨hmem, hname⟩ := hof w ((List.rtakeWhile_suffix _ _).subset hframed)
    exact ⟨w, hmem, hname, by simpa using hframe⟩

/-- After any writes to fresh matrices:

* no two entries of a snapshot have the same place, and two have the same key exactly if they are
  confusable;
* two snapshots have the same keys exactly if they have, entry by entry, the same place or
  confusable ones;
* where no name that was written without a time frame ends in one, the keys of a snapshot are
  distinct, and snapshots of the same keys are those of the same places. -/
theorem keys_identify (ws ws' : List (NoteWrite α)) :
    let s := (({} : Matrix α).writeAll ws).snapshot
    let s' := (({} : Matrix α).writeAll ws').snapshot
    (s.Pairwise fun a b => a.place ≠ b.place ∧ (a.key = b.key ↔ a.Confusable b)) ∧
    (s.keys = s'.keys ↔ List.Forall₂ (fun a b => a.place = b.place ∨ a.Confusable b) s s') ∧
    ((∀ w ∈ ws ++ ws', w.timeFrame = none → ¬EndsInTimeFrame w.name) →
      s.keys.Nodup ∧ (s.keys = s'.keys ↔ s.map (·.place) = s'.map (·.place))) := by
  intro s s'
  have hdistinct : s.Pairwise fun a b => a.place ≠ b.place :=
    (pairwise_snapshot (nodup_writeAll (m := {}) List.nodup_nil ws)).imp
      MatrixEntry.Precedes.place_ne
  have hkeys : s.keys = s'.keys ↔
      List.Forall₂ (fun a b => a.place = b.place ∨ a.Confusable b) s s' :=
    MatrixSnapshot.keys_eq_keys_iff
  refine ⟨hdistinct.imp fun hne => ⟨hne, by simp [MatrixEntry.key_eq_key_iff, hne]⟩, hkeys,
    fun hplain => ?_⟩
  -- among plain names a key says what the place is
  have hof : ∀ e ∈ s ++ s', e.timeFrame = none → ¬EndsInTimeFrame e.name := by
    intro e he hnone
    obtain ⟨w, hw, hname, htimeFrame⟩ : ∃ w ∈ ws ++ ws', w.name = e.name ∧
        w.timeFrame = e.timeFrame := by
      rcases List.mem_append.1 he with he | he
      · obtain ⟨w, hw, hplace⟩ := exists_write_of_mem he
        exact ⟨w, List.mem_append_left _ hw, hplace⟩
      · obtain ⟨w, hw, hplace⟩ := exists_write_of_mem he
        exact ⟨w, List.mem_append_right _ hw, hplace⟩
    rw [← hname]
    exact hplain w hw (htimeFrame.trans hnone)
  have hplace : ∀ a ∈ s ++ s', ∀ b ∈ s ++ s', a.key = b.key ↔ a.place = b.place := by
    intro a ha b hb
    rw [MatrixEntry.key_eq_key_iff, or_iff_left (MatrixEntry.not_confusable (hof a ha) (hof b hb))]
  constructor
  · rw [List.Nodup, MatrixSnapshot.keys, List.pairwise_map]
    refine hdistinct.imp_of_mem fun ha hb hne => ?_
    rwa [Ne, hplace _ (List.mem_append_left _ ha) _ (List.mem_append_left _ hb)]
  · exact map_eq_map_iff_of_forall_mem fun a ha b hb =>
      hplace a (List.mem_append_left _ ha) b (List.mem_append_right _ hb)

/-- A name may hold slashes as long as it does not end like a time frame: then the keys show that
the note of one evaluator was for an hour and is for a day now. -/
theorem keys_identify_daily :
    let ws : List (NoteWrite ℚ) := [⟨.technical, "rsi", .value 1, some .oneHour⟩,
      ⟨.technical, "rsi/slow", .value 2, none⟩, ⟨.social, "news", .pending, none⟩]
    let ws' : List (NoteWrite ℚ) := [⟨.technical, "rsi", .value 1, some .oneDay⟩,
      ⟨.technical, "rsi/slow", .value 2, none⟩, ⟨.social, "news", .pending, none⟩]
    let s := (({} : Matrix ℚ).writeAll ws).snapshot
    let s' := (({} : Matrix ℚ).writeAll ws').snapshot
    (∀ w ∈ ws ++ ws', w.timeFrame = none → ¬EndsInTimeFrame w.name) ∧ s.keys.Nodup ∧
      s.keys ≠ s'.keys := by
  intro ws ws' s s'
  have hplain : ∀ w ∈ ws ++ ws', w.timeFrame = none → ¬EndsInTimeFrame w.name := by
    decide +kernel
  obtain ⟨hnodup, hkeys⟩ := (keys_identify ws ws').2.2 hplain
  have hplaces : s.map (·.place) ≠ s'.map (·.place) := by
    have hs : s = _ := snapshot_eq_of_sorted (by decide +kernel)
    have hs' : s' = _ := snapshot_eq_of_sorted (by decide +kernel)
    rw [hs, hs']
    decide +kernel
  exact ⟨hplain, hnodup, mt hkeys.1 hplaces⟩

/-- Two entries of a matrix with the same key, and a matrix whose keys stay the same while one of
them comes to be that of another entry. -/
theorem keys_mistaken :
    let ws : List (NoteWrite ℚ) := [⟨.technical, "rsi", .value 1, some .oneHour⟩,
      ⟨.technical, "rsi/1h", .value 2, none⟩]
    let before : List (NoteWrite ℚ) := [⟨.technical, "rsi", .value 1, some .fiveMinutes⟩,
      ⟨.technical, "rsi", .value 2, some .oneHour⟩]
    let meanwhile : List (NoteWrite ℚ) := [⟨.technical, "rsi", .pending, none⟩,
      ⟨.technical, "rsi", .value 3, some .fiveMinutes⟩, ⟨.technical, "rsi/1h", .value 4, none⟩]
    let s := (({} : Matrix ℚ).writeAll ws).snapshot
    let s₁ := (({} : Matrix ℚ).writeAll before).snapshot
    let s₂ := (({} : Matrix ℚ).writeAll (before ++ meanwhile)).snapshot
    s.map (·.place) = [(.technical, "rsi", some .oneHour), (.technical, "rsi/1h", none)] ∧
    s.keys = ["TA/rsi/1h", "TA/rsi/1h"] ∧
    s₁.map (·.place)
      = [(.technical, "rsi", some .fiveMinutes), (.technical, "rsi", some .oneHour)] ∧
    s₂.map (·.place) = [(.technical, "rsi", some .fiveMinutes), (.technical, "rsi/1h", none)] ∧
    s₁.keys = s₂.keys := by
  intro ws before meanwhile s s₁ s₂
  have hs : s = _ := snapshot_eq_of_sorted (by decide +kernel)
  have hs₁ : s₁ = _ := snapshot_eq_of_sorted (by decide +kernel)
  have hs₂ : s₂ = _ := snapshot_eq_of_sorted (by decide +kernel)
  rw [hs, hs₁, hs₂]
  decide +kernel

end Matrix

end MarketEngine
