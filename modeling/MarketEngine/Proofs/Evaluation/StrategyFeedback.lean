import MarketEngine.Evaluation.SymbolEvaluation
import MarketEngine.Proofs.Evaluation.Snapshots
/-!
# Strategies do not feed back

The strategies' own notes stand in the matrix that the strategies read. A weighted mean leaves them
out, and all that has no value: it depends on nothing but the values of the evaluators, as they
follow each other in a snapshot. So an update of the strategies does not change what they say, and
a second one in a row changes nothing at all (`SymbolEvaluation.updateStrategies_twice`).
-/

namespace MarketEngine

variable {α : Type}

/-! ## What strategies read -/

/-- The names and notes of the evaluators that have a value. -/
def MatrixSnapshot.readings [Amount α] (s : MatrixSnapshot α) : List (String × Note α) :=
  (s.filter fun e => e.kind != .strategies && e.note.value?.isSome).map fun e => (e.name, e.note)

/-- The strategy goes by the values of the evaluators only. -/
def Strategy.ReadsEvaluators [Amount α] (strategy : Strategy α) : Prop :=
  ∀ s s' : MatrixSnapshot α, s.readings = s'.readings → strategy.evaluate s = strategy.evaluate s'

/-- A weighted mean is made of the evaluators' values. -/
theorem WeightedMean.inputs_eq [Amount α] (s : MatrixSnapshot α) :
    inputs s = s.readings.filterMap fun r => r.2.value?.map fun x => (r.1, x) := by
  rw [inputs, MatrixSnapshot.readings, List.filterMap_map, List.filterMap_filter]
  refine List.filterMap_congr fun e _ => ?_
  by_cases hkind : e.kind = .strategies
  · simp [hkind]
  · cases hvalue : e.note.value? <;> simp [hkind, hvalue]

/-- A weighted mean goes by the values of the evaluators only. -/
theorem Strategy.readsEvaluators_weightedMean [Amount α] (w : WeightedMean α) :
    (weightedMean w).ReadsEvaluators := by
  intro s s' h
  simp only [weightedMean, WeightedMean.note, WeightedMean.inputs_eq, h]

/-! ## Snapshots kind by kind -/

namespace Matrix

/-- A snapshot goes kind by kind. -/
theorem snapshot_eq_flatMap_ofKind (m : Matrix α) :
    m.snapshot = EvaluatorKind.all.flatMap m.snapshot.ofKind := by
  rw [snapshot_eq]
  exact List.flatMap_congr fun kind _ => (m.ofKind_snapshot kind).symm

/-- The entries of a kind come from its cells. -/
theorem ofKind_snapshot_congr {m m' : Matrix α} {kind : EvaluatorKind}
    (hkeys : m'.cells.keys.filter (·.1 == kind) = m.cells.keys.filter (·.1 == kind))
    (hcells : ∀ name, m'.cells.get? (kind, name) = m.cells.get? (kind, name)) :
    m'.snapshot.ofKind kind = m.snapshot.ofKind kind := by
  have hentries : m'.entriesAt kind = m.entriesAt kind := funext fun name => by
    rw [entriesAt, entriesAt, hcells]
  rw [ofKind_snapshot, ofKind_snapshot, names, names, hkeys, hentries]

variable [Amount α]

/-- A note of one kind leaves the entries of the others alone. -/
theorem ofKind_snapshot_setNote (m : Matrix α) {kind kind' : EvaluatorKind} (h : kind ≠ kind')
    (name : String) (note : Note α) (t : Option TimeFrame) :
    (m.setNote kind' name note t).snapshot.ofKind kind = m.snapshot.ofKind kind := by
  refine ofKind_snapshot_congr ?_ fun name' => ?_
  · exact Table.filter_keys_put (p := fun k : EvaluatorKind × String => k.1 == kind)
      (beq_false_of_ne h.symm) _
  · rw [setNote, Table.get?_put, if_neg (by simp [h])]

/-- The readings of a matrix are those of its evaluators. -/
theorem readings_snapshot_congr {m m' : Matrix α} (h : ∀ kind, kind ≠ .strategies →
    m'.snapshot.ofKind kind = m.snapshot.ofKind kind) :
    m'.snapshot.readings = m.snapshot.readings := by
  have hstrategies : ∀ m : Matrix α, (m.snapshot.ofKind .strategies).filter
      (fun e => e.kind != .strategies && e.note.value?.isSome) = [] := fun m =>
    List.filter_eq_nil_iff.2 fun e he => by
      have hkind : e.kind = .strategies := by simpa using (List.mem_filter.1 he).2
      simp [hkind]
  have hreadings : ∀ m : Matrix α, m.snapshot.readings = (EvaluatorKind.all.flatMap fun kind =>
      (m.snapshot.ofKind kind).filter
        fun e => e.kind != .strategies && e.note.value?.isSome).map fun e => (e.name, e.note) := by
    intro m
    rw [MatrixSnapshot.readings, snapshot_eq_flatMap_ofKind, List.filter_flatMap]
    rw [← snapshot_eq_flatMap_ofKind]
  rw [hreadings, hreadings]
  congr 1
  refine List.flatMap_congr fun kind _ => ?_
  by_cases hkind : kind = .strategies
  · rw [hkind, hstrategies, hstrategies]
  · rw [h kind hkind]

end Matrix

/-! ## Updates -/

namespace SymbolEvaluation

variable [Amount α]

/-- The cells that strategies write, evaluated on a snapshot. -/
def verdicts (snapshot : MatrixSnapshot α) (strategies : List (Strategy α)) :
    List ((EvaluatorKind × String) × Cell α) :=
  strategies.map fun strategy =>
    ((.strategies, strategy.name), .single (noteOf snapshot strategy).checked)

/-- The strategies write their cells one after the other. -/
theorem foldl_writeStrategy (snapshot : MatrixSnapshot α) (strategies : List (Strategy α))
    (m : Matrix α) :
    strategies.foldl (fun m strategy => writeStrategy m strategy (noteOf snapshot strategy)) m =
      { cells := m.cells.putAll (verdicts snapshot strategies)
        types := m.types.putAll
          (strategies.map fun strategy => (strategy.name, strategy.type)) } := by
  induction strategies generalizing m with
  | nil => rfl
  | cons strategy strategies ih =>
    rw [List.foldl_cons, ih]
    rfl

/-- An update writes the cells of the strategies, as evaluated on the snapshot before it. -/
theorem updateStrategies_eq (s : SymbolEvaluation α) : s.updateStrategies = { s with
    matrix := {
      cells := s.matrix.cells.putAll (verdicts s.matrix.snapshot s.strategies)
      types := s.matrix.types.putAll
        (s.strategies.map fun strategy => (strategy.name, strategy.type)) } } := by
  rw [updateStrategies, foldl_writeStrategy]

/-- Strategies leave the entries of evaluators alone. -/
theorem ofKind_snapshot_foldl_writeStrategy (snapshot : MatrixSnapshot α)
    (strategies : List (Strategy α)) (m : Matrix α) {kind : EvaluatorKind}
    (h : kind ≠ .strategies) :
    (strategies.foldl (fun m strategy => writeStrategy m strategy (noteOf snapshot strategy))
      m).snapshot.ofKind kind = m.snapshot.ofKind kind := by
  induction strategies generalizing m with
  | nil => rfl
  | cons strategy strategies ih =>
    rw [List.foldl_cons, ih]
    exact m.ofKind_snapshot_setNote h strategy.name (noteOf snapshot strategy) none

/-- An update of the strategies leaves what they read as it is. -/
theorem readings_updateStrategies (s : SymbolEvaluation α) :
    s.updateStrategies.matrix.snapshot.readings = s.matrix.snapshot.readings :=
  Matrix.readings_snapshot_congr fun _ hkind =>
    ofKind_snapshot_foldl_writeStrategy _ s.strategies s.matrix hkind

/-- Strategies that go by the evaluators say the same again, so that a second update writes what is
there already. -/
theorem updateStrategies_updateStrategies {s : SymbolEvaluation α}
    (h : ∀ strategy ∈ s.strategies, strategy.ReadsEvaluators) :
    s.updateStrategies.updateStrategies = s.updateStrategies := by
  have hagain : verdicts s.updateStrategies.matrix.snapshot s.strategies
      = verdicts s.matrix.snapshot s.strategies := by
    refine List.map_congr_left fun strategy hstrategy => ?_
    rw [noteOf, noteOf, h strategy hstrategy _ _ s.readings_updateStrategies]
  have hstrategies : s.updateStrategies.strategies = s.strategies := rfl
  rw [updateStrategies_eq s.updateStrategies, hstrategies, hagain, updateStrategies_eq s]
  simp only [Table.putAll_putAll]

/-- Weighted means with the same weights give the same note on any two snapshots in which the
evaluators' entries that have a value show the same names and notes in the same order. So for every
evaluation of a symbol whose strategies are weighted means, with whatever weights, a second update
of the strategies in a row leaves all entries and types of the matrix, and everything else, as the
first one left them. -/
theorem updateStrategies_twice :
    (∀ (w : WeightedMean α) (s s' : MatrixSnapshot α), s.readings = s'.readings →
      (Strategy.weightedMean w).evaluate s = (Strategy.weightedMean w).evaluate s') ∧
    ∀ (s : SymbolEvaluation α) (weights : List (WeightedMean α)),
      s.strategies = weights.map Strategy.weightedMean →
        s.updateStrategies.updateStrategies = s.updateStrategies := by
  refine ⟨fun w => Strategy.readsEvaluators_weightedMean w, fun s weights hstrategies => ?_⟩
  refine updateStrategies_updateStrategies fun strategy hstrategy => ?_
  rw [hstrategies] at hstrategy
  obtain ⟨w, -, rfl⟩ := List.mem_map.1 hstrategy
  exact Strategy.readsEvaluators_weightedMean w

/-- A snapshot beside one with an old verdict, a pending note and one that is no number; and two
means that share a cell of a matrix that holds all of these. -/
theorem updateStrategies_twice_shared :
    let w : WeightedMean Float := ⟨[("news", 2)]⟩
    let snapshot : MatrixSnapshot Float := [⟨.technical, "rsi", some .oneHour, .value 1⟩,
      ⟨.social, "news", none, .value (-1)⟩]
    let snapshot' : MatrixSnapshot Float := [⟨.technical, "rsi", some .oneHour, .value 1⟩,
      ⟨.technical, "rsi", some .oneDay, .pending⟩, ⟨.social, "news", none, .value (-1)⟩,
      ⟨.realTime, "odd", none, .value (0 / 0)⟩, ⟨.strategies, "old", none, .value 5⟩]
    let s : SymbolEvaluation Float := {
      symbol := "BTC/USDT"
      timeFrames := [.oneHour, .oneDay]
      strategies := [⟨[("rsi", 3)]⟩, w].map Strategy.weightedMean
      matrix := ((({} : Matrix Float).setNote .technical "rsi" (.value 1) (some .oneHour)).setNote
        .realTime "odd" (.value (0 / 0)) none).setNote .strategies "old" (.value 5) none }
    (Strategy.weightedMean w).evaluate snapshot = (Strategy.weightedMean w).evaluate snapshot' ∧
    s.updateStrategies.updateStrategies = s.updateStrategies := by
  intro w snapshot snapshot' s
  have hodd : Amount.isUndefined (0 / 0 : Float) = true := by decide +kernel
  have hvalues : Amount.isUndefined (1 : Float) = false ∧ Amount.isUndefined (-1 : Float) = false :=
    by decide +kernel
  have hreadings : snapshot.readings = snapshot'.readings := by
    simp [snapshot, snapshot', MatrixSnapshot.readings, Note.value?, hodd, hvalues]
  exact ⟨updateStrategies_twice.1 w snapshot snapshot' hreadings,
    updateStrategies_twice.2 s [⟨[("rsi", 3)]⟩, w] rfl⟩

end SymbolEvaluation

end MarketEngine
